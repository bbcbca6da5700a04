/-
Files growing at the same time: `_bmap` and `new_block` under interleaving.

`_bmap` sleeps in two places: in `bread` of an indirect block, and in the
`getblk` of `new_block`, after the zone's bit is set and before the zone is
stored into the slot that was found empty. The slot is not looked at again, so
two tasks that both found it empty both store, and the first zone is
forgotten. While every store finds its slot still empty, all calls agree.
-/
import Linux011.Lib.Coop
import Linux011.Fs.Format
import Linux011.Fs.Zones

namespace Linux011.Fs.Grow

open Coop

variable {I : Type*}

/-- A call that has returned: `create_block` or `bmap` of a file's block, the
zone the block had when the call was made, and the zone returned. -/
structure Entry (I : Type*) where
  ino : I
  block : Nat
  create : Bool
  before : Nat
  zone : Nat

structure Kern (I : Type*) where
  sb : Super
  /-- The zone bitmap. -/
  zmap : Nat → Bool
  trees : Trees I
  /-- The calls that have returned. -/
  log : List (Entry I)

inductive Frame (I : Type*)
  /-- `_bmap` at its start. -/
  | bmap (i : I) (n : Nat) (create : Bool)
  /-- `new_block`, in `getblk` of zone `z`, for the place `l`; the slots still to go. -/
  | getblk (l : Loc I) (z : Nat) (rest : List Nat)
  /-- `bread` of the indirect block that `l` is a slot of. -/
  | bread (l : Loc I) (rest : List Nat) (create : Bool)
  /-- The caller. -/
  | caller (i : I) (n : Nat) (create : Bool) (before : Nat)

abbrev Next (I : Type*) := Turn (Kern I) (Frame I) Nat

/-- The bit of a zone. -/
def Kern.bit (k : Kern I) (z : Nat) : Bool := k.zmap (z + 1 - k.sb.firstdatazone)

/-- The rest of `_bmap` from a slot's value on. -/
def follow (k : Kern I) (z : Nat) (rest : List Nat) (create : Bool) : Next I :=
  match rest with
  | [] => .goes k [] z
  | w :: rest => if z = 0 then .goes k [] 0 else .goes k [.bread (.blk z w) rest create] 0

/-- `_bmap` at a slot: `new_block` up to its `getblk` if the slot is empty and `create` is set. -/
def visit (k : Kern I) (l : Loc I) (rest : List Nat) (create : Bool) : Next I :=
  if create && k.trees.val l == 0 then
    match firstZero k.zmap 0 (8192 * k.sb.zmapBlocks) with
    | none => .goes k [] 0
    | some j =>
      if k.sb.nzones ≤ j + k.sb.firstdatazone - 1 then
        .goes { k with zmap := Function.update k.zmap j true } [] 0
      else
        .goes { k with zmap := Function.update k.zmap j true }
          [.getblk l (j + k.sb.firstdatazone - 1) rest] 0
  else follow k (k.trees.val l) rest create

def turn [DecidableEq I] : Frame I → Nat → Kern I → Next I
  | .bmap i n create, _, k =>
    if maxBlock ≤ n then .panic else visit k (.ino i (path n).1) (path n).2 create
  | .getblk l z rest, _, k => follow { k with trees := k.trees.grow l z } z rest true
  | .bread l rest create, _, k => visit k l rest create
  | .caller i n create before, z, k =>
    .goes { k with log := ⟨i, n, create, before, z⟩ :: k.log } [] 0

/-- `create_block` and `bmap`. -/
inductive Call (I : Type*)
  | createBlock (i : I) (n : Nat)
  | bmap (i : I) (n : Nat)

def call : Call I → Nat → Kern I → Option (Kern I × List (Frame I) × Nat)
  | .createBlock i n, _, k => some (k, [.bmap i n true, .caller i n true (k.trees.bmap i n)], 0)
  | .bmap i n, _, k => some (k, [.bmap i n false, .caller i n false (k.trees.bmap i n)], 0)

def machine [DecidableEq I] : Machine (Kern I) (Frame I) Nat (Call I) Empty :=
  { turn := turn, call := call, irq := fun e _ => e.elim }

variable {T : Type*}

/-- The slot that a task comes back to with a new zone is still empty. -/
def stillEmpty (s : Sys T (Kern I) (Frame I) Nat) : Act T (Call I) Empty → Bool
  | .run t =>
    match s.stack t with
    | .getblk l _ _ :: _ => s.kern.trees.val l == 0
    | _ => true
  | .call _ _ | .irq _ => true

/-- Every data zone is marked in use. -/
def Full (k : Kern I) : Prop := ∀ z, k.sb.firstdatazone ≤ z → z < k.sb.nzones → k.bit z = true

/-- No task is inside the routines, the trees are sound, the zones they meet are
marked, and the bitmap covers the data zones. -/
structure Start (s : Sys T (Kern I) (Frame I) Nat) : Prop where
  stack : ∀ t, s.stack t = []
  log : s.kern.log = []
  sound : Sound s.kern.trees s.kern.sb.firstdatazone s.kern.sb.nzones
  bits : ∀ z, Ref s.kern.trees z → s.kern.bit z = true
  first : 0 < s.kern.sb.firstdatazone
  reserved : s.kern.zmap 0 = true
  covers : s.kern.sb.nzones + 1 ≤ s.kern.sb.firstdatazone + 8192 * s.kern.sb.zmapBlocks

/-! ## What one turn relies on -/

theorem Kern.bit_update (k : Kern I) {j z : Nat} (hz : k.sb.firstdatazone ≤ z) (hj : j ≠ 0) :
    ({ k with zmap := Function.update k.zmap j true } : Kern I).bit z =
      if z = j + k.sb.firstdatazone - 1 then true else k.bit z := by
  simp only [Kern.bit, Function.update_apply]
  congr 1
  simp only [eq_iff_iff]
  omega

/-- The kernel later on: more zones marked, longer walks. -/
structure Later (k k' : Kern I) : Prop where
  sb : k'.sb = k.sb
  bit : ∀ z, k.bit z = true → k'.bit z = true
  leads : ∀ {i n l rest}, n < maxBlock → Leads k.trees i n l rest → Leads k'.trees i n l rest
  bmap : ∀ {i n}, n < maxBlock → k.trees.bmap i n ≠ 0 → k'.trees.bmap i n = k.trees.bmap i n
  ref : ∀ {z}, Ref k.trees z → Ref k'.trees z

/-- What a call may return: the block's zone, and the one it had at the start if
it had one; 0 from `create_block` only if the disk is full. -/
structure ResultOk (k : Kern I) (i : I) (n : Nat) (create : Bool) (before z : Nat) : Prop where
  size : n < maxBlock
  zone : z ≠ 0 → k.trees.bmap i n = z
  before : before ≠ 0 → z = before
  full : create = true → z = 0 → Full k

theorem Later.full {k k' : Kern I} (h : Later k k') (hf : Full k) : Full k' := by
  intro z h1 h2
  rw [h.sb] at h1 h2
  exact h.bit z (hf z h1 h2)

theorem ResultOk.later {k k' : Kern I} {i : I} {n : Nat} {create : Bool} {before z : Nat}
    (h : ResultOk k i n create before z) (hl : Later k k') : ResultOk k' i n create before z := by
  refine ⟨h.size, fun hz => ?_, h.before, fun hc hz => hl.full (h.full hc hz)⟩
  have hb := h.zone hz
  exact (hl.bmap h.size (hb ▸ hz)).trans hb

/-- A zone that is marked and not yet in a tree. -/
structure Flying (k₀ k : Kern I) (z : Nat) : Prop where
  bit : k.bit z = true
  ref : ¬Ref k.trees z
  range : k.sb.firstdatazone ≤ z ∧ z < k.sb.nzones
  new : k₀.bit z = false

/-- What the frame above the caller's relies on. -/
def FrameOk (k₀ k : Kern I) (i : I) (n : Nat) (create : Bool) : Frame I → Prop
  | .bmap i' n' create' => i' = i ∧ n' = n ∧ create' = create
  | .getblk l z rest => n < maxBlock ∧ create = true ∧ Leads k.trees i n l rest ∧ Flying k₀ k z
  | .bread l rest create' => n < maxBlock ∧ create' = create ∧ Leads k.trees i n l rest
  | .caller _ _ _ _ => False

def BeforeOk (k : Kern I) (i : I) (n before : Nat) : Prop :=
  n < maxBlock → before ≠ 0 → k.trees.bmap i n = before

inductive StackOk (k₀ k : Kern I) : List (Frame I) → Nat → Prop
  | idle {z} : StackOk k₀ k [] z
  | back {i n create before z} : ResultOk k i n create before z →
      StackOk k₀ k [.caller i n create before] z
  | inside {f i n create before z} : FrameOk k₀ k i n create f → BeforeOk k i n before →
      StackOk k₀ k [f, .caller i n create before] z

/-- The kernel against the one the run started with. -/
structure KernOk (k₀ k : Kern I) : Prop where
  sb : k.sb = k₀.sb
  first : 0 < k.sb.firstdatazone
  reserved : k.zmap 0 = true
  covers : k.sb.nzones + 1 ≤ k.sb.firstdatazone + 8192 * k.sb.zmapBlocks
  sound : Sound k.trees k.sb.firstdatazone k.sb.nzones
  bits : ∀ z, Ref k.trees z → k.bit z = true
  new : ∀ z, Ref k.trees z → Ref k₀.trees z ∨ k₀.bit z = false
  grown : ∀ z, Ref k₀.trees z → Ref k.trees z
  kept : ∀ z, k₀.bit z = true → k.bit z = true
  log : ∀ e ∈ k.log, ResultOk k e.ino e.block e.create e.before e.zone

def Frame.zone : Frame I → Option Nat
  | .getblk _ z _ => some z
  | _ => none

/-- What a turn of a frame does to the kernel and to the zones on their way into a tree. -/
structure Moved (k₀ k k' : Kern I) (f : Frame I) (fs : List (Frame I)) : Prop where
  later : Later k k'
  ok : KernOk k₀ k'
  flying : ∀ z, Flying k₀ k z → f.zone ≠ some z → Flying k₀ k' z
  marked : ∀ z, k.sb.firstdatazone ≤ z → z < k.sb.nzones → k'.bit z = true →
    k.bit z = true ∨ ∃ g ∈ fs, g.zone = some z
  landed : ∀ z, f.zone = some z → Ref k'.trees z
  taken : ∀ z, ∀ g ∈ fs, g.zone = some z → k.bit z = false

section Turns

variable {k₀ k k' : Kern I} {i : I} {n : Nat} {l : Loc I} {rest : List Nat} {create : Bool} {before z : Nat}
  {fs : List (Frame I)}

theorem Later.refl (k : Kern I) : Later k k :=
  ⟨rfl, fun _ h => h, fun _ h => h, fun _ _ => rfl, fun h => h⟩

theorem Moved.refl (hk : KernOk k₀ k) {f : Frame I} (hf : f.zone = none) (hfs : ∀ g ∈ fs, g.zone = none) :
    Moved k₀ k k f fs where
  later := .refl k
  ok := hk
  flying _ h _ := h
  marked _ _ _ h := .inl h
  landed z h := by rw [hf] at h; cases h
  taken z g hg h := by rw [hfs g hg] at h; cases h

/-- An empty slot on the way is an absent block. -/
theorem Leads.bmap_zero (hl : Leads k.trees i n l rest) (hz : k.trees.val l = 0) : k.trees.bmap i n = 0 := by
  rw [hl.bmap]
  cases rest with
  | nil => exact hz
  | cons w rest => rw [Trees.walk, if_pos hz]

/-- The end of `_bmap` from a slot with its value. -/
theorem follow_ok (k₀ : Kern I) (hn : n < maxBlock) (hl : Leads k.trees i n l rest)
    (hb : BeforeOk k i n before) (hc : create = true → k.trees.val l ≠ 0)
    (h : follow k (k.trees.val l) rest create = .goes k' fs z) :
    k' = k ∧ StackOk k₀ k (fs ++ [.caller i n create before]) z ∧ ∀ g ∈ fs, g.zone = none := by
  unfold follow at h
  split at h
  · cases h
    refine ⟨rfl, .back ⟨hn, fun _ => hl.bmap, fun h0 => ?_, fun hc' hz => absurd hz (hc hc')⟩, by simp⟩
    exact (hl.bmap.symm.trans (hb hn h0))
  · split at h
    · rename_i hz
      cases h
      refine ⟨rfl, .back ⟨hn, fun h0 => absurd rfl h0, fun h0 => ?_, fun hc' => absurd hz (hc hc')⟩, by simp⟩
      exact absurd ((hb hn h0).symm.trans (Leads.bmap_zero hl hz)) h0
    · rename_i hz
      cases h
      exact ⟨rfl, .inside ⟨hn, rfl, .down hl hz⟩ hb, by simp [Frame.zone]⟩

/-- Marking a bit. -/
theorem KernOk.mark (hk : KernOk k₀ k) (j : Nat) :
    Later k { k with zmap := Function.update k.zmap j true } ∧
      KernOk k₀ { k with zmap := Function.update k.zmap j true } := by
  have hbit : ∀ z, k.bit z = true → ({ k with zmap := Function.update k.zmap j true } : Kern I).bit z = true := by
    intro z hz
    simp only [Kern.bit, Function.update_apply] at hz ⊢
    split
    · rfl
    · exact hz
  have hlater : Later k { k with zmap := Function.update k.zmap j true } :=
    ⟨rfl, hbit, fun _ h => h, fun _ _ => rfl, fun h => h⟩
  refine ⟨hlater, hk.sb, hk.first, ?_, hk.covers, hk.sound, fun z hz => hbit z (hk.bits z hz), hk.new, hk.grown,
    fun z hz => hbit z (hk.kept z hz), fun e he => (hk.log e he).later hlater⟩
  simp only [Function.update_apply]
  split
  · rfl
  · exact hk.reserved

theorem visit_ok (hk : KernOk k₀ k) (hn : n < maxBlock) (hl : Leads k.trees i n l rest)
    (hb : BeforeOk k i n before) {f : Frame I} (hf : f.zone = none)
    (h : visit k l rest create = .goes k' fs z) :
    Moved k₀ k k' f fs ∧ StackOk k₀ k' (fs ++ [.caller i n create before]) z := by
  unfold visit at h
  split at h
  · rename_i hc
    simp only [Bool.and_eq_true, beq_iff_eq] at hc
    have hb0 : before ≠ 0 → (0 : Nat) = before := fun h0 =>
      (Leads.bmap_zero hl hc.2).symm.trans (hb hn h0)
    split at h
    · rename_i hnone
      cases h
      refine ⟨.refl hk hf (by simp), .back ⟨hn, fun h0 => absurd rfl h0, hb0, fun _ _ y h1 h2 => ?_⟩⟩
      have := hk.covers
      exact firstZero_none hnone _ (Nat.zero_le _) (by omega)
    · rename_i j hj
      obtain ⟨-, -, hjz, hlow⟩ := firstZero_some hj
      have hj0 : j ≠ 0 := by
        intro e
        rw [e, hk.reserved] at hjz
        cases hjz
      obtain ⟨hlater, hok⟩ := hk.mark j
      have hfirst := hk.first
      split at h
      · rename_i hbig
        cases h
        refine ⟨⟨hlater, hok, fun y hy _ => ⟨hlater.bit y hy.bit, hy.ref, hy.range, hy.new⟩, fun y h1 h2 hy => ?_,
          fun y hy => ?_, by simp⟩, .back ⟨hn, fun h0 => absurd rfl h0, hb0, fun _ _ y h1 h2 => ?_⟩⟩
        · rw [Kern.bit_update k h1 hj0, if_neg (by omega)] at hy
          exact .inl hy
        · rw [hf] at hy
          cases hy
        · have hy := hlow (y + 1 - k.sb.firstdatazone) (Nat.zero_le _) (by simp only at h1 h2; omega)
          exact hlater.bit y hy
      · rename_i hsmall
        cases h
        have hnew : k.bit (j + k.sb.firstdatazone - 1) = false := by
          unfold Kern.bit
          rw [← hjz]
          congr 1
          omega
        have href : ¬Ref k.trees (j + k.sb.firstdatazone - 1) := by
          intro hr
          rw [hk.bits _ hr] at hnew
          cases hnew
        refine ⟨⟨hlater, hok, fun y hy _ => ⟨hlater.bit y hy.bit, hy.ref, hy.range, hy.new⟩, fun y h1 h2 hy => ?_,
          fun y hy => ?_, fun y g hg hy => ?_⟩, .inside ⟨hn, hc.1, hl, ?_, href, ⟨?_, ?_⟩, ?_⟩ hb⟩
        · rw [Kern.bit_update k h1 hj0] at hy
          split at hy
          · rename_i e
            exact .inr ⟨_, List.mem_singleton_self _, e ▸ rfl⟩
          · exact .inl hy
        · rw [hf] at hy
          cases hy
        · simp only [List.mem_singleton] at hg
          subst hg
          simp only [Frame.zone, Option.some.injEq] at hy
          rw [← hy]
          exact hnew
        · rw [Kern.bit_update k (by omega) hj0, if_pos rfl]
        · simp only
          omega
        · simp only
          omega
        · cases hz : k₀.bit (j + k.sb.firstdatazone - 1) with
          | false => rfl
          | true =>
            rw [hk.kept _ hz] at hnew
            cases hnew
  · rename_i hc
    simp only [Bool.and_eq_true, beq_iff_eq, not_and] at hc
    obtain ⟨rfl, hst, hfs⟩ := follow_ok k₀ hn hl hb hc h
    exact ⟨.refl hk hf hfs, hst⟩

/-- A new zone stored into the slot it was asked for, which is still empty. -/
theorem getblk_ok [DecidableEq I] (hk : KernOk k₀ k) (hn : n < maxBlock) (hl : Leads k.trees i n l rest)
    (hb : BeforeOk k i n before) {y : Nat} (hy : Flying k₀ k y) (hempty : k.trees.val l = 0)
    (h : turn (.getblk l y rest) 0 k = .goes k' fs z) :
    Moved k₀ k k' (.getblk l y rest) fs ∧ StackOk k₀ k' (fs ++ [.caller i n true before]) z := by
  have hy0 : y ≠ 0 := by
    have := hy.range.1
    have := hk.first
    omega
  have hlater : Later k { k with trees := k.trees.grow l y } :=
    ⟨rfl, fun _ h => h, fun hn' h' => hl.grow hn hempty hy.ref hy0 hn' h',
      fun hn' hb' => Trees.bmap_grow hl hn hempty hy.ref hy0 hn' hb',
      fun hr => (Trees.ref_grow hl hn hempty hy.ref hy0 _).2 (.inl hr)⟩
  have href := Trees.ref_grow hl hn hempty hy.ref hy0
  have hok : KernOk k₀ { k with trees := k.trees.grow l y } := by
    refine ⟨hk.sb, hk.first, hk.reserved, hk.covers, hk.sound.grow hl hn hempty hy.ref hy0 hy.range,
      fun x hx => ?_, fun x hx => ?_, fun x hx => hlater.ref (hk.grown x hx), hk.kept,
      fun e he => (hk.log e he).later hlater⟩
    · rcases (href x).1 hx with hx | rfl
      · exact hk.bits x hx
      · exact hy.bit
    · rcases (href x).1 hx with hx | rfl
      · exact hk.new x hx
      · exact .inr hy.new
  have hval : (k.trees.grow l y).val l = y := by
    rw [Trees.val_grow hy.ref hn hl, if_pos rfl]
  have hl' : Leads (k.trees.grow l y) i n l rest := hlater.leads hn hl
  have hb' : BeforeOk { k with trees := k.trees.grow l y } i n before := by
    intro _ h0
    exact absurd ((hb hn h0).symm.trans (Leads.bmap_zero hl hempty)) h0
  have hfollow : follow { k with trees := k.trees.grow l y } ((k.trees.grow l y).val l) rest true =
      .goes k' fs z := by
    rw [hval]
    exact h
  obtain ⟨rfl, hst, hfs⟩ := follow_ok k₀ hn hl' hb' (fun _ => by simp only [hval]; exact hy0) hfollow
  refine ⟨⟨hlater, hok, fun x hx hne => ⟨hx.bit, fun hr => ?_, hx.range, hx.new⟩, fun x _ _ hx => .inl hx,
    fun x hx => ?_, fun x g hg hx => ?_⟩, hst⟩
  · rcases (href x).1 hr with hr | rfl
    · exact hx.ref hr
    · exact hne rfl
  · cases hx
    exact (href _).2 (.inr rfl)
  · rw [hfs g hg] at hx
    cases hx

end Turns

/-! ## The invariant -/

structure Inv (k₀ : Kern I) (s : Sys T (Kern I) (Frame I) Nat) : Prop where
  kern : KernOk k₀ s.kern
  tasks : ∀ t, StackOk k₀ s.kern (s.stack t) (s.acc t)
  marked : ∀ z, s.kern.sb.firstdatazone ≤ z → z < s.kern.sb.nzones → s.kern.bit z = true →
    k₀.bit z = true ∨ Ref s.kern.trees z ∨ ∃ t, ∃ f ∈ s.stack t, f.zone = some z
  apart : ∀ t u f g z, t ≠ u → f ∈ s.stack t → g ∈ s.stack u → f.zone = some z → g.zone ≠ some z

variable {k₀ : Kern I} {s s' : Sys T (Kern I) (Frame I) Nat}

theorem StackOk.flying {k : Kern I} {st : List (Frame I)} {v : Nat} (h : StackOk k₀ k st v) {f : Frame I}
    (hf : f ∈ st) {z : Nat} (hz : f.zone = some z) : Flying k₀ k z := by
  cases h with
  | idle => cases hf
  | back _ =>
    simp only [List.mem_singleton] at hf
    subst hf
    cases hz
  | @inside g i n create before v hg _ =>
    simp only [List.mem_cons, List.not_mem_nil, or_false] at hf
    rcases hf with rfl | rfl
    · cases f <;> simp only [Frame.zone, reduceCtorEq, Option.some.injEq] at hz
      exact hz ▸ hg.2.2.2
    · cases hz

/-- Another task's stack, after a turn. -/
theorem StackOk.moved {k k' : Kern I} {st fs : List (Frame I)} {v : Nat} {f : Frame I} (h : StackOk k₀ k st v)
    (hm : Moved k₀ k k' f fs) (hne : ∀ g ∈ st, ∀ z, g.zone = some z → f.zone ≠ some z) : StackOk k₀ k' st v := by
  cases h with
  | idle => exact .idle
  | back hr => exact .back (hr.later hm.later)
  | @inside g i n create before v hg hb =>
    refine .inside ?_ fun hn h0 => ?_
    · cases g with
      | bmap i' n' c' => exact hg
      | getblk l y rest =>
        exact ⟨hg.1, hg.2.1, hm.later.leads hg.1 hg.2.2.1, hm.flying y hg.2.2.2 (hne (.getblk l y rest) (by simp) y rfl)⟩
      | bread l rest c' => exact ⟨hg.1, hg.2.1, hm.later.leads hg.1 hg.2.2⟩
      | caller i' n' c' b' => exact hg
    · have := hb hn h0
      exact (hm.later.bmap hn (this ▸ h0)).trans this

/-- A turn of task `t` that moves the zones as it should keeps the invariant. -/
theorem Inv.moved [DecidableEq T] {t : T} {f : Frame I} {rest fs : List (Frame I)} {k' : Kern I} {v : Nat} (h : Inv k₀ s)
    (hst : s.stack t = f :: rest) (hrest : ∀ g ∈ rest, g.zone = none) (hm : Moved k₀ s.kern k' f fs)
    (hok : StackOk k₀ k' (fs ++ rest) v) : Inv k₀ (s.put t k' (fs ++ rest) v) := by
  have hf : f ∈ s.stack t := by rw [hst]; exact List.mem_cons_self
  refine ⟨hm.ok, fun u => ?_, fun z h1 h2 hz => ?_, ?_⟩
  · rw [Sys.put_stack, Sys.put_acc, Sys.put_kern]
    by_cases hu : u = t
    · rw [if_pos hu, if_pos hu]
      exact hok
    · rw [if_neg hu, if_neg hu]
      exact (h.tasks u).moved hm fun g hg z hz => h.apart u t g f z hu hg hf hz
  · rw [Sys.put_kern, hm.later.sb] at h1 h2
    rcases hm.marked z h1 h2 hz with hz | ⟨g, hg, hgz⟩
    · rcases h.marked z h1 h2 hz with h0 | hr | ⟨u, g, hg, hgz⟩
      · exact .inl h0
      · exact .inr (.inl (hm.later.ref hr))
      · by_cases hu : u = t
        · subst hu
          rw [hst] at hg
          rcases List.mem_cons.1 hg with rfl | hg
          · exact .inr (.inl (hm.landed z hgz))
          · rw [hrest g hg] at hgz
            cases hgz
        · exact .inr (.inr ⟨u, g, by rw [Sys.put_stack, if_neg hu]; exact hg, hgz⟩)
    · exact .inr (.inr ⟨t, g, by rw [Sys.put_stack, if_pos rfl]; exact List.mem_append_left _ hg, hgz⟩)
  · -- a zone just taken was not marked, so no other task has it
    have hnew : ∀ u f' g z, u ≠ t → f' ∈ fs ++ rest → g ∈ s.stack u → f'.zone = some z → g.zone ≠ some z := by
      intro u f' g z hu hf' hg hz hgz
      rcases List.mem_append.1 hf' with hf' | hf'
      · have h1 := hm.taken z f' hf' hz
        rw [((h.tasks u).flying hg hgz).bit] at h1
        cases h1
      · rw [hrest f' hf'] at hz
        cases hz
    intro u₁ u₂ f₁ f₂ z hne h₁ h₂ hz₁ hz₂
    rw [Sys.put_stack] at h₁ h₂
    by_cases e₁ : u₁ = t
    · have e₂ : u₂ ≠ t := fun e => hne (e₁.trans e.symm)
      rw [if_pos e₁] at h₁
      rw [if_neg e₂] at h₂
      exact hnew u₂ f₁ f₂ z e₂ h₁ h₂ hz₁ hz₂
    · rw [if_neg e₁] at h₁
      by_cases e₂ : u₂ = t
      · rw [if_pos e₂] at h₂
        exact hnew u₁ f₂ f₁ z e₁ h₂ h₁ hz₂ hz₁
      · rw [if_neg e₂] at h₂
        exact h.apart u₁ u₂ f₁ f₂ z hne h₁ h₂ hz₁ hz₂

theorem Inv.run [DecidableEq I] [DecidableEq T] {t : T} {f : Frame I} {rest fs : List (Frame I)} {k' : Kern I} {v : Nat} (h : Inv k₀ s)
    (hst : s.stack t = f :: rest) (ht : turn f (s.acc t) s.kern = .goes k' fs v)
    (he : ∀ l z r, f = .getblk l z r → s.kern.trees.val l = 0) : Inv k₀ (s.put t k' (fs ++ rest) v) := by
  have hok := h.tasks t
  rw [hst] at hok
  generalize s.acc t = a at hok ht
  cases hok with
  | @back i n create before a hr =>
    cases ht
    have hlater : Later s.kern { s.kern with log := ⟨i, n, create, before, a⟩ :: s.kern.log } :=
      ⟨rfl, fun _ h => h, fun _ h => h, fun _ _ => rfl, fun h => h⟩
    refine h.moved hst (by simp) ⟨hlater, ?_, fun z hz _ => ⟨hz.bit, hz.ref, hz.range, hz.new⟩,
      fun z _ _ hz => .inl hz, fun z hz => (by cases hz), by simp⟩ .idle
    refine ⟨h.kern.sb, h.kern.first, h.kern.reserved, h.kern.covers, h.kern.sound, h.kern.bits, h.kern.new,
      h.kern.grown, h.kern.kept, fun e he => ?_⟩
    rcases List.mem_cons.1 he with rfl | he
    · exact hr.later hlater
    · exact (h.kern.log e he).later hlater
  | @inside f i n create before a hf hb =>
    have hrest : ∀ g ∈ [Frame.caller i n create before], g.zone = none := by simp [Frame.zone]
    cases f with
    | bmap i' n' create' =>
      obtain ⟨rfl, rfl, rfl⟩ := hf
      simp only [turn] at ht
      split at ht
      · cases ht
      · rename_i hn
        obtain ⟨hm, hs⟩ := visit_ok (f := .bmap i' n' create') h.kern (Nat.lt_of_not_le hn) .root hb rfl ht
        exact h.moved hst hrest hm hs
    | getblk l z r =>
      obtain ⟨hn, rfl, hl, hz⟩ := hf
      obtain ⟨hm, hs⟩ := getblk_ok h.kern hn hl hb hz (he l z r rfl) ht
      exact h.moved hst hrest hm hs
    | bread l r create' =>
      obtain ⟨hn, rfl, hl⟩ := hf
      obtain ⟨hm, hs⟩ := visit_ok (f := .bread l r create') h.kern hn hl hb rfl ht
      exact h.moved hst hrest hm hs
    | caller i' n' create' before' => exact hf.elim

theorem Inv.call [DecidableEq T] {t : T} {c : Call I} {fs : List (Frame I)} {k' : Kern I} {v : Nat} (h : Inv k₀ s)
    (hst : s.stack t = []) (hc : Grow.call c (s.acc t) s.kern = some (k', fs, v)) :
    Inv k₀ (s.put t k' fs v) := by
  have hnew : k' = s.kern ∧ StackOk k₀ s.kern fs v ∧ ∀ f ∈ fs, f.zone = none := by
    cases c <;> cases hc <;>
      exact ⟨rfl, .inside ⟨rfl, rfl, rfl⟩ fun _ _ => rfl, by simp [Frame.zone]⟩
  obtain ⟨rfl, hok, hfs⟩ := hnew
  refine ⟨h.kern, fun u => ?_, fun z h1 h2 hz => ?_, ?_⟩
  · rw [Sys.put_stack, Sys.put_acc]
    by_cases hu : u = t
    · rw [if_pos hu, if_pos hu]
      exact hok
    · rw [if_neg hu, if_neg hu]
      exact h.tasks u
  · rcases h.marked z h1 h2 hz with h0 | hr | ⟨u, g, hg, hgz⟩
    · exact .inl h0
    · exact .inr (.inl hr)
    · have hu : u ≠ t := by
        intro e
        rw [e, hst] at hg
        cases hg
      exact .inr (.inr ⟨u, g, by rw [Sys.put_stack, if_neg hu]; exact hg, hgz⟩)
  · intro u₁ u₂ f₁ f₂ z hne h₁ h₂ hz₁
    rw [Sys.put_stack] at h₁ h₂
    split at h₁
    · rw [hfs f₁ h₁] at hz₁
      cases hz₁
    · split at h₂
      · rw [hfs f₂ h₂]
        simp
      · exact h.apart u₁ u₂ f₁ f₂ z hne h₁ h₂ hz₁

theorem Inv.step [DecidableEq I] [DecidableEq T] {a : Act T (Call I) Empty} (h : Inv k₀ s) (ha : stillEmpty s a = true)
    (hs : machine.Step s a s') : Inv k₀ s' := by
  cases a with
  | run t =>
    obtain ⟨f, rest, k', fs, v, hst, ht, rfl⟩ := Machine.step_run hs
    refine h.run hst ht fun l z r hf => ?_
    simpa [stillEmpty, hst, hf] using ha
  | call t c =>
    obtain ⟨k', fs, v, hst, hc, rfl⟩ := Machine.step_call hs
    exact h.call hst hc
  | irq e => exact e.elim

theorem Start.inv (h : Start s) : Inv s.kern s where
  kern :=
    { sb := rfl
      first := h.first
      reserved := h.reserved
      covers := h.covers
      sound := h.sound
      bits := h.bits
      new := fun _ => .inl
      grown := fun _ h => h
      kept := fun _ h => h
      log := by simp [h.log] }
  tasks t := by
    rw [h.stack t]
    exact .idle
  marked _ _ _ hz := .inl hz
  apart t u f g z _ hf := by
    rw [h.stack t] at hf
    cases hf

/-- One empty file on an empty disk, and two tasks. -/
def emptyFile : Sys Bool (Kern Unit) (Frame Unit) Nat :=
  { kern :=
      { sb := { ninodes := 96, nzones := 360, imapBlocks := 1, zmapBlocks := 1, firstdatazone := 7, dev := 0x301,
                imount := none, isup := none }
        zmap := fun j => j == 0
        trees := { zone := fun _ _ => 0, blk := fun _ _ => 0 }
        log := [] }
    stack := fun _ => []
    acc := fun _ => 0 }

theorem emptyFile_val (l : Loc Unit) : emptyFile.kern.trees.val l = 0 := by
  cases l <;> rfl

theorem emptyFile_start : Start emptyFile where
  stack _ := rfl
  log := rfl
  sound := sound_of_zero emptyFile_val _ _
  bits := fun z hz => absurd hz (not_ref_of_zero emptyFile_val z)
  first := by decide
  reserved := rfl
  covers := by decide

end Linux011.Fs.Grow
