/-
What one turn does to a directory.

As the other tasks see it, a turn leaves the directory's entries as they are,
enters one at a free place, or clears one (`Change`); blocks it has keep their
zones and it does not shrink (`Good`). The exception is a new block stored over
one that another task has stored meanwhile, and `stillEmpty` rules it out.
-/
import Mathlib.Tactic.Common
import Linux011.Fs.Directory

namespace Linux011.Fs.Directory

open Coop

/-! ## Frames -/

/-- The zone that a task has been given and not yet put anywhere. -/
def Frame.zone : Frame → Option Nat
  | .newBlock _ _ _ z | .newDir _ _ _ z | .addBlock _ _ _ _ z => some z
  | _ => none

/-- A creation, and the places it has not looked at for its name: those from
the first number on and below the second. -/
def Frame.window : Frame → Option (Name × Nat × Nat)
  | .findMap (.create _ n) i entries | .find (.create _ n) i entries _ => some (n, i, entries)
  | .newInode _ n | .newBlock _ n _ _ | .newDir _ n _ _ | .addMap _ n _ _ | .addBlock _ n _ _ _
  | .add _ n _ _ _ => some (n, 0, 0)
  | _ => none

/-- The name a task is about to look for and create. -/
def Frame.starts : Frame → Option Name
  | .start (.create _ n) => some n
  | _ => none

/-- The name a removal was asked for, the inode it is about, and where it found the entry. -/
def Frame.target : Frame → Option (Name × Nat × Nat)
  | .iget (.unlink n _) nr p _ | .iget (.rmdir n _) nr p _ | .emptyDir n nr p _ => some (n, nr, p)
  | _ => none

/-- The block that a task comes back to with a new zone is still absent. -/
def stillEmpty (k : Kern) : Frame → Bool
  | .addBlock _ _ _ i _ => k.zone (block i) == 0
  | _ => true

/-! ## The directory -/

/-- The directory by itself: whole entries, no block missing, no zone in two places. -/
structure Ok (k : Kern) : Prop where
  size : 16 ∣ k.size
  blocks : ∀ b, 1024 * b < k.size → k.zone b ≠ 0
  inj : ∀ b b', k.zone b ≠ 0 → k.zone b = k.zone b' → b = b'
  fresh : ∀ b, k.zone b < k.fresh
  reserved : k.imap 0 = true

/-- A zone given out that is not a block of the directory. -/
structure Flying (k : Kern) (z : Nat) : Prop where
  nonzero : z ≠ 0
  fresh : z < k.fresh
  zone : ∀ b, k.zone b ≠ z

/-- What a frame relies on. -/
def FrameOk (k : Kern) : Frame → Prop
  | .start c => ∀ n, c ≠ .create (.link 0) n
  | .findMap c i entries => (∀ n, c ≠ .create (.link 0) n) ∧ 64 ∣ i ∧ 16 * entries ≤ k.size
  | .find c i entries z =>
    (∀ n, c ≠ .create (.link 0) n) ∧ 64 ∣ i ∧ 16 * entries ≤ k.size ∧ z = k.zone (block i) ∧ z ≠ 0
  | .newInode _ _ | .linked _ => True
  | .newBlock _ _ nr z | .newDir _ _ nr z => nr ≠ 0 ∧ Flying k z
  | .addMap _ _ nr i => nr ≠ 0 ∧ 64 ∣ i ∧ 16 * i ≤ k.size
  | .addBlock _ _ nr i z => nr ≠ 0 ∧ 64 ∣ i ∧ 16 * i ≤ k.size ∧ Flying k z
  | .add _ _ nr i z => nr ≠ 0 ∧ 64 ∣ i ∧ 16 * i ≤ k.size ∧ z = k.zone (block i) ∧ z ≠ 0
  | .iget _ _ p z | .emptyDir _ _ p z => 16 * p < k.size ∧ z = k.zone (block p) ∧ z ≠ 0

/-- No entry with the task's name outside the places it has still to look at. -/
def Unseen (k : Kern) (f : Frame) : Prop :=
  ∀ n lo hi, f.window = some (n, lo, hi) → ∀ p de, k.live p = some de → n.matchEntry de = true → lo ≤ p ∧ p < hi

/-- What a turn of `f` does to the entries. -/
inductive Change (k : Kern) (f : Frame) (k' : Kern) : Prop
  | same : (∀ p, k'.live p = k.live p) → k'.created = k.created → k'.removed = k.removed → Change k f k'
  | entered (n : Name) (nr j : Nat) : f.window = some (n, 0, 0) → nr ≠ 0 → k.live j = none →
      (∀ p, k'.live p = if p = j then some ⟨nr, n.stored⟩ else k.live p) →
      k'.created = n :: k.created → k'.removed = k.removed → Change k f k'
  | cleared (n : Name) (nr j : Nat) : f.target = some (n, nr, j) →
      (∀ p, k'.live p = if p = j then none else k.live p) →
      k'.created = k.created → k'.removed = ⟨n, nr, j, k.live j⟩ :: k.removed → Change k f k'

/-- What a turn from `f` leads to. -/
structure NextOk (k : Kern) (f : Frame) (k' : Kern) (g : Frame) : Prop where
  ok : FrameOk k' g
  zone : ∀ z, g.zone = some z → f.zone = some z ∨ k.fresh ≤ z
  name : ∀ n lo hi, g.window = some (n, lo, hi) → (∃ lo hi, f.window = some (n, lo, hi)) ∨ f.starts = some n
  unseen : Unseen k f → Unseen k' g
  target : ∀ n nr p, g.target = some (n, nr, p) →
    (f.target = some (n, nr, p) ∧ k'.live p = k.live p) ∨
      ∃ de, k'.live p = some de ∧ de.inode = nr ∧ n.matchEntry de = true

structure Good (k : Kern) (f : Frame) (k' : Kern) (fs : List Frame) : Prop where
  ok : Ok k'
  size : k.size ≤ k'.size
  zone : ∀ b, k.zone b ≠ 0 → k'.zone b = k.zone b
  only : ∀ b, k'.zone b = k.zone b ∨ f.zone = some (k'.zone b)
  fresh : k.fresh ≤ k'.fresh
  change : Change k f k'
  next : fs = [] ∨ ∃ g, fs = [g] ∧ NextOk k f k' g

/-! ## Places -/

theorem Kern.live_eq_some {k : Kern} {p : Nat} {de : DirEntry} :
    k.live p = some de ↔ 16 * p < k.size ∧ k.zone (block p) ≠ 0 ∧ de.inode ≠ 0 ∧
      k.entry (k.zone (block p)) (place p) = de := by
  unfold Kern.live
  constructor
  · intro h
    split at h
    · rename_i hc
      cases h
      exact ⟨hc.1, hc.2.1, hc.2.2, rfl⟩
    · cases h
  · intro ⟨h1, h2, h3, h4⟩
    rw [h4, if_pos ⟨h1, h2, h3⟩]

/-- The directory has at a place what is stored there, as long as that is in the directory. -/
theorem Kern.live_congr {k k' : Kern} {p : Nat} (hs : 16 * p < k'.size ↔ 16 * p < k.size)
    (hz : k'.zone (block p) = k.zone (block p))
    (he : k'.entry (k.zone (block p)) (place p) = k.entry (k.zone (block p)) (place p)) : k'.live p = k.live p := by
  unfold Kern.live
  simp only [hs, hz, he]

theorem eq_of_block_place {p q : Nat} (hb : block p = block q) (hp : place p = place q) : p = q := by
  simp only [block, place, dirEntriesPerBlock] at hb hp
  omega

theorem block_of_range {i p : Nat} (hi : 64 ∣ i) (h1 : i ≤ p) (h2 : p < i + 64) : block p = block i := by
  simp only [block, dirEntriesPerBlock]
  omega

/-! ## Turns that leave the entries as they are -/

/-- Nothing of the directory's entries changes. -/
structure Quiet (k k' : Kern) : Prop where
  ok : Ok k'
  size : k'.size = k.size
  zone : k'.zone = k.zone
  fresh : k.fresh ≤ k'.fresh
  live : ∀ p, k'.live p = k.live p
  created : k'.created = k.created
  removed : k'.removed = k.removed

section Turns

variable {k k' k₁ : Kern} {f g : Frame} {fs : List Frame} {u : Unit}

theorem Quiet.refl (hk : Ok k) : Quiet k k := ⟨hk, rfl, rfl, Nat.le_refl _, fun _ => rfl, rfl, rfl⟩

theorem Quiet.trans {k₂ : Kern} (h : Quiet k k₁) (h' : Quiet k₁ k₂) : Quiet k k₂ :=
  ⟨h'.ok, h'.size.trans h.size, h'.zone.trans h.zone, h.fresh.trans h'.fresh, fun p => (h'.live p).trans (h.live p),
    h'.created.trans h.created, h'.removed.trans h.removed⟩

theorem Quiet.unseen (h : Quiet k k') (hf : Unseen k f) : Unseen k' f := by
  intro n lo hi hw p de hp
  rw [h.live] at hp
  exact hf n lo hi hw p de hp

theorem Quiet.flying (h : Quiet k k') {z : Nat} (hz : Flying k z) : Flying k' z :=
  ⟨hz.nonzero, hz.fresh.trans_le h.fresh, fun b => by rw [h.zone]; exact hz.zone b⟩

theorem Ok.setInode (hk : Ok k) (nr : Nat) (a : Attr) : Quiet k (k.setInode nr a) :=
  ⟨⟨hk.size, hk.blocks, hk.inj, hk.fresh, hk.reserved⟩, rfl, rfl, Nat.le_refl _, fun _ => rfl, rfl, rfl⟩

theorem Ok.freeInode (hk : Ok k) {nr : Nat} (h : nr ≠ 0) : Quiet k (k.freeInode nr) := by
  refine ⟨⟨hk.size, hk.blocks, hk.inj, hk.fresh, ?_⟩, rfl, rfl, Nat.le_refl _, fun _ => rfl, rfl, rfl⟩
  simp only [Kern.freeInode, Function.update_of_ne h.symm]
  exact hk.reserved

theorem Ok.newInode (hk : Ok k) (nr : Nat) (a : Attr) :
    Quiet k { k.setInode nr a with imap := Function.update k.imap nr true } := by
  refine ⟨⟨hk.size, hk.blocks, hk.inj, hk.fresh, ?_⟩, rfl, rfl, Nat.le_refl _, fun _ => rfl, rfl, rfl⟩
  simp only [Function.update_apply]
  split
  · rfl
  · exact hk.reserved

/-- A zone is given out. -/
theorem Ok.newBlock (hk : Ok k) : Quiet k { k with room := k.room - 1, fresh := k.fresh + 1 } :=
  ⟨⟨hk.size, hk.blocks, hk.inj, fun b => Nat.lt_succ_of_lt (hk.fresh b), hk.reserved⟩, rfl, rfl, Nat.le_succ _,
    fun _ => rfl, rfl, rfl⟩

theorem Ok.flying_fresh (hk : Ok k) : Flying { k with room := k.room - 1, fresh := k.fresh + 1 } k.fresh :=
  ⟨Nat.ne_of_gt (Nat.zero_lt_of_lt (hk.fresh 0)), Nat.lt_succ_self _, fun b => Nat.ne_of_lt (hk.fresh b)⟩

/-- What is in a block that is not the directory's does not matter. -/
theorem Ok.otherBlock (hk : Ok k) {z : Nat} (hz : Flying k z) (es : Nat → DirEntry) :
    Quiet k { k with entry := Function.update k.entry z es } := by
  refine ⟨⟨hk.size, hk.blocks, hk.inj, hk.fresh, hk.reserved⟩, rfl, rfl, Nat.le_refl _, fun p => ?_, rfl, rfl⟩
  unfold Kern.live
  simp only [Function.update_of_ne (hz.zone (block p))]

theorem Good.of_quiet (hq : Quiet k k₁) (h : Good k₁ f k' fs) : Good k f k' fs where
  ok := h.ok
  size := hq.size ▸ h.size
  zone := hq.zone ▸ h.zone
  only := hq.zone ▸ h.only
  fresh := hq.fresh.trans h.fresh
  change := by
    have hlive := hq.live
    cases h.change with
    | same hl hc hr => exact .same (fun p => (hl p).trans (hlive p)) (hc.trans hq.created) (hr.trans hq.removed)
    | entered n nr j hw hnr hj hl hc hr =>
      refine .entered n nr j hw hnr ((hlive j).symm.trans hj) (fun p => ?_) (by rw [hc, hq.created]) (hr.trans hq.removed)
      rw [hl p, hlive p]
    | cleared n nr j hw hl hc hr =>
      refine .cleared n nr j hw (fun p => ?_) (hc.trans hq.created) (by rw [hr, hlive j, hq.removed])
      rw [hl p, hlive p]
  next := by
    rcases h.next with hn | ⟨g, hg, hn⟩
    · exact .inl hn
    · refine .inr ⟨g, hg, hn.ok, fun z hz => (hn.zone z hz).imp_right hq.fresh.trans, hn.name,
        fun hu => hn.unseen (hq.unseen hu), fun n nr p hp => ?_⟩
      rw [← hq.live p]
      exact hn.target n nr p hp

theorem Quiet.good (hq : Quiet k k') (f : Frame) : Good k f k' [] :=
  ⟨hq.ok, Nat.le_of_eq hq.size.symm, fun _ _ => by rw [hq.zone], fun _ => .inl (by rw [hq.zone]), hq.fresh,
    .same hq.live hq.created hq.removed, .inl rfl⟩

theorem Quiet.next (hq : Quiet k k') (hn : NextOk k f k' g) : Good k f k' [g] :=
  ⟨hq.ok, Nat.le_of_eq hq.size.symm, fun _ _ => by rw [hq.zone], fun _ => .inl (by rw [hq.zone]), hq.fresh,
    .same hq.live hq.created hq.removed, .inr ⟨g, rfl, hn⟩⟩

theorem Good.nextOk (h : Good k f k' [g]) : NextOk k f k' g := by
  rcases h.next with hn | ⟨g', hn, hok⟩
  · cases hn
  · cases hn
    exact hok

/-! ## Creations -/

/-- The task creates `n`, and has looked everywhere. -/
structure Misses (k : Kern) (f : Frame) (n : Name) : Prop where
  name : (∃ lo hi, f.window = some (n, lo, hi)) ∨ f.starts = some n
  unseen : Unseen k f → ∀ p de, k.live p = some de → ¬n.matchEntry de = true

theorem Misses.of_window {n : Name} (h : f.window = some (n, 0, 0)) : Misses k f n := by
  refine ⟨.inl ⟨0, 0, h⟩, fun hu p de hp hm => ?_⟩
  exact absurd (hu n 0 0 h p de hp hm).2 (Nat.not_lt_zero p)

/-- A frame for the creation of the name that was missed. -/
theorem Misses.next {n : Name} (h : Misses k f n) (hq : Quiet k k') (hw : g.window = some (n, 0, 0))
    (ht : g.target = none) (hok : FrameOk k' g) (hz : ∀ z, g.zone = some z → f.zone = some z ∨ k.fresh ≤ z) :
    NextOk k f k' g := by
  refine ⟨hok, hz, fun m lo hi hm => ?_, fun hu m lo hi hm p de hp hde => ?_, fun m nr p hm => ?_⟩
  · rw [hw] at hm
    cases hm
    exact h.name
  · rw [hw] at hm
    cases hm
    rw [hq.live] at hp
    exact absurd hde (h.unseen hu p de hp)
  · rw [ht] at hm
    cases hm

theorem addFails_good (hk : Ok k) {kind : Kind} {nr : Nat} (hnr : nr ≠ 0) (h : addFails k kind nr = .goes k' fs u) :
    Good k f k' fs := by
  cases kind <;> cases h
  · exact (hk.freeInode hnr).good f
  · exact (hk.freeInode hnr).good f
  · exact (Quiet.refl hk).good f

theorem addEntry_good (hk : Ok k) {kind : Kind} {n : Name} {nr : Nat} (hnr : nr ≠ 0) (hm : Misses k f n)
    (h : addEntry k kind n nr = .goes k' fs u) : Good k f k' fs := by
  unfold addEntry at h
  split at h
  · exact addFails_good hk hnr h
  · rename_i hz
    cases h
    refine (Quiet.refl hk).next (hm.next (.refl hk) rfl rfl ⟨hnr, Nat.dvd_zero 64, Nat.zero_le _, rfl, hz⟩ ?_)
    intro z hz'
    cases hz'

theorem withInode_good (hk : Ok k) {kind : Kind} {n : Name} {nr : Nat} (hnr : nr ≠ 0) (hm : Misses k f n)
    (h : withInode k kind n nr = .goes k' fs u) : Good k f k' fs := by
  cases kind with
  | mkdir mode euid =>
    simp only [withInode] at h
    split at h
    · cases h
      exact (hk.freeInode hnr).good f
    · cases h
      refine hk.newBlock.next (hm.next hk.newBlock rfl rfl ⟨hnr, hk.flying_fresh⟩ fun z hz => ?_)
      cases hz
      exact .inr (Nat.le_refl _)
  | «open» mode euid => exact addEntry_good hk hnr hm h
  | mknod mode euid => exact addEntry_good hk hnr hm h
  | link nr => exact addEntry_good hk hnr hm h

theorem makeDir_quiet (hk : Ok k) {z : Nat} (hz : Flying k z) (mode nr : Nat) : Quiet k (makeDir k mode nr z) := by
  have h1 := hk.otherBlock hz (Function.update (k.entry z) 0 { inode := nr, name := 46 :: List.replicate 13 0 })
  have h2 := h1.ok.otherBlock (h1.flying hz) (Function.update (Function.update k.entry z
    (Function.update (k.entry z) 0 { inode := nr, name := 46 :: List.replicate 13 0 }) z) 1
      { inode := k.num, name := 46 :: 46 :: List.replicate 12 0 })
  exact (h1.trans h2).trans (h2.ok.setInode nr { k.inode nr with nlinks := 2, mode := mode, empty := true })

/-! ## Scans -/

theorem missed_good (hk : Ok k) {c : Call} (hc : ∀ n, c ≠ .create (.link 0) n)
    (hm : ∀ kind n, c = .create kind n → Misses k f n) (h : missed k c = .goes k' fs u) : Good k f k' fs := by
  cases c with
  | unlink n euid | rmdir n euid =>
    cases h
    exact (Quiet.refl hk).good f
  | create kind n =>
    have hmiss := hm kind n rfl
    cases kind with
    | link nr =>
      have hnr : nr ≠ 0 := by
        intro e
        subst e
        exact hc n rfl
      exact addEntry_good hk hnr hmiss h
    | «open» mode euid | mknod mode euid | mkdir mode euid =>
      cases h
      exact (Quiet.refl hk).next (hmiss.next (.refl hk) rfl rfl trivial fun z hz => by cases hz)

/-- The scan goes on, its window from `i` to `entries`, behind a block without the name. -/
structure Scans (k : Kern) (f : Frame) (c : Call) (i entries : Nat) : Prop where
  link : ∀ n, c ≠ .create (.link 0) n
  mult : 64 ∣ i
  size : 16 * entries ≤ k.size
  name : ∀ kind n, c = .create kind n → (∃ lo hi, f.window = some (n, lo, hi)) ∨ f.starts = some n
  unseen : ∀ kind n, c = .create kind n → Unseen k f →
    ∀ p de, k.live p = some de → n.matchEntry de = true → i ≤ p ∧ p < entries

theorem nextBlock_good (hk : Ok k) {c : Call} {i entries : Nat} (hs : Scans k f c i entries)
    (hnone : ∀ kind n, c = .create kind n → Unseen k f → ∀ p de, k.live p = some de → n.matchEntry de = true →
      i ≤ p → p < entries → i + 64 ≤ p) (h : nextBlock k c i entries = .goes k' fs u) : Good k f k' fs := by
  have hwin : ∀ kind n, c = .create kind n → Unseen k f → ∀ p de, k.live p = some de → n.matchEntry de = true →
      i + 64 ≤ p ∧ p < entries := by
    intro kind n hc hu p de hp hde
    obtain ⟨h1, h2⟩ := hs.unseen kind n hc hu p de hp hde
    exact ⟨hnone kind n hc hu p de hp hde h1 h2, h2⟩
  unfold nextBlock at h
  split at h
  · cases h
    have hmult := hs.mult
    refine (Quiet.refl hk).next ⟨⟨hs.link, ?_, hs.size⟩, fun z hz => (by cases hz), fun n lo hi hw => ?_,
      fun hu n lo hi hw p de hp hde => ?_, fun n nr p ht => (by cases ht)⟩
    · simp only [dirEntriesPerBlock]
      omega
    · cases c with
      | create kind m =>
        cases hw
        exact hs.name kind _ rfl
      | unlink m euid | rmdir m euid => cases hw
    · cases c with
      | create kind m =>
        cases hw
        exact hwin kind _ rfl hu p de hp hde
      | unlink m euid | rmdir m euid => cases hw
  · rename_i hend
    refine missed_good hk hs.link (fun kind n hc => ⟨hs.name kind n hc, fun hu p de hp hde => ?_⟩) h
    have := hwin kind n hc hu p de hp hde
    simp only [dirEntriesPerBlock] at hend
    omega

theorem scan_good (hk : Ok k) {c : Call} {i entries z : Nat} (hs : Scans k f c i entries)
    (hz : z = k.zone (block i)) (hz0 : z ≠ 0) (h : scan k c i entries z = .goes k' fs u) : Good k f k' fs := by
  unfold scan at h
  simp only [dirEntriesPerBlock] at h
  have hsize := hs.size
  split at h
  · rename_i p hp
    obtain ⟨h1, h2, hmatch, -⟩ := firstZero_some hp
    have hblock : block p = block i := block_of_range hs.mult h1 (by omega)
    have hmatch : c.name.matchEntry (k.entry z (place p)) = true := by simpa using hmatch
    have hinode : (k.entry z (place p)).inode ≠ 0 := by
      simp only [Name.matchEntry, Bool.and_eq_true, bne_iff_ne] at hmatch
      exact hmatch.1.1
    have hlive : k.live p = some (k.entry z (place p)) :=
      Kern.live_eq_some.2 ⟨by omega, by rw [hblock, ← hz]; exact hz0, hinode, by rw [hblock, ← hz]⟩
    cases c with
    | create kind n =>
      cases h
      exact (Quiet.refl hk).good f
    | unlink n euid | rmdir n euid =>
      cases h
      refine (Quiet.refl hk).next ⟨⟨by omega, by rw [hblock, ← hz], hz0⟩, fun z hz => (by cases hz),
        fun _ _ _ hw => (by cases hw), fun _ _ _ _ hw => (by cases hw), fun m nr q ht => ?_⟩
      cases ht
      exact .inr ⟨_, hlive, rfl, hmatch⟩
  · rename_i hp
    refine nextBlock_good hk hs (fun kind n hc _ p de hp' hde h1 h2 => ?_) h
    subst hc
    by_contra hlt
    have hblock : block p = block i := block_of_range hs.mult h1 (by omega)
    have hno := firstZero_none hp p h1 (by omega)
    have hentry := (Kern.live_eq_some.1 hp').2.2.2
    rw [hblock, ← hz] at hentry
    simp only [hentry, Call.name, hde] at hno
    cases hno

/-! ## Turns that change the entries -/

/-- One place is written. -/
theorem Ok.setEntry_entry (hk : Ok k) {j : Nat} (hz : k.zone (block j) ≠ 0) (de : DirEntry) (p : Nat) :
    (k.setEntry (k.zone (block j)) (place j) de).entry (k.zone (block p)) (place p) =
      if p = j then de else k.entry (k.zone (block p)) (place p) := by
  by_cases hp : p = j
  · subst hp
    simp [Kern.setEntry]
  · rw [if_neg hp]
    simp only [Kern.setEntry, Function.update_apply]
    split
    · rename_i hzone
      rw [Function.update_of_ne, hzone]
      intro hplace
      exact hp (eq_of_block_place (hk.inj _ _ hz hzone.symm).symm hplace)
    · rfl

theorem remove_good (hk : Ok k) {n : Name} {nr p z : Nat} (hz : z = k.zone (block p)) (hz0 : z ≠ 0)
    (ht : f.target = some (n, nr, p)) (nlinks : Nat) : Good k f (remove k n nr p z nlinks) [] := by
  subst hz
  refine ⟨⟨hk.size, hk.blocks, hk.inj, hk.fresh, hk.reserved⟩, Nat.le_refl _, fun _ _ => rfl, fun _ => .inl rfl,
    Nat.le_refl _, .cleared n nr p ht (fun q => ?_) rfl rfl, .inl rfl⟩
  have hentry : (remove k n nr p (k.zone (block p)) nlinks).entry (k.zone (block q)) (place q) = _ :=
    hk.setEntry_entry hz0 { k.entry (k.zone (block p)) (place p) with inode := 0 } q
  by_cases hq : q = p
  · rw [if_pos hq] at hentry ⊢
    refine if_neg fun hlive => hlive.2.2 ?_
    exact congrArg DirEntry.inode hentry
  · rw [if_neg hq] at hentry ⊢
    exact Kern.live_congr Iff.rfl rfl hentry

theorem enter_good (hk : Ok k) {n : Name} {nr i j z : Nat} (hnr : nr ≠ 0) (hw : f.window = some (n, 0, 0))
    (hi : 64 ∣ i) (hsize : 16 * i ≤ k.size) (hz : z = k.zone (block i)) (hz0 : z ≠ 0)
    (hj : firstZero (fun j => decide (16 * j < k.size) && (k.entry z (place j)).inode != 0) i 64 = some j)
    (hfs : fs = [] ∨ fs = [.linked nr]) : Good k f (enter k n nr j z) fs := by
  obtain ⟨h1, h2, hfree, hlow⟩ := firstZero_some hj
  have hblock : block j = block i := block_of_range hi h1 h2
  rw [← hblock] at hz
  subst hz
  have hdvd := hk.size
  -- the place is inside, and free, or just behind the last
  have hbound : 16 * j ≤ k.size := by
    rcases Nat.eq_or_lt_of_le h1 with e | hlt
    · exact e ▸ hsize
    · have := hlow (j - 1) (by omega) (by omega)
      simp only [Bool.and_eq_true, decide_eq_true_eq] at this
      omega
  have hold : k.live j = none := by
    unfold Kern.live
    rw [if_neg]
    intro ⟨hlt, _, hin⟩
    simp [hlt, hin] at hfree
  refine ⟨⟨?_, fun b hb => ?_, hk.inj, hk.fresh, hk.reserved⟩, ?_, fun _ _ => rfl, fun _ => .inl rfl, Nat.le_refl _,
    .entered n nr j hw hnr hold (fun p => ?_) rfl rfl, ?_⟩
  · simp only [enter]
    split <;> omega
  · by_cases hb' : 1024 * b < k.size
    · exact hk.blocks b hb'
    · have he : b = block j := by
        simp only [enter] at hb
        simp only [block, dirEntriesPerBlock]
        split at hb <;> omega
      rw [he]
      exact hz0
  · simp only [enter]
    split <;> omega
  · have hentry : (enter k n nr j (k.zone (block j))).entry (k.zone (block p)) (place p) = _ :=
      hk.setEntry_entry hz0 { inode := nr, name := n.stored } p
    by_cases hp : p = j
    · rw [if_pos hp] at hentry ⊢
      refine Kern.live_eq_some.2 ⟨?_, hp ▸ hz0, hnr, hentry⟩
      simp only [enter]
      split <;> omega
    · rw [if_neg hp] at hentry ⊢
      refine Kern.live_congr ?_ rfl hentry
      simp only [enter]
      split <;> omega
  · rcases hfs with rfl | rfl
    · exact .inl rfl
    · exact .inr ⟨_, rfl, trivial, fun z hz => (by cases hz), fun _ _ _ hw => (by cases hw),
        fun _ _ _ _ hw => (by cases hw), fun _ _ _ ht => (by cases ht)⟩

/-- A new block in the place of an absent one has no entries. -/
theorem addBlock_good (hk : Ok k) {kind : Kind} {n : Name} {nr i z : Nat} (hf : FrameOk k (.addBlock kind n nr i z))
    (hempty : k.zone (block i) = 0) :
    Good k (.addBlock kind n nr i z) { k.clearBlock z with zone := Function.update k.zone (block i) z }
      [.add kind n nr i z] := by
  obtain ⟨hnr, hi, hsize, hz⟩ := hf
  have hzone : ∀ b, Function.update k.zone (block i) z b = if b = block i then z else k.zone b :=
    fun b => Function.update_apply _ _ _ _
  have hlive : ∀ p, Kern.live { k.clearBlock z with zone := Function.update k.zone (block i) z } p = k.live p := by
    intro p
    unfold Kern.live
    simp only [hzone]
    by_cases hp : block p = block i
    · simp [hp, hempty, Kern.clearBlock, DirEntry.free]
    · simp only [hp, if_false, Kern.clearBlock, Function.update_of_ne (hz.zone (block p))]
  have hok : Ok { k.clearBlock z with zone := Function.update k.zone (block i) z } := by
    refine ⟨hk.size, fun b hb => ?_, fun b b' hb he => ?_, fun b => ?_, hk.reserved⟩
    · simp only [hzone]
      split
      · exact hz.nonzero
      · exact hk.blocks b hb
    · simp only [hzone] at hb he
      split at he <;> split at he
      · rename_i h1 h2
        rw [h1, h2]
      · exact absurd he.symm (hz.zone b')
      · exact absurd he (hz.zone b)
      · rename_i h1 _
        rw [if_neg h1] at hb
        exact hk.inj b b' hb he
    · simp only [hzone]
      split
      · exact hz.fresh
      · exact hk.fresh b
  refine ⟨hok, Nat.le_refl _, fun b hb => ?_, fun b => ?_, Nat.le_refl _, .same hlive rfl rfl,
    .inr ⟨_, rfl, ⟨hnr, hi, hsize, ?_, hz.nonzero⟩, fun _ hz => (by cases hz), fun m lo hi hm => ?_,
      fun hu m lo hi hm p de hp hde => ?_, fun _ _ _ ht => (by cases ht)⟩⟩
  · have hne : b ≠ block i := fun e => hb (e ▸ hempty)
    simp only [hzone, if_neg hne]
  · simp only [hzone]
    split
    · exact .inr rfl
    · exact .inl rfl
  · simp only [hzone, if_true]
  · exact .inl ⟨lo, hi, hm⟩
  · rw [hlive] at hp
    exact hu m lo hi hm p de hp hde

theorem Ok.entries_le (hk : Ok k) {p : Nat} (h : 16 * p < k.size) : p < k.size / 16 := by
  have := hk.size
  omega

theorem start_good (hk : Ok k) {c : Call} (hc : ∀ n, c ≠ .create (.link 0) n)
    (h : turn (.start c) () k = .goes k' fs u) : Good k (.start c) k' fs := by
  simp only [turn] at h
  split at h
  · rename_i hz
    refine missed_good hk hc (fun kind n e => ⟨.inr (e ▸ rfl), fun _ p de hp _ => ?_⟩) h
    refine hk.blocks 0 ?_ hz
    have := (Kern.live_eq_some.1 hp).1
    omega
  · rename_i hz
    cases h
    refine (Quiet.refl hk).next ⟨⟨hc, Nat.dvd_zero 64, by omega, rfl, hz⟩, fun _ hz => (by cases hz), fun n lo hi hw => ?_,
      fun _ n lo hi hw p de hp _ => ?_, fun _ _ _ ht => (by cases ht)⟩
    · cases c with
      | create kind m =>
        cases hw
        exact .inr rfl
      | unlink m euid | rmdir m euid => cases hw
    · cases c with
      | create kind m =>
        cases hw
        exact ⟨Nat.zero_le p, hk.entries_le (Kern.live_eq_some.1 hp).1⟩
      | unlink m euid | rmdir m euid => cases hw

theorem findMap_good (hk : Ok k) {c : Call} {i entries : Nat} (hf : FrameOk k (.findMap c i entries))
    (h : turn (.findMap c i entries) () k = .goes k' fs u) : Good k (.findMap c i entries) k' fs := by
  obtain ⟨hc, hi, hsize⟩ := hf
  simp only [turn] at h
  split at h
  · rename_i hz
    refine nextBlock_good hk ⟨hc, hi, hsize, fun kind n e => .inl ⟨i, entries, by rw [e]; rfl⟩, fun kind n e hu => ?_⟩
      (fun kind n _ _ p de hp _ h1 _ => ?_) h
    · exact hu n i entries (by rw [e]; rfl)
    · by_contra hlt
      have hb := block_of_range hi h1 (by omega)
      exact (Kern.live_eq_some.1 hp).2.1 (hb ▸ hz)
  · rename_i hz
    cases h
    have hw : (Frame.find c i entries (k.zone (block i))).window = (Frame.findMap c i entries).window := by
      cases c <;> rfl
    refine (Quiet.refl hk).next ⟨⟨hc, hi, hsize, rfl, hz⟩, fun _ hz => (by cases hz), fun n lo hi h => ?_,
      fun hu n lo hi h => ?_, fun _ _ _ ht => (by cases ht)⟩
    · exact .inl ⟨lo, hi, hw ▸ h⟩
    · exact hu n lo hi (hw ▸ h)

theorem newInode_good (hk : Ok k) {kind : Kind} {n : Name}
    (h : turn (.newInode kind n) () k = .goes k' fs u) : Good k (.newInode kind n) k' fs := by
  simp only [turn] at h
  split at h
  · cases h
    exact (Quiet.refl hk).good _
  · rename_i nr hnr
    split at h
    · cases h
      exact (Quiet.refl hk).good _
    · have hq := hk.newInode nr kind.attr
      have hnr0 : nr ≠ 0 := by
        intro e
        have := (firstZero_some hnr).2.2.1
        rw [e, hk.reserved] at this
        cases this
      exact .of_quiet hq (withInode_good hq.ok hnr0 (.of_window rfl) h)

theorem addMap_good (hk : Ok k) {kind : Kind} {n : Name} {nr i : Nat} (hf : FrameOk k (.addMap kind n nr i))
    (h : turn (.addMap kind n nr i) () k = .goes k' fs u) : Good k (.addMap kind n nr i) k' fs := by
  obtain ⟨hnr, hi, hsize⟩ := hf
  have hm : Misses k (.addMap kind n nr i) n := .of_window rfl
  simp only [turn] at h
  split at h
  · split at h
    · exact addFails_good hk hnr h
    · cases h
      refine hk.newBlock.next (hm.next hk.newBlock rfl rfl ⟨hnr, hi, hsize, hk.flying_fresh⟩ fun z hz => ?_)
      cases hz
      exact .inr (Nat.le_refl _)
  · rename_i hz
    cases h
    exact (Quiet.refl hk).next (hm.next (.refl hk) rfl rfl ⟨hnr, hi, hsize, rfl, hz⟩ fun _ hz => by cases hz)

theorem add_good (hk : Ok k) {kind : Kind} {n : Name} {nr i z : Nat} (hf : FrameOk k (.add kind n nr i z))
    (h : turn (.add kind n nr i z) () k = .goes k' fs u) : Good k (.add kind n nr i z) k' fs := by
  obtain ⟨hnr, hi, hsize, hz, hz0⟩ := hf
  have hm : Misses k (.add kind n nr i z) n := .of_window rfl
  simp only [turn, dirEntriesPerBlock] at h
  split at h
  · rename_i hnone
    cases h
    refine (Quiet.refl hk).next (hm.next (.refl hk) rfl rfl ⟨hnr, by omega, ?_⟩ fun _ hz => by cases hz)
    have hlast := firstZero_none hnone (i + 63) (by omega) (by omega)
    simp only [Bool.and_eq_true, decide_eq_true_eq] at hlast
    have := hk.size
    omega
  · rename_i j hj
    cases kind <;> cases h <;> exact enter_good hk hnr rfl hi hsize hz hz0 hj (by simp)

theorem iget_good (hk : Ok k) {c : Call} {nr p z : Nat} (hf : FrameOk k (.iget c nr p z))
    (h : turn (.iget c nr p z) () k = .goes k' fs u) : Good k (.iget c nr p z) k' fs := by
  obtain ⟨hp, hz, hz0⟩ := hf
  cases c with
  | create kind n =>
    cases h
    exact (Quiet.refl hk).good _
  | unlink n euid =>
    simp only [turn] at h
    split at h
    · cases h
      exact remove_good hk hz hz0 rfl _
    · cases h
      exact (Quiet.refl hk).good _
  | rmdir n euid =>
    simp only [turn] at h
    split at h
    · cases h
      refine (hk.setInode nr _).next ⟨⟨hp, hz, hz0⟩, fun _ hz => (by cases hz), fun _ _ _ hw => (by cases hw),
        fun _ _ _ _ hw => (by cases hw), fun m nr' q ht => ?_⟩
      cases ht
      exact .inl ⟨rfl, rfl⟩
    · cases h
      exact (Quiet.refl hk).good _

/-- **What a turn does.** -/
theorem turn_good (hk : Ok k) (hf : FrameOk k f) (he : stillEmpty k f = true)
    (h : turn f u k = .goes k' fs u) : Good k f k' fs := by
  cases f with
  | start c => exact start_good hk hf h
  | findMap c i entries => exact findMap_good hk hf h
  | find c i entries z =>
    obtain ⟨hc, hi, hsize, hz, hz0⟩ := hf
    refine scan_good hk ⟨hc, hi, hsize, fun kind n e => .inl ⟨i, entries, by rw [e]; rfl⟩, fun kind n e hu => ?_⟩ hz hz0 h
    exact hu n i entries (by rw [e]; rfl)
  | newInode kind n => exact newInode_good hk h
  | newBlock kind n nr z =>
    cases h
    have hq := hk.otherBlock hf.2 fun _ => .free
    exact hq.next (Misses.next (.of_window rfl) hq rfl rfl ⟨hf.1, hq.flying hf.2⟩ fun _ hz => .inl hz)
  | newDir kind n nr z =>
    cases kind with
    | mkdir mode euid =>
      have hq := makeDir_quiet hk hf.2 mode nr
      exact .of_quiet hq (addEntry_good hq.ok hf.1 (.of_window rfl) h)
    | «open» mode euid | mknod mode euid | link nr =>
      cases h
      exact (Quiet.refl hk).good _
  | addMap kind n nr i => exact addMap_good hk hf h
  | addBlock kind n nr i z =>
    cases h
    exact addBlock_good hk hf (by simpa [stillEmpty] using he)
  | add kind n nr i z => exact add_good hk hf h
  | linked nr =>
    cases h
    exact (hk.setInode nr _).good _
  | iget c nr p z => exact iget_good hk hf h
  | emptyDir n nr p z =>
    have hq := hk.setInode nr { k.inode nr with count := (k.inode nr).count - 1 }
    simp only [turn] at h
    split at h
    · cases h
      exact .of_quiet hq (remove_good hq.ok hf.2.1 hf.2.2 rfl _)
    · cases h
      exact hq.good _

/-- Another task's frame, after a turn. -/
theorem Good.frame (h : Good k f k' fs) (hg : FrameOk k g) (hz : ∀ z, g.zone = some z → f.zone ≠ some z) :
    FrameOk k' g := by
  have hsize := h.size
  have hzone : ∀ {z b}, z = k.zone b → z ≠ 0 → z = k'.zone b := by
    intro z b e h0
    rw [h.zone b (e ▸ h0)]
    exact e
  have hfly : ∀ {z}, Flying k z → f.zone ≠ some z → Flying k' z := by
    intro z hz hne
    refine ⟨hz.nonzero, hz.fresh.trans_le h.fresh, fun b hb => ?_⟩
    rcases h.only b with e | e
    · exact hz.zone b (e.symm.trans hb)
    · exact hne (hb ▸ e)
  cases g with
  | start c => exact hg
  | findMap c i entries => exact ⟨hg.1, hg.2.1, hg.2.2.trans hsize⟩
  | find c i entries z => exact ⟨hg.1, hg.2.1, hg.2.2.1.trans hsize, hzone hg.2.2.2.1 hg.2.2.2.2, hg.2.2.2.2⟩
  | newInode kind n | linked nr => trivial
  | newBlock kind n nr z | newDir kind n nr z => exact ⟨hg.1, hfly hg.2 (hz z rfl)⟩
  | addMap kind n nr i => exact ⟨hg.1, hg.2.1, hg.2.2.trans hsize⟩
  | addBlock kind n nr i z => exact ⟨hg.1, hg.2.1, hg.2.2.1.trans hsize, hfly hg.2.2.2 (hz z rfl)⟩
  | add kind n nr i z => exact ⟨hg.1, hg.2.1, hg.2.2.1.trans hsize, hzone hg.2.2.2.1 hg.2.2.2.2, hg.2.2.2.2⟩
  | iget c nr p z | emptyDir n nr p z => exact ⟨hg.1.trans_le hsize, hzone hg.2.1 hg.2.2, hg.2.2⟩

theorem FrameOk.flying (hf : FrameOk k f) {z : Nat} (hz : f.zone = some z) : Flying k z := by
  cases f with
  | newBlock | newDir =>
    cases hz
    exact hf.2
  | addBlock =>
    cases hz
    exact hf.2.2.2
  | start | findMap | find | newInode | addMap | add | linked | iget | emptyDir => cases hz

end Turns

/-! ## Steps -/

section Steps

variable {T : Type*} {s s' : State T}

/-- In every state: the directory by itself, and what each task relies on. -/
structure Base (s : State T) : Prop where
  ok : Ok s.kern
  depth : ∀ t, s.stack t = [] ∨ ∃ f, s.stack t = [f]
  frame : ∀ t f, s.stack t = [f] → FrameOk s.kern f
  apart : ∀ t u f g z, t ≠ u → s.stack t = [f] → s.stack u = [g] → f.zone = some z → g.zone ≠ some z

/-- Every block that is added finds its place still empty. -/
def growsOnce (s : State T) : Act T Call Event → Bool
  | .run t => (s.stack t).all (stillEmpty s.kern)
  | .call _ _ | .irq _ => true

variable [DecidableEq T]

/-- What a step comes to. -/
inductive Moves (s : State T) : Act T Call Event → State T → Prop
  | turn {t f k' fs} : s.stack t = [f] → turn f () s.kern = .goes k' fs () → Good s.kern f k' fs →
      Moves s (.run t) (s.put t k' fs ())
  | call {t c} : s.stack t = [] → (∀ n, c ≠ .create (.link 0) n) →
      Moves s (.call t c) (s.put t s.kern [.start c] ())
  | irq {e k'} : Quiet s.kern k' → Moves s (.irq e) { s with kern := k' }

theorem irq_quiet {k k' : Kern} {e : Event} (hk : Ok k) (h : irq e k = some k') : Quiet k k' := by
  cases e with
  | imap bits =>
    simp only [irq] at h
    split at h
    · rename_i hb
      cases h
      exact ⟨⟨hk.size, hk.blocks, hk.inj, hk.fresh, hb⟩, rfl, rfl, Nat.le_refl _, fun _ => rfl, rfl, rfl⟩
    · cases h
  | room n =>
    cases h
    exact ⟨⟨hk.size, hk.blocks, hk.inj, hk.fresh, hk.reserved⟩, rfl, rfl, Nat.le_refl _, fun _ => rfl, rfl, rfl⟩
  | inode nr a =>
    cases h
    exact hk.setInode nr _

theorem Base.moves {a : Act T Call Event} (hs : Base s) (ha : growsOnce s a = true) (h : machine.Step s a s') :
    Moves s a s' := by
  cases a with
  | run t =>
    obtain ⟨f, rest, k', fs, u, hst, ht, rfl⟩ := Machine.step_run h
    have hrest : rest = [] := by
      rcases hs.depth t with hd | ⟨g, hd⟩ <;> rw [hst] at hd <;> cases hd
      rfl
    subst hrest
    rw [List.append_nil]
    simp only [growsOnce, hst, List.all_cons, List.all_nil, Bool.and_true] at ha
    exact .turn hst ht (turn_good hs.ok (hs.frame t f hst) ha ht)
  | call t c =>
    obtain ⟨k', fs, u, hst, hc, rfl⟩ := Machine.step_call h
    have hc : call c () s.kern = some (k', fs, ()) := hc
    unfold call at hc
    split at hc
    · cases hc
    · rename_i hne
      cases hc
      exact .call hst fun n e => hne n e
  | irq e =>
    obtain ⟨k', he, rfl⟩ := Machine.step_irq h
    exact .irq (irq_quiet hs.ok he)

/-- The frame of a task after another one moved, or after its own move. -/
theorem put_stack_eq {t u : T} {k' : Kern} {fs : List Frame} {g : Frame} (h : (s.put t k' fs ()).stack u = [g]) :
    (u = t ∧ fs = [g]) ∨ (u ≠ t ∧ s.stack u = [g]) := by
  rw [Sys.put_stack] at h
  split at h
  · exact .inl ⟨‹_›, h⟩
  · exact .inr ⟨‹_›, h⟩

theorem Base.step {a : Act T Call Event} (hs : Base s) (h : Moves s a s') : Base s' := by
  cases h with
  | @turn t f k' fs hst ht hg =>
    have hnext : ∀ g, fs = [g] → NextOk s.kern f k' g := fun g hfs => (hfs ▸ hg).nextOk
    -- a zone of the moved task is its own or just given out
    have hnew : ∀ u g g' z, u ≠ t → fs = [g] → s.stack u = [g'] → g.zone = some z → g'.zone ≠ some z := by
      intro u g g' z hu hfs hg' hz hz'
      rcases (hnext g hfs).zone z hz with e | hle
      · exact hs.apart t u f g' z hu.symm hst hg' e hz'
      · exact absurd ((hs.frame u g' hg').flying hz').fresh (Nat.not_lt.2 hle)
    refine ⟨hg.ok, fun u => ?_, fun u g hu => ?_, fun u v g g' z hne hu hv hz => ?_⟩
    · rw [Sys.put_stack]
      split
      · rcases hg.next with hn | ⟨g, hn, -⟩
        · exact .inl hn
        · exact .inr ⟨g, hn⟩
      · exact hs.depth u
    · rcases put_stack_eq hu with ⟨-, hfs⟩ | ⟨hut, hst'⟩
      · exact (hnext g hfs).ok
      · exact hg.frame (hs.frame u g hst') fun z hz => hs.apart u t g f z hut hst' hst hz
    · rcases put_stack_eq hu with ⟨hut, hfs⟩ | ⟨hut, hu⟩ <;> rcases put_stack_eq hv with ⟨hvt, hfs'⟩ | ⟨hvt, hv⟩
      · exact absurd (hut.trans hvt.symm) hne
      · exact hnew v g g' z hvt hfs hv hz
      · intro hz'
        exact hnew u g' g z hut hfs' hu hz' hz
      · exact hs.apart u v g g' z hne hu hv hz
  | @call t c hst hc =>
    refine ⟨hs.ok, fun u => ?_, fun u g hu => ?_, fun u v g g' z hne hu hv hz => ?_⟩
    · rw [Sys.put_stack]
      split
      · exact .inr ⟨_, rfl⟩
      · exact hs.depth u
    · rcases put_stack_eq hu with ⟨-, hfs⟩ | ⟨-, hu⟩
      · cases hfs
        exact hc
      · exact hs.frame u g hu
    · rcases put_stack_eq hu with ⟨-, hfs⟩ | ⟨-, hu⟩
      · cases hfs
        cases hz
      · rcases put_stack_eq hv with ⟨-, hfs⟩ | ⟨-, hv⟩
        · cases hfs
          exact fun hz' => by cases hz'
        · exact hs.apart u v g g' z hne hu hv hz
  | irq hq =>
    have hg : Good s.kern (.linked 0) _ [] := hq.good _
    exact ⟨hq.ok, hs.depth, fun u g hu => hg.frame (hs.frame u g hu) fun _ _ hz => (by cases hz), hs.apart⟩

end Steps

end Linux011.Fs.Directory
