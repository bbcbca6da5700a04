/-
The zones of files, as trees.

A file's block `n` is found by a path: an entry of `i_zone`, and for the
blocks beyond the seventh one or two slots of indirect blocks. A slot that is
not zero names a zone, and the zone of an indirect slot is a block of slots
again. `Leads` is the walk along a path as far as the zones go, and `Ref` says
that some walk meets the zone. The trees grow by one step only: a slot on a
path that is zero gets a zone no walk meets, whose block is all zero. They
shrink by whole trees: one file's zones are taken away and nothing else is
touched.
-/
import Mathlib.Logic.Function.Basic
import Mathlib.Tactic.TypeStar

namespace Linux011.Fs

/-- `7+512+512*512`: the number of blocks a file can have. -/
def maxBlock : Nat := 262663

/-- The entry of `i_zone` for block `n` of a file, and the slots below it. -/
def path (n : Nat) : Nat × List Nat :=
  if n < 7 then (n, [])
  else if n - 7 < 512 then (7, [n - 7])
  else (8, [(n - 519) / 512, (n - 519) % 512])

theorem path_length (n : Nat) : (path n).2.length ≤ 2 := by
  unfold path
  split
  · simp
  · split <;> simp

/-- A place for a zone's number: an entry of an inode's `i_zone`, or a slot of a block. -/
inductive Loc (I : Type*)
  | ino (i : I) (k : Nat)
  | blk (z w : Nat)
  deriving DecidableEq

/-- The `i_zone` of the inodes and the blocks as tables of slots. -/
structure Trees (I : Type*) where
  zone : I → Nat → Nat
  blk : Nat → Nat → Nat

variable {I : Type*}

def Trees.val (T : Trees I) : Loc I → Nat
  | .ino i k => T.zone i k
  | .blk z w => T.blk z w

/-- The zone at the end of a path from a place. -/
def Trees.walk (T : Trees I) (l : Loc I) : List Nat → Nat
  | [] => T.val l
  | w :: rest => if T.val l = 0 then 0 else T.walk (.blk (T.val l) w) rest

/-- The zone of block `n` of a file, 0 if there is none. -/
def Trees.bmap (T : Trees I) (i : I) (n : Nat) : Nat := T.walk (.ino i (path n).1) (path n).2

/-- On the way to block `n` of file `i` the walk is at a place, with some slots still to go. -/
inductive Leads (T : Trees I) (i : I) (n : Nat) : Loc I → List Nat → Prop
  | root : Leads T i n (.ino i (path n).1) (path n).2
  | down {l w rest} : Leads T i n l (w :: rest) → T.val l ≠ 0 → Leads T i n (.blk (T.val l) w) rest

/-- A walk meets the zone. -/
def Ref (T : Trees I) (z : Nat) : Prop :=
  z ≠ 0 ∧ ∃ i n l rest, n < maxBlock ∧ Leads T i n l rest ∧ T.val l = z

theorem Leads.bmap {T : Trees I} {i : I} {n : Nat} {l : Loc I} {rest : List Nat} (h : Leads T i n l rest) :
    T.bmap i n = T.walk l rest := by
  induction h with
  | root => rfl
  | down _ hz ih => rw [ih, Trees.walk, if_neg hz]

theorem Leads.bmap_end {T : Trees I} {i : I} {n : Nat} {l : Loc I} (h : Leads T i n l []) : T.bmap i n = T.val l :=
  h.bmap

/-- A block that is there is at the end of a walk. -/
theorem Trees.exists_leads {T : Trees I} {i : I} {n : Nat} (h : T.bmap i n ≠ 0) :
    ∃ l, Leads T i n l [] ∧ T.val l = T.bmap i n := by
  have hwalk : ∀ rest l, Leads T i n l rest → ∃ l', Leads T i n l' [] ∧ T.val l' = T.bmap i n := by
    intro rest
    induction rest with
    | nil => exact fun l hl => ⟨l, hl, hl.bmap.symm⟩
    | cons w rest ih =>
      intro l hl
      refine ih _ (.down hl fun hz => h ?_)
      rw [hl.bmap, Trees.walk, if_pos hz]
  exact hwalk _ _ .root

theorem Leads.ref {T : Trees I} {i : I} {n : Nat} {l : Loc I} {rest : List Nat} (h : Leads T i n l rest)
    (hn : n < maxBlock) (hz : T.val l ≠ 0) : Ref T (T.val l) :=
  ⟨hz, i, n, l, rest, hn, h, rfl⟩

/-- A block the walk is in is a zone it has met. -/
theorem Leads.ref_block {T : Trees I} {i : I} {n z w : Nat} {rest : List Nat} (h : Leads T i n (.blk z w) rest)
    (hn : n < maxBlock) : Ref T z := by
  cases h with
  | down h hz => exact h.ref hn hz

/-- No walk is in the block of a zone that no walk meets. -/
theorem Leads.not_new {T : Trees I} {i : I} {n z : Nat} {l : Loc I} {rest : List Nat} (h : Leads T i n l rest) (hn : n < maxBlock)
    (hz : ¬Ref T z) (w : Nat) : l ≠ .blk z w := by
  intro e
  subst e
  exact hz (h.ref_block hn)

/-- Every zone is met at one place, and is a data zone. -/
structure Sound (T : Trees I) (first nzones : Nat) : Prop where
  inj : ∀ i n l rest i' n' l' rest', n < maxBlock → n' < maxBlock → Leads T i n l rest →
    Leads T i' n' l' rest' → T.val l ≠ 0 → T.val l = T.val l' → l = l'
  range : ∀ z, Ref T z → first ≤ z ∧ z < nzones

/-- Without zones there is nothing to meet. -/
theorem not_ref_of_zero {T : Trees I} (h : ∀ l, T.val l = 0) (z : Nat) : ¬Ref T z := by
  intro hr
  obtain ⟨hz, -, -, l, -, -, -, hl⟩ := hr
  exact hz (hl.symm.trans (h l))

theorem sound_of_zero {T : Trees I} (h : ∀ l, T.val l = 0) (first nzones : Nat) : Sound T first nzones where
  inj _ _ l _ _ _ _ _ _ _ _ _ hl _ := absurd (h l) hl
  range z hz := absurd hz (not_ref_of_zero h z)

theorem Trees.bmap_of_zero {T : Trees I} (h : ∀ l, T.val l = 0) (i : I) (n : Nat) : T.bmap i n = 0 := by
  unfold Trees.bmap
  cases (path n).2 with
  | nil => exact h _
  | cons w rest => exact if_pos (h _)

/-! ## Growth -/

/-- `clear_block`. -/
def Trees.clear (T : Trees I) (z : Nat) : Trees I := { T with blk := Function.update T.blk z fun _ => 0 }

theorem Trees.val_clear_of_ne (T : Trees I) {z : Nat} {l : Loc I} (h : ∀ w, l ≠ .blk z w) :
    (T.clear z).val l = T.val l := by
  cases l with
  | ino i k => rfl
  | blk b w =>
    have hb : b ≠ z := fun e => h w (e ▸ rfl)
    simp [Trees.clear, Trees.val, hb]

theorem Trees.val_clear_self (T : Trees I) (z w : Nat) : (T.clear z).val (.blk z w) = 0 := by
  simp [Trees.clear, Trees.val]

variable [DecidableEq I]

def Trees.set (T : Trees I) (l : Loc I) (z : Nat) : Trees I :=
  match l with
  | .ino i k => { T with zone := Function.update T.zone i (Function.update (T.zone i) k z) }
  | .blk b w => { T with blk := Function.update T.blk b (Function.update (T.blk b) w z) }

theorem Trees.val_set (T : Trees I) (l l' : Loc I) (z : Nat) :
    (T.set l z).val l' = if l' = l then z else T.val l' := by
  cases l <;> cases l' <;> simp only [Trees.set, Trees.val, Function.update_apply, Loc.ino.injEq, Loc.blk.injEq,
    reduceCtorEq, if_false]
  all_goals
    split
    · rename_i h
      subst h
      simp [Function.update_apply]
    · rename_i h
      simp [h]

/-- A new zone, cleared, in an empty place. -/
def Trees.grow (T : Trees I) (l : Loc I) (z : Nat) : Trees I := (T.clear z).set l z

section Grow

variable {T : Trees I} {i : I} {n : Nat} {l : Loc I} {rest : List Nat} {z : Nat}

/-- The places of the old trees keep their zones, the empty place apart. -/
theorem Trees.val_grow (hz : ¬Ref T z) {l' : Loc I} {i' : I} {n' : Nat} {rest' : List Nat} (hn' : n' < maxBlock)
    (h' : Leads T i' n' l' rest') : (T.grow l z).val l' = if l' = l then z else T.val l' := by
  rw [Trees.grow, Trees.val_set, T.val_clear_of_ne (h'.not_new hn' hz)]

theorem Trees.val_grow_new (h : Leads T i n l rest) (hn : n < maxBlock) (hz : ¬Ref T z) (w : Nat) :
    (T.grow l z).val (.blk z w) = 0 := by
  rw [Trees.grow, Trees.val_set, if_neg (h.not_new hn hz w).symm, T.val_clear_self]

/-- The walks after a growth: the old ones, and those that go one slot further,
through the new zone. -/
theorem Trees.leads_grow (h : Leads T i n l rest) (hn : n < maxBlock) (hl : T.val l = 0) (hz : ¬Ref T z)
    (hz0 : z ≠ 0) {i' : I} {n' : Nat} (hn' : n' < maxBlock) {l' : Loc I} {rest' : List Nat} :
    Leads (T.grow l z) i' n' l' rest' ↔
      Leads T i' n' l' rest' ∨ ∃ w, l' = .blk z w ∧ Leads T i' n' l (w :: rest') := by
  constructor
  · intro h'
    induction h' with
    | root => exact .inl .root
    | @down l' w rest' _ hv ih =>
      rcases ih with ih | ⟨w', rfl, ih⟩
      · rw [Trees.val_grow hz hn' ih] at hv ⊢
        by_cases he : l' = l
        · subst he
          rw [if_pos rfl]
          exact .inr ⟨w, rfl, ih⟩
        · rw [if_neg he] at hv ⊢
          exact .inl (.down ih hv)
      · exact absurd (Trees.val_grow_new h hn hz w') hv
  · have hold : ∀ {l' rest'}, Leads T i' n' l' rest' → Leads (T.grow l z) i' n' l' rest' := by
      intro l' rest' h'
      induction h' with
      | root => exact .root
      | @down l' w rest' hd hv ih =>
        have hne : l' ≠ l := fun e => hv (e ▸ hl)
        have he := Trees.val_grow (l := l) hz hn' hd
        rw [if_neg hne] at he
        have := Leads.down ih (by rw [he]; exact hv)
        rwa [he] at this
    intro h'
    rcases h' with h' | ⟨w, rfl, h'⟩
    · exact hold h'
    · have he := Trees.val_grow (l := l) hz hn' h'
      rw [if_pos rfl] at he
      have := Leads.down (hold h') (by rw [he]; exact hz0)
      rwa [he] at this

theorem Trees.ref_grow (h : Leads T i n l rest) (hn : n < maxBlock) (hl : T.val l = 0) (hz : ¬Ref T z)
    (hz0 : z ≠ 0) (y : Nat) : Ref (T.grow l z) y ↔ Ref T y ∨ y = z := by
  constructor
  · intro ⟨hy, i', n', l', rest', hn', h', hv⟩
    rcases (Trees.leads_grow h hn hl hz hz0 hn').1 h' with h' | ⟨w, rfl, -⟩
    · rw [Trees.val_grow hz hn' h'] at hv
      split at hv
      · exact .inr hv.symm
      · exact .inl ⟨hy, i', n', l', rest', hn', h', hv⟩
    · rw [Trees.val_grow_new h hn hz w] at hv
      exact absurd hv.symm hy
  · intro hy
    rcases hy with ⟨hy, i', n', l', rest', hn', h', hv⟩ | rfl
    · refine ⟨hy, i', n', l', rest', hn', (Trees.leads_grow h hn hl hz hz0 hn').2 (.inl h'), ?_⟩
      rw [Trees.val_grow hz hn' h', if_neg]
      · exact hv
      · intro e
        exact hy (by rw [← hv, e, hl])
    · refine ⟨hz0, i, n, l, rest, hn, (Trees.leads_grow h hn hl hz hz0 hn).2 (.inl h), ?_⟩
      rw [Trees.val_grow hz hn h, if_pos rfl]

/-- Growth takes no walk's steps back. -/
theorem Leads.grow (h : Leads T i n l rest) (hn : n < maxBlock) (hl : T.val l = 0) (hz : ¬Ref T z) (hz0 : z ≠ 0)
    {i' : I} {n' : Nat} (hn' : n' < maxBlock) {l' : Loc I} {rest' : List Nat} (h' : Leads T i' n' l' rest') :
    Leads (T.grow l z) i' n' l' rest' :=
  (Trees.leads_grow h hn hl hz hz0 hn').2 (.inl h')

theorem Trees.bmap_grow (h : Leads T i n l rest) (hn : n < maxBlock) (hl : T.val l = 0) (hz : ¬Ref T z)
    (hz0 : z ≠ 0) {i' : I} {n' : Nat} (hn' : n' < maxBlock) (hb : T.bmap i' n' ≠ 0) :
    (T.grow l z).bmap i' n' = T.bmap i' n' := by
  obtain ⟨l', h', hv⟩ := Trees.exists_leads hb
  have hne : l' ≠ l := by
    intro e
    rw [← hv, e, hl] at hb
    exact hb rfl
  rw [(h.grow hn hl hz hz0 hn' h').bmap, Trees.walk, Trees.val_grow hz hn' h', if_neg hne, hv]

/-- **Growth keeps the trees sound.** -/
theorem Sound.grow {first nzones : Nat} (hs : Sound T first nzones) (h : Leads T i n l rest) (hn : n < maxBlock)
    (hl : T.val l = 0) (hz : ¬Ref T z) (hz0 : z ≠ 0) (hr : first ≤ z ∧ z < nzones) :
    Sound (T.grow l z) first nzones := by
  have hval : ∀ {i' n' l' rest'}, n' < maxBlock → Leads (T.grow l z) i' n' l' rest' → (T.grow l z).val l' ≠ 0 →
      Leads T i' n' l' rest' := by
    intro i' n' l' rest' hn' h' hv
    rcases (Trees.leads_grow h hn hl hz hz0 hn').1 h' with h' | ⟨w, rfl, -⟩
    · exact h'
    · exact absurd (Trees.val_grow_new h hn hz w) hv
  constructor
  · intro i₁ n₁ l₁ r₁ i₂ n₂ l₂ r₂ hn₁ hn₂ h₁ h₂ hv he
    have k₁ := hval hn₁ h₁ hv
    have k₂ := hval hn₂ h₂ (he ▸ hv)
    rw [Trees.val_grow hz hn₁ k₁] at hv he
    rw [Trees.val_grow hz hn₂ k₂] at he
    by_cases e₁ : l₁ = l
    · by_cases e₂ : l₂ = l
      · rw [e₁, e₂]
      · rw [if_pos e₁, if_neg e₂] at he
        exact absurd (k₂.ref hn₂ (he ▸ hz0)) (he ▸ hz)
    · rw [if_neg e₁] at hv he
      by_cases e₂ : l₂ = l
      · rw [if_pos e₂] at he
        exact absurd (k₁.ref hn₁ hv) (he ▸ hz)
      · rw [if_neg e₂] at he
        exact hs.inj _ _ _ _ _ _ _ _ hn₁ hn₂ k₁ k₂ hv he
  · intro y hy
    rcases (Trees.ref_grow h hn hl hz hz0 y).1 hy with hy | rfl
    · exact hs.range y hy
    · exact hr

end Grow

/-! ## Truncation -/

/-- A walk of the file meets the zone. -/
def RefBy (T : Trees I) (i : I) (z : Nat) : Prop :=
  z ≠ 0 ∧ ∃ n l rest, n < maxBlock ∧ Leads T i n l rest ∧ T.val l = z

omit [DecidableEq I] in
theorem ref_iff {T : Trees I} {z : Nat} : Ref T z ↔ ∃ i, RefBy T i z := by
  constructor
  · intro h
    obtain ⟨hz, i, n, l, rest, h⟩ := h
    exact ⟨i, hz, n, l, rest, h⟩
  · intro h
    obtain ⟨i, hz, n, l, rest, h⟩ := h
    exact ⟨hz, i, n, l, rest, h⟩

section Truncate

omit [DecidableEq I]

variable {T T' : Trees I} {first nzones : Nat} {i j : I} {n m : Nat} {l : Loc I} {rest rest' : List Nat}

/-- A place is in one file's tree, and the walks there have come the same way. -/
theorem Sound.same_path (hs : Sound T first nzones) (h : Leads T i n l rest) (hn : n < maxBlock)
    (h' : Leads T j m l rest') (hm : m < maxBlock) :
    i = j ∧ ∃ k pre, path n = (k, pre ++ rest) ∧ path m = (k, pre ++ rest') := by
  induction h generalizing rest' with
  | root =>
    generalize hl : Loc.ino i (path n).1 = l at h'
    cases h' with
    | root =>
      injection hl with hi hk
      exact ⟨hi, (path n).1, [], rfl, by rw [hk]; rfl⟩
    | down => cases hl
  | @down l₀ w rest h₀ hz ih =>
    generalize hl : Loc.blk (T.val l₀) w = l at h'
    cases h' with
    | root => cases hl
    | @down l₁ w' _ h₁ hz' =>
      injection hl with he hw
      obtain rfl : l₀ = l₁ := hs.inj _ _ _ _ _ _ _ _ hn hm h₀ h₁ hz he
      obtain ⟨hi, k, pre, hp, hp'⟩ := ih h₁
      refine ⟨hi, k, pre ++ [w], ?_, ?_⟩
      · rw [hp, List.append_assoc]
        rfl
      · rw [hp', List.append_assoc, hw]
        rfl

theorem Sound.refBy_unique (hs : Sound T first nzones) {z : Nat} (h : RefBy T i z) (h' : RefBy T j z) : i = j := by
  obtain ⟨hz, n, l, rest, hn, hl, rfl⟩ := h
  obtain ⟨-, m, l', rest', hm, hl', he⟩ := h'
  obtain rfl : l = l' := hs.inj _ _ _ _ _ _ _ _ hn hm hl hl' hz he.symm
  exact (hs.same_path hl hn hl' hm).1

theorem path_inj (hn : n < maxBlock) (hm : m < maxBlock) (h : path n = path m) : n = m := by
  simp only [path, maxBlock] at *
  split at h <;> split at h <;> (try split at h) <;> (try split at h) <;>
    simp only [Prod.mk.injEq, List.cons.injEq, reduceCtorEq, and_false, and_true] at h <;> omega

/-- How long a path is says its first entry. -/
theorem path_rest {k : Nat} {pre rest : List Nat} (h : path m = (k, pre)) (h' : path n = (k, pre ++ rest)) :
    rest = [] := by
  have hlen : ∀ n, (path n).2.length = if (path n).1 < 7 then 0 else (path n).1 - 6 := by
    intro n
    unfold path
    split
    · simp [*]
    · split <;> simp
  have h1 := hlen n
  have h2 := hlen m
  rw [h'] at h1
  rw [h, ← h1] at h2
  simp only [List.length_append] at h2
  exact List.eq_nil_of_length_eq_zero (by omega)

/-- What growth does to the blocks: the one whose walk ends at the place gets the zone. -/
theorem Trees.bmap_grow_of_ne [DecidableEq I] (hs : Sound T first nzones) (h : Leads T i n l rest) (hn : n < maxBlock)
    (hl : T.val l = 0) {z : Nat} (hz : ¬Ref T z) (hz0 : z ≠ 0) (hm : m < maxBlock) (hne : rest = [] → (j, m) ≠ (i, n)) :
    (T.grow l z).bmap j m = T.bmap j m := by
  by_cases hb : T.bmap j m = 0
  · by_contra hb'
    rw [hb] at hb'
    obtain ⟨l', h', hv⟩ := Trees.exists_leads hb'
    rcases (Trees.leads_grow h hn hl hz hz0 hm).1 h' with hold | ⟨w, rfl, -⟩
    · rw [Trees.val_grow hz hm hold] at hv
      split at hv
      · rename_i he
        subst he
        obtain ⟨hji, k, pre, hp, hp'⟩ := hs.same_path hold hm h hn
        rw [List.append_nil] at hp
        have hrest := path_rest hp hp'
        rw [hrest, List.append_nil, ← hp] at hp'
        exact hne hrest (Prod.ext hji (path_inj hm hn hp'.symm))
      · rw [← hv, ← hold.bmap_end, hb] at hb'
        exact hb' rfl
    · rw [Trees.val_grow_new h hn hz w] at hv
      exact hb' hv.symm
  · exact Trees.bmap_grow h hn hl hz hz0 hm hb

/-- The zone of a block of a file is no indirect block. -/
theorem Sound.leaf_ne (hs : Sound T first nzones) {b w : Nat} (h : Leads T i n (.blk b w) rest) (hn : n < maxBlock)
    (hm : m < maxBlock) (hz : T.bmap j m ≠ 0) : T.bmap j m ≠ b := by
  intro e
  obtain ⟨l', h', hv⟩ := Trees.exists_leads hz
  generalize hl : Loc.blk b w = l at h
  cases h with
  | root => cases hl
  | @down l₀ w₀ _ h₀ hz₀ =>
    injection hl with hb hw
    obtain rfl : l₀ = l' := hs.inj _ _ _ _ _ _ _ _ hn hm h₀ h' hz₀ (by rw [hv, e, hb])
    obtain ⟨-, k, pre, hp, hp'⟩ := hs.same_path h₀ hn h' hm
    rw [List.append_nil] at hp'
    cases path_rest hp' hp

/-- The block of a zone that is neither the new one nor the one with the slot. -/
theorem Trees.blk_grow_of_ne [DecidableEq I] (T : Trees I) (l : Loc I) {y z : Nat} (hy : y ≠ z)
    (hl : ∀ w, l ≠ .blk y w) : (T.grow l z).blk y = T.blk y := by
  ext w
  have h := (T.clear z).val_set l (.blk y w) z
  rw [if_neg (hl w).symm, T.val_clear_of_ne fun v e => hy (by injection e)] at h
  exact h

/-- Growth takes no zone away from a tree, and adds one to the file's. -/
theorem RefBy.grow [DecidableEq I] (h : Leads T i n l rest) (hn : n < maxBlock) (hl : T.val l = 0) {z : Nat}
    (hz : ¬Ref T z) (hz0 : z ≠ 0) {y : Nat} (hy : RefBy T j y ∨ (j = i ∧ y = z)) : RefBy (T.grow l z) j y := by
  rcases hy with ⟨hy, m, l', rest', hm, h', hv⟩ | ⟨rfl, rfl⟩
  · refine ⟨hy, m, l', rest', hm, h.grow hn hl hz hz0 hm h', ?_⟩
    rw [Trees.val_grow hz hm h', if_neg]
    · exact hv
    · intro e
      exact hy (by rw [← hv, e, hl])
  · refine ⟨hz0, n, l, rest, hn, h.grow hn hl hz hz0 hn h, ?_⟩
    rw [Trees.val_grow hz hn h, if_pos rfl]

/-- The trees without the one of file `i`: its entries are 0, and of the blocks only its own are touched. -/
structure Pruned (T T' : Trees I) (i : I) : Prop where
  zone : ∀ j, j ≠ i → T'.zone j = T.zone j
  zero : ∀ k, k < 9 → T'.zone i k = 0
  blk : ∀ z, ¬RefBy T i z → T'.blk z = T.blk z

theorem path_lt (n : Nat) : (path n).1 < 9 := by
  unfold path
  split
  · omega
  · split <;> simp only <;> omega

/-- Where another file's walk is, nothing has changed. -/
theorem Pruned.val (hp : Pruned T T' i) (hs : Sound T first nzones) (hji : j ≠ i) (hn : n < maxBlock)
    (h : Leads T j n l rest) : T'.val l = T.val l := by
  cases h with
  | root => exact congrFun (hp.zone j hji) _
  | @down l₀ w _ h₀ hz =>
    refine congrFun (hp.blk _ fun hb => hji ?_) w
    exact hs.refBy_unique ⟨hz, n, l₀, _, hn, h₀, rfl⟩ hb

theorem Pruned.leads (hp : Pruned T T' i) (hs : Sound T first nzones) (hji : j ≠ i) (hn : n < maxBlock) :
    Leads T' j n l rest ↔ Leads T j n l rest := by
  constructor
  · intro h
    induction h with
    | root => exact .root
    | @down l₀ w rest _ hz ih =>
      rw [hp.val hs hji hn ih] at hz ⊢
      exact .down ih hz
  · intro h
    induction h with
    | root => exact .root
    | @down l₀ w rest h₀ hz ih =>
      have he := hp.val hs hji hn h₀
      have := Leads.down ih (by rw [he]; exact hz)
      rwa [he] at this

/-- The file itself has no zones left. -/
theorem Pruned.empty (hp : Pruned T T' i) (h : Leads T' i n l rest) : T'.val l = 0 := by
  induction h with
  | root => exact hp.zero _ (path_lt n)
  | down _ hz ih => exact absurd ih hz

theorem Pruned.refBy (hp : Pruned T T' i) (hs : Sound T first nzones) {z : Nat} :
    RefBy T' j z ↔ j ≠ i ∧ RefBy T j z := by
  constructor
  · intro h
    obtain ⟨hz, n, l, rest, hn, hl, rfl⟩ := h
    have hji : j ≠ i := by
      intro e
      subst e
      exact hz (hp.empty hl)
    have hl' := (hp.leads hs hji hn).1 hl
    have hv := hp.val hs hji hn hl'
    exact ⟨hji, hz, n, l, rest, hn, hl', hv.symm⟩
  · intro h
    obtain ⟨hji, hz, n, l, rest, hn, hl, rfl⟩ := h
    exact ⟨hz, n, l, rest, hn, (hp.leads hs hji hn).2 hl, hp.val hs hji hn hl⟩

/-- **Taking a tree away keeps the others sound.** -/
theorem Pruned.sound (hp : Pruned T T' i) (hs : Sound T first nzones) : Sound T' first nzones := by
  constructor
  · intro j n l rest j' n' l' rest' hn hn' hl hl' hz he
    have hji : j ≠ i := by
      intro e
      subst e
      exact hz (hp.empty hl)
    have hji' : j' ≠ i := by
      intro e
      subst e
      exact hz (he.trans (hp.empty hl'))
    have k := (hp.leads hs hji hn).1 hl
    have k' := (hp.leads hs hji' hn').1 hl'
    rw [hp.val hs hji hn k] at hz he
    rw [hp.val hs hji' hn' k'] at he
    exact hs.inj _ _ _ _ _ _ _ _ hn hn' k k' hz he
  · intro z hz
    obtain ⟨j, hj⟩ := ref_iff.1 hz
    exact hs.range z (ref_iff.2 ⟨j, ((hp.refBy hs).1 hj).2⟩)

theorem Trees.bmap_refBy (hn : n < maxBlock) (h : T.bmap i n ≠ 0) : RefBy T i (T.bmap i n) := by
  obtain ⟨l, hl, hv⟩ := Trees.exists_leads h
  exact ⟨h, n, l, [], hn, hl, hv⟩

theorem Pruned.bmap_self (hp : Pruned T T' i) (hs : Sound T first nzones) (hn : n < maxBlock) :
    T'.bmap i n = 0 := by
  by_contra h
  exact ((hp.refBy hs).1 (Trees.bmap_refBy hn h)).1 rfl

theorem Pruned.bmap_of_ne (hp : Pruned T T' i) (hs : Sound T first nzones) (hji : j ≠ i) (hn : n < maxBlock) :
    T'.bmap j n = T.bmap j n := by
  have hwalk : ∀ rest l, Leads T j n l rest → T'.walk l rest = T.walk l rest := by
    intro rest
    induction rest with
    | nil => exact fun l hl => hp.val hs hji hn hl
    | cons w rest ih =>
      intro l hl
      rw [Trees.walk, Trees.walk, hp.val hs hji hn hl]
      split
      · rfl
      · exact ih _ (.down hl ‹_›)
  exact hwalk _ _ .root

end Truncate

/-! ## Data -/

/-- The trees agree at every place a walk comes to. -/
structure SameSlots (T T' : Trees I) : Prop where
  zone : T'.zone = T.zone
  val : ∀ i n l rest, n < maxBlock → Leads T i n l rest → T'.val l = T.val l

section Data

omit [DecidableEq I]

variable {T T' : Trees I} {first nzones : Nat} {i j : I} {n m : Nat} {l : Loc I} {rest : List Nat}

theorem SameSlots.leads (h : SameSlots T T') (hn : n < maxBlock) : Leads T' i n l rest ↔ Leads T i n l rest := by
  constructor
  · intro hl
    induction hl with
    | root => exact .root
    | down _ hz ih =>
      rw [h.val _ _ _ _ hn ih] at hz ⊢
      exact .down ih hz
  · intro hl
    induction hl with
    | root => exact .root
    | down hl hz ih =>
      rw [← h.val _ _ _ _ hn hl] at hz ⊢
      exact .down ih hz

theorem SameSlots.walk (h : SameSlots T T') (hn : n < maxBlock) (hl : Leads T i n l rest) :
    T'.walk l rest = T.walk l rest := by
  have hv := h.val _ _ _ _ hn hl
  induction rest generalizing l with
  | nil => exact hv
  | cons w rest ih =>
    simp only [Trees.walk, hv]
    split
    · rfl
    · rename_i hz
      exact ih (.down hl hz) (h.val _ _ _ _ hn (.down hl hz))

theorem SameSlots.bmap (h : SameSlots T T') (hn : n < maxBlock) : T'.bmap i n = T.bmap i n := h.walk hn .root

theorem SameSlots.refBy (h : SameSlots T T') {z : Nat} : RefBy T' i z ↔ RefBy T i z := by
  constructor
  · intro hr
    obtain ⟨hz, n, l, rest, hn, hl, rfl⟩ := hr
    have hl' := (h.leads hn).1 hl
    exact ⟨hz, n, l, rest, hn, hl', (h.val _ _ _ _ hn hl').symm⟩
  · intro hr
    obtain ⟨hz, n, l, rest, hn, hl, rfl⟩ := hr
    exact ⟨hz, n, l, rest, hn, (h.leads hn).2 hl, h.val _ _ _ _ hn hl⟩

theorem SameSlots.ref (h : SameSlots T T') {z : Nat} : Ref T' z ↔ Ref T z := by
  simp only [ref_iff, h.refBy]

theorem SameSlots.sound (h : SameSlots T T') (hs : Sound T first nzones) : Sound T' first nzones where
  inj i n l rest i' n' l' rest' hn hn' hl hl' hz he := by
    have hl := (h.leads hn).1 hl
    have hl' := (h.leads hn').1 hl'
    rw [h.val _ _ _ _ hn hl] at hz he
    rw [h.val _ _ _ _ hn' hl'] at he
    exact hs.inj _ _ _ _ _ _ _ _ hn hn' hl hl' hz he
  range z hz := hs.range z (h.ref.1 hz)

/-- What is stored in a block of data is in no tree. -/
theorem Sound.data (hs : Sound T first nzones) (hm : m < maxBlock) (hz : T.bmap j m ≠ 0) (f : Nat → Nat) :
    SameSlots T { T with blk := Function.update T.blk (T.bmap j m) f } where
  zone := rfl
  val i n l rest hn hl := by
    cases l with
    | ino i k => rfl
    | blk b w =>
      have hne := hs.leaf_ne hl hn hm hz
      simp [Trees.val, Function.update_of_ne (Ne.symm hne)]

end Data

end Linux011.Fs
