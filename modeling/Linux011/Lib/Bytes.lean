/-
Byte memories: runs of bytes, longs in little-endian order, and strings that end with 0.

A memory gives the byte at an address, or nothing where nothing is mapped. A
table of strings can be anywhere in it (`Vec`: the pointers, and what they
point to), or be laid out (`Laid`: the pointers are those of strings that lie one
behind the other). `Keeps lo hi` is the frame rule: what a program that
writes between `lo` and `hi` leaves alone.
-/
import Mathlib.Tactic.Common

namespace Bytes

/-- The byte at an address. -/
abbrev Memory := Nat → Option UInt8

variable {u u' u'' : Memory} {a lo hi : Nat} {l l' : List UInt8}

/-- The bytes `l` lie from `a` on. -/
def Spells (u : Memory) : Nat → List UInt8 → Prop
  | _, [] => True
  | a, b :: l => u a = some b ∧ Spells u (a + 1) l

@[simp] theorem spells_nil : Spells u a [] := trivial

@[simp] theorem spells_cons {b : UInt8} : Spells u a (b :: l) ↔ u a = some b ∧ Spells u (a + 1) l := Iff.rfl

theorem spells_append : Spells u a (l ++ l') ↔ Spells u a l ∧ Spells u (a + l.length) l' := by
  induction l generalizing a with
  | nil => simp
  | cons b l ih =>
    rw [List.cons_append, spells_cons, spells_cons, ih, and_assoc, List.length_cons, Nat.add_right_comm a 1, Nat.add_assoc a]

theorem spells_iff : Spells u a l ↔ ∀ k (h : k < l.length), u (a + k) = some l[k] := by
  induction l generalizing a with
  | nil => simp
  | cons b l ih =>
    rw [spells_cons, ih]
    constructor
    · intro h k hk
      cases k with
      | zero => exact h.1
      | succ k =>
        rw [List.getElem_cons_succ, ← h.2 k (Nat.lt_of_succ_lt_succ hk), Nat.add_right_comm a 1 k]
        rfl
    · intro h
      refine ⟨h 0 (Nat.zero_lt_succ _), fun k hk => ?_⟩
      rw [Nat.add_right_comm, Nat.add_assoc]
      exact h (k + 1) (Nat.succ_lt_succ hk)

/-- There is one run of a length at an address. -/
theorem Spells.inj (h : Spells u a l) (h' : Spells u a l') (hlen : l.length = l'.length) : l = l' := by
  refine List.ext_getElem hlen fun k hk hk' => ?_
  exact Option.some.inj ((spells_iff.1 h k hk).symm.trans (spells_iff.1 h' k hk'))

/-- A run of one byte. -/
theorem spells_replicate {b : UInt8} {n : Nat} (h : ∀ k < n, u (a + k) = some b) : Spells u a (List.replicate n b) :=
  spells_iff.2 fun k hk => by
    rw [List.getElem_replicate]
    exact h k (by simpa using hk)

/-! ## What is left alone -/

/-- The bytes below `lo` and from `hi` on stay. -/
def Keeps (lo hi : Nat) (u u' : Memory) : Prop := ∀ x b, u x = some b → x < lo ∨ hi ≤ x → u' x = some b

theorem Keeps.refl : Keeps lo hi u u := fun _ _ h _ => h

theorem Keeps.trans (h : Keeps lo hi u u') (h' : Keeps lo hi u' u'') : Keeps lo hi u u'' :=
  fun x b hx hout => h' x b (h x b hx hout) hout

theorem Keeps.mono {lo' hi' : Nat} (h : Keeps lo hi u u') (hlo : lo' ≤ lo) (hhi : hi ≤ hi') : Keeps lo' hi' u u' :=
  fun x b hx hout => h x b hx (by omega)

theorem Spells.keeps (h : Spells u a l) (hk : Keeps lo hi u u') (hout : a + l.length ≤ lo ∨ hi ≤ a) : Spells u' a l :=
  spells_iff.2 fun k hlt => hk _ _ (spells_iff.1 h k hlt) (by omega)

/-! ## Longs -/

/-- The bytes of a long. -/
def le32 (v : Nat) : List UInt8 :=
  [UInt8.ofNat v, UInt8.ofNat (v / 256), UInt8.ofNat (v / 65536), UInt8.ofNat (v / 16777216)]

/-- The long with these bytes. -/
def long (b₀ b₁ b₂ b₃ : UInt8) : Nat := b₀.toNat + 256 * b₁.toNat + 65536 * b₂.toNat + 16777216 * b₃.toNat

@[simp] theorem le32_length (v : Nat) : (le32 v).length = 4 := rfl

theorem long_le32 {v : Nat} (hv : v < 4294967296) :
    long (UInt8.ofNat v) (UInt8.ofNat (v / 256)) (UInt8.ofNat (v / 65536)) (UInt8.ofNat (v / 16777216)) = v := by
  simp only [long, UInt8.toNat_ofNat']
  omega

/-- There is one long at an address. -/
theorem Spells.long_inj {v v' : Nat} (h : Spells u a (le32 v)) (h' : Spells u a (le32 v')) (hv : v < 4294967296) (hv' : v' < 4294967296) :
    v = v' := by
  have hl : le32 v = le32 v' := h.inj h' rfl
  simp only [le32, List.cons.injEq, and_true] at hl
  rw [← long_le32 hv, ← long_le32 hv', hl.1, hl.2.1, hl.2.2.1, hl.2.2.2]

/-! ## Strings -/

/-- The strings, one behind the other. -/
def flat (xs : List (List UInt8)) : List UInt8 := xs.flatMap (· ++ [0])

@[simp] theorem flat_nil : flat [] = [] := rfl

@[simp] theorem flat_cons (x : List UInt8) (xs : List (List UInt8)) : flat (x :: xs) = x ++ 0 :: flat xs := by
  simp [flat]

@[simp] theorem flat_append (xs ys : List (List UInt8)) : flat (xs ++ ys) = flat xs ++ flat ys := by
  simp [flat]

/-- A string has at least its 0. -/
theorem length_le_flat (xs : List (List UInt8)) : xs.length ≤ (flat xs).length := by
  induction xs with
  | nil => exact Nat.le_refl 0
  | cons x xs ih =>
    rw [flat_cons, List.length_append, List.length_cons, List.length_cons]
    omega

/-- There are pointers at `a` in `u`, to these strings in `u'`. -/
def Strings (u u' : Memory) (a : Nat) (xs : List (List UInt8)) : Prop :=
  ∀ i (h : i < xs.length), 0 ∉ xs[i] ∧ ∃ q, q < 4294967296 ∧ Spells u (a + 4 * i) (le32 q) ∧ Spells u' q (xs[i] ++ [0])

theorem Strings.init {xs : List (List UInt8)} {x : List UInt8} (h : Strings u u' a (xs ++ [x])) : Strings u u' a xs := by
  intro i hi
  have := h i (by rw [List.length_append]; omega)
  rwa [List.getElem_append_left hi] at this

theorem Strings.last {xs : List (List UInt8)} {x : List UInt8} (h : Strings u u' a (xs ++ [x])) :
    0 ∉ x ∧ ∃ q, q < 4294967296 ∧ Spells u (a + 4 * xs.length) (le32 q) ∧ Spells u' q (x ++ [0]) := by
  have := h xs.length (by simp)
  rwa [List.getElem_concat_length] at this
  rfl

theorem Strings.tail {xs : List (List UInt8)} {x : List UInt8} (h : Strings u u' a (x :: xs)) : Strings u u' (a + 4) xs := by
  intro i hi
  have := h (i + 1) (Nat.succ_lt_succ hi)
  rwa [List.getElem_cons_succ, Nat.mul_add, Nat.mul_one, Nat.add_comm (4 * i), ← Nat.add_assoc] at this

/-- A table of strings at `a`, up to the first null pointer. -/
structure Vec (u : Memory) (a : Nat) (xs : List (List UInt8)) : Prop where
  strings : Strings u u a xs
  ne_null : ∀ i < xs.length, ¬Spells u (a + 4 * i) (le32 0)
  null : Spells u (a + 4 * xs.length) (le32 0)

theorem Vec.tail {xs : List (List UInt8)} {x : List UInt8} (h : Vec u a (x :: xs)) : Vec u (a + 4) xs where
  strings := h.strings.tail
  ne_null i hi := by
    have := h.ne_null (i + 1) (Nat.succ_lt_succ hi)
    rwa [Nat.mul_add, Nat.mul_one, Nat.add_comm (4 * i), ← Nat.add_assoc] at this
  null := by
    have := h.null
    rwa [List.length_cons, Nat.mul_add, Nat.mul_one, Nat.add_comm (4 * xs.length), ← Nat.add_assoc] at this

/-- The pointer to the first string. -/
theorem Vec.head {xs : List (List UInt8)} {x : List UInt8} (h : Vec u a (x :: xs)) :
    ∃ q, q ≠ 0 ∧ q < 4294967296 ∧ Spells u a (le32 q) := by
  obtain ⟨-, q, hlt, hp, -⟩ := h.strings 0 (Nat.zero_lt_succ _)
  exact ⟨q, fun e => h.ne_null 0 (Nat.zero_lt_succ _) (e ▸ hp), hlt, hp⟩

/-- A table at `a` for strings that lie one behind the other from `q` on. -/
def Laid (u : Memory) : Nat → Nat → List (List UInt8) → Prop
  | a, _, [] => Spells u a (le32 0)
  | a, q, x :: xs => Spells u a (le32 q) ∧ Spells u q (x ++ [0]) ∧ Laid u (a + 4) (q + x.length + 1) xs

/-- A change outside of the table and of the strings. -/
theorem Laid.keeps {q : Nat} {xs : List (List UInt8)} (h : Laid u a q xs) (hk : Keeps lo hi u u')
    (ht : a + 4 * (xs.length + 1) ≤ lo ∨ hi ≤ a) (hs : q + (flat xs).length ≤ lo ∨ hi ≤ q) : Laid u' a q xs := by
  induction xs generalizing a q with
  | nil => exact Spells.keeps h hk (by simpa using ht)
  | cons x xs ih =>
    obtain ⟨hp, hx, h⟩ := h
    rw [flat_cons, List.length_append, List.length_cons] at hs
    rw [List.length_cons] at ht
    refine ⟨hp.keeps hk ?_, hx.keeps hk ?_, ih h ?_ ?_⟩
    · rw [le32_length]
      omega
    · rw [List.length_append, List.length_singleton]
      omega
    · omega
    · omega

end Bytes
