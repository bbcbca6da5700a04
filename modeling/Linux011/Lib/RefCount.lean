/-
Reference counts, over any finite type of reference slots.

A store of references is a function from slots to what each slot names, if
anything. The count of an object is the number of slots naming it, and the
lemmas say what a count does when one slot changes: a slot filled, emptied,
or its reference moved to another slot. A program that keeps a counter per
object keeps it exact when each of its steps is one of these.
-/
import Mathlib.Data.Fintype.Card
import Mathlib.Data.Finset.Card
import Mathlib.Logic.Function.Basic

namespace RefCount

variable {R F : Type*} [Fintype R] [DecidableEq F]

/-- The slots naming `n`. -/
def refs (f : R → Option F) (n : F) : Finset R := Finset.univ.filter fun r => f r = some n

/-- How many slots name `n`. -/
def count (f : R → Option F) (n : F) : Nat := (refs f n).card

@[simp] theorem mem_refs {f : R → Option F} {n : F} {r : R} : r ∈ refs f n ↔ f r = some n := by
  simp [refs]

theorem count_pos {f : R → Option F} {n : F} : 0 < count f n ↔ ∃ r, f r = some n := by
  simp [count, Finset.card_pos, Finset.Nonempty]

theorem count_eq_zero {f : R → Option F} {n : F} : count f n = 0 ↔ ∀ r, f r ≠ some n := by
  simp [count, Finset.eq_empty_iff_forall_notMem]

theorem count_congr {f g : R → Option F} {n : F} (h : ∀ r, f r = some n ↔ g r = some n) :
    count f n = count g n := by
  unfold count
  congr 1
  ext r
  simp [h r]

/-- An object named once is named by that slot alone. -/
theorem eq_of_count_le_one {f : R → Option F} {r r' : R} {n : F} (hc : count f n ≤ 1)
    (h : f r = some n) (h' : f r' = some n) : r' = r :=
  Finset.card_le_one.mp hc r' (by simpa using h') r (by simpa using h)

theorem count_eq_one {f : R → Option F} {r : R} {n : F} (h : f r = some n)
    (hu : ∀ r', f r' = some n → r' = r) : count f n = 1 := by
  have : refs f n = {r} := by
    ext r'
    simp only [mem_refs, Finset.mem_singleton]
    exact ⟨hu r', fun e => e ▸ h⟩
  simp [count, this]

/-- A count is bounded by the number of keys when the slots naming `n` have distinct keys. -/
theorem count_le_card {K : Type*} [Fintype K] {f : R → Option F} {n : F} (key : R → K)
    (hinj : ∀ r r', f r = some n → f r' = some n → key r = key r' → r = r') :
    count f n ≤ Fintype.card K := by
  refine Finset.card_le_card_of_injOn key (fun r _ => Finset.mem_univ _) ?_
  intro r hr r' hr' hk
  exact hinj r r' (by simpa using hr) (by simpa using hr') hk

variable [DecidableEq R]

/-- Filling an empty slot. -/
theorem count_fill {f : R → Option F} {r : R} (h : f r = none) (m n : F) :
    count (Function.update f r (some m)) n = count f n + if n = m then 1 else 0 := by
  by_cases hn : n = m
  · subst hn
    have : refs (Function.update f r (some n)) n = insert r (refs f n) := by
      ext r'
      by_cases hr : r' = r
      · subst hr; simp
      · simp [hr]
    simp [count, this, Finset.card_insert_of_notMem, h]
  · simp only [if_neg hn, Nat.add_zero]
    apply count_congr
    intro r'
    by_cases hr : r' = r
    · subst hr; simp [h, Ne.symm hn]
    · simp [hr]

/-- Emptying a slot. -/
theorem count_clear {f : R → Option F} {r : R} {m : F} (h : f r = some m) (n : F) :
    count (Function.update f r none) n + (if n = m then 1 else 0) = count f n := by
  have hr : Function.update f r none r = none := by simp
  have := count_fill hr m n
  rw [Function.update_idem, ← h, Function.update_eq_self] at this
  exact this.symm

/-- A slot that names neither before nor after. -/
theorem count_update_ne {f : R → Option F} {r : R} {v : Option F} {n : F} (h : f r ≠ some n)
    (hv : v ≠ some n) : count (Function.update f r v) n = count f n := by
  apply count_congr
  intro r'
  by_cases hr : r' = r
  · subst hr; simp [h, hv]
  · simp [hr]

/-- Moving a reference from one slot to another keeps every count. -/
theorem count_move {f : R → Option F} {r r' : R} {m : F} (h : f r = some m) (h' : f r' = none) (n : F) :
    count (Function.update (Function.update f r none) r' (some m)) n = count f n := by
  have hne : r' ≠ r := fun e => by rw [e, h] at h'; cases h'
  rw [count_fill (by simp [hne, h'])]
  exact count_clear h n

end RefCount
