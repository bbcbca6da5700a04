/-
Singly linked lists in a table of cells.

A cell's link is a field of the table, so an update of one cell may change any
list. `Links` says which cells the links from a pointer go through, to the null
pointer; such a list has no cycle, and the lemmas say what becomes of it when its head
is taken off, a cell elsewhere changes, or a cell is linked in behind another one.
-/
import Mathlib.Data.List.Perm.Basic
import Mathlib.Logic.Function.Basic
import Mathlib.Tactic.Common

namespace Cells

variable {P : Type*}

/-- From `p` the links go through the cells of the list, and end. -/
def Links (next : P → Option P) : Option P → List P → Prop
  | p, [] => p = none
  | p, x :: l => p = some x ∧ Links next (next x) l

theorem Links.congr {next next' : P → Option P} {p : Option P} {l : List P} (h : Links next p l)
    (hn : ∀ x ∈ l, next' x = next x) : Links next' p l := by
  induction l generalizing p with
  | nil => exact h
  | cons x l ih =>
    obtain ⟨hp, h⟩ := h
    refine ⟨hp, ?_⟩
    rw [hn x List.mem_cons_self]
    exact ih h fun y hy => hn y (List.mem_cons_of_mem _ hy)

theorem Links.eq_none {next : P → Option P} {l : List P} (h : Links next none l) : l = [] := by
  cases l with
  | nil => rfl
  | cons x l => cases h.1

theorem Links.eq_cons {next : P → Option P} {x : P} {l : List P} (h : Links next (some x) l) :
    ∃ l', l = x :: l' ∧ Links next (next x) l' := by
  cases l with
  | nil => cases h
  | cons y l =>
    obtain rfl := Option.some.inj h.1
    exact ⟨l, rfl, h.2⟩

/-- The cells from a pointer on, `n` at most. -/
def walk (next : P → Option P) : Nat → Option P → List P
  | 0, _ => []
  | _ + 1, none => []
  | n + 1, some x => x :: walk next n (next x)

theorem Links.walk_eq {next : P → Option P} {n : Nat} {p : Option P} {l : List P} (h : Links next p l) (hn : l.length ≤ n) :
    walk next n p = l := by
  induction l generalizing n p with
  | nil =>
    obtain rfl : p = none := h
    cases n <;> rfl
  | cons x l ih =>
    obtain ⟨rfl, h⟩ := h
    cases n with
    | zero => exact absurd hn (Nat.not_succ_le_zero _)
    | succ n => rw [walk, ih h (Nat.le_of_succ_le_succ hn)]

/-! ## Insertion -/

/-- The first cell from `x` on that is the last, or stops before the next one. -/
def seek (stop : P → P → Bool) (next : P → Option P) : Nat → P → P
  | 0, x => x
  | n + 1, x =>
    match next x with
    | none => x
    | some z => if stop x z then x else seek stop next n z

/-- `y` linked in behind `x`. -/
def insertBehind [DecidableEq P] (next : P → Option P) (x y : P) : P → Option P :=
  Function.update (Function.update next y (next x)) x (some y)

/-- `y` put into a list, at the place `seek` finds. -/
def place (stop : P → P → Bool) (y : P) : List P → List P
  | [] => [y]
  | [x] => [x, y]
  | x :: z :: l => if stop x z then x :: y :: z :: l else x :: place stop y (z :: l)

theorem place_perm (stop : P → P → Bool) (y : P) (l : List P) : (place stop y l).Perm (y :: l) := by
  induction l with
  | nil => exact .refl _
  | cons x l ih =>
    cases l with
    | nil => exact .swap _ _ _
    | cons z l =>
      unfold place
      split
      · exact .swap _ _ _
      · exact (ih.cons x).trans (.swap _ _ _)

/-- Nothing is put before the head. -/
theorem place_head (stop : P → P → Bool) (y x : P) (l : List P) : ∃ l', place stop y (x :: l) = x :: l' := by
  cases l with
  | nil => exact ⟨_, rfl⟩
  | cons z l =>
    unfold place
    split <;> exact ⟨_, rfl⟩

theorem seek_mem (stop : P → P → Bool) {next : P → Option P} (n : Nat) {x : P} {l : List P}
    (h : Links next (some x) (x :: l)) : seek stop next n x ∈ x :: l := by
  induction n generalizing x l with
  | zero => exact List.mem_cons_self
  | succ n ih =>
    unfold seek
    split
    · exact List.mem_cons_self
    · rename_i z hz
      split
      · exact List.mem_cons_self
      · obtain ⟨-, hl⟩ := h
        rw [hz] at hl
        obtain ⟨l', rfl, hl'⟩ := hl.eq_cons
        exact List.mem_cons_of_mem _ (ih ⟨rfl, hl'⟩)

theorem links_insert [DecidableEq P] {stop : P → P → Bool} {next : P → Option P} {n : Nat} {x y : P} {l : List P}
    (h : Links next (some x) (x :: l)) (hd : (x :: l).Nodup) (hy : y ∉ x :: l) (hn : l.length ≤ n) :
    Links (insertBehind next (seek stop next n x) y) (some x) (place stop y (x :: l)) := by
  induction l generalizing x n with
  | nil =>
    have hx : next x = none := h.2
    have hxy : x ≠ y := fun e => hy (e ▸ List.mem_cons_self)
    have hseek : seek stop next n x = x := by
      cases n with
      | zero => rfl
      | succ n => rw [seek, hx]
    rw [hseek]
    refine ⟨rfl, by simp [insertBehind], ?_⟩
    show insertBehind next x y y = none
    simp [insertBehind, Function.update_of_ne (Ne.symm hxy), hx]
  | cons z l ih =>
    obtain ⟨n, rfl⟩ : ∃ m, n = m + 1 := ⟨n - 1, by simp at hn; omega⟩
    have hx : next x = some z := h.2.1
    have hxy : x ≠ y := fun e => hy (e ▸ List.mem_cons_self)
    have hxl : x ∉ z :: l := (List.nodup_cons.1 hd).1
    have hyl : y ∉ z :: l := fun hm => hy (List.mem_cons_of_mem _ hm)
    unfold seek place
    rw [hx]
    simp only
    split
    · refine ⟨rfl, by simp [insertBehind], ?_⟩
      have hny : insertBehind next x y y = some z := by
        simp [insertBehind, Function.update_of_ne (Ne.symm hxy), hx]
      rw [hny]
      refine Links.congr ⟨rfl, h.2.2⟩ fun w hw => ?_
      have hwx : w ≠ x := ne_of_mem_of_not_mem hw hxl
      have hwy : w ≠ y := ne_of_mem_of_not_mem hw hyl
      rw [insertBehind, Function.update_of_ne hwx, Function.update_of_ne hwy]
    · have hmem := seek_mem stop n (x := z) ⟨rfl, h.2.2⟩
      have hnx : insertBehind next (seek stop next n z) y x = some z := by
        rw [insertBehind, Function.update_of_ne (ne_of_mem_of_not_mem hmem hxl).symm, Function.update_of_ne hxy, hx]
      refine ⟨rfl, ?_⟩
      rw [hnx]
      exact ih ⟨rfl, h.2.2⟩ (List.nodup_cons.1 hd).2 hyl (by simpa using hn)

end Cells
