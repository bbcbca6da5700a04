/-
Lists of delays, each from the entry before it on.
-/
import Mathlib.Tactic.TypeStar

namespace Delta

variable {F : Type*} {t : Int} {l : List (Int × F)}

/-- When the entries are due, if the first delay counts from `t` on. -/
def due (t : Int) : List (Int × F) → List (Int × F)
  | [] => []
  | (d, f) :: l => (t + d, f) :: due (t + d) l

/-- All delays together. -/
def total : List (Int × F) → Int
  | [] => 0
  | (d, _) :: l => d + total l

theorem due_concat (t : Int) (l : List (Int × F)) (d : Int) (f : F) :
    due t (l ++ [(d, f)]) = due t l ++ [(t + total l + d, f)] := by
  induction l generalizing t with
  | nil => simp [due, total]
  | cons x l ih =>
    obtain ⟨e, g⟩ := x
    rw [List.cons_append, due, due, ih, total, List.cons_append, Int.add_assoc t e]

theorem map_snd_due (t : Int) (l : List (Int × F)) : (due t l).map Prod.snd = l.map Prod.snd := by
  induction l generalizing t with
  | nil => rfl
  | cons x l ih =>
    obtain ⟨d, f⟩ := x
    rw [due, List.map_cons, List.map_cons, ih]

/-- A time has passed, and the first delay is shorter by it. -/
theorem due_pass (t d e : Int) (f : F) (l : List (Int × F)) : due (t + e) ((d - e, f) :: l) = due t ((d, f) :: l) := by
  have : t + e + (d - e) = t + d := by omega
  rw [due, due, this]

/-- Nothing is due before its predecessors. -/
theorem le_of_mem_due (h : ∀ x ∈ l, 0 ≤ x.1) {x : Int × F} (hx : x ∈ due t l) : t ≤ x.1 := by
  induction l generalizing t with
  | nil => cases hx
  | cons y l ih =>
    obtain ⟨d, f⟩ := y
    have hd := h (d, f) List.mem_cons_self
    rcases List.mem_cons.1 hx with rfl | hx
    · exact Int.le_add_of_nonneg_right hd
    · exact Int.le_trans (Int.le_add_of_nonneg_right hd) (ih (fun x hx => h x (List.mem_cons_of_mem _ hx)) hx)

theorem total_nonneg (h : ∀ x ∈ l, 0 ≤ x.1) : 0 ≤ total l := by
  induction l with
  | nil => exact Int.le_refl 0
  | cons y l ih =>
    obtain ⟨d, f⟩ := y
    exact Int.add_nonneg (h (d, f) List.mem_cons_self) (ih fun x hx => h x (List.mem_cons_of_mem _ hx))

/-- The last entry is due after all delays. -/
theorem total_mem_due (hl : l ≠ []) : ∃ f, (t + total l, f) ∈ due t l := by
  induction l generalizing t with
  | nil => exact absurd rfl hl
  | cons x l ih =>
    obtain ⟨d, f⟩ := x
    cases l with
    | nil => exact ⟨f, by simp [due, total]⟩
    | cons y l =>
      obtain ⟨g, hg⟩ := ih (t := t + d) (List.cons_ne_nil y l)
      refine ⟨g, List.mem_cons_of_mem _ ?_⟩
      rw [total, ← Int.add_assoc]
      exact hg

end Delta
