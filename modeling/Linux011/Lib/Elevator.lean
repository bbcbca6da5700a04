/-
The insertion of an elevator: a new element goes between two neighbours that it
fits between, or to the front of the sweep that starts where two neighbours
are out of order, or to the end (`Cells.place` with `Elevator.stop`).

A list with one pair out of order keeps to one such pair. If some elements are
urgent, and in the order before all others, then those that are not urgent are
never put before one that is; but an urgent one may come too late.
-/
import Linux011.Lib.Cells
import Mathlib.Data.List.Chain

namespace Elevator

open Cells (place place_head place_perm)

variable {P : Type*} (lt : P → P → Bool)

/-- Between `x` and `z` is the place of `y`. -/
def stop (y x z : P) : Bool := (lt x y || !lt x z) && lt y z

/-- How many neighbours are out of order. -/
def descents : List P → Nat
  | [] => 0
  | [_] => 0
  | x :: z :: l => (if lt x z then 0 else 1) + descents (z :: l)

theorem descents_tail_le (x : P) (l : List P) : descents lt l ≤ descents lt (x :: l) := by
  cases l with
  | nil => exact Nat.le_refl 0
  | cons z l => exact Nat.le_add_left _ _

/-- In order all along. -/
theorem isChain_of_descents {l : List P} (h : descents lt l = 0) : l.IsChain fun x z => lt x z = true := by
  induction l with
  | nil => exact .nil
  | cons x l ih =>
    cases l with
    | nil => exact .singleton x
    | cons z l =>
      rw [descents] at h
      split at h
      · rename_i hlt
        exact .cons_cons hlt (ih (by omega))
      · omega

/-- Two sweeps at most. -/
theorem exists_runs {l : List P} (h : descents lt l ≤ 1) :
    ∃ a b, l = a ++ b ∧ (a.IsChain fun x z => lt x z = true) ∧ b.IsChain fun x z => lt x z = true := by
  induction l with
  | nil => exact ⟨[], [], rfl, .nil, .nil⟩
  | cons x l ih =>
    cases l with
    | nil => exact ⟨[x], [], rfl, .singleton x, .nil⟩
    | cons z l =>
      rw [descents] at h
      split at h
      · rename_i hlt
        obtain ⟨a, b, hl, ha, hb⟩ := ih (by omega)
        cases a with
        | nil =>
          -- the whole list is one sweep
          refine ⟨[], x :: z :: l, rfl, .nil, ?_⟩
          rw [List.nil_append] at hl
          rw [hl.symm] at hb
          exact .cons_cons hlt hb
        | cons w a =>
          obtain ⟨rfl, rfl⟩ := List.cons.inj hl
          exact ⟨x :: z :: a, b, rfl, .cons_cons hlt ha, hb⟩
      · exact ⟨[x], z :: l, rfl, .singleton x, isChain_of_descents lt (by omega)⟩

/-! ## Insertion -/

section Insertion

variable {lt} {y : P}

/-- Into one sweep, behind its first element. -/
theorem descents_place_run {z : P} {l : List P} (htri : ∀ w ∈ z :: l, lt y w = false → lt w y = true)
    (h : descents lt (z :: l) = 0) (hz : lt z y = true) : descents lt (place (stop lt y) y (z :: l)) = 0 := by
  induction l generalizing z with
  | nil =>
    rw [place, descents, if_pos hz]
    rfl
  | cons w l ih =>
    rw [descents] at h
    split at h
    · rename_i hzw
      rw [place]
      split
      · rename_i hs
        have hyw : lt y w = true := (Bool.and_eq_true_iff.1 hs).2
        rw [descents, if_pos hz, descents, if_pos hyw]
        omega
      · rename_i hs
        have hyw : lt y w = false := by
          rw [stop, hz, Bool.true_or, Bool.true_and] at hs
          exact Bool.eq_false_iff.2 hs
        have hwy := htri w (List.mem_cons_of_mem _ List.mem_cons_self) hyw
        have hrest := ih (fun v hv => htri v (List.mem_cons_of_mem _ hv)) (by omega) hwy
        obtain ⟨m, hm⟩ := place_head (stop lt y) y w l
        rw [hm] at hrest ⊢
        rw [descents, if_pos hzw, hrest]
    · omega

/-- **One pair out of order stays one.** -/
theorem descents_place {l : List P} (htri : ∀ w ∈ l, lt y w = false → lt w y = true) (h : descents lt l ≤ 1) :
    descents lt (place (stop lt y) y l) ≤ 1 := by
  induction l with
  | nil => exact Nat.zero_le 1
  | cons x l ih =>
    cases l with
    | nil =>
      rw [place, descents, descents]
      split <;> omega
    | cons z l =>
      have htri' : ∀ w ∈ z :: l, lt y w = false → lt w y = true := fun w hw => htri w (List.mem_cons_of_mem _ hw)
      obtain ⟨m, hm⟩ := place_head (stop lt y) y z l
      rw [descents] at h
      rw [place]
      split at h
      · rename_i hxz
        split
        · rename_i hs
          rw [stop, hxz, Bool.not_true, Bool.or_false, Bool.and_eq_true] at hs
          rw [descents, if_pos hs.1, descents, if_pos hs.2]
          omega
        · have hrest := ih htri' (by omega)
          rw [hm] at hrest ⊢
          rw [descents, if_pos hxz]
          omega
      · rename_i hxz
        have hxz : lt x z = false := Bool.eq_false_iff.2 hxz
        have hrun : descents lt (z :: l) = 0 := by omega
        split
        · rename_i hs
          have hyz : lt y z = true := (Bool.and_eq_true_iff.1 hs).2
          rw [descents, descents, if_pos hyz, hrun]
          split <;> omega
        · rename_i hs
          have hyz : lt y z = false := by
            rw [stop, hxz, Bool.not_false, Bool.or_true, Bool.true_and] at hs
            exact Bool.eq_false_iff.2 hs
          have hrest := descents_place_run htri' hrun (htri' z List.mem_cons_self hyz)
          rw [hm] at hrest ⊢
          rw [descents, hrest]
          split <;> omega

end Insertion

/-! ## Urgency -/

section Urgent

variable (urgent : P → Bool)

/-- No element that is not urgent precedes one that is. -/
def UrgentFirst (l : List P) : Prop := l.Pairwise fun a b => urgent b = true → urgent a = true

/-- From `x` on, before the first element that is not urgent, or there, neighbours are out of order. -/
def broken : P → List P → Bool
  | _, [] => false
  | x, z :: l => !lt x z || (urgent z && broken z l)

variable {lt urgent} {y : P}

/-- What stands behind the first element after an insertion. -/
theorem exists_place (stop : P → P → Bool) (y x : P) (l : List P) :
    ∃ m, place stop y (x :: l) = x :: m ∧ m.Perm (y :: l) := by
  obtain ⟨m, hm⟩ := place_head stop y x l
  have hp := place_perm stop y (x :: l)
  rw [hm] at hp
  exact ⟨m, hm, (List.perm_cons x).1 (hp.trans (.swap _ _ _))⟩

theorem UrgentFirst.place_all (hy : urgent y = true) {x : P} {l : List P} (hl : ∀ w ∈ l, urgent w = true) :
    ∃ m, place (stop lt y) y (x :: l) = x :: m ∧ UrgentFirst urgent m := by
  obtain ⟨m, hm, hp⟩ := exists_place (stop lt y) y x l
  refine ⟨m, hm, List.Pairwise.imp_of_mem (fun {a _} ha _ _ _ => ?_) (List.pairwise_of_forall fun _ _ => trivial)⟩
  rcases List.mem_cons.1 (hp.mem_iff.1 ha) with rfl | ha
  · exact hy
  · exact hl a ha

theorem UrgentFirst.place_other (hlt : ∀ a b, lt a b = true → urgent b = true → urgent a = true) (hy : urgent y = false)
    {x : P} {l : List P} (h : UrgentFirst urgent l) : ∃ m, place (stop lt y) y (x :: l) = x :: m ∧ UrgentFirst urgent m := by
  induction l generalizing x with
  | nil => exact ⟨[y], rfl, List.pairwise_singleton _ _⟩
  | cons z l ih =>
    rw [place]
    split
    · rename_i hs
      have hz : urgent z = false := by
        refine Bool.eq_false_iff.2 fun hz => ?_
        rw [hlt y z (Bool.and_eq_true_iff.1 hs).2 hz] at hy
        cases hy
      refine ⟨y :: z :: l, rfl, List.pairwise_cons.2 ⟨fun b hb hu => ?_, h⟩⟩
      -- behind `z` nothing is urgent
      rcases List.mem_cons.1 hb with rfl | hb
      · rw [hz] at hu
        cases hu
      · rw [(List.pairwise_cons.1 h).1 b hb hu] at hz
        cases hz
    · obtain ⟨m, hm, hu⟩ := ih (x := z) (List.pairwise_cons.1 h).2
      refine ⟨z :: m, by rw [hm], List.pairwise_cons.2 ⟨fun b hb hub => ?_, hu⟩⟩
      obtain ⟨m', hm', hp⟩ := exists_place (stop lt y) y z l
      obtain rfl : m = m' := (List.cons.inj (hm.symm.trans hm')).2
      rcases List.mem_cons.1 (hp.mem_iff.1 hb) with rfl | hb
      · rw [hy] at hub
        cases hub
      · exact (List.pairwise_cons.1 h).1 b hb hub

/-- An urgent element is in time if it comes behind the first element of the list, or there is
a pair out of order where it may still go. -/
theorem UrgentFirst.place_urgent (hlt : ∀ a b, urgent a = true → urgent b = false → lt a b = true) (hy : urgent y = true)
    {x : P} {l : List P} (htri : ∀ w ∈ l, urgent w = true → lt y w = false → lt w y = true) (h : UrgentFirst urgent l)
    (hin : lt x y = true ∨ broken lt urgent x l = true) :
    ∃ m, place (stop lt y) y (x :: l) = x :: m ∧ UrgentFirst urgent m := by
  have hfront : ∀ m, UrgentFirst urgent m → UrgentFirst urgent (y :: m) := fun m hm =>
    List.pairwise_cons.2 ⟨fun _ _ _ => hy, hm⟩
  induction l generalizing x with
  | nil => exact ⟨[y], rfl, List.pairwise_singleton _ _⟩
  | cons z l ih =>
    rw [place]
    split
    · exact ⟨y :: z :: l, rfl, hfront _ h⟩
    · rename_i hs
      cases hz : urgent z with
      | false =>
        -- here it stops at the latest
        refine absurd ?_ hs
        have hyz := hlt y z hy hz
        rw [stop, hyz, Bool.and_true, Bool.or_eq_true]
        rcases hin with hxy | hb
        · exact .inl hxy
        · rw [broken, hz, Bool.false_and, Bool.or_false] at hb
          exact .inr hb
      | true =>
        have hzy : (lt x y = true ∨ lt x z = false) → lt z y = true := by
          intro hor
          refine htri z List.mem_cons_self hz (Bool.eq_false_iff.2 fun hyz => hs ?_)
          rw [stop, hyz, Bool.and_true, Bool.or_eq_true]
          exact hor.imp_right fun e => by rw [e]; rfl
        have hin' : lt z y = true ∨ broken lt urgent z l = true := by
          rcases hin with hxy | hb
          · exact .inl (hzy (.inl hxy))
          · rw [broken, hz, Bool.true_and, Bool.or_eq_true] at hb
            rcases hb with hb | hb
            · exact .inl (hzy (.inr (by simpa using hb)))
            · exact .inr hb
        obtain ⟨m, hm, hu⟩ := ih (fun w hw => htri w (List.mem_cons_of_mem _ hw)) (List.pairwise_cons.1 h).2 hin'
        exact ⟨z :: m, by rw [hm], List.pairwise_cons.2 ⟨fun _ _ _ => hz, hu⟩⟩

end Urgent

end Elevator
