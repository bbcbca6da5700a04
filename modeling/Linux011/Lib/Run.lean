/-
Runs of a labelled transition system: what holds at the start and is kept by
every step holds in every state a run reaches.
-/
import Mathlib.Tactic.TypeStar

namespace Run

/-- `Steps step s os s'`: the labels `os`, in order, take `s` to `s'`. -/
inductive Steps {S O : Type*} (step : S → O → S → Prop) : S → List O → S → Prop
  | nil {s} : Steps step s [] s
  | cons {s o s' os s''} : step s o s' → Steps step s' os s'' → Steps step s (o :: os) s''

variable {S O : Type*} {step : S → O → S → Prop}

/-- The states runs from `s` reach. -/
def Reaches (step : S → O → S → Prop) (s s' : S) : Prop := ∃ os, Steps step s os s'

theorem Steps.trans {s s' s'' : S} {os os' : List O} (h : Steps step s os s')
    (h' : Steps step s' os' s'') : Steps step s (os ++ os') s'' := by
  induction h with
  | nil => exact h'
  | cons hs _ ih => exact .cons hs (ih h')

theorem Steps.one {s s' : S} {o : O} (h : step s o s') : Steps step s [o] s' := .cons h .nil

theorem Reaches.refl {s : S} : Reaches step s s := ⟨[], .nil⟩

theorem Reaches.snoc {s s' s'' : S} {o : O} (h : Reaches step s s') (hs : step s' o s'') :
    Reaches step s s'' := by
  obtain ⟨os, h⟩ := h
  exact ⟨os ++ [o], h.trans (.one hs)⟩

/-- The invariant rule. -/
theorem Steps.invariant {I : S → Prop} (keep : ∀ s o s', I s → step s o s' → I s') {s s' : S}
    {os : List O} (h : Steps step s os s') (hs : I s) : I s' := by
  induction h with
  | nil => exact hs
  | cons hst _ ih => exact ih (keep _ _ _ hs hst)

theorem Reaches.invariant {I : S → Prop} (keep : ∀ s o s', I s → step s o s' → I s') {s s' : S}
    (h : Reaches step s s') (hs : I s) : I s' := by
  obtain ⟨os, h⟩ := h
  exact h.invariant keep hs

/-- The steps of `step` from states, and by labels, that meet `ok`. -/
def Under (ok : S → O → Prop) (step : S → O → S → Prop) : S → O → S → Prop :=
  fun s o s' => ok s o ∧ step s o s'

/-- More steps reach more states. -/
theorem Reaches.mono {step' : S → O → S → Prop} (hst : ∀ s o s', step s o s' → step' s o s') {s s' : S}
    (h : Reaches step s s') : Reaches step' s s' := by
  obtain ⟨os, h⟩ := h
  refine ⟨os, ?_⟩
  induction h with
  | nil => exact .nil
  | cons hs _ ih => exact .cons (hst _ _ _ hs) ih

theorem Reaches.of_under {ok : S → O → Prop} {s s' : S} (h : Reaches (Under ok step) s s') :
    Reaches step s s' := h.mono fun _ _ _ hs => hs.2

theorem Reaches.under_mono {ok ok' : S → O → Prop} (hok : ∀ s o, ok s o → ok' s o) {s s' : S}
    (h : Reaches (Under ok step) s s') : Reaches (Under ok' step) s s' :=
  h.mono fun s o _ hs => ⟨hok s o hs.1, hs.2⟩

/-- The steps of a step function. -/
def Fires (step : S → O → Option S) (s : S) (o : O) (s' : S) : Prop := step s o = some s'

/-- Several labels in a row, each at a state that meets `ok`. -/
def exec (ok : S → O → Bool) (step : S → O → Option S) (s : S) : List O → Option S
  | [] => some s
  | o :: os => if ok s o then (step s o).bind fun s' => exec ok step s' os else none

theorem steps_of_exec {ok : S → O → Bool} {step : S → O → Option S} {os : List O} {s s' : S}
    (h : exec ok step s os = some s') :
    Steps (Under (fun s o => ok s o = true) (Fires step)) s os s' := by
  induction os generalizing s with
  | nil =>
    obtain rfl : s = s' := by simpa [exec] using h
    exact .nil
  | cons o os ih =>
    simp only [exec] at h
    split at h
    · rename_i hok
      obtain ⟨s₁, ho, hs⟩ := Option.bind_eq_some_iff.1 h
      exact .cons ⟨hok, ho⟩ (ih hs)
    · cases h

/-- A run found by computing it. -/
theorem reaches_of_exec (ok : S → O → Bool) (step : S → O → Option S) (s : S) (os : List O) (p : S → Bool)
    (h : (exec ok step s os).any p = true) :
    ∃ s', Reaches (Under (fun s o => ok s o = true) (Fires step)) s s' ∧ p s' = true := by
  cases he : exec ok step s os with
  | none => simp [he] at h
  | some s' => exact ⟨s', ⟨os, steps_of_exec he⟩, by simpa [he] using h⟩

end Run
