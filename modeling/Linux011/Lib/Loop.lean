/-
Counted loops. A C `for (i = 0; i < n; i++)` is a fold over `List.range n`;
one whose body can stop the machine is the same fold in `Except`. The rules
carry an invariant indexed by the iterations done.
-/
import Mathlib.Data.List.Range

namespace Loop

variable {σ ε : Type*}

/-- A loop whose body always goes on. -/
theorem foldl_range {f : σ → Nat → σ} (I : Nat → σ → Prop) {n : Nat} {s : σ} (h0 : I 0 s)
    (keep : ∀ i s, i < n → I i s → I (i + 1) (f s i)) : I n ((List.range n).foldl f s) := by
  induction n with
  | zero => exact h0
  | succ n ih =>
    rw [List.range_succ, List.foldl_append]
    exact keep n _ (Nat.lt_succ_self n) (ih fun i s hi => keep i s (Nat.lt_succ_of_lt hi))

/-- A loop whose body may stop, and with the invariant does not. -/
theorem foldlM_range {f : σ → Nat → Except ε σ} (I : Nat → σ → Prop) {n : Nat} {s : σ} (h0 : I 0 s)
    (keep : ∀ i s, i < n → I i s → ∃ s', f s i = .ok s' ∧ I (i + 1) s') :
    ∃ s', (List.range n).foldlM f s = .ok s' ∧ I n s' := by
  induction n with
  | zero => exact ⟨s, rfl, h0⟩
  | succ n ih =>
    obtain ⟨s₁, h₁, hI₁⟩ := ih fun i s hi => keep i s (Nat.lt_succ_of_lt hi)
    obtain ⟨s₂, h₂, hI₂⟩ := keep n s₁ (Nat.lt_succ_self n) hI₁
    refine ⟨s₂, ?_, hI₂⟩
    simp [List.range_succ, List.foldlM_append, h₁, h₂, bind, Except.bind, pure, Except.pure]

/-- A loop that may be left early: `I` while it runs, `E` where it is left. -/
theorem foldlM_range_or {f : σ → Nat → Except ε σ} (I : Nat → σ → Prop) (E : ε → Prop) {n : Nat} {s : σ}
    (h0 : I 0 s)
    (keep : ∀ i s, i < n → I i s → (∃ s', f s i = .ok s' ∧ I (i + 1) s') ∨ ∃ e, f s i = .error e ∧ E e) :
    (∃ s', (List.range n).foldlM f s = .ok s' ∧ I n s') ∨
      ∃ e, (List.range n).foldlM f s = .error e ∧ E e := by
  induction n with
  | zero => exact .inl ⟨s, rfl, h0⟩
  | succ n ih =>
    simp only [List.range_succ, List.foldlM_append, bind, Except.bind]
    rcases ih fun i s hi => keep i s (Nat.lt_succ_of_lt hi) with ⟨s₁, h₁, hI₁⟩ | ⟨e, h₁, hE⟩
    · rcases keep n s₁ (Nat.lt_succ_self n) hI₁ with ⟨s₂, h₂, hI₂⟩ | ⟨e, h₂, hE⟩
      · exact .inl ⟨s₂, by simp [h₁, h₂, bind, Except.bind, pure, Except.pure], hI₂⟩
      · exact .inr ⟨e, by simp [h₁, h₂, bind, Except.bind], hE⟩
    · exact .inr ⟨e, by simp [h₁], hE⟩

end Loop
