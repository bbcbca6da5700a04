/-
Programs that read and change a state and may stop with an error.

`Ends m E Q s`: from `s`, the program `m` returns a value and a state that meet
`Q`, or stops with an error that meets `E`. With `E` false of every error it says
that `m` returns; with `E` true of all, only what holds if it does.
-/
import Mathlib.Tactic.TypeStar

namespace Prog

variable {S α β ε : Type}

def Ends (m : StateT S (Except ε) α) (E : ε → Prop) (Q : α → S → Prop) (s : S) : Prop :=
  match m s with
  | .ok (a, s') => Q a s'
  | .error e => E e

variable {m : StateT S (Except ε) α} {E : ε → Prop} {Q R : α → S → Prop} {s s' : S} {a : α}

/-- What the program returned meets the condition. -/
theorem Ends.of_ok (h : Ends m E Q s) (hm : m s = .ok (a, s')) : Q a s' := by
  rw [Ends, hm] at h
  exact h

/-- A program that cannot stop returns. -/
theorem Ends.exists_ok (h : Ends m (fun _ => False) Q s) : ∃ a s', m s = .ok (a, s') ∧ Q a s' := by
  unfold Ends at h
  split at h
  · exact ⟨_, _, ‹_›, h⟩
  · exact h.elim

instance [∀ a s, Decidable (Q a s)] [∀ e, Decidable (E e)] : Decidable (Ends m E Q s) :=
  match hm : m s with
  | .ok (a, s') => decidable_of_iff (Q a s') (by rw [Ends, hm])
  | .error e => decidable_of_iff (E e) (by rw [Ends, hm])

theorem Ends.any : Ends m (fun _ => True) (fun _ _ => True) s := by
  unfold Ends
  split
  · trivial
  · trivial

theorem Ends.mono (h : Ends m E Q s) (hQ : ∀ a s', Q a s' → R a s') : Ends m E R s := by
  unfold Ends at h ⊢
  split at h
  · exact hQ _ _ h
  · exact h

theorem Ends.and (h : Ends m E Q s) (h' : Ends m E R s) : Ends m E (fun a s' => Q a s' ∧ R a s') s := by
  unfold Ends at h h' ⊢
  split at h
  · rename_i hm
    rw [hm] at h'
    exact ⟨h, h'⟩
  · exact h

theorem Ends.pure (h : Q a s) : Ends (Pure.pure a) E Q s := h

/-- The sequence rule. -/
theorem Ends.bind {f : α → StateT S (Except ε) β} {Q : β → S → Prop} (h : Ends m E (fun a s' => Ends (f a) E Q s') s) :
    Ends (m >>= f) E Q s := by
  have hbind : (m >>= f) s = (m s).bind fun p => f p.1 p.2 := rfl
  unfold Ends at h ⊢
  rw [hbind]
  split at h
  · rename_i hm
    rw [hm]
    exact h
  · rename_i hm
    rw [hm]
    exact h

/-- The sequence rule with a condition in the middle. -/
theorem Ends.seq {f : α → StateT S (Except ε) β} {Q : β → S → Prop} (h : Ends m E R s)
    (hf : ∀ a s', R a s' → Ends (f a) E Q s') : Ends (m >>= f) E Q s :=
  (h.mono hf).bind

theorem Ends.throw {e : ε} (h : E e) : Ends (MonadExcept.throw e : StateT S (Except ε) α) E Q s := h

theorem Ends.get {Q : S → S → Prop} (h : Q s s) : Ends (MonadState.get : StateT S (Except ε) S) E Q s := h

theorem Ends.set {Q : PUnit → S → Prop} (h : Q ⟨⟩ s') : Ends (MonadStateOf.set s' : StateT S (Except ε) PUnit) E Q s := h

theorem Ends.modify {f : S → S} {Q : PUnit → S → Prop} (h : Q ⟨⟩ (f s)) :
    Ends (modifyGet fun s => (⟨⟩, f s) : StateT S (Except ε) PUnit) E Q s := h

theorem Ends.ite {c : Prop} [Decidable c] {m' : StateT S (Except ε) α} (h : c → Ends m E Q s) (h' : ¬c → Ends m' E Q s) :
    Ends (if c then m else m') E Q s := by
  split
  · exact h ‹_›
  · exact h' ‹_›

end Prog
