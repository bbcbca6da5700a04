/-
Routines that call each other, up to a depth.

`body call c s` is what routine `c` does from `s`, with the calls in it made by `call`. `run body n` lets them nest `n` deep
and has no result beyond. `Ends f P`: what `f` does with its calls has, from some depth on, a result with `P`. Its rules
follow the text of a routine: a result, a call, one thing after another.
-/
import Mathlib.Tactic.TypeStar

namespace Depth

variable {C S : Type*} (body : (C → S → Option S) → C → S → Option S)

def run : Nat → C → S → Option S
  | 0, _, _ => none
  | n + 1, c, s => body (run n) c s

/-- The results of `x` are results of `y`. -/
def Le (x y : Option S) : Prop := ∀ s, x = some s → y = some s

/-- More calls that come back, more results. -/
def Monotone : Prop := ∀ f g : C → S → Option S, (∀ c s, Le (f c s) (g c s)) → ∀ c s, Le (body f c s) (body g c s)

theorem Le.refl (x : Option S) : Le x x := fun _ h => h

theorem Le.bind {x y : Option S} {f g : S → Option S} (h : Le x y) (hfg : ∀ s, Le (f s) (g s)) :
    Le (x.bind f) (y.bind g) := by
  intro s hs
  cases hx : x with
  | none =>
    rw [hx] at hs
    cases hs
  | some s' =>
    rw [hx] at hs
    rw [h s' hx]
    exact hfg s' s hs

variable {body}

theorem run_le_succ (hm : Monotone body) (n : Nat) (c : C) (s : S) : Le (run body n c s) (run body (n + 1) c s) := by
  induction n generalizing c s with
  | zero =>
    intro _ h
    cases h
  | succ n ih => exact hm _ _ ih c s

theorem run_le (hm : Monotone body) {n m : Nat} (h : n ≤ m) (c : C) (s : S) : Le (run body n c s) (run body m c s) := by
  induction h with
  | refl => exact Le.refl _
  | step _ ih => exact fun t ht => run_le_succ hm _ c s t (ih t ht)

variable (body)

/-- From some depth on, `f` has a result, and it has `P`. -/
def Ends (f : (C → S → Option S) → Option S) (P : S → Prop) : Prop :=
  ∃ t, P t ∧ ∃ n, ∀ m, n ≤ m → f (run body m) = some t

namespace Ends

variable {body} {P Q : S → Prop} {s : S} {c : C}

theorem result (h : P s) : Ends body (fun _ => some s) P := ⟨s, h, 0, fun _ _ => rfl⟩

theorem call (h : Ends body (fun call => body call c s) P) : Ends body (fun call => call c s) P := by
  obtain ⟨t, ht, n, hn⟩ := h
  refine ⟨t, ht, n + 1, fun m hm => ?_⟩
  obtain ⟨k, rfl⟩ : ∃ k, m = k + 1 := ⟨m - 1, by omega⟩
  exact hn k (by omega)

theorem bind {f : (C → S → Option S) → Option S} {g : S → (C → S → Option S) → Option S}
    (h : Ends body f fun s' => Ends body (g s') P) : Ends body (fun call => (f call).bind fun s' => g s' call) P := by
  obtain ⟨s', ⟨t, ht, k, hk⟩, n, hn⟩ := h
  refine ⟨t, ht, max n k, fun m hm => ?_⟩
  show (f (run body m)).bind _ = _
  rw [hn m (by omega)]
  exact hk m (by omega)

theorem mono {f : (C → S → Option S) → Option S} (h : Ends body f P) (hPQ : ∀ s, P s → Q s) : Ends body f Q := by
  obtain ⟨t, ht, hn⟩ := h
  exact ⟨t, hPQ t ht, hn⟩

/-- The result at any depth is the one that `Ends` is about. -/
theorem of_run (hm : Monotone body) (h : Ends body (fun call => call c s) P) {n : Nat} {t : S}
    (ht : run body n c s = some t) : P t := by
  obtain ⟨t', ht', k, hk⟩ := h
  have h₁ := run_le hm (Nat.le_max_left n k) c s t ht
  have h₂ : run body (max n k) c s = some t' := hk (max n k) (Nat.le_max_right n k)
  rw [h₁] at h₂
  cases h₂
  exact ht'

/-- There is one. -/
theorem exists_run (h : Ends body (fun call => call c s) P) : ∃ n t, run body n c s = some t := by
  obtain ⟨t, -, n, hn⟩ := h
  exact ⟨n, t, hn n (Nat.le_refl n)⟩

end Ends

end Depth
