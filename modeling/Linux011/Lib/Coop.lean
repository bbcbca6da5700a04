/-
Cooperative tasks in a kernel that is not preempted.

A task in the kernel is a stack of frames, one per routine it is inside, and
it gives the processor up only at the points where a frame may sleep. A turn
runs the top frame from one such point to the next: it changes the kernel,
puts other frames in the place of the top one, and leaves a value for the
frame below. What holds of every run of such a system is proved here once:
what one action does, and how a quantity spread over the tasks' frames and
values changes when one task moves.
-/
import Mathlib.Algebra.Order.BigOperators.Group.Finset
import Mathlib.Data.Fintype.Basic
import Mathlib.Logic.Function.Basic
import Linux011.Lib.Run

namespace Coop

/-- What a turn of a task comes to: the task is still asleep, the system
halts, or the kernel afterwards, the frames in the place of the top one, and
the value left. -/
inductive Turn (K F V : Type*)
  | asleep
  | panic
  | goes (k : K) (fs : List F) (v : V)

/-- The routines of a kernel: what a turn of a frame does, what a task outside
the kernel may start, and what an interrupt does. -/
structure Machine (K F V C E : Type*) where
  turn : F → V → K → Turn K F V
  call : C → V → K → Option (K × List F × V)
  irq : E → K → Option K

/-- The kernel's data with every task's stack and the value last returned to it. -/
structure Sys (T K F V : Type*) where
  kern : K
  stack : T → List F
  acc : T → V

/-- One action of the whole system. -/
inductive Act (T C E : Type*)
  | run (t : T)
  | call (t : T) (c : C)
  | irq (e : E)

variable {T K F V C E : Type*}

section Actions

variable [DecidableEq T]

/-- The system after a task moved. -/
def Sys.put (s : Sys T K F V) (t : T) (k : K) (fs : List F) (v : V) : Sys T K F V :=
  { kern := k, stack := Function.update s.stack t fs, acc := Function.update s.acc t v }

@[simp] theorem Sys.put_kern (s : Sys T K F V) (t : T) (k : K) (fs : List F) (v : V) :
    (s.put t k fs v).kern = k := rfl

theorem Sys.put_stack (s : Sys T K F V) (t u : T) (k : K) (fs : List F) (v : V) :
    (s.put t k fs v).stack u = if u = t then fs else s.stack u := by
  simp [Sys.put, Function.update_apply]

theorem Sys.put_acc (s : Sys T K F V) (t u : T) (k : K) (fs : List F) (v : V) :
    (s.put t k fs v).acc u = if u = t then v else s.acc u := by
  simp [Sys.put, Function.update_apply]

/-- A turn of the top frame, for a task inside the kernel that is not asleep. -/
def Machine.run (m : Machine K F V C E) (s : Sys T K F V) (t : T) : List F → Option (Sys T K F V)
  | [] => none
  | f :: rest =>
    match m.turn f (s.acc t) s.kern with
    | .goes k fs v => some (s.put t k (fs ++ rest) v)
    | .asleep | .panic => none

/-- A call, by a task outside the kernel. -/
def Machine.enter (m : Machine K F V C E) (s : Sys T K F V) (t : T) (c : C) :
    List F → Option (Sys T K F V)
  | [] => (m.call c (s.acc t) s.kern).map fun r => s.put t r.1 r.2.1 r.2.2
  | _ :: _ => none

def Machine.act (m : Machine K F V C E) (s : Sys T K F V) : Act T C E → Option (Sys T K F V)
  | .run t => m.run s t (s.stack t)
  | .call t c => m.enter s t c (s.stack t)
  | .irq e => (m.irq e s.kern).map fun k => { s with kern := k }

def Machine.Step (m : Machine K F V C E) (s : Sys T K F V) (a : Act T C E) (s' : Sys T K F V) : Prop :=
  m.act s a = some s'

/-- Several actions in a row, each from a state that meets `ok`. -/
def Machine.acts (m : Machine K F V C E) (ok : Sys T K F V → Act T C E → Bool) (s : Sys T K F V) :
    List (Act T C E) → Option (Sys T K F V)
  | [] => some s
  | a :: as => if ok s a then (m.act s a).bind fun s' => m.acts ok s' as else none

theorem Machine.steps_of_acts (m : Machine K F V C E) {ok : Sys T K F V → Act T C E → Bool}
    {as : List (Act T C E)} {s s' : Sys T K F V} (h : m.acts ok s as = some s') :
    Run.Steps (Run.Under (fun s a => ok s a = true) m.Step) s as s' := by
  induction as generalizing s with
  | nil =>
    obtain rfl : s = s' := by simpa [Machine.acts] using h
    exact .nil
  | cons a as ih =>
    simp only [Machine.acts] at h
    split at h
    · rename_i hok
      obtain ⟨s₁, ha, hs⟩ := Option.bind_eq_some_iff.1 h
      exact .cons ⟨hok, ha⟩ (ih hs)
    · cases h

/-- A run found by computing it. -/
theorem Machine.reaches_of_acts (m : Machine K F V C E) {ok : Sys T K F V → Act T C E → Bool}
    {as : List (Act T C E)} {p : Sys T K F V → Bool} {s : Sys T K F V}
    (h : (m.acts ok s as).any p = true) :
    ∃ s', Run.Reaches (Run.Under (fun s a => ok s a = true) m.Step) s s' ∧ p s' = true := by
  cases ha : m.acts ok s as with
  | none => simp [ha] at h
  | some s' => exact ⟨s', ⟨as, m.steps_of_acts ha⟩, by simpa [ha] using h⟩

/-- A task running by itself: turns of its own frames, one after the other. -/
inductive Machine.Alone (m : Machine K F V C E) : K → List F → V → K → List F → V → Prop
  | refl {k fs v} : m.Alone k fs v k fs v
  | turn {k f rest v k₁ fs v₁ k' fs' v'} : m.turn f v k = .goes k₁ fs v₁ →
      m.Alone k₁ (fs ++ rest) v₁ k' fs' v' → m.Alone k (f :: rest) v k' fs' v'

theorem Machine.Alone.reaches {m : Machine K F V C E} {k k' : K} {fs fs' : List F} {v v' : V}
    (h : m.Alone k fs v k' fs' v') {s : Sys T K F V} {t : T} (hk : s.kern = k) (hs : s.stack t = fs)
    (hv : s.acc t = v) : Run.Reaches m.Step s (s.put t k' fs' v') := by
  induction h generalizing s with
  | refl =>
    have he : s.put t s.kern (s.stack t) (s.acc t) = s := by simp [Sys.put]
    rw [← hk, ← hs, ← hv, he]
    exact .refl
  | @turn k f rest v k₁ fs v₁ k' fs' v' ht _ ih =>
    have hstep : m.Step s (.run t) (s.put t k₁ (fs ++ rest) v₁) := by
      simp [Machine.Step, Machine.act, Machine.run, hs, hv, hk, ht]
    have hrest := ih (s := s.put t k₁ (fs ++ rest) v₁) rfl (by simp [Sys.put]) (by simp [Sys.put])
    have he : (s.put t k₁ (fs ++ rest) v₁).put t k' fs' v' = s.put t k' fs' v' := by simp [Sys.put]
    rw [he] at hrest
    obtain ⟨as, has⟩ := hrest
    exact ⟨_, .cons hstep has⟩

/-- The next turn of the task halts the system. -/
def Machine.Panics (m : Machine K F V C E) (s : Sys T K F V) (t : T) : Prop :=
  ∃ f rest, s.stack t = f :: rest ∧ m.turn f (s.acc t) s.kern = .panic

variable {m : Machine K F V C E} {s s' : Sys T K F V}

/-- What a task's turn did. -/
theorem Machine.step_run {t : T} (h : m.Step s (.run t) s') :
    ∃ f rest k fs v, s.stack t = f :: rest ∧ m.turn f (s.acc t) s.kern = .goes k fs v ∧
      s' = s.put t k (fs ++ rest) v := by
  simp only [Machine.Step, Machine.act] at h
  cases hs : s.stack t with
  | nil => simp [hs, Machine.run] at h
  | cons f rest =>
    simp only [hs, Machine.run] at h
    cases ht : m.turn f (s.acc t) s.kern with
    | asleep => simp [ht] at h
    | panic => simp [ht] at h
    | goes k fs v =>
      simp only [ht, Option.some.injEq] at h
      exact ⟨f, rest, k, fs, v, rfl, ht, h.symm⟩

/-- What a call did. -/
theorem Machine.step_call {t : T} {c : C} (h : m.Step s (.call t c) s') :
    ∃ k fs v, s.stack t = [] ∧ m.call c (s.acc t) s.kern = some (k, fs, v) ∧ s' = s.put t k fs v := by
  simp only [Machine.Step, Machine.act] at h
  cases hs : s.stack t with
  | nil =>
    simp only [hs, Machine.enter, Option.map_eq_some_iff] at h
    obtain ⟨⟨k, fs, v⟩, hc, rfl⟩ := h
    exact ⟨k, fs, v, rfl, hc, rfl⟩
  | cons f rest => simp [hs, Machine.enter] at h

/-- What an interrupt did. -/
theorem Machine.step_irq {e : E} (h : m.Step s (.irq e) s') :
    ∃ k, m.irq e s.kern = some k ∧ s' = { s with kern := k } := by
  simp only [Machine.Step, Machine.act, Option.map_eq_some_iff] at h
  obtain ⟨k, hk, rfl⟩ := h
  exact ⟨k, hk, rfl⟩

/-- A property of each stack by itself is kept when turns and calls keep it. -/
theorem Machine.step_stacks {P : List F → Prop} {a : Act T C E} (h : m.Step s a s')
    (hs : ∀ t, P (s.stack t))
    (hrun : ∀ t f rest k fs v, a = .run t → s.stack t = f :: rest →
      m.turn f (s.acc t) s.kern = .goes k fs v → P (f :: rest) → P (fs ++ rest))
    (hcall : ∀ c v k k' fs v', m.call c v k = some (k', fs, v') → P fs) : ∀ t, P (s'.stack t) := by
  intro u
  cases a with
  | run t =>
    obtain ⟨f, rest, k, fs, v, hf, ht, rfl⟩ := Machine.step_run h
    rw [Sys.put_stack]
    split
    · exact hrun t f rest k fs v rfl hf ht (hf ▸ hs t)
    · exact hs u
  | call t c =>
    obtain ⟨k, fs, v, -, hc, rfl⟩ := Machine.step_call h
    rw [Sys.put_stack]
    split
    · exact hcall _ _ _ _ _ _ hc
    · exact hs u
  | irq e =>
    obtain ⟨k, -, rfl⟩ := Machine.step_irq h
    exact hs u

end Actions

section Load

variable [Fintype T]

/-- What the frames of a stack weigh. -/
def weigh (w : F → Nat) : List F → Nat
  | [] => 0
  | f :: fs => w f + weigh w fs

@[simp] theorem weigh_append (w : F → Nat) (fs gs : List F) : weigh w (fs ++ gs) = weigh w fs + weigh w gs := by
  induction fs with
  | nil => simp [weigh]
  | cons f fs ih => simp [weigh, ih, Nat.add_assoc]

theorem le_weigh (w : F → Nat) {fs : List F} {f : F} (h : f ∈ fs) : w f ≤ weigh w fs := by
  induction fs with
  | nil => cases h
  | cons g fs ih =>
    rcases List.mem_cons.1 h with rfl | h
    · exact Nat.le_add_right _ _
    · exact (ih h).trans (Nat.le_add_left _ _)

/-- What one task's frames and value weigh. -/
def weight (w : F → Nat) (wv : V → Nat) (fs : List F) (v : V) : Nat := weigh w fs + wv v

/-- What all tasks' frames and values weigh. -/
def Sys.load (w : F → Nat) (wv : V → Nat) (s : Sys T K F V) : Nat :=
  ∑ t, weight w wv (s.stack t) (s.acc t)

variable {w : F → Nat} {wv : V → Nat} {s : Sys T K F V}

theorem le_weight (w : F → Nat) (wv : V → Nat) {fs : List F} {f : F} (h : f ∈ fs) (v : V) :
    w f + wv v ≤ weight w wv fs v :=
  Nat.add_le_add_right (le_weigh w h) _

theorem Sys.weight_le_load (w : F → Nat) (wv : V → Nat) (s : Sys T K F V) (t : T) :
    weight w wv (s.stack t) (s.acc t) ≤ s.load w wv :=
  Finset.single_le_sum (f := fun t => weight w wv (s.stack t) (s.acc t)) (fun _ _ => Nat.zero_le _)
    (Finset.mem_univ t)

/-- The top frame and value of a task, with a frame below it. -/
theorem Sys.top_rest_le_load (w : F → Nat) (wv : V → Nat) {t : T} {f g : F} {rest : List F}
    (hs : s.stack t = f :: rest) (hg : g ∈ rest) : w f + wv (s.acc t) + w g ≤ s.load w wv := by
  have h := s.weight_le_load w wv t
  have hr : w g ≤ weigh w rest := le_weigh w hg
  rw [hs] at h
  simp only [weight, weigh] at h
  omega

theorem Sys.top_le_load (w : F → Nat) (wv : V → Nat) {t : T} {f : F} {rest : List F}
    (hs : s.stack t = f :: rest) : w f + wv (s.acc t) ≤ s.load w wv := by
  have h := s.weight_le_load w wv t
  rw [hs] at h
  simp only [weight, weigh] at h
  omega

variable [DecidableEq T]

/-- The top frame and value of a task, with all of another task. -/
theorem Sys.top_other_le_load (w : F → Nat) (wv : V → Nat) {t u : T} {f : F} {rest : List F}
    (hs : s.stack t = f :: rest) (hu : u ≠ t) :
    w f + wv (s.acc t) + weight w wv (s.stack u) (s.acc u) ≤ s.load w wv := by
  have h : weight w wv (s.stack t) (s.acc t) + weight w wv (s.stack u) (s.acc u) ≤ s.load w wv := by
    rw [← Finset.sum_pair (f := fun t => weight w wv (s.stack t) (s.acc t)) hu.symm]
    exact Finset.sum_le_sum_of_subset (Finset.subset_univ _)
  rw [hs] at h
  simp only [weight, weigh] at h ⊢
  omega

/-- When one task moves, the load changes by what that task's weight does. -/
theorem Sys.load_put (w : F → Nat) (wv : V → Nat) (s : Sys T K F V) (t : T) (k : K) (fs : List F) (v : V) :
    (s.put t k fs v).load w wv + weight w wv (s.stack t) (s.acc t) =
      s.load w wv + weight w wv fs v := by
  unfold Sys.load
  rw [← Finset.add_sum_erase _ _ (Finset.mem_univ t),
    ← Finset.add_sum_erase (a := t) _ (fun t => weight w wv (s.stack t) (s.acc t)) (Finset.mem_univ t)]
  have h : ∀ u ∈ Finset.univ.erase t, weight w wv ((s.put t k fs v).stack u) ((s.put t k fs v).acc u) =
      weight w wv (s.stack u) (s.acc u) := by
    intro u hu
    rw [Sys.put_stack, Sys.put_acc, if_neg (Finset.ne_of_mem_erase hu), if_neg (Finset.ne_of_mem_erase hu)]
  rw [Finset.sum_congr rfl h, Sys.put_stack, Sys.put_acc, if_pos rfl, if_pos rfl]
  omega

/-- A turn changes the load by what it puts in the place of the top frame and the value. -/
theorem Sys.load_turn (w : F → Nat) (wv : V → Nat) {t : T} {f : F} {rest : List F} (hs : s.stack t = f :: rest) (k : K) (fs : List F)
    (v : V) : (s.put t k (fs ++ rest) v).load w wv + (w f + wv (s.acc t)) =
      s.load w wv + (weigh w fs + wv v) := by
  have h := s.load_put w wv t k (fs ++ rest) v
  rw [hs] at h
  simp only [weight, weigh, weigh_append] at h
  omega

end Load

end Coop
