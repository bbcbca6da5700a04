/-
Timers: `add_timer`, and what `do_timer` does with `next_timer`.

The list has delays that count from the entry before on. `add_timer` puts a new
timer in front and lets it sink behind those with a shorter delay, but does not
take its delay from the timer it stops at: that one, and all behind it, fire late
by the new delay. A timer that is to run longer than all others comes to the end
of the list, and there is nothing to correct.

A call of `do_timer` is cut where it calls a timer's function, which may add
timers. Each timer has a number; `calls` has the numbers called and in which call of `do_timer`.
-/
import Linux011.Lib.Delta
import Linux011.Lib.Run
import Mathlib.Tactic.Common

namespace Linux011.Kernel.Timers

open Delta (due total)

/-- `next_timer`, as delays and numbers of timers. What is not in the machine: how many timers there were, the call of `do_timer`
in or after which each was added, its delay, and the calls of their functions. -/
structure Sys where
  list : List (Int × Nat)
  born : Nat
  added : Nat → Nat
  delay : Nat → Int
  /-- How many calls of `do_timer` there were. -/
  now : Nat
  /-- Inside `do_timer`. -/
  busy : Bool
  calls : List (Nat × Nat)

/-- `TIME_REQUESTS`. -/
def timeRequests : Nat := 64

/-- The loop of `add_timer`: the new timer changes places with the next one while that has the shorter delay. -/
def sink (p : Int × Nat) : List (Int × Nat) → List (Int × Nat)
  | [] => [p]
  | next :: l => if next.1 < p.1 then next :: sink (p.1 - next.1, p.2) l else p :: next :: l

/-- `next_timer->jiffies--`. -/
def countDown : List (Int × Nat) → List (Int × Nat)
  | [] => []
  | (d, f) :: l => (d - 1, f) :: l

inductive Op
  | add (jiffies : Int)
  /-- `do_timer` begins. -/
  | tick
  /-- Its loop calls a function. -/
  | fire
  /-- Its loop ends. -/
  | finish

/-- `add_timer`. Without a free entry of `timer_list` it halts. -/
def Sys.addTimer (s : Sys) (jiffies : Int) : Option Sys :=
  let s' := { s with
    born := s.born + 1
    added := Function.update s.added s.born s.now
    delay := Function.update s.delay s.born jiffies }
  if jiffies ≤ 0 then some { s' with calls := s.calls ++ [(s.born, s.now)] }
  else if timeRequests ≤ s.list.length then none
  else some { s' with list := sink (jiffies, s.born) s.list }

def step (s : Sys) : Op → Option Sys
  | .add jiffies => s.addTimer jiffies
  | .tick => if s.busy then none else some { s with now := s.now + 1, busy := true, list := countDown s.list }
  | .fire =>
    match s.list with
    | (d, f) :: l => if s.busy && decide (d ≤ 0) then some { s with list := l, calls := s.calls ++ [(f, s.now)] } else none
    | [] => none
  | .finish =>
    match s.list with
    | (d, _) :: _ => if s.busy && decide (0 < d) then some { s with busy := false } else none
    | [] => if s.busy then some { s with busy := false } else none

/-- When a timer is to fire. -/
def Sys.expiry (s : Sys) (f : Nat) : Int := s.added f + s.delay f

/-- In which calls of `do_timer` its function was called. -/
def Sys.callsOf (s : Sys) (f : Nat) : List Nat := (s.calls.filter fun c => c.1 == f).map Prod.snd

/-- No timer yet. -/
structure Sys.Start (s : Sys) : Prop where
  list : s.list = []
  born : s.born = 0
  busy : s.busy = false
  calls : s.calls = []

/-- A timer is added only behind all others: each of them is due earlier. -/
def last (s : Sys) : Op → Prop
  | .add jiffies => ∀ x ∈ due 0 s.list, x.1 < jiffies
  | _ => True

instance (s : Sys) : (o : Op) → Decidable (last s o)
  | .add jiffies => inferInstanceAs (Decidable (∀ x ∈ due 0 s.list, x.1 < jiffies))
  | .tick | .fire | .finish => isTrue trivial

/-! ## The list -/

theorem countDown_due (t : Int) (l : List (Int × Nat)) : due (t + 1) (countDown l) = due t l := by
  cases l with
  | nil => rfl
  | cons x l => exact Delta.due_pass t x.1 1 x.2 l

/-- A timer with the longest delay sinks to the end. -/
theorem sink_eq {l : List (Int × Nat)} (h : ∀ x ∈ l, 0 ≤ x.1) {j : Int} (hj : total l < j) (f : Nat) :
    sink (j, f) l = l ++ [(j - total l, f)] := by
  induction l generalizing j with
  | nil => simp [sink, total]
  | cons x l ih =>
    obtain ⟨d, g⟩ := x
    have hrest : ∀ x ∈ l, 0 ≤ x.1 := fun x hx => h x (List.mem_cons_of_mem _ hx)
    have h0 := Delta.total_nonneg hrest
    rw [total] at hj ⊢
    rw [sink, if_pos (by dsimp only; omega), ih hrest (by dsimp only; omega), List.cons_append]
    dsimp only
    rw [Int.sub_sub]

theorem total_lt {l : List (Int × Nat)} {j : Int} (h0 : 0 < j) (h : ∀ x ∈ due 0 l, x.1 < j) : total l < j := by
  by_cases hl : l = []
  · rw [hl]
    exact h0
  · obtain ⟨f, hf⟩ := Delta.total_mem_due (t := 0) hl
    have := h _ hf
    dsimp only at this
    omega

/-! ## The invariant -/

/-- Every timer that was added with a delay is in the list and due at its time, or was called once, at its time. -/
structure Inv (s : Sys) : Prop where
  delays : ∀ x ∈ s.list, 0 ≤ x.1
  waits : s.busy = false → ∀ x ∈ s.list.head?, 0 < x.1
  due : ∀ x ∈ due s.now s.list, x.2 < s.born ∧ x.1 = s.expiry x.2
  nodup : (s.list.map Prod.snd).Nodup
  once : ∀ f < s.born, 0 < s.delay f →
    f ∈ s.list.map Prod.snd ∧ s.callsOf f = [] ∨ f ∉ s.list.map Prod.snd ∧ ∃ n : Nat, s.callsOf f = [n] ∧ n = s.expiry f ∧ n ≤ s.now
  fresh : ∀ f, s.born ≤ f → s.callsOf f = []

theorem Sys.Start.inv {s : Sys} (h : s.Start) : Inv s where
  delays x hx := by rw [h.list] at hx; cases hx
  waits _ x hx := by rw [h.list] at hx; cases hx
  due x hx := by rw [h.list] at hx; cases hx
  nodup := by rw [h.list]; exact List.nodup_nil
  once f hf := by rw [h.born] at hf; exact absurd hf (Nat.not_lt_zero f)
  fresh f _ := by rw [Sys.callsOf, h.calls]; rfl

variable {s s' : Sys}

/-- A timer that was not added before has no entry. -/
theorem Inv.notMem (h : Inv s) {f : Nat} (hf : s.born ≤ f) : f ∉ s.list.map Prod.snd := by
  intro hm
  rw [← Delta.map_snd_due s.now] at hm
  obtain ⟨x, hx, rfl⟩ := List.mem_map.1 hm
  exact absurd (h.due x hx).1 (Nat.not_lt.2 hf)

theorem filter_concat (calls : List (Nat × Nat)) (g n f : Nat) :
    ((calls ++ [(g, n)]).filter fun c => c.1 == f).map Prod.snd =
      (calls.filter fun c => c.1 == f).map Prod.snd ++ if g = f then [n] else [] := by
  rw [List.filter_append, List.map_append]
  congr 1
  by_cases h : g = f
  · simp [h]
  · simp [h]

/-- The new timer's number is new: nothing changes for the others. -/
theorem update_born {α : Type} (g : Nat → α) (x : α) {f : Nat} (hf : f < s.born) : Function.update g s.born x f = g f :=
  Function.update_of_ne (Nat.ne_of_lt hf) _ _

theorem Inv.addTimer (h : Inv s) {j : Int} (hlast : ∀ x ∈ Delta.due 0 s.list, x.1 < j) (hs : s.addTimer j = some s') : Inv s' := by
  unfold Sys.addTimer at hs
  dsimp only at hs
  split at hs
  · -- it is called at once
    rename_i hj
    obtain rfl := Option.some.inj hs
    refine ⟨h.delays, h.waits, fun x hx => ?_, h.nodup, fun f hf hd => ?_, fun f hf => ?_⟩
    · obtain ⟨hb, ht⟩ := h.due x hx
      refine ⟨Nat.lt_succ_of_lt hb, ?_⟩
      simp only [Sys.expiry, update_born _ _ hb]
      exact ht
    · dsimp only at hf hd
      rcases Nat.lt_succ_iff_lt_or_eq.1 hf with hb | rfl
      · rw [update_born _ _ hb] at hd
        have hsame : Sys.callsOf { s with
            born := s.born + 1, added := Function.update s.added s.born s.now, delay := Function.update s.delay s.born j
            calls := s.calls ++ [(s.born, s.now)] } f = s.callsOf f := by
          refine (filter_concat _ _ _ _).trans ?_
          rw [if_neg (Nat.ne_of_gt hb), List.append_nil]
          rfl
        simp only [hsame, Sys.expiry, update_born _ _ hb]
        exact h.once f hb hd
      · rw [Function.update_self] at hd
        omega
    · refine (filter_concat _ _ _ _).trans ?_
      rw [if_neg (Nat.ne_of_lt hf), List.append_nil]
      exact h.fresh f (Nat.le_of_succ_le hf)
  · rename_i hj
    split at hs
    · cases hs
    · obtain rfl := Option.some.inj hs
      have hj : 0 < j := Int.not_le.1 hj
      have htotal := total_lt hj hlast
      have hlist := sink_eq h.delays htotal s.born
      rw [hlist]
      refine ⟨fun x hx => ?_, fun hb x hx => ?_, fun x hx => ?_, ?_, fun f hf hd => ?_, fun f hf => h.fresh f (Nat.le_of_succ_le hf)⟩
      · rcases List.mem_append.1 hx with hx | hx
        · exact h.delays x hx
        · rw [List.mem_singleton.1 hx]
          dsimp only
          omega
      · dsimp only at hb hx
        rw [List.head?_append] at hx
        cases hl : s.list.head? with
        | none =>
          rw [hl] at hx
          obtain rfl := Option.some.inj hx
          dsimp only
          omega
        | some y =>
          rw [hl] at hx
          obtain rfl := Option.some.inj hx
          exact h.waits hb y hl
      · dsimp only at hx
        rw [Delta.due_concat] at hx
        rcases List.mem_append.1 hx with hx | hx
        · obtain ⟨hb, ht⟩ := h.due x hx
          refine ⟨Nat.lt_succ_of_lt hb, ?_⟩
          simp only [Sys.expiry, update_born _ _ hb]
          exact ht
        · rw [List.mem_singleton.1 hx]
          refine ⟨Nat.lt_succ_self _, ?_⟩
          simp only [Sys.expiry, Function.update_self]
          omega
      · dsimp only
        rw [List.map_append, List.nodup_append]
        refine ⟨h.nodup, by simp, fun a ha b hb e => h.notMem (Nat.le_refl _) ?_⟩
        have hb : b = s.born := List.mem_singleton.1 hb
        rw [← hb, ← e]
        exact ha
      · dsimp only at hf hd ⊢
        rw [List.map_append]
        rcases Nat.lt_succ_iff_lt_or_eq.1 hf with hb | rfl
        · rw [update_born _ _ hb] at hd
          have hne : f ∉ [(j - total s.list, s.born)].map Prod.snd := by simpa using Nat.ne_of_lt hb
          simp only [List.mem_append, hne, or_false, Sys.expiry, update_born _ _ hb]
          exact h.once f hb hd
        · exact .inl ⟨List.mem_append_right _ (by simp), h.fresh _ (Nat.le_refl _)⟩

theorem Inv.tick (h : Inv s) (hs : step s .tick = some s') : Inv s' := by
  simp only [step] at hs
  split at hs
  · cases hs
  · rename_i hb
    obtain rfl := Option.some.inj hs
    have hidle : s.busy = false := Bool.eq_false_iff.2 hb
    have hnum : (countDown s.list).map Prod.snd = s.list.map Prod.snd := by
      cases s.list <;> rfl
    refine ⟨fun x hx => ?_, fun hb => (by cases hb), fun x hx => ?_, ?_, fun f hf hd => ?_, h.fresh⟩
    · dsimp only at hx
      cases hl : s.list with
      | nil =>
        rw [hl] at hx
        cases hx
      | cons y l =>
        rw [hl] at hx
        have hy := h.waits hidle y (by rw [hl]; rfl)
        rcases List.mem_cons.1 hx with rfl | hx
        · dsimp only
          omega
        · exact h.delays x (hl ▸ List.mem_cons_of_mem _ hx)
    · dsimp only at hx
      rw [Int.natCast_succ, countDown_due] at hx
      exact h.due x hx
    · exact hnum ▸ h.nodup
    · dsimp only
      rw [hnum]
      rcases h.once f hf hd with hw | ⟨hm, n, hc, hn, hle⟩
      · exact .inl hw
      · exact .inr ⟨hm, n, hc, hn, Nat.le_succ_of_le hle⟩

theorem Inv.fire (h : Inv s) (hs : step s .fire = some s') : Inv s' := by
  simp only [step] at hs
  split at hs
  · rename_i d f l hl
    split at hs
    · rename_i hb
      obtain rfl := Option.some.inj hs
      rw [Bool.and_eq_true, decide_eq_true_eq] at hb
      have hd : d = 0 := by
        have := h.delays (d, f) (hl ▸ List.mem_cons_self)
        dsimp only at this
        omega
      have hnodup := h.nodup
      rw [hl, List.map_cons, List.nodup_cons] at hnodup
      have hdue := h.due
      rw [hl, Delta.due, hd, Int.add_zero] at hdue
      obtain ⟨hfb, hfe⟩ := hdue (s.now, f) List.mem_cons_self
      refine ⟨fun x hx => h.delays x (hl ▸ List.mem_cons_of_mem _ hx), fun hb' => ?_,
        fun x hx => hdue x (List.mem_cons_of_mem _ hx), hnodup.2, fun g hg hdg => ?_, fun g hg => ?_⟩
      · rw [hb.1] at hb'
        cases hb'
      · have hcalls := filter_concat s.calls f s.now g
        by_cases e : f = g
        · subst e
          rw [if_pos rfl] at hcalls
          rcases h.once f hg hdg with ⟨-, hc⟩ | ⟨hm, -⟩
          · refine .inr ⟨hnodup.1, s.now, hcalls.trans ?_, hfe, Nat.le_refl _⟩
            change s.callsOf f ++ [s.now] = _
            rw [hc]
            rfl
          · exact absurd (hl ▸ List.mem_cons_self) hm
        · rw [if_neg e, List.append_nil] at hcalls
          have hmem : g ∈ s.list.map Prod.snd ↔ g ∈ l.map Prod.snd := by
            rw [hl, List.map_cons, List.mem_cons]
            exact or_iff_right fun e' => e e'.symm
          simp only [← hmem]
          rw [show Sys.callsOf { s with list := l, calls := s.calls ++ [(f, s.now)] } g = s.callsOf g from hcalls]
          exact h.once g hg hdg
      · refine (filter_concat s.calls f s.now g).trans ?_
        have hne : f ≠ g := Nat.ne_of_lt (Nat.lt_of_lt_of_le hfb hg)
        rw [if_neg hne, List.append_nil]
        exact h.fresh g hg
    · cases hs
  · cases hs

theorem Inv.finish (h : Inv s) (hs : step s .finish = some s') : Inv s' := by
  simp only [step] at hs
  split at hs
  · rename_i d f l hl
    split at hs
    · rename_i hb
      obtain rfl := Option.some.inj hs
      rw [Bool.and_eq_true, decide_eq_true_eq] at hb
      refine ⟨h.delays, fun _ x hx => ?_, h.due, h.nodup, h.once, h.fresh⟩
      dsimp only at hx
      rw [hl] at hx
      obtain rfl := Option.some.inj hx
      exact hb.2
    · cases hs
  · rename_i hl
    split at hs
    · obtain rfl := Option.some.inj hs
      refine ⟨h.delays, fun _ x hx => ?_, h.due, h.nodup, h.once, h.fresh⟩
      dsimp only at hx
      rw [hl] at hx
      cases hx
    · cases hs

theorem Inv.step {o : Op} (h : Inv s) (hlast : last s o) (hs : step s o = some s') : Inv s' := by
  cases o with
  | add j => exact h.addTimer hlast hs
  | tick => exact h.tick hs
  | fire => exact h.fire hs
  | finish => exact h.finish hs

/-! ## Timers fire on time -/

/-- The timers of the list that are due in the present call of `do_timer`. -/
def Sys.ready (s : Sys) : Nat := (s.list.takeWhile fun x => decide (x.1 ≤ 0)).length

theorem ready_concat {l : List (Int × Nat)} {j : Int} (hj : 0 < j) (f : Nat) :
    ((l ++ [(j, f)]).takeWhile fun x => decide (x.1 ≤ 0)).length = (l.takeWhile fun x => decide (x.1 ≤ 0)).length := by
  induction l with
  | nil =>
    have : decide (j ≤ 0) = false := decide_eq_false (by omega)
    simp [this]
  | cons x l ih =>
    rw [List.cons_append, List.takeWhile_cons, List.takeWhile_cons]
    split
    · rw [List.length_cons, List.length_cons, ih]
    · rfl

/-- Before a timer is due it is not called; when the call of `do_timer` in which it is due has ended, it was called once, in
that call. -/
theorem Inv.calls (h : Inv s) {f : Nat} (hf : f < s.born) (hd : 0 < s.delay f) :
    (s.now < s.expiry f → s.callsOf f = []) ∧
      (s.expiry f < s.now ∨ s.expiry f = s.now ∧ s.busy = false → ∃ n : Nat, n = s.expiry f ∧ s.callsOf f = [n]) ∧
      (s.callsOf f = [] ∨ ∃ n : Nat, n = s.expiry f ∧ s.callsOf f = [n]) := by
  rcases h.once f hf hd with ⟨hm, hc⟩ | ⟨-, n, hc, hn, hle⟩
  · refine ⟨fun _ => hc, fun hpast => ?_, .inl hc⟩
    rw [← Delta.map_snd_due s.now] at hm
    obtain ⟨x, hx, rfl⟩ := List.mem_map.1 hm
    rw [← (h.due x hx).2] at hpast
    have hge := Delta.le_of_mem_due h.delays hx
    -- at rest the first delay is not over, and the others are due after it
    have hgt : s.busy = false → s.now < x.1 := by
      intro hb
      cases hl : s.list with
      | nil =>
        rw [hl] at hx
        cases hx
      | cons y l =>
        have hy := h.waits hb y (by rw [hl]; rfl)
        rw [hl] at hx
        rcases List.mem_cons.1 hx with rfl | hx
        · dsimp only
          omega
        · have := Delta.le_of_mem_due (fun z hz => h.delays z (hl ▸ List.mem_cons_of_mem _ hz)) hx
          omega
    rcases hpast with hlt | ⟨he, hb⟩
    · omega
    · have := hgt hb
      omega
  · refine ⟨fun hlt => ?_, fun _ => ⟨n, hn, hc⟩, .inr ⟨n, hn, hc⟩⟩
    omega

/-- **Timers fire on time**, if each is added behind all others: the function of a timer that was added with delay `j` is called
once, in the `j`-th call of `do_timer` after that. And the loop of `do_timer` ends: the calls it makes are of timers that were
ready, and the timers added meanwhile are not. -/
theorem timers_on_time {s₀ : Sys} (h₀ : s₀.Start) (h : Run.Reaches (Run.Under last (Run.Fires step)) s₀ s) :
    (∀ f < s.born, 0 < s.delay f →
      (s.now < s.expiry f → s.callsOf f = []) ∧
        (s.expiry f < s.now ∨ s.expiry f = s.now ∧ s.busy = false → ∃ n : Nat, n = s.expiry f ∧ s.callsOf f = [n]) ∧
        (s.callsOf f = [] ∨ ∃ n : Nat, n = s.expiry f ∧ s.callsOf f = [n])) ∧
      (s.busy = true → (step s .fire).isSome = true ∨ (step s .finish).isSome = true) ∧
      (∀ s', step s .fire = some s' → s'.ready + 1 = s.ready) ∧
      ∀ j s', last s (.add j) → step s (.add j) = some s' → s'.ready = s.ready := by
  have hI : Inv s := h.invariant (I := Inv) (fun _ _ _ hs hst => hs.step hst.1 hst.2) h₀.inv
  refine ⟨fun f hf hd => hI.calls hf hd, fun hb => ?_, fun s' hs => ?_, fun j s' hlast hs => ?_⟩
  · cases hl : s.list with
    | nil => exact .inr (by simp [step, hl, hb])
    | cons x l =>
      by_cases hx : x.1 ≤ 0
      · exact .inl (by simp [step, hl, hb, hx])
      · exact .inr (by simp [step, hl, hb, Int.not_le.1 hx])
  · simp only [step] at hs
    split at hs
    · rename_i d f l hl
      split at hs
      · rename_i hb
        obtain rfl := Option.some.inj hs
        rw [Bool.and_eq_true] at hb
        rw [Sys.ready, Sys.ready, hl, List.takeWhile_cons, if_pos hb.2, List.length_cons]
      · cases hs
    · cases hs
  · simp only [step, Sys.addTimer] at hs
    split at hs
    · obtain rfl := Option.some.inj hs
      rfl
    · rename_i hj
      split at hs
      · cases hs
      · obtain rfl := Option.some.inj hs
        have htotal := total_lt (Int.not_le.1 hj) hlast
        rw [Sys.ready, Sys.ready, sink_eq hI.delays htotal]
        exact ready_concat (Int.sub_pos.2 htotal) _

/-- No timers, and no time has passed. -/
def boot : Sys :=
  { list := [], born := 0, added := fun _ => 0, delay := fun _ => 0, now := 0, busy := false, calls := [] }

theorem boot_start : boot.Start := ⟨rfl, rfl, rfl, rfl⟩

/-- Two timers, the second of them added by the function of the first. -/
theorem timers_on_time_nested : ∃ s, Run.Reaches (Run.Under last (Run.Fires step)) boot s ∧ s.now = 3 ∧ s.busy = false ∧
    s.callsOf 0 = [1] ∧ s.callsOf 1 = [3] := by
  obtain ⟨s, hs, hp⟩ := Run.reaches_of_exec (fun s o => decide (last s o)) step boot
    [.add 1, .tick, .fire, .add 2, .finish, .tick, .finish, .tick, .fire, .finish]
    (fun s => s.now = 3 ∧ s.busy = false ∧ s.born = 2 ∧ s.delay 0 = 1 ∧ s.delay 1 = 2 ∧ s.added 0 = 0 ∧ s.added 1 = 1)
    (by decide)
  obtain ⟨hnow, hbusy, hborn, hd0, hd1, ha0, ha1⟩ := of_decide_eq_true hp
  have hrun : Run.Reaches (Run.Under last (Run.Fires step)) boot s := 
    hs.under_mono fun _ _ h => of_decide_eq_true h
  obtain ⟨hall, -⟩ := timers_on_time boot_start hrun
  have he0 : s.expiry 0 = 1 := by rw [Sys.expiry, ha0, hd0]; rfl
  have he1 : s.expiry 1 = 3 := by rw [Sys.expiry, ha1, hd1]; rfl
  obtain ⟨n, hn, hc⟩ := (hall 0 (by omega) (by omega)).2.1 (.inl (by omega))
  obtain ⟨m, hm, hc'⟩ := (hall 1 (by omega) (by omega)).2.1 (.inr ⟨by omega, hbusy⟩)
  obtain rfl : n = 1 := by omega
  obtain rfl : m = 3 := by omega
  exact ⟨s, hrun, hnow, hbusy, hc, hc'⟩

/-- A timer with delay 10, and then one with delay 3: the first fires in the thirteenth call. -/
theorem shorter_timer_delays : ∃ s, Run.Reaches (Run.Fires step) boot s ∧ s.delay 0 = 10 ∧ s.added 0 = 0 ∧ s.now = 12 ∧
    s.busy = false ∧ s.callsOf 0 = [] := by
  obtain ⟨s, hs, hp⟩ := Run.reaches_of_exec (fun _ _ => true) step boot
    [.add 10, .add 3, .tick, .finish, .tick, .finish, .tick, .fire, .finish, .tick, .finish, .tick, .finish, .tick, .finish,
      .tick, .finish, .tick, .finish, .tick, .finish, .tick, .finish, .tick, .finish, .tick, .finish]
    (fun s => s.delay 0 = 10 ∧ s.added 0 = 0 ∧ s.now = 12 ∧ s.busy = false ∧ s.callsOf 0 = []) (by decide)
  exact ⟨s, hs.of_under, of_decide_eq_true hp⟩

end Linux011.Kernel.Timers
