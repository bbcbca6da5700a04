/-
The floating-point registers: `math_state_restore`, and what the switch, `fork`,
`execve` and `exit` do about them.

The registers are saved lazily. An instruction of the FPU traps when CR0.TS is set;
the trap saves them for `last_task_used_math` and loads the task's own. This
relies on TS being set whenever another task may own the registers. The switch
through the TSS did that in hardware. The stack-based switch does not, and it
clears TS when the task it leaves is the last user (`switch_ts`); `head.s`
leaves TS clear. So a machine with an FPU never traps.
-/
import Linux011.Kernel.SwitchRuns

namespace Linux011.Kernel.Fpu

/-- What `switch_to_by_stack` leaves in TS; tasks are named by their pages, and 0 is NULL. -/
def switchTs (ts : Bool) (last current next : Nat) : Bool := if next = current then ts else ts && last != current

/-- `V` is the contents of the registers. -/
structure State (V : Type*) where
  /-- CR0.TS. -/
  ts : Bool
  fpu : V
  current : Nat
  lastTaskUsedMath : Nat
  /-- `tss.i387` of each task. -/
  i387 : Nat → V
  usedMath : Nat → Bool
  /-- The task can run. -/
  live : Nat → Bool
  /-- What each task left in the registers, by its own instructions; not a part of the machine. -/
  own : Nat → V

inductive Op (V : Type*)
  | switch (next : Nat)
  | fork (child : Nat)
  | execve
  | exit
  /-- An instruction of the FPU, in user mode. -/
  | fpu (f : V → V)

variable {V : Type*} (init : V)

namespace State

/-- `math_state_restore`. `fnsave` leaves the registers initialised. -/
def mathStateRestore (s : State V) : State V :=
  if s.lastTaskUsedMath = s.current then s
  else
    let i387 := if s.lastTaskUsedMath ≠ 0 then Function.update s.i387 s.lastTaskUsedMath s.fpu else s.i387
    if s.usedMath s.current then { s with i387 := i387, lastTaskUsedMath := s.current, fpu := i387 s.current }
    else
      { s with
        i387 := i387
        lastTaskUsedMath := s.current
        fpu := init
        usedMath := Function.update s.usedMath s.current true }

/-- `device_not_available`, with an FPU in the machine. -/
def deviceNotAvailable (s : State V) : State V := { s with ts := false }.mathStateRestore init

/-- The state in which the instruction executes: after the trap, where TS is set. -/
def executing (s : State V) : State V := if s.ts then s.deviceNotAvailable init else s

/-- What `copy_process` does about the FPU. -/
def fork (s : State V) (child : Nat) : State V :=
  let s := { s with
    i387 := Function.update s.i387 child (s.i387 s.current)
    usedMath := Function.update s.usedMath child (s.usedMath s.current)
    live := Function.update s.live child true
    own := Function.update s.own child (s.own s.current) }
  if s.lastTaskUsedMath = s.current then
    { s with ts := false, i387 := Function.update s.i387 child s.fpu, fpu := init }
  else s

/-- What `do_execve` does about it. -/
def execve (s : State V) : State V :=
  { s with
    lastTaskUsedMath := if s.lastTaskUsedMath = s.current then 0 else s.lastTaskUsedMath
    usedMath := Function.update s.usedMath s.current false
    own := Function.update s.own s.current init }

/-- What `do_exit` does about it. -/
def exit (s : State V) : State V :=
  { s with
    lastTaskUsedMath := if s.lastTaskUsedMath = s.current then 0 else s.lastTaskUsedMath
    live := Function.update s.live s.current false }

/-- An instruction of the FPU. -/
def instr (s : State V) (f : V → V) : State V :=
  let s := s.executing init
  { s with fpu := f s.fpu, own := Function.update s.own s.current (f s.fpu) }

end State

/-- `schedule` picks a task that can run, `fork` takes a free page, and the rest is done by the running task. -/
def enabled (s : State V) : Op V → Prop
  | .switch next => s.live next = true
  | .fork child => child ≠ 0 ∧ s.live child = false ∧ s.live s.current = true
  | _ => s.live s.current = true

instance (s : State V) : (o : Op V) → Decidable (enabled s o)
  | .switch next => inferInstanceAs (Decidable (s.live next = true))
  | .fork child => inferInstanceAs (Decidable (child ≠ 0 ∧ s.live child = false ∧ s.live s.current = true))
  | .execve | .exit | .fpu _ => inferInstanceAs (Decidable (s.live s.current = true))

def State.apply (s : State V) : Op V → State V
  | .switch next => { s with ts := switchTs s.ts s.lastTaskUsedMath s.current next, current := next }
  | .fork child => s.fork init child
  | .execve => s.execve init
  | .exit => s.exit
  | .fpu f => s.instr init f

def step (s : State V) (o : Op V) : Option (State V) := if enabled s o then some (s.apply init o) else none

theorem step_eq_some {s s' : State V} {o : Op V} : step init s o = some s' ↔ enabled s o ∧ s.apply init o = s' := by
  unfold step
  split <;> simp_all

/-- Nobody has used the FPU, and task 0 is in the page `p`. -/
def start (ts : Bool) (p : Nat) : State V where
  ts := ts
  fpu := init
  current := p
  lastTaskUsedMath := 0
  i387 _ := init
  usedMath _ := false
  live q := q == p
  own _ := init

/-- What `head.s` leaves: TS is clear. -/
def boot (p : Nat) : State V := start init false p

/-! ## The switch as the assembler does it -/

/-- TS after the switch of `system_call.s`. -/
theorem switch_ts {L : Switch.Labels} {s : Switch.Sys} {p : Nat} (h : s.Ok L p) (hc : Switch.CanSwitch s.mach.regs p)
    {n : Fin 64} {pnext : Nat} (hn : s.task n = some pnext) :
    (Switch.switchMach L s n pnext).ts =
      switchTs s.mach.ts (s.mach.glob .lastTaskUsedMath) (s.mach.glob .current) pnext := by
  unfold switchTs
  by_cases hne : n = s.running
  · subst hne
    obtain rfl := Option.some.inj (h.belongs.task.symm.trans hn)
    rw [Switch.switchMach_same h.belongs hc, if_pos h.belongs.current.symm]
  · obtain ⟨ctx, -, hmach⟩ := h.switchMach_next hc hn hne
    have hap := h.apart n s.running pnext p hn h.belongs.task hne
    have hcur := h.belongs.current
    unfold Switch.Apart at hap
    rw [hmach, if_neg (by omega)]

/-! ## Runs from boot -/

variable {init}

/-- TS is clear and the kernel knows of no user of the FPU. -/
def State.Unwatched (s : State V) : Prop := s.ts = false ∧ s.lastTaskUsedMath = 0 ∧ s.live 0 = false

theorem State.Unwatched.step {s s' : State V} {o : Op V} (h : s.Unwatched) (hs : step init s o = some s') :
    s'.Unwatched := by
  obtain ⟨hts, hlast, h0⟩ := h
  obtain ⟨hg, rfl⟩ := (step_eq_some init).1 hs
  cases o with
  | switch next => exact ⟨by simp [State.apply, switchTs, hts], hlast, h0⟩
  | fork child =>
    have hcur : ¬s.lastTaskUsedMath = s.current := by
      intro he
      rw [enabled, ← he, hlast, h0] at hg
      cases hg.2.2
    simp only [State.apply, State.fork, hcur, if_false]
    exact ⟨hts, hlast, by simpa [Function.update_of_ne (Ne.symm hg.1)] using h0⟩
  | execve => exact ⟨hts, by simp [State.apply, State.execve, hlast], h0⟩
  | exit =>
    refine ⟨hts, by simp [State.apply, State.exit, hlast], ?_⟩
    simp only [State.apply, State.exit, Function.update_apply, h0, ite_self]
  | fpu f => simpa [State.Unwatched, State.apply, State.instr, State.executing, hts] using ⟨hlast, h0⟩

/-- From boot on no instruction of the FPU traps, whoever executes it, and
`last_task_used_math` stays NULL. -/
theorem boot_unwatched {p : Nat} (hp : p ≠ 0) {s : State V} (h : Run.Reaches (Run.Fires (step init)) (boot init p) s) :
    s.Unwatched := by
  have h0 : (boot init p).Unwatched := ⟨rfl, rfl, by simpa [boot, start] using Ne.symm hp⟩
  exact h.invariant (I := State.Unwatched) (fun _ _ _ h hs => h.step hs) h0

theorem boot_unwatched_used : ∃ s, Run.Reaches (Run.Fires (step 0)) (boot 0 1) s ∧ s.fpu = 5 ∧ s.Unwatched := by
  obtain ⟨s, hs, hp⟩ := Run.reaches_of_exec (fun _ _ => true) (step 0) (boot 0 1) [.fork 2, .fpu (· + 5), .switch 2]
    (fun s => decide (s.fpu = 5)) (by decide)
  exact ⟨s, hs.of_under, of_decide_eq_true hp, boot_unwatched (by decide) hs.of_under⟩

/-! ## One user of the FPU -/

/-- The registers an instruction of the FPU finds. -/
def State.sees (init : V) (s : State V) : V := (s.executing init).fpu

/-- `u` alone executes instructions of the FPU; while it is the last user it
neither forks (`fnsave` would take its registers) nor executes a new program nor
exits (TS would stay clear). -/
def oneUser (u : Nat) (s : State V) : Op V → Prop
  | .switch _ => True
  | .fpu _ => s.current = u
  | _ => s.lastTaskUsedMath ≠ s.current

instance (u : Nat) (s : State V) : (o : Op V) → Decidable (oneUser u s o)
  | .switch _ => inferInstanceAs (Decidable True)
  | .fpu _ => inferInstanceAs (Decidable (s.current = u))
  | .fork _ | .execve | .exit => inferInstanceAs (Decidable (s.lastTaskUsedMath ≠ s.current))

/-- Nobody has used the FPU, and its next instruction traps. -/
structure State.Fresh (init : V) (s : State V) : Prop where
  ts : s.ts = true
  last : s.lastTaskUsedMath = 0
  usedMath : ∀ t, s.usedMath t = false
  own : ∀ t, s.own t = init
  null : s.live 0 = false
  current : s.current ≠ 0

/-- The registers of `u` are in place. -/
structure State.Loaded (u : Nat) (s : State V) : Prop where
  last : s.lastTaskUsedMath = u
  fpu : s.fpu = s.own u
  live : s.live u = true

namespace State

variable {u : Nat} {s s' : State V}

theorem Fresh.executing (h : s.Fresh init) :
    (s.executing init).lastTaskUsedMath = s.current ∧ (s.executing init).fpu = init ∧
      (s.executing init).live = s.live ∧ (s.executing init).current = s.current := by
  simp [State.executing, h.ts, deviceNotAvailable, mathStateRestore, h.last, Ne.symm h.current, h.usedMath]

theorem Loaded.executing (h : s.Loaded s.current) (init : V) :
    (s.executing init).lastTaskUsedMath = s.current ∧ (s.executing init).fpu = s.fpu ∧
      (s.executing init).live = s.live ∧ (s.executing init).current = s.current := by
  by_cases hts : s.ts = true
  · simp [State.executing, hts, deviceNotAvailable, mathStateRestore, h.last]
  · simp [State.executing, hts, h.last]

/-- The instruction leaves its own registers in place. -/
theorem Loaded.of_instr {f : V → V} (hlast : (s.executing init).lastTaskUsedMath = s.current)
    (hlive : (s.executing init).live = s.live) (hcur : (s.executing init).current = s.current)
    (hc : s.live s.current = true) : (s.instr init f).Loaded s.current := by
  refine ⟨hlast, ?_, ?_⟩
  · simp [instr, hcur]
  · simpa [instr, hlive] using hc

theorem Fresh.step (h : s.Fresh init) {o : Op V} (ho : oneUser u s o) (hs : Fpu.step init s o = some s') :
    s'.Fresh init ∨ s'.Loaded u := by
  obtain ⟨hg, rfl⟩ := (step_eq_some init).1 hs
  have hcur : ¬0 = s.current := Ne.symm h.current
  cases o with
  | switch next =>
    left
    have hn : next ≠ 0 := by
      intro he
      rw [enabled, he, h.null] at hg
      cases hg
    refine { h with ts := ?_, current := hn }
    simp [apply, switchTs, h.ts, h.last, hcur]
  | fork child =>
    left
    have hlive : Function.update s.live child true 0 = false := by rw [Function.update_of_ne (Ne.symm hg.1), h.null]
    rw [← h.last] at hcur
    simp only [apply, fork, hcur, if_false]
    refine ⟨h.ts, h.last, fun t => ?_, fun t => ?_, hlive, h.current⟩
    · simp [Function.update_apply, h.usedMath]
    · simp [Function.update_apply, h.own]
  | execve =>
    left
    refine ⟨h.ts, ?_, fun t => ?_, fun t => ?_, h.null, h.current⟩
    · simp [apply, execve, h.last]
    · simp [apply, execve, Function.update_apply, h.usedMath]
    · simp [apply, execve, Function.update_apply, h.own]
  | exit =>
    left
    refine ⟨h.ts, ?_, h.usedMath, h.own, ?_, h.current⟩
    · simp [apply, exit, h.last]
    · simp [apply, exit, Function.update_apply, h.null]
  | fpu f =>
    right
    obtain ⟨hlast, -, hlive, hcur⟩ := h.executing
    obtain rfl : s.current = u := ho
    exact .of_instr hlast hlive hcur hg

theorem Loaded.step (h : s.Loaded u) {o : Op V} (ho : oneUser u s o) (hs : Fpu.step init s o = some s') :
    s'.Loaded u := by
  obtain ⟨hg, rfl⟩ := (step_eq_some init).1 hs
  cases o with
  | switch next => exact ⟨h.last, h.fpu, h.live⟩
  | fork child =>
    have hne : u ≠ child := by
      intro he
      rw [enabled, ← he, h.live] at hg
      cases hg.2.1
    have hcur : ¬s.lastTaskUsedMath = s.current := ho
    simp only [apply, fork, hcur, if_false]
    refine ⟨h.last, ?_, ?_⟩
    · simpa [Function.update_of_ne hne] using h.fpu
    · simpa [Function.update_of_ne hne] using h.live
  | execve =>
    have hcur : ¬s.lastTaskUsedMath = s.current := ho
    have hne : u ≠ s.current := by rwa [← h.last]
    refine ⟨?_, ?_, h.live⟩
    · rw [apply, execve, if_neg hcur, h.last]
    · simpa [apply, execve, Function.update_of_ne hne] using h.fpu
  | exit =>
    have hcur : ¬s.lastTaskUsedMath = s.current := ho
    have hne : u ≠ s.current := by rwa [← h.last]
    refine ⟨?_, h.fpu, ?_⟩
    · rw [apply, exit, if_neg hcur, h.last]
    · simpa [apply, exit, Function.update_of_ne hne] using h.live
  | fpu f =>
    obtain rfl : s.current = u := ho
    obtain ⟨hlast, -, hlive, hcur⟩ := h.executing init
    exact .of_instr hlast hlive hcur hg

end State

theorem start_fresh {p : Nat} (hp : p ≠ 0) : (start init true p).Fresh init :=
  ⟨rfl, rfl, fun _ => rfl, fun _ => rfl, by simpa [start] using Ne.symm hp, hp⟩

end Linux011.Kernel.Fpu
