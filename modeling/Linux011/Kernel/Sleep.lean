/-
Sleeping and waking up: `sleep_on`, `interruptible_sleep_on` and `wake_up` of
`sched.c`.

A queue is one pointer, to the task that went to sleep last; each sleeper has
the one before it in `tmp`, on its own kernel stack. `wake_up` makes the last
one runnable and forgets it, and a sleeper that leaves its call makes its `tmp`
runnable. A signal makes a sleeper runnable out of turn: `schedule` does.

Two things are asked of this here. Nobody is lost: a task asleep on a queue is
still known to the queue's pointer or to a runnable task of the same call. And
nobody else is hit: the task that `tmp` points to is still asleep on the queue.
Neither holds of the code as it is. `interruptible_sleep_on` leaves with the
queue's pointer still on itself, and sends a task back to sleep when it finds
the pointer on another one.
-/
import Linux011.Lib.Run
import Mathlib.Logic.Function.Basic
import Mathlib.Data.Fin.Basic

namespace Linux011.Kernel.Sleep

/-- `task_struct.state`. -/
inductive TaskState
  | running
  | interruptible
  | uninterruptible
  | zombie
  deriving DecidableEq

/-- Where a task is: outside every sleep, in `sleep_on(q)` or (`intr`) in
`interruptible_sleep_on(q)` with what it saved in `tmp`, in `do_exit`, or
nowhere (its `task_struct` is a free page). -/
inductive Place (T Q : Type*)
  | user
  | asleep (q : Q) (intr : Bool) (tmp : Option T)
  | exited
  | free
  deriving DecidableEq

/-- Tasks are named by the page of their `task_struct`. -/
structure Sys (T Q : Type*) where
  /-- `*p` of each queue. -/
  head : Q → Option T
  state : T → TaskState
  place : T → Place T Q

/-- What tasks, interrupts and `schedule` may do. -/
inductive Op (T Q : Type*)
  /-- `sleep_on` up to its `schedule`. With `raced`, an interrupt calls `wake_up`
  of the queue between the stores to `*p` and to `state`. -/
  | sleepOn (t : T) (q : Q) (raced : Bool)
  /-- `interruptible_sleep_on` up to its `schedule`; its callers have interrupts off. -/
  | interruptibleSleepOn (t : T) (q : Q)
  /-- A sleeper that is runnable again goes on. -/
  | resume (t : T)
  | wakeUp (q : Q)
  /-- `schedule` finds a signal for an interruptible task. -/
  | signal (t : T)
  /-- `sys_pause`, `sys_waitpid`: asleep on no queue. -/
  | pause (t : T)
  | exit (t : T)
  /-- `release`, from `sys_waitpid`. -/
  | release (t : T)
  /-- `copy_process`, in the page `t`. -/
  | fork (t : T)

variable {T Q : Type*}

/-- Nobody sleeps yet. -/
def Sys.Start (s : Sys T Q) : Prop := (∀ q, s.head q = none) ∧ ∀ t, s.place t = .user ∨ s.place t = .free

/-- `t` is inside a sleep on `q`, with `tmp`. -/
def Sys.In (s : Sys T Q) (q : Q) (t : T) (tmp : Option T) : Prop := ∃ intr, s.place t = .asleep q intr tmp

section Code

variable [DecidableEq T] [DecidableEq Q]

namespace Sys

/-- `t->state = st`, where there is a `t`. -/
def setState (s : Sys T Q) (t : Option T) (st : TaskState) : Sys T Q :=
  match t with
  | none => s
  | some t => { s with state := Function.update s.state t st }

def setHead (s : Sys T Q) (q : Q) (t : Option T) : Sys T Q := { s with head := Function.update s.head q t }

def setPlace (s : Sys T Q) (t : T) (p : Place T Q) : Sys T Q := { s with place := Function.update s.place t p }

/-- `wake_up`. -/
def wakeUp (s : Sys T Q) (q : Q) : Sys T Q := (s.setState (s.head q) .running).setHead q none

/-- The first half of both sleeps. -/
def lieDown (s : Sys T Q) (t : T) (q : Q) (intr : Bool) (st : TaskState) : Sys T Q :=
  ((s.setPlace t (.asleep q intr (s.head q))).setHead q (some t)).setState (some t) st

/-- The end of both sleeps. -/
def leave (s : Sys T Q) (t : T) (tmp : Option T) : Sys T Q := (s.setState tmp .running).setPlace t .user

/-- `sleep_on` after `schedule`. -/
def sleepOnEnd (s : Sys T Q) (t : T) (tmp : Option T) : Sys T Q := s.leave t tmp

/-- `interruptible_sleep_on` after `schedule`. -/
def interruptibleSleepOnEnd (s : Sys T Q) (t : T) (q : Q) (tmp : Option T) : Sys T Q :=
  match s.head q with
  | some h =>
    -- `if (*p && *p != current)`: wake the head up and go to `repeat`
    if h ≠ t then (s.wakeUp q).setState (some t) .interruptible else s.leave t tmp
  | none => s.leave t tmp

end Sys

def step (s : Sys T Q) : Op T Q → Option (Sys T Q)
  | .sleepOn t q raced =>
    if s.place t = .user ∧ s.state t = .running then
      let s := s.lieDown t q false .uninterruptible
      some (if raced then s.setHead q none else s)
    else none
  | .interruptibleSleepOn t q =>
    if s.place t = .user ∧ s.state t = .running then some (s.lieDown t q true .interruptible) else none
  | .resume t =>
    match s.place t with
    | .asleep q intr tmp =>
      if s.state t = .running then
        some (if intr then s.interruptibleSleepOnEnd t q tmp else s.sleepOnEnd t tmp)
      else none
    | _ => none
  | .wakeUp q => some (s.wakeUp q)
  | .signal t => if s.state t = .interruptible then some (s.setState (some t) .running) else none
  | .pause t =>
    if s.place t = .user ∧ s.state t = .running then some (s.setState (some t) .interruptible) else none
  | .exit t =>
    if s.place t = .user ∧ s.state t = .running then some ((s.setPlace t .exited).setState (some t) .zombie) else none
  | .release t => if s.place t = .exited ∧ s.state t = .zombie then some (s.setPlace t .free) else none
  | .fork t => if s.place t = .free then some ((s.setPlace t .user).setState (some t) .running) else none

end Code

section Updates

variable (s : Sys T Q)

section Tasks

variable [DecidableEq T]

@[simp] theorem setState_head (t : Option T) (st : TaskState) : (s.setState t st).head = s.head := by
  cases t <;> rfl

@[simp] theorem setState_place (t : Option T) (st : TaskState) : (s.setState t st).place = s.place := by
  cases t <;> rfl

theorem setState_state (t : Option T) (st : TaskState) (u : T) :
    (s.setState t st).state u = if t = some u then st else s.state u := by
  cases t with
  | none => rfl
  | some t => simp [Sys.setState, Function.update_apply, eq_comm]

theorem setPlace_place (t u : T) (p : Place T Q) : (s.setPlace t p).place u = if u = t then p else s.place u :=
  Function.update_apply ..

@[simp] theorem setPlace_head (t : T) (p : Place T Q) : (s.setPlace t p).head = s.head := rfl

@[simp] theorem setPlace_state (t : T) (p : Place T Q) : (s.setPlace t p).state = s.state := rfl

@[simp] theorem leave_head (t : T) (tmp : Option T) : (s.leave t tmp).head = s.head := by simp [Sys.leave]

theorem leave_state (t : T) (tmp : Option T) (u : T) :
    (s.leave t tmp).state u = if tmp = some u then .running else s.state u := by
  simp [Sys.leave, setState_state]

theorem leave_place (t : T) (tmp : Option T) (u : T) :
    (s.leave t tmp).place u = if u = t then .user else s.place u := by
  simp [Sys.leave, setPlace_place]

end Tasks

variable [DecidableEq Q]

theorem setHead_head (q q' : Q) (t : Option T) : (s.setHead q t).head q' = if q' = q then t else s.head q' :=
  Function.update_apply ..

@[simp] theorem setHead_state (q : Q) (t : Option T) : (s.setHead q t).state = s.state := rfl

@[simp] theorem setHead_place (q : Q) (t : Option T) : (s.setHead q t).place = s.place := rfl

variable [DecidableEq T]

theorem wakeUp_head (q q' : Q) : (s.wakeUp q).head q' = if q' = q then none else s.head q' := by
  simp [Sys.wakeUp, setHead_head]

@[simp] theorem wakeUp_place (q : Q) : (s.wakeUp q).place = s.place := by simp [Sys.wakeUp]

theorem wakeUp_state (q : Q) (u : T) :
    (s.wakeUp q).state u = if s.head q = some u then .running else s.state u := by
  simp [Sys.wakeUp, setState_state]

theorem lieDown_head (t : T) (q q' : Q) (intr : Bool) (st : TaskState) :
    (s.lieDown t q intr st).head q' = if q' = q then some t else s.head q' := by
  simp [Sys.lieDown, setHead_head]

theorem lieDown_place (t u : T) (q : Q) (intr : Bool) (st : TaskState) :
    (s.lieDown t q intr st).place u = if u = t then .asleep q intr (s.head q) else s.place u := by
  simp [Sys.lieDown, setPlace_place]

theorem lieDown_state (t u : T) (q : Q) (intr : Bool) (st : TaskState) :
    (s.lieDown t q intr st).state u = if t = u then st else s.state u := by
  simp [Sys.lieDown, setState_state]

end Updates

/-! ## What a step does -/

/-- The effects of a step on the queues: a task lies down, leaves its call,
goes back to sleep after waking the head up, a queue is woken up, a signal
comes, or a task outside every sleep changes. -/
inductive Effect [DecidableEq T] [DecidableEq Q] (s : Sys T Q) : Op T Q → Sys T Q → Prop
  | lieDown {o t q intr st} : s.place t = .user → st ≠ .running → (o = .sleepOn t q false ∨ o = .interruptibleSleepOn t q) →
      Effect s o (s.lieDown t q intr st)
  | raced {t q} : s.place t = .user →
      Effect s (.sleepOn t q true) ((s.lieDown t q false .uninterruptible).setHead q none)
  | leave {t q intr tmp} : s.place t = .asleep q intr tmp → s.state t = .running →
      (intr = true → s.head q = none ∨ s.head q = some t) → Effect s (.resume t) (s.leave t tmp)
  | back {t q tmp h} : s.place t = .asleep q true tmp → s.state t = .running → s.head q = some h → h ≠ t →
      Effect s (.resume t) ((s.wakeUp q).setState (some t) .interruptible)
  | wakeUp {q} : Effect s (.wakeUp q) (s.wakeUp q)
  | signal {t} : s.state t = .interruptible → Effect s (.signal t) (s.setState (some t) .running)
  | other {o t st p} : (∀ q intr tmp, s.place t ≠ .asleep q intr tmp) → (∀ q intr tmp, p ≠ .asleep q intr tmp) →
      Effect s o ((s.setPlace t p).setState (some t) st)

theorem setPlace_self [DecidableEq T] (s : Sys T Q) (t : T) : s.setPlace t (s.place t) = s := by
  simp [Sys.setPlace]

theorem setState_self [DecidableEq T] (s : Sys T Q) (t : T) : s.setState (some t) (s.state t) = s := by
  simp [Sys.setState]

section Steps

variable [DecidableEq T] [DecidableEq Q] {s s' : Sys T Q}

theorem Effect.of_step {o : Op T Q} (h : step s o = some s') : Effect s o s' := by
  cases o with
  | sleepOn t q raced =>
    simp only [step] at h
    split at h
    · rename_i hg
      obtain rfl := Option.some.inj h
      cases raced with
      | true => exact .raced hg.1
      | false => exact .lieDown hg.1 (by decide) (.inl rfl)
    · cases h
  | interruptibleSleepOn t q =>
    simp only [step] at h
    split at h
    · rename_i hg
      obtain rfl := Option.some.inj h
      exact .lieDown hg.1 (by decide) (.inr rfl)
    · cases h
  | resume t =>
    simp only [step] at h
    split at h
    · rename_i q intr tmp hp
      split at h
      · rename_i hr
        obtain rfl := Option.some.inj h
        cases intr with
        | false => exact .leave hp hr (fun h => (by cases h))
        | true =>
          simp only [if_true, Sys.interruptibleSleepOnEnd]
          split
          · rename_i x hx
            split
            · rename_i hne
              exact .back hp hr hx hne
            · rename_i he
              exact .leave hp hr fun _ => .inr (hx.trans (by rw [not_not.1 he]))
          · rename_i hx
            exact .leave hp hr fun _ => .inl hx
      · cases h
    · cases h
  | wakeUp q =>
    obtain rfl := Option.some.inj h
    exact .wakeUp
  | signal t =>
    simp only [step] at h
    split at h
    · rename_i hg
      obtain rfl := Option.some.inj h
      exact .signal hg
    · cases h
  | pause t =>
    simp only [step] at h
    split at h
    · rename_i hg
      obtain rfl := Option.some.inj h
      have he : Effect s (.pause t) ((s.setPlace t (s.place t)).setState (some t) .interruptible) :=
        .other (by simp [hg.1]) (by simp [hg.1])
      rwa [setPlace_self] at he
    · cases h
  | exit t =>
    simp only [step] at h
    split at h
    · rename_i hg
      obtain rfl := Option.some.inj h
      exact .other (by simp [hg.1]) (by simp)
    · cases h
  | release t =>
    simp only [step] at h
    split at h
    · rename_i hg
      obtain rfl := Option.some.inj h
      have he : Effect s (.release t) ((s.setPlace t .free).setState (some t) ((s.setPlace t .free).state t)) :=
        .other (by simp [hg.1]) (by simp)
      rwa [setState_self] at he
    · cases h
  | fork t =>
    simp only [step] at h
    split at h
    · rename_i hg
      obtain rfl := Option.some.inj h
      exact .other (by simp [hg]) (by simp)
    · cases h

end Steps

end Linux011.Kernel.Sleep
