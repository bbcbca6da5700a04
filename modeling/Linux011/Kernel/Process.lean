/-
Processes from `fork` to `waitpid`: `copy_process` and `find_empty_process` of `fork.c`, `do_exit`, `tell_father`, `release` and
`sys_waitpid` of `exit.c`.

A task that exits first gives its children to init, then closes its files, where
it may sleep, and only then becomes a zombie. A father that finds a zombie takes it out of the table, lets
others run, and returns the pid and the code it has kept. All tasks take turns
at these places; between them nothing else runs.
-/
import Linux011.Kernel.Schedule
import Linux011.Lib.Run
import Mathlib.Data.Fintype.Basic

namespace Linux011.Kernel.Process

open Schedule (TaskState)
open Signal (bit)

/-- An index of `task[]`. -/
abbrev Slot := Fin 64

/-- A `long`. -/
abbrev Long := BitVec 32

/-- `SIGCHLD`, as a bit. -/
def sigchld : Nat := 16

/-- The `options` of `waitpid`. -/
structure Options where
  wnohang : Bool
  wuntraced : Bool
  deriving DecidableEq

/-- Where a task is: outside these calls; at `repeat:` of `sys_waitpid`; asleep there; behind `release`, with the
pid and the code it has read from the zombie `id`; in `do_exit`, behind the loop over its children. -/
inductive Phase
  | user
  | waiting (pid : Long) (options : Options)
  | sleeping (pid : Long) (options : Options)
  | reporting (id : Nat) (pid : Long) (code : Int)
  | exiting (code : Int)
  deriving DecidableEq

/-- What these routines read of a task. `id` says which process it is of all there ever were; it is not in the machine. -/
structure Proc where
  pid : Long
  father : Long
  pgrp : Long
  state : TaskState
  exitCode : Int
  signal : BitVec 32
  phase : Phase
  id : Nat
  deriving DecidableEq

abbrev Table := Slot → Option Proc

/-- What a call of `waitpid` returned, and for which process. -/
structure Report where
  id : Nat
  pid : Long
  code : Int
  deriving DecidableEq

/-- The table and `last_pid`. The rest is not in the machine: how many processes there were, the pid each got
and the code it exited with, those that were reaped, and what was reported of them. -/
structure Sys where
  task : Table
  lastPid : Long
  born : Nat
  pidOf : Nat → Long
  codeOf : Nat → Option Int
  reaped : List Nat
  reports : List Report

/-! ## fork -/

/-- `++last_pid`, or 1 if that is negative. -/
def nextPid (last : Long) : Long := if (last + 1).slt 0 then 1 else last + 1

/-- The loop of `find_empty_process` for a pid. -/
def findPid (task : Table) : Nat → Long → Option Long
  | 0, _ => none
  | n + 1, last =>
    if ∃ i, (task i).any fun p => p.pid = nextPid last then findPid task n (nextPid last) else some (nextPid last)

/-- Its loop for a slot. -/
def findSlot (task : Table) : Option Slot := (List.finRange 64).tail.find? fun i => (task i).isNone

/-- The child, as `copy_process` leaves it. -/
def Proc.child (p : Proc) (last : Long) (id : Nat) : Proc :=
  { p with pid := last, father := p.pid, state := .running, signal := 0, phase := .user, id := id }

/-- `sys_fork`; `copied` says whether there was memory for the child. -/
def Sys.fork (s : Sys) (p : Proc) (copied : Bool) : Option Sys :=
  (findPid s.task 65 s.lastPid).map fun last =>
    match findSlot s.task with
    | some nr =>
      if copied then
        { s with
          task := Function.update s.task nr (some (p.child last s.born))
          lastPid := last
          born := s.born + 1
          pidOf := Function.update s.pidOf s.born last }
      else { s with lastPid := last }
    | none => { s with lastPid := last }

/-! ## do_exit -/

/-- The loop of `do_exit` over the children: they go to init, which hears of those that are zombies. -/
def reparent (task : Table) (pid : Long) (i : Slot) : Option Proc :=
  (task i).map fun p =>
    { p with
      father := if p.father = pid then 1 else p.father
      signal :=
        if i = 1 ∧ ∃ j, (task j).any fun q => decide (q.father = pid ∧ q.state = .zombie) then p.signal ||| bit sigchld
        else p.signal }

/-- `do_exit` up to the closing of the files. -/
def Sys.exitBegin (s : Sys) (i : Slot) (p : Proc) (code : Int) : Sys :=
  { s with
    task := fun j => (reparent s.task p.pid j).map fun q => if j = i then { q with phase := .exiting code } else q
    codeOf := Function.update s.codeOf p.id (some code) }

/-- Where `tell_father` finds the father. -/
def findFather (task : Table) (father : Long) : Option Slot :=
  if father = 0 then none else (List.finRange 64).find? fun j => (task j).any fun q => q.pid = father

/-- `do_exit` from the closing of the files on. Without a father the task releases itself. -/
def Sys.exitEnd (s : Sys) (i : Slot) (p : Proc) (code : Int) : Sys :=
  let task := Function.update s.task i (some { p with state := .zombie, exitCode := code })
  match findFather task p.father with
  | some j => { s with task := Function.update task j ((task j).map fun q => { q with signal := q.signal ||| bit sigchld }) }
  | none => { s with task := Function.update task i none }

/-! ## sys_waitpid -/

/-- What the loop of `sys_waitpid` comes to. -/
inductive Scan
  | stopped (pid : Long)
  | zombie (j : Slot) (p : Proc)
  | done (flag : Bool)
  deriving DecidableEq

/-- Whether a child is one of those waited for. -/
def selects (me p : Proc) (pid : Long) : Bool :=
  if (0 : Long).slt pid then p.pid = pid
  else if pid = 0 then p.pgrp = me.pgrp
  else pid = -1 || p.pgrp = -pid

/-- The loop. -/
def scan (task : Table) (i : Slot) (me : Proc) (pid : Long) (options : Options) : List Slot → Bool → Scan
  | [], flag => .done flag
  | j :: l, flag =>
    match task j with
    | none => scan task i me pid options l flag
    | some p =>
      if j = i ∨ p.father ≠ me.pid ∨ selects me p pid = false then scan task i me pid options l flag
      else
        match p.state with
        | .stopped => if options.wuntraced then .stopped p.pid else scan task i me pid options l flag
        | .zombie => .zombie j p
        | _ => scan task i me pid options l true

/-- From `LAST_TASK` down to the one behind `FIRST_TASK`. -/
def order : List Slot := (List.finRange 64).tail.reverse

/-- A change of one task. -/
def Sys.set (s : Sys) (i : Slot) (p : Proc) : Sys := { s with task := Function.update s.task i (some p) }

/-- From `repeat:` to the next sleep or the return. A zombie is released before anything is returned. -/
def Sys.waitpid (s : Sys) (i : Slot) (me : Proc) (pid : Long) (options : Options) : Sys :=
  match scan s.task i me pid options order false with
  | .stopped _ => s.set i { me with phase := .user }
  | .zombie j p =>
    { s with
      task := Function.update (Function.update s.task j none) i (some { me with phase := .reporting p.id p.pid p.exitCode })
      reaped := s.reaped ++ [p.id] }
  | .done flag =>
    if flag then
      if options.wnohang then s.set i { me with phase := .user }
      else s.set i { me with state := .interruptible, phase := .sleeping pid options }
    else s.set i { me with phase := .user }

/-! ## Runs -/

inductive Op
  | fork (i : Slot) (copied : Bool)
  | exit (i : Slot) (code : Int)
  /-- The files are closed. -/
  | closed (i : Slot)
  | waitpid (i : Slot) (pid : Long) (options : Options)
  /-- The loop of `sys_waitpid`. -/
  | look (i : Slot)
  /-- It is woken up. -/
  | wake (i : Slot)
  | report (i : Slot)
  /-- A task sleeps in the kernel, or is woken there. -/
  | block (i : Slot) (state : TaskState)
  | kill (i : Slot) (signal : BitVec 32)

/-- A step; init and task 0 do not exit. -/
def step (s : Sys) : Op → Option Sys
  | .fork i copied => (s.task i).bind fun p => if p.phase = .user then s.fork p copied else none
  | .exit i code =>
    (s.task i).bind fun p =>
      match p.phase with
      -- also in the store of the code, which may fault
      | .user | .reporting _ _ _ => if i = 0 ∨ i = 1 then none else some (s.exitBegin i p code)
      | _ => none
  | .closed i =>
    (s.task i).bind fun p =>
      match p.phase with
      | .exiting code => if p.state = .zombie then none else some (s.exitEnd i p code)
      | _ => none
  | .waitpid i pid options =>
    (s.task i).bind fun p => if p.phase = .user then some (s.set i { p with phase := .waiting pid options }) else none
  | .look i =>
    (s.task i).bind fun p =>
      match p.phase with
      | .waiting pid options => some (s.waitpid i p pid options)
      | _ => none
  | .wake i =>
    (s.task i).bind fun p =>
      match p.phase with
      | .sleeping pid options =>
        let signal := p.signal &&& ~~~bit sigchld
        some (s.set i { p with
          state := .running
          signal := signal
          phase := if signal = 0 then .waiting pid options else .user })
      | _ => none
  | .report i =>
    (s.task i).bind fun p =>
      match p.phase with
      | .reporting id pid code =>
        some { s.set i { p with phase := .user } with reports := s.reports ++ [⟨id, pid, code⟩] }
      | _ => none
  | .block i state =>
    (s.task i).bind fun p => if p.state = .zombie ∨ state = .zombie then none else some (s.set i { p with state := state })
  | .kill i signal => (s.task i).map fun p => s.set i { p with signal := p.signal ||| signal }

/-- Task 0 and init, after `init` has been forked. -/
structure Sys.Start (s : Sys) : Prop where
  zero : ∃ p, s.task 0 = some p ∧ p.pid = 0 ∧ p.state ≠ .zombie ∧ p.phase = .user ∧ p.id = 0
  init : ∃ p, s.task 1 = some p ∧ p.pid = 1 ∧ p.state ≠ .zombie ∧ p.phase = .user ∧ p.id = 1
  rest : ∀ i, i ≠ 0 → i ≠ 1 → s.task i = none
  born : s.born = 2
  pidOf : s.pidOf 0 = 0 ∧ s.pidOf 1 = 1
  reaped : s.reaped = []
  reports : s.reports = []

end Linux011.Kernel.Process
