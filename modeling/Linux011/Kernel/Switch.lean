/-
The stack-based task switch: `switch_to_by_stack` and `first_return_from_kernel`
of `system_call.s`, the way of `fork` into `copy_process`, and the stack
`copy_process` builds for the child.

A task has one page: its `task_struct` at the bottom and its kernel stack above
it. The task that runs does what it likes with its registers and its own kernel
stack (`Op.work`: user code, interrupts, system calls); `schedule` calls the
switch, and `int 0x80` with `__NR_fork` runs through `system_call` and
`sys_fork`. `Sys.saved` is no part of the machine: it records what each task
had when it last called the switch, or what its parent had when it forked.
-/
import Linux011.Lib.Run
import Linux011.Lib.Cpu
import Mathlib.Data.Fin.Basic

namespace Linux011.Kernel.Switch

open Cpu

/-- The variables the code names; `tss` points to the one TSS, `init_task`'s. -/
inductive Global
  | current
  | tss
  | lastTaskUsedMath
  deriving DecidableEq

/-- Where the linker put the code that is returned to. -/
structure Labels where
  /-- `first_return_from_kernel`. -/
  firstReturn : Nat
  /-- In `schedule`, after the call of `switch_to_by_stack`. -/
  schedule : Nat
  /-- In `system_call`, after the call through `sys_call_table`. -/
  systemCall : Nat
  /-- In `sys_fork`, after the call of `copy_process`. -/
  sysFork : Nat
  schedule_ne : schedule ≠ firstReturn

/-- `sizeof(struct task_struct)`. -/
def structSize : Nat := 960

/-- The offset of `stack_top`, which the assembler knows. -/
def stackTop : Nat := 532

/-- The offset of `ldt`. -/
def ldtOff : Nat := 724

/-- The offset of `tss`. -/
def tssOff : Nat := 748

/-- The offset of `tss.cr3`. -/
def cr3Off : Nat := 776

/-- `_LDT(n)`. -/
def ldtSel (n : Fin 64) : Nat := n.val * 16 + 40

/-- `switch_to_by_stack`: what it saves. -/
def switchSave : List (Instr Global) :=
  [.pushl .ebp, .movl .esp .ebp, .pushl .edx, .pushl .ecx, .pushl .ebx, .pushl .eax, .pushl .edi, .pushl .esi,
    .pushfl, .push .gs, .push .fs, .push .es, .push .ds]

/-- `switch_to_by_stack`, when the next task is another one. -/
def switchTo : List (Instr Global) :=
  [.cli, .movl .ebx .eax, .xchgv .eax .current,
    .loadv .tss .ecx, .addl 4096 .ebx, .store .ebx 4 .ecx,
    .store .esp 532 .eax, .load 8 .ebp .ebx, .load 532 .ebx .esp,
    .load 12 .ebp .ecx, .lldt .ecx, .movi 0x17 .ecx, .movs .ecx .fs,
    .load 16 .ebp .ecx, .movcr3 .ecx,
    .cmpv .eax .lastTaskUsedMath]

/-- `switch_to_by_stack`: what it restores. -/
def switchEnd : List (Instr Global) :=
  [.pop .ds, .pop .es, .pop .fs, .pop .gs, .popfl, .popl .esi, .popl .edi, .popl .eax, .popl .ebx, .popl .ecx,
    .popl .edx, .popl .ebp, .ret]

/-- `switch_to_by_stack(pnext, ldt, cr3)`. -/
def switchToByStack : List (Instr Global) :=
  switchSave ++ ([.load 8 .ebp .ebx, .cmpv .ebx .current] ++
    .je 1 :: (switchTo ++ .jne 1 :: .clts :: .label 1 :: switchEnd))

/-- `system_call` up to the call through `sys_call_table`. -/
def systemCall (L : Labels) : List (Instr Global) :=
  [.push .ds, .push .es, .push .fs, .pushl .edx, .pushl .ecx, .pushl .ebx, .movi 0x10 .edx, .movs .edx .ds,
    .movs .edx .es, .movi 0x17 .edx, .movs .edx .fs, .call L.systemCall]

/-- `sys_fork` after `find_empty_process` returned. -/
def sysFork (L : Labels) : List (Instr Global) :=
  [.push .gs, .pushl .esi, .pushl .edi, .pushl .ebp, .pushl .eax, .call L.sysFork]

/-- `int $0x80`: the stack of the TSS, with where the user was. -/
def interrupt (m : Mach Global) : Mach Global :=
  let c := m.regs
  { m with regs := { c with esp := m.mem (m.glob .tss + 4), cs := 8, ss := 0x10 } }.pushAll
    [c.ss.toNat, c.esp, c.eflags.toNat, c.cs.toNat, c.eip]

/-- The arguments of `copy_process`, from 0: nr, ebp, edi, esi, gs, none, ebx, ecx,
edx, fs, es, ds, eip, cs, eflags, esp, ss. -/
def arg (m : Mach Global) (k : Nat) : Nat := m.mem (m.regs.esp + 4 + 4 * k)

/-- What `copy_process` stores below the top of the child's page, in its order. -/
def childStack (L : Labels) (m : Mach Global) : List Nat :=
  [arg m 16 % 65536, arg m 15, arg m 14, arg m 13 % 65536, arg m 12, L.firstReturn, arg m 1, arg m 8, arg m 7,
    arg m 6, 0, arg m 2, arg m 3, arg m 14, arg m 4 % 65536, arg m 9 % 65536, arg m 10 % 65536, arg m 11 % 65536]

/-- `copy_process` into the page `p`, with the page directory `dir` from `copy_page_tables`: `*p = *current`,
the stack, `stack_top` and `tss.cr3`. -/
def copyProcess (L : Labels) (m : Mach Global) (p dir : Nat) : Mach Global :=
  let copied := fun a => if p ≤ a ∧ a < p + structSize then m.mem (m.glob .current + (a - p)) else m.mem a
  { m with
    mem := Function.update (Function.update (storeDown copied (p + 4096) (childStack L m))
      (p + stackTop) (p + 4096 - 4 * (childStack L m).length)) (p + cr3Off) dir
    ts := m.ts && m.glob .lastTaskUsedMath != m.glob .current }

/-- What a task is to find when it runs again. -/
inductive Ctx
  /-- The registers at its call of the switch. -/
  | switched (c : Regs)
  /-- The registers of its parent in user mode. -/
  | forked (u : Regs)

def Ctx.regs : Ctx → Regs
  | .switched c => c
  | .forked u => { u with eax := 0 }

structure Sys where
  mach : Mach Global
  /-- `task[]`: the pages. -/
  task : Fin 64 → Option Nat
  /-- Where the LDT descriptors of the GDT point to. -/
  ldtDesc : Fin 64 → Nat
  /-- Whose context the processor is in. -/
  running : Fin 64
  saved : Fin 64 → Option Ctx

/-- `pushl cr3 ; pushl ldt ; pushl pnext` in `schedule`. -/
def switchArgs (s : Sys) (n : Fin 64) (pnext : Nat) : Mach Global :=
  s.mach.pushAll [s.mach.mem (pnext + cr3Off), ldtSel n, pnext]

/-- What the caller of the switch has, once it is back. -/
def switchCaller (L : Labels) (s : Sys) (n : Fin 64) (pnext : Nat) : Regs :=
  { (switchArgs s n pnext).regs with eip := L.schedule }

/-- The call, the switch, and the `iret` where a new task starts. -/
def switchMach (L : Labels) (s : Sys) (n : Fin 64) (pnext : Nat) : Mach Global :=
  let m := ((switchArgs s n pnext).push L.schedule).exec none switchToByStack
  if m.regs.eip = L.firstReturn then m.run .iret else m

inductive Op
  /-- The running task goes on: other registers, and another stack. -/
  | work (c : Regs) (mem : Nat → Nat)
  /-- `fork` into the slot `nr` with the page `p`. -/
  | fork (nr : Fin 64) (p dir : Nat)
  | switch (n : Fin 64)

/-- The kernel stack of the page `p`. -/
def inStack (p a : Nat) : Prop := p + structSize ≤ a ∧ a < p + 4096

/-- Inside the kernel, on the stack of `p`, with room for a switch. -/
structure CanSwitch (c : Regs) (p : Nat) : Prop where
  cs : c.cs = 8
  ss : c.ss = 0x10
  low : p + structSize + 68 ≤ c.esp
  high : c.esp ≤ p + 4096

/-- The fork as the machine runs it. -/
def forkMach (L : Labels) (s : Sys) (nr : Fin 64) (p dir : Nat) : Mach Global :=
  let m := (interrupt s.mach).exec none (systemCall L)
  let m := ({ m with regs := { m.regs with eax := nr.val } } : Mach Global).exec none (sysFork L)
  copyProcess L m p dir

inductive Step (L : Labels) (s : Sys) : Op → Sys → Prop
  /-- The stack it writes is the one the TSS gives it. -/
  | work {c mem} : (∀ a, ¬inStack (s.mach.mem (s.mach.glob .tss + 4) - 4096) a → mem a = s.mach.mem a) →
      Step L s (.work c mem) { s with mach := { s.mach with regs := c, mem := mem } }
  /-- From user mode; `get_free_page` gives a page that no task has. -/
  | fork {nr p dir} : s.mach.regs.cs ≠ 8 → s.task nr = none →
      (∀ i q, s.task i = some q → p + 4096 ≤ q ∨ q + 4096 ≤ p) →
      Step L s (.fork nr p dir) { s with
        mach := forkMach L s nr p dir
        task := Function.update s.task nr (some p)
        ldtDesc := Function.update s.ldtDesc nr (p + ldtOff)
        saved := Function.update s.saved nr (some (.forked s.mach.regs)) }
  /-- `schedule` chose slot `n`. -/
  | switch {n p pnext} : s.task s.running = some p → CanSwitch s.mach.regs p → s.task n = some pnext →
      Step L s (.switch n) { s with
        mach := switchMach L s n pnext
        running := n
        saved := Function.update s.saved s.running (some (.switched (switchCaller L s n pnext))) }

/-- Task 0 alone, as `sched_init` leaves it. -/
structure Sys.Boot (s : Sys) : Prop where
  running : s.running.val = 0
  task : ∃ p, s.task s.running = some p ∧ s.mach.glob .current = p ∧ s.mach.glob .tss = p + tssOff ∧
    s.mach.mem (p + tssOff + 4) = p + 4096 ∧ s.mach.cr3 = s.mach.mem (p + cr3Off) ∧ s.ldtDesc s.running = p + ldtOff
  ldtr : s.mach.ldtr = BitVec.ofNat 16 (ldtSel s.running)
  alone : ∀ i, i ≠ s.running → s.task i = none

/-- `current`, CR3, LDTR and `tss->esp0` are the running task's. -/
structure Sys.Belongs (s : Sys) (p : Nat) : Prop where
  task : s.task s.running = some p
  current : s.mach.glob .current = p
  cr3 : s.mach.cr3 = s.mach.mem (p + cr3Off)
  ldtr : s.mach.ldtr = BitVec.ofNat 16 (ldtSel s.running)
  ldt : s.ldtDesc s.running = p + ldtOff
  esp0 : s.mach.mem (s.mach.glob .tss + 4) = p + 4096

end Linux011.Kernel.Switch
