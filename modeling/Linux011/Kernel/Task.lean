/-
Tasks, and the system calls and faults that move pages: `fork.c`, `exit.c`,
`do_execve`, `do_no_page` and the sharing of text pages.

The kernel is not preemptive: a task runs inside it until it sleeps or
returns to user mode. Each operation below is one such stretch of one task,
and a run is any interleaving of them. What a task has in hand while it
sleeps is its `Phase` (where in a system call it is) and `load` (the page it
is reading in from its executable). File contents, and the counts of open
files and inodes, change under the tasks' feet by operations of their own.

A header whose sizes overflow when they are added, and argument strings of
more than 128 kB, leave the C in undefined stores and are not modelled.
-/
import Linux011.Lib.Run
import Linux011.Mm.Memory
import Mathlib.Algebra.Group.Nat.Defs

namespace Linux011.Kernel

open Mm

instance neZeroTasks : @NeZero Nat Zero.ofOfNat0 64 := ⟨by decide⟩

instance neZeroByte : @NeZero Nat Zero.ofOfNat0 256 := ⟨by decide⟩

/-- `TASK_SIZE`, 3 GB. -/
def taskSize : Nat := 3221225472

/-- Where a task is, between two stretches inside the kernel. -/
inductive Phase
  /-- In user mode, or in a system call that holds no page. -/
  | user
  /-- In `sys_read` after `verify_area(addr, size)`. -/
  | reading (addr size : Nat)
  /-- In `do_execve` of `ino`, copying strings: `page[]` and `p`; the header
  said that the data ends at `endData`. -/
  | copying (ino endData : Nat) (page : Fin 32 → Option Nat) (p : Nat)
  /-- In `do_execve` with `executable` set, closing files. -/
  | closing (endData : Nat) (page : Fin 32 → Option Nat) (p : Nat)
  /-- In `do_execve` with the new tables, in `create_tables`. -/
  | building (endData p : Nat)
  /-- In `do_execve`, clearing the rest of the last data page. -/
  | filling
  /-- In `do_exit` after `free_page_tables`. -/
  | exiting
  | zombie

/-- The pages of `page[]`. -/
def Phase.pages : Phase → Fin 32 → Option Nat
  | .copying _ _ page _ => page
  | .closing _ page _ => page
  | _ => fun _ => none

/-- The task lives: it has its own directory. -/
def Phase.live : Phase → Bool
  | .exiting | .zombie => false
  | _ => true

/-- `struct task_struct`: `cr3` and the page of the structure itself are frame
numbers, `limit` is the data segment's; file tables are as `copy_process`
reads them. -/
structure Task where
  page : Nat
  pid : Nat
  cr3 : Nat
  limit : Nat
  executable : Option Nat
  endData : Nat
  filp : Nat → Option Nat
  pwd : Option Nat
  root : Option Nat
  /-- The page `do_no_page` is reading into, and the address it is for. -/
  load : Option (Nat × Nat)
  phase : Phase

/-- The state of the kernel: memory, `task[]`, `last_pid`, the counts of open
files and inodes, and the bytes of the files, by inode. -/
structure State where
  mem : Mem
  task : Fin 64 → Option Task
  lastPid : Nat
  fCount : Nat → Nat
  iCount : Nat → Nat
  file : Nat → Nat → Fin 256

namespace State

def setTask (k : State) (t : Fin 64) (tk : Option Task) : State :=
  { k with task := Function.update k.task t tk }

/-! ## `fork.c` -/

/-- `++last_pid`, back to 1 past the largest `long`. -/
def nextPid (last : Nat) : Nat := if last + 1 < 2147483648 then last + 1 else 1

/-- The pid loop of `find_empty_process`; 64 tasks cannot hold 65 pids. -/
def findPid (task : Fin 64 → Option Task) : Nat → Nat → Nat
  | 0, last => nextPid last
  | fuel + 1, last =>
    if (List.finRange 64).any fun i => (task i).any fun x => x.pid == nextPid last then
      findPid task fuel (nextPid last)
    else nextPid last

/-- `find_empty_process`: sets `last_pid`; the first free slot from 1 on. -/
def findEmptyProcess (k : State) : State × Option (Fin 64) :=
  ({ k with lastPid := findPid k.task 64 k.lastPid },
    (List.finRange 64).find? fun i => i != 0 && (k.task i).isNone)

/-- The counts `copy_process` raises for the child's open files. -/
def raiseFiles (filp : Nat → Option Nat) (count : Nat → Nat) : Nat → Nat :=
  (List.range 20).foldl (fun c i => match filp i with
    | none => c
    | some f => Function.update c f (c f + 1)) count

def raiseInode (ino : Option Nat) (count : Nat → Nat) : Nat → Nat :=
  match ino with
  | none => count
  | some i => Function.update count i (count i + 1)

/-- The entries of a table `copy_page_tables` copies: the first 640 kB when task 0
forks. -/
def pageCount (cur : Fin 64) : Nat := if cur = 0 then 160 else 1024

/-- `copy_process`, of task `cur` into slot `nr`: `none` for -EAGAIN. -/
def copyProcess (k : State) (cur nr : Fin 64) (tk : Task) : Except Panic (State × Option Nat) :=
  match k.mem.getFreePage with
  | none => .ok (k, none)
  | some (p, m) => do
    let (m, dir) ← m.copyPageTables tk.cr3 (pageCount cur)
    match dir with
    | none => do
      let m ← m.freePage p
      .ok ({ k with mem := m, task := Function.update k.task nr none }, none)
    | some dir =>
      .ok ({ k with
        mem := m
        task := Function.update k.task nr (some
          { tk with page := p, pid := k.lastPid, cr3 := dir, load := none, phase := .user })
        fCount := raiseFiles tk.filp k.fCount
        iCount := raiseInode tk.executable (raiseInode tk.root (raiseInode tk.pwd k.iCount)) },
        some k.lastPid)

/-- `sys_fork`. -/
def fork (k : State) (t : Fin 64) (tk : Task) : Except Panic State :=
  match k.findEmptyProcess with
  | (k, none) => .ok k
  | (k, some nr) => do
    let (k, _) ← k.copyProcess t nr tk
    .ok k

/-! ## `exit.c` -/

/-- `do_exit` up to its first sleep. The pages of an `execve` under way are in
a local array, and nothing frees them. -/
def doExit (k : State) (t : Fin 64) (tk : Task) : Except Panic State := do
  let m ← k.mem.freePageTables tk.cr3
  .ok ({ k with mem := m }.setTask t (some { tk with cr3 := 0, load := none, phase := .exiting }))

/-- The rest of `do_exit`, with its files closed. -/
def exitDone (k : State) (t : Fin 64) (tk : Task) : State :=
  k.setTask t (some
    { tk with executable := none, filp := fun _ => none, pwd := none, root := none, phase := .zombie })

/-- `release`. -/
def release (k : State) (t : Fin 64) (tk : Task) : Except Panic State := do
  let m ← k.mem.freePage tk.page
  .ok ({ k with mem := m }.setTask t none)

/-! ## Page faults -/

/-- The loop of `share_page`, over the tasks left to try. -/
def shareLoop (task : Fin 64 → Option Task) (t : Fin 64) (cr3 ino a : Nat) :
    List (Fin 64) → Mem → Except Panic (Mem × Bool)
  | [], m => .ok (m, false)
  | p :: ps, m =>
    match task p with
    | none => shareLoop task t cr3 ino a ps m
    | some tp =>
      if p = t then shareLoop task t cr3 ino a ps m
      else if tp.executable ≠ some ino then shareLoop task t cr3 ino a ps m
      else do
        let (m, ok) ← m.tryToShare cr3 tp.cr3 a
        if ok then .ok (m, true) else shareLoop task t cr3 ino a ps m

/-- The tasks `share_page` tries: from `LAST_TASK` down to the one after `FIRST_TASK`. -/
def shareOrder : List (Fin 64) := (List.finRange 64).reverse.filter fun p => p != 0

/-- `share_page`. -/
def sharePage (k : State) (t : Fin 64) (tk : Task) (a : Nat) : Except Panic (Mem × Bool) :=
  match tk.executable with
  | none => .ok (k.mem, false)
  | some ino =>
    if k.iCount ino < 2 then .ok (k.mem, false)
    else shareLoop k.task t tk.cr3 ino a shareOrder k.mem

/-- `do_no_page`, until it has the page or sleeps reading it. -/
def doNoPage (k : State) (t : Fin 64) (tk : Task) (address : Nat) : Except Panic State :=
  let a := address / 4096 * 4096
  if tk.executable = none ∨ tk.endData ≤ a then do
    match ← k.mem.getEmptyPage tk.cr3 a with
    | .done m => .ok { k with mem := m }
    | .oom m => doExit { k with mem := m } t tk
  else do
    let (m, shared) ← k.sharePage t tk a
    if shared then .ok { k with mem := m }
    else match m.getFreePage with
      | none => doExit { k with mem := m } t tk
      | some (page, m) => .ok ({ k with mem := m }.setTask t (some { tk with load := some (page, a) }))

/-- The byte `do_no_page` loads for user address `a`: the file's, whose first
block is the header, and zero from `end_data` on. -/
def imageByte (file : Nat → Fin 256) (endData a : Nat) : Nat := if a < endData then (file (1024 + a)).val else 0

/-- The word loaded for address `a`. -/
def imageWord (file : Nat → Fin 256) (endData a : Nat) : Nat :=
  imageByte file endData a + 256 * imageByte file endData (a + 1) +
    65536 * imageByte file endData (a + 2) + 16777216 * imageByte file endData (a + 3)

/-- All words of a page. -/
def fillPage (m : Mem) (n : Nat) (w : Nat → Nat) : Mem :=
  { m with word := fun f k => if f = n then w k else m.word f k }

/-- The rest of `do_no_page`, with the blocks read. -/
def loaded (k : State) (t : Fin 64) (tk : Task) (ino page a : Nat) : Except Panic State :=
  let m := fillPage k.mem page fun i => imageWord (k.file ino) tk.endData (a + 4 * i)
  match m.putPage tk.cr3 page a with
  | some m => .ok ({ k with mem := m }.setTask t (some { tk with load := none }))
  | none => do
    let m ← m.freePage page
    doExit { k with mem := m } t tk

/-- `do_wp_page`, from a write in user mode. -/
def wpFault (k : State) (t : Fin 64) (tk : Task) (a : Nat) : Except Panic State :=
  match k.mem.doWpPage tk.cr3 a with
  | some m => .ok { k with mem := m }
  | none => doExit k t tk

/-- `sys_read` up to the driver: `verify_area`. -/
def sysRead (k : State) (t : Fin 64) (tk : Task) (addr size : Nat) : Except Panic State :=
  match k.mem.verifyArea tk.cr3 addr size with
  | .ok m => .ok ({ k with mem := m }.setTask t (some { tk with phase := .reading addr size }))
  | .error m => doExit { k with mem := m } t tk

/-! ## User accesses -/

/-- The entry for user address `a`. -/
def entryAt (m : Mem) (cr3 a : Nat) : Nat := m.walk cr3 (Mem.dirIx a) (Mem.tabIx a)

def getByte (w i : Nat) : Nat := w / 256 ^ i % 256

def setByte (w i b : Nat) : Nat := w - getByte w i * 256 ^ i + b % 256 * 256 ^ i

/-- A store of byte `b` at user address `a` through a present entry: the frame,
and the entry's dirty bit. -/
def storeByte (m : Mem) (cr3 a b : Nat) : Mem :=
  let e := entryAt m cr3 a
  let w := a % 4096 / 4
  (m.set (frame (m.word cr3 (Mem.dirIx a))) (Mem.tabIx a) (setDirty e)).set (frame e) w
    (setByte (m.word (frame e) w) (a % 4) b)

/-! ## `do_execve` -/

def le32 (file : Nat → Fin 256) (o : Nat) : Nat :=
  (file o).val + 256 * (file (o + 1)).val + 65536 * (file (o + 2)).val + 16777216 * (file (o + 3)).val

/-- `ex.a_text + ex.a_data`. -/
def headerEnd (file : Nat → Fin 256) : Nat := le32 file 4 + le32 file 8

/-- The size check on the header: text, data and bss within 16 MB. -/
def headerOk (file : Nat → Fin 256) : Bool := headerEnd file + le32 file 12 ≤ 16777216

theorem argRoom {p : Nat} (h : 0 < p ∧ p ≤ 131072) : p - 1 < 131072 := by omega

theorem argIndex {p : Nat} (h : p < 131072) : p / 4096 < 32 := by omega

/-- One byte of `copy_strings`; `p` is 0 where the C returns 0. -/
def argByte (k : State) (t : Fin 64) (tk : Task) (ino endData : Nat) (page : Fin 32 → Option Nat) (p b : Nat)
    (hp : p - 1 < 131072) : State :=
  let p := p - 1
  let i : Fin 32 := ⟨p / 4096, argIndex hp⟩
  let store (m : Mem) (pag : Nat) : Mem :=
    m.set pag (p % 4096 / 4) (setByte (m.word pag (p % 4096 / 4)) (p % 4) b)
  match page i with
  | some pag => { k with mem := store k.mem pag }.setTask t (some { tk with phase := .copying ino endData page p })
  | none =>
    match k.mem.getFreePage with
    | none => k.setTask t (some { tk with phase := .copying ino endData page 0 })
    | some (pag, m) =>
      { k with mem := store m pag }.setTask t
        (some { tk with phase := .copying ino endData (Function.update page i (some pag)) p })

/-- The pages of `page[]` in order, 0 where there is none. -/
def freeArgs (m : Mem) (page : Fin 32 → Option Nat) : Except Panic Mem :=
  (List.finRange 32).foldlM (fun m i => m.freePage ((page i).getD 0)) m

/-- The failing exits of `do_execve`. -/
def execFail (k : State) (t : Fin 64) (tk : Task) (page : Fin 32 → Option Nat) : Except Panic State := do
  let m ← freeArgs k.mem page
  .ok ({ k with mem := m }.setTask t (some { tk with phase := .user }))

/-- The loop of `change_ldt`; a `put_page` that fails is ignored. -/
def putArgs (m : Mem) (cr3 : Nat) (page : Fin 32 → Option Nat) : Mem :=
  (List.finRange 32).reverse.foldl (fun m i =>
    match page i with
    | none => m
    | some n => (m.putPage cr3 n (taskSize - 131072 + i.val * 4096)).getD m) m

/-- `clear_page_tables` and `change_ldt`. -/
def execClear (k : State) (t : Fin 64) (tk : Task) (endData : Nat) (page : Fin 32 → Option Nat) (p : Nat) :
    Except Panic State := do
  let m ← k.mem.clearPageTables tk.cr3
  .ok ({ k with mem := putArgs m tk.cr3 page }.setTask t
    (some { tk with limit := taskSize, phase := .building endData p }))

/-- The highest word `create_tables` stores, below the strings. -/
def stackTop (p : Nat) : Nat := taskSize - 131072 + p / 4 * 4 - 4

end State

/-! ## The system -/

/-- The phases in which the task, or the kernel for it, accesses user memory. -/
def Phase.touches : Phase → Bool
  | .user | .reading .. | .copying .. | .building .. | .filling => true
  | _ => false

def Phase.isUser : Phase → Bool
  | .user => true
  | _ => false

/-- One stretch of a task in the kernel, or one access in user mode. -/
inductive Op
  | fork (t : Fin 64)
  /-- An access to an address that is not mapped. -/
  | fault (t : Fin 64) (a : Nat)
  /-- The blocks `do_no_page` waits for have arrived. -/
  | loaded (t : Fin 64)
  /-- A write in user mode through a read-only entry. -/
  | wpFault (t : Fin 64) (a : Nat)
  /-- A write in user mode through a writable entry. -/
  | write (t : Fin 64) (a b : Nat)
  | sysRead (t : Fin 64) (addr size : Nat)
  | readDone (t : Fin 64)
  | execBegin (t : Fin 64) (ino : Nat)
  | argByte (t : Fin 64) (b : Nat)
  | execFail (t : Fin 64)
  | execCommit (t : Fin 64)
  | execClear (t : Fin 64)
  | execData (t : Fin 64)
  | execDone (t : Fin 64)
  /-- `do_exit`: the system call, a signal, or a user address beyond the segment. -/
  | exit (t : Fin 64)
  | exitDone (t : Fin 64)
  | release (t : Fin 64)
  /-- Files opened, closed, and directories changed. -/
  | files (t : Fin 64) (filp : Nat → Option Nat) (pwd root : Option Nat)
  | counts (fCount iCount : Nat → Nat)
  | fileWrite (ino o : Nat) (b : Fin 256)

namespace State

/-- The system calls and faults of a task other than task 0, which only forks. -/
def current (k : State) (t : Fin 64) : Option Task :=
  if t = 0 then none else k.task t

/-- What an operation does; `none` where it cannot happen. -/
def exec (k : State) : Op → Option (Except Panic State)
  | .fork t => do
    let tk ← k.task t
    if tk.phase.isUser ∧ tk.load = none then some (k.fork t tk) else none
  | .fault t a => do
    let tk ← k.current t
    if tk.phase.touches ∧ tk.load = none ∧ a < tk.limit ∧ ¬ Present (entryAt k.mem tk.cr3 a) then
      some (k.doNoPage t tk a)
    else none
  | .loaded t => do
    let tk ← k.current t
    let (page, a) ← tk.load
    let ino ← tk.executable
    some (k.loaded t tk ino page a)
  | .wpFault t a => do
    let tk ← k.current t
    if tk.phase.isUser ∧ tk.load = none ∧ a < tk.limit ∧ Present (entryAt k.mem tk.cr3 a) ∧
        ¬ Rw (entryAt k.mem tk.cr3 a) then
      some (k.wpFault t tk a)
    else none
  | .write t a b => do
    let tk ← k.current t
    if tk.phase.isUser ∧ tk.load = none ∧ a < tk.limit ∧ Present (entryAt k.mem tk.cr3 a) ∧
        Rw (entryAt k.mem tk.cr3 a) then
      some (.ok { k with mem := storeByte k.mem tk.cr3 a b })
    else none
  | .sysRead t addr size => do
    let tk ← k.current t
    if tk.phase.isUser ∧ tk.load = none ∧ addr + size ≤ taskSize ∧ size < 2147483648 then
      some (k.sysRead t tk addr size)
    else none
  | .readDone t => do
    let tk ← k.current t
    match tk.phase, tk.load with
    | .reading .., none => some (.ok (k.setTask t (some { tk with phase := .user })))
    | _, _ => none
  | .execBegin t ino => do
    let tk ← k.current t
    if tk.phase.isUser ∧ tk.load = none ∧ headerOk (k.file ino) then
      -- PAGE_SIZE*MAX_ARG_PAGES-4
      some (.ok (k.setTask t (some
        { tk with phase := .copying ino (headerEnd (k.file ino)) (fun _ => none) 131068 })))
    else none
  | .argByte t b => do
    let tk ← k.current t
    match tk.phase, tk.load with
    | .copying ino e page p, none =>
      if h : 0 < p ∧ p ≤ 131072 then some (.ok (k.argByte t tk ino e page p b (argRoom h))) else none
    | _, _ => none
  | .execFail t => do
    let tk ← k.current t
    match tk.phase, tk.load with
    | .copying _ _ page _, none => some (k.execFail t tk page)
    | _, _ => none
  | .execCommit t => do
    let tk ← k.current t
    match tk.phase, tk.load with
    | .copying ino e page p, none =>
      if 0 < p then some (.ok (k.setTask t (some { tk with executable := some ino, phase := .closing e page p })))
      else none
    | _, _ => none
  | .execClear t => do
    let tk ← k.current t
    match tk.phase, tk.load with
    | .closing e page p, none => some (k.execClear t tk e page p)
    | _, _ => none
  | .execData t => do
    let tk ← k.current t
    match tk.phase, tk.load with
    | .building e p, none =>
      -- `create_tables` has stored its words.
      if stackTop p < tk.limit ∧ Present (entryAt k.mem tk.cr3 (stackTop p)) then
        some (.ok (k.setTask t (some { tk with endData := e, phase := .filling })))
      else none
    | _, _ => none
  | .execDone t => do
    let tk ← k.current t
    match tk.phase, tk.load with
    | .filling, none => some (.ok (k.setTask t (some { tk with phase := .user })))
    | _, _ => none
  | .exit t => do
    let tk ← k.current t
    if tk.phase.touches ∧ tk.load = none then some (k.doExit t tk) else none
  | .exitDone t => do
    let tk ← k.current t
    match tk.phase with
    | .exiting => some (.ok (k.exitDone t tk))
    | _ => none
  | .release t => do
    let tk ← k.current t
    match tk.phase with
    | .zombie => some (k.release t tk)
    | _ => none
  | .files t filp pwd root => do
    let tk ← k.current t
    if tk.phase.live ∧ tk.load = none then
      some (.ok (k.setTask t (some { tk with filp := filp, pwd := pwd, root := root })))
    else none
  | .counts fc ic => some (.ok { k with fCount := fc, iCount := ic })
  | .fileWrite ino o b =>
    some (.ok { k with file := Function.update k.file ino (Function.update (k.file ino) o b) })

/-- `INIT_TASK`. -/
def initTask : Task where
  page := 0
  pid := 0
  cr3 := 0
  limit := 655360
  executable := none
  endData := 0
  filp := fun _ => none
  pwd := none
  root := none
  load := none
  phase := .user

/-- The kernel after `mem_init` and `sched_init`: task 0 alone. -/
def boot (b : Boot) (file : Nat → Nat → Fin 256) : State where
  mem := memInit b
  task := Function.update (fun _ => none) 0 (some initTask)
  lastPid := 0
  fCount := fun _ => 0
  iCount := fun _ => 0
  file := file

/-- One step of a run. -/
def Step (k : State) (op : Op) (k' : State) : Prop := k.exec op = some (.ok k')

end State

end Linux011.Kernel
