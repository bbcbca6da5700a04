/-
`do_execve` (`fs/exec.c`).

The strings are copied from the last byte of the last one on, down from the
end of the pages in `page[]`, by up to five calls of `copy_strings`. Where a
string and the pointer to it are, in the user's or in the kernel's segment, is
said by `fs`, which the code sets and sets back. `restart_interp` is reached a second
time for the interpreter of a script, and the program is not looked at as a script then.
-/
import Linux011.Fs.ExecMemory
import Linux011.Fs.Format
import Linux011.Kernel.Image

namespace Linux011.Fs.Execve

open Bytes
open Kernel.Image (Header)

inductive Seg
  | user
  | kernel
  deriving DecidableEq

/-- The state the call changes: `fs`, memory, the local variables that are read through `fs`, the counts of
inodes, buffers and open files, the task, whether it is `last_task_used_math`, and `eip[0]` and `eip[3]`. -/
structure State where
  fs : Seg
  mm : Space
  kmem : Nat → UInt8
  iCount : Nat → Nat
  bCount : Nat → Nat → Nat
  fCount : Nat → Nat
  task : Task
  lastMath : Bool
  eip : Nat
  esp : Nat

abbrev M := StateT State (Except Stop)

def onMemory {α : Type} (x : MM α) : M α := fun s =>
  match x s.mm with
  | .ok (a, m) => .ok (a, { s with mm := m })
  | .error e => .error e

def setFs (seg : Seg) : M Unit := modify fun s => { s with fs := seg }

/-! ## Access through `fs` -/

def getFsByte (w : World) (a : Nat) : M UInt8 := do
  let s ← get
  match s.fs with
  | .user => onMemory (userByte w s.task a)
  | .kernel => pure (s.kmem a)

def getFsLong (w : World) (a : Nat) : M Nat := do
  let b₀ ← getFsByte w a
  let b₁ ← getFsByte w (a + 1)
  let b₂ ← getFsByte w (a + 2)
  let b₃ ← getFsByte w (a + 3)
  pure (long b₀ b₁ b₂ b₃)

/-- In the user's segment: nothing is stored through `fs` in the kernel's. -/
def putFsByte (w : World) (a : Nat) (b : UInt8) : M Unit := do
  let s ← get
  onMemory (setUserByte w s.task a b)

def putFsBytes (w : World) : Nat → List UInt8 → M Unit
  | _, [] => pure ()
  | a, b :: l => do
    putFsByte w a b
    putFsBytes w (a + 1) l

def putFsLong (w : World) (a v : Nat) : M Unit := putFsBytes w a (le32 v)

/-- `do { len++; } while (get_fs_byte(tmp++));`: the address behind the 0. -/
def skipString (w : World) : Nat → Nat → M Nat
  | 0, _ => throw .segv
  | n + 1, tmp => do
    let b ← getFsByte w tmp
    if b = 0 then pure (tmp + 1) else skipString w n (tmp + 1)

/-- No loop goes on for more than the address space. -/
def space : Nat := 4294967296

def countFrom (w : World) : Nat → Nat → M Nat
  | 0, _ => throw .segv
  | n + 1, tmp => do
    let q ← getFsLong w tmp
    if q = 0 then pure 0
    else do
      let i ← countFrom w n (tmp + 4)
      pure (i + 1)

/-- `count`. -/
def count (w : World) (argv : Nat) : M Nat :=
  if argv = 0 then pure 0 else countFrom w space argv

/-- The bytes of a name, read until `namei` knows what it is. -/
def nameFrom (w : World) : Nat → List UInt8 → Nat → M (Option Nat)
  | 0, _, _ => throw .segv
  | n + 1, l, a => do
    let b ← getFsByte w a
    match w.walk (l ++ [b]) with
    | none => nameFrom w n (l ++ [b]) (a + 1)
    | some r => pure r

/-- `namei`: the inode has one user more. -/
def namei (w : World) (pathname : Nat) : M (Option Nat) := do
  let r ← nameFrom w space [] pathname
  match r with
  | none => pure none
  | some ino => do
    modify fun s => { s with iCount := Function.update s.iCount ino (s.iCount ino + 1) }
    pure (some ino)

/-! ## `copy_strings` -/

/-- A difference of `unsigned long`s. -/
def sub32 (a b : Nat) : Nat := (a + (4294967296 - b % 4294967296)) % 4294967296

/-- `p`, `pag` and `offset`. -/
structure Cursor where
  p : Nat
  pag : Nat
  offset : Int

section Copy

variable (w : World) (fromKmem : Nat) (oldFs : Seg)

/-- `--p`, and the page it is in; `none` where the C returns 0. -/
def down (c : Cursor) : M (Option Cursor) := do
  let p := sub32 c.p 1
  if c.offset - 1 < 0 then do
    onlyIf (fromKmem = 2) (setFs oldFs)
    let pag ← onMemory (argPage w (p / 4096))
    if pag = 0 then pure none
    else do
      onlyIf (fromKmem = 2) (setFs .kernel)
      pure (some ⟨p, pag, (p % 4096 : Nat)⟩)
  else pure (some ⟨p, c.pag, c.offset - 1⟩)

/-- `while (len)`, with `tmp` behind the bytes that are left. -/
def copyBytes : Nat → Nat → Cursor → M (Option Cursor)
  | 0, _, c => pure (some c)
  | len + 1, tmp, c => do
    let r ← down w fromKmem oldFs c
    match r with
    | none => pure none
    | some c => do
      let b ← getFsByte w (tmp - 1)
      onMemory (modify fun m => m.store c.pag c.offset.toNat b)
      copyBytes len (tmp - 1) c

/-- `while (argc-- > 0)`. -/
def copyLoop (argv : Nat) : Nat → Cursor → M (Option Cursor)
  | 0, c => pure (some c)
  | argc + 1, c => do
    onlyIf (fromKmem = 1) (setFs .kernel)
    let tmp ← getFsLong w (argv + 4 * argc)
    if tmp = 0 then throw (.panic "argc is wrong")
    else do
      onlyIf (fromKmem = 1) (setFs oldFs)
      let past ← skipString w space tmp
      -- `p - len < 0`, of an unsigned difference
      if sub32 c.p (past - tmp) < 0 then do
        setFs oldFs
        pure none
      else do
        let r ← copyBytes w fromKmem oldFs (past - tmp) past c
        match r with
        | none => pure none
        | some c => copyLoop argv argc c

end Copy

def copyStrings (w : World) (argc : Int) (argv p fromKmem : Nat) : M Nat := do
  if p = 0 then pure 0
  else do
    let s ← get
    onlyIf (fromKmem = 2) (setFs .kernel)
    let r ← copyLoop w fromKmem s.fs argv argc.toNat ⟨p, 0, 0⟩
    match r with
    | none => pure 0
    | some c => do
      onlyIf (fromKmem = 2) (setFs s.fs)
      pure c.p

/-! ## The executable -/

def enoent : Int := -2
def enoexec : Int := -8
def enomem : Int := -12
def eacces : Int := -13

/-- `suser`. -/
def Task.suser (tk : Task) : Prop := tk.euid = 0

instance (tk : Task) : Decidable tk.suser := inferInstanceAs (Decidable (_ = _))

/-- The test of the execute bits. -/
def mayExecute (tk : Task) (ino : Inode) : Prop :=
  let i := if tk.euid = ino.uid then ino.mode / 64 else if tk.egid = ino.gid then ino.mode / 8 else ino.mode
  i % 2 = 1 ∨ (ino.mode % 2 = 1 ∨ ino.mode / 8 % 2 = 1 ∨ ino.mode / 64 % 2 = 1) ∧ tk.suser

instance (tk : Task) (ino : Inode) : Decidable (mayExecute tk ino) := inferInstanceAs (Decidable (_ ∨ _))

/-- `e_uid` and `e_gid`. -/
def effective (tk : Task) (ino : Inode) : Nat × Nat :=
  (if ino.mode / 2048 % 2 = 1 then ino.uid else tk.euid, if ino.mode / 1024 % 2 = 1 then ino.gid else tk.egid)

/-- What the tests before the header come to: an error, or the first block. -/
def examine (w : World) (tk : Task) (ino : Nat) : Except Int (Nat → UInt8) :=
  if isReg (w.inode ino).mode = false then .error eacces
  else if ¬mayExecute tk (w.inode ino) then .error enoexec
  else match w.block (w.inode ino).dev (w.inode ino).zone with
    | none => .error eacces
    | some b => .ok b

/-- From `restart_interp` to `bread`: the buffer is in use. -/
def firstBlock (w : World) (ino : Nat) : M (Except Int (Nat → UInt8)) := do
  let s ← get
  match examine w s.task ino with
  | .error e => pure (.error e)
  | .ok b => do
    let i := w.inode ino
    set { s with bCount := Function.update s.bCount i.dev (Function.update (s.bCount i.dev) i.zone (s.bCount i.dev i.zone + 1)) }
    pure (.ok b)

def brelse (w : World) (ino : Nat) : M Unit := do
  let s ← get
  let i := w.inode ino
  if s.bCount i.dev i.zone = 0 then throw (.panic "Trying to free free buffer")
  else set { s with bCount := Function.update s.bCount i.dev (Function.update (s.bCount i.dev) i.zone (s.bCount i.dev i.zone - 1)) }

/-- `iput`, of an inode that has a name. -/
def iput (ino : Nat) : M Unit := do
  let s ← get
  if s.iCount ino = 0 then throw (.panic "iput: trying to free free inode")
  else set { s with iCount := Function.update s.iCount ino (s.iCount ino - 1) }

/-- A long of the block. -/
def headerLong (b : Nat → UInt8) (k : Nat) : BitVec 32 :=
  BitVec.ofNat 32 (long (b (4 * k)) (b (4 * k + 1)) (b (4 * k + 2)) (b (4 * k + 3)))

/-- `ex = *((struct exec *) bh->b_data)`. -/
def headerOf (b : Nat → UInt8) : Header where
  magic := headerLong b 0
  text := headerLong b 1
  data := headerLong b 2
  bss := headerLong b 3
  syms := headerLong b 4
  entry := headerLong b 5
  trsize := headerLong b 6
  drsize := headerLong b 7

/-- The tests of the header. -/
def accepts (w : World) (ino : Nat) (b : Nat → UInt8) : Bool :=
  (headerOf b).accepted (BitVec.ofNat 32 (w.inode ino).size)

/-! ## Scripts -/

/-- `bh->b_data[0] == '#' && bh->b_data[1] == '!'`. -/
def isScript (b : Nat → UInt8) : Bool := b 0 == 35 && b 1 == 33

def isBlank (c : UInt8) : Bool := c == 32 || c == 9

/-- The first line: blanks, the interpreter, and what is behind the blank after it. -/
structure Script where
  blanks : List UInt8
  interp : List UInt8
  arg : Option (List UInt8)
  deriving DecidableEq

/-- `i_name`, behind the last `/`. -/
def Script.name (sc : Script) : List UInt8 := (sc.interp.reverse.takeWhile (· != 47)).reverse

/-- `strncpy` of the block behind `#!`: up to a 0, and 1022 bytes at most. -/
def scriptText (b : Nat → UInt8) : List UInt8 := ((List.range 1022).map fun k => b (k + 2)).takeWhile (· != 0)

/-- The first line. -/
def scriptLine (b : Nat → UInt8) : List UInt8 := (scriptText b).takeWhile (· != 10)

/-- The interpretation of the line; `none` where no name is found. -/
def parseLine (line : List UInt8) : Option Script :=
  let rest := line.dropWhile isBlank
  let interp := rest.takeWhile fun c => !isBlank c
  if interp = [] then none
  else some
    { blanks := line.takeWhile isBlank
      interp := interp
      arg := match rest.dropWhile fun c => !isBlank c with
        | [] => none
        | _ :: arg => some arg }

/-- The interpretation of the block, which has to have the end of the line: `strchr(buf, '\n')`. -/
def parse (b : Nat → UInt8) : Option Script :=
  if (scriptText b).contains 10 = false then none else parseLine (scriptLine b)

/-- `buf` after the interpretation. -/
def Script.buf (sc : Script) : List UInt8 :=
  sc.blanks ++ (sc.interp ++ [0]) ++ match sc.arg with
    | none => []
    | some arg => arg ++ [0]

/-- `&filename`, `&i_arg`, `&i_name` and `buf`. -/
def World.filenameAt (w : World) : Nat := w.locals
def World.argAt (w : World) : Nat := w.locals + 4
def World.nameAt (w : World) : Nat := w.locals + 8
def World.bufAt (w : World) : Nat := w.locals + 12

/-- The values of `interp`, `i_name` and `i_arg`. -/
def World.interp (w : World) (sc : Script) : Nat := w.bufAt + sc.blanks.length
def World.name (w : World) (sc : Script) : Nat := w.interp sc + (sc.interp.length - sc.name.length)
def World.arg (w : World) (sc : Script) : Nat := w.interp sc + sc.interp.length + 1

/-- Bytes put at an address of the kernel's segment. -/
def putBytes (k : Nat → UInt8) (a : Nat) (l : List UInt8) : Nat → UInt8 := fun x =>
  if a ≤ x ∧ x < a + l.length then l.getD (x - a) 0 else k x

/-- The variables, as the interpretation leaves them. -/
def scriptLocals (w : World) (sc : Script) (k : Nat → UInt8) : Nat → UInt8 :=
  putBytes (putBytes (putBytes k w.bufAt sc.buf) w.nameAt (le32 (w.name sc))) w.argAt (le32 (w.arg sc))

/-! ## `do_execve` up to the point of no return -/

/-- What is known there: the inode, the header, the new ids, `p`, `argc` and `envc`. -/
structure Ready where
  ino : Nat
  ex : Header
  uid : Nat
  gid : Nat
  p : Nat
  argc : Int
  envc : Nat

/-- `exec_error1`. -/
def execError1 (w : World) (retval : Int) : M (Except Int Ready) := do
  onMemory (freeArgs w (List.range 32))
  pure (.error retval)

/-- `exec_error2`. -/
def execError2 (w : World) (ino : Nat) (retval : Int) : M (Except Int Ready) := do
  iput ino
  execError1 w retval

structure Call where
  filename : Nat
  argv : Nat
  envp : Nat

/-- A program with a header: the strings are copied unless that has been done for a script. -/
def binary (w : World) (ino : Nat) (b : Nat → UInt8) (copy : M Nat) (argc : Int) (envc : Nat) : M (Except Int Ready) := do
  brelse w ino
  if accepts w ino b = false then execError2 w ino enoexec
  else do
    let p ← copy
    if p = 0 then execError2 w ino enomem
    else do
      let s ← get
      let ids := effective s.task (w.inode ino)
      pure (.ok { ino := ino, ex := headerOf b, uid := ids.1, gid := ids.2, p := p, argc := argc, envc := envc })

/-- `PAGE_SIZE*MAX_ARG_PAGES-4`. -/
def argTop : Nat := 131068

/-- The interpreter of a script, with the strings copied. -/
def interpreter (w : World) (sc : Script) (p : Nat) (argc : Int) (envc : Nat) : M (Except Int Ready) := do
  let s ← get
  setFs .kernel
  let r ← namei w (w.interp sc)
  setFs s.fs
  match r with
  | none => execError1 w enoent
  | some ino => do
    let r ← firstBlock w ino
    match r with
    | .error e => execError2 w ino e
    | .ok b => binary w ino b (pure p) argc envc

/-- `if (i_arg)`. -/
def copyArg (w : World) (sc : Script) (p : Nat) : M Nat :=
  if sc.arg.isSome then copyStrings w 1 w.argAt p 2 else pure p

/-- The strings of a script. `argc` becomes -1 in between if it is 0. -/
def script (w : World) (c : Call) (sc : Script) (argc envc : Nat) : M (Except Int Ready) := do
  modify fun s => { s with kmem := scriptLocals w sc s.kmem }
  let p ← copyStrings w envc c.envp argTop 0
  let p ← copyStrings w ((argc : Int) - 1) (c.argv + 4) p 0
  let p ← copyStrings w 1 w.filenameAt p 1
  let p ← copyArg w sc p
  let p ← copyStrings w 1 w.nameAt p 2
  if p = 0 then execError1 w enomem
  else interpreter w sc p ((argc : Int) - 1 + 1 + (if sc.arg.isSome then 1 else 0) + 1) envc

def prepare (w : World) (c : Call) : M (Except Int Ready) := do
  modify fun s => { s with
    mm := { s.mm with page := fun _ => 0 }
    kmem := putBytes s.kmem w.filenameAt (le32 c.filename) }
  let r ← namei w c.filename
  match r with
  | none => pure (.error enoent)
  | some ino => do
    let argc ← count w c.argv
    let envc ← count w c.envp
    let r ← firstBlock w ino
    match r with
    | .error e => execError2 w ino e
    | .ok b =>
      if isScript b then do
        brelse w ino
        iput ino
        match parse b with
        | none => execError1 w enoexec
        | some sc => script w c sc argc envc
      else
        binary w ino b
          (do
            let p ← copyStrings w envc c.envp argTop 0
            copyStrings w argc c.argv p 0)
          argc envc

/-! ## The new program -/

/-- `sys_close`, of an open file. -/
def sysClose (w : World) (fd : Nat) : M Unit := do
  let s ← get
  match s.task.filp fd with
  | none => pure ()
  | some f =>
    if s.fCount f = 0 then throw (.panic "Close: file count is 0")
    else do
      set { s with
        fCount := Function.update s.fCount f (s.fCount f - 1)
        task := { s.task with filp := Function.update s.task.filp fd none } }
      onlyIf (s.fCount f = 1) (iput (w.fileInode f))

def closeFiles (w : World) : List Nat → M Unit
  | [] => pure ()
  | fd :: l => do
    let s ← get
    onlyIf (s.task.closeOnExec fd = true) (sysClose w fd)
    closeFiles w l

/-- The loop of `change_ldt`: `page[i]` at its place below 3 GB. What `put_page` returns is not looked at. -/
def putArgs (w : World) : List Nat → MM Unit
  | [] => pure ()
  | i :: l => do
    let m ← get
    onlyIf (m.page i ≠ 0) do
      let _ ← putPage w (m.page i) (786400 + i)
    putArgs w l

/-- The loops of `create_tables`: the pointers to `n` strings from `p` on, and a null pointer. -/
def tabulate (w : World) : Nat → Nat → Nat → M Nat
  | 0, p, table => do
    putFsLong w table 0
    pure p
  | n + 1, p, table => do
    putFsLong w table p
    let p ← skipString w space p
    tabulate w n p (table + 4)

/-- `create_tables`. -/
def createTables (w : World) (p argc envc : Nat) : M Nat := do
  let envp := sub32 (p / 4 * 4) (4 * (envc + 1))
  let argv := sub32 envp (4 * (argc + 1))
  putFsLong w (sub32 argv 4) envp
  putFsLong w (sub32 argv 8) argv
  putFsLong w (sub32 argv 12) argc
  let p ← tabulate w argc p argv
  let _ ← tabulate w envc p envp
  pure (sub32 argv 12)

/-- `while (i & 0xfff) put_fs_byte(0, (char *) (i++));`, for the bytes up to the next page. -/
def clearTail (w : World) : Nat → Nat → M Unit
  | 0, _ => pure ()
  | n + 1, i => do
    putFsByte w i 0
    clearTail w n (i + 1)

/-- `TASK_SIZE`. -/
def taskSize : Nat := 3221225472

/-- What a handler becomes. -/
def Handler.reset : Handler → Handler
  | .ign => .ign
  | _ => .dfl

/-- `if (current->executable) iput(current->executable);` -/
def iputExecutable : Option Nat → M Unit
  | none => pure ()
  | some ino => iput ino

/-- From the point of no return to `clear_page_tables`. -/
def discard (w : World) (ino : Nat) : M Unit := do
  let s ← get
  iputExecutable s.task.executable
  modify fun s => { s with task :=
    { s.task with executable := some ino, handler := fun i => if i < 32 then (s.task.handler i).reset else s.task.handler i } }
  closeFiles w (List.range 20)
  modify fun s => { s with task := { s.task with closeOnExec := fun _ => false } }

/-- The sizes and ids of the new program. -/
def Task.become (tk : Task) (r : Ready) (sp : Nat) : Task :=
  { tk with
    endCode := r.ex.endCode.toNat
    endData := r.ex.endData.toNat
    brk := r.ex.brk.toNat
    startStack := sp / 4096 * 4096
    euid := r.uid
    egid := r.gid }

/-- `do_execve` from the point of no return on. -/
def commit (w : World) (r : Ready) : M Unit := do
  discard w r.ino
  onMemory (clearPageTables w (List.range 768))
  modify fun s => { s with lastMath := false, fs := .user, task := { s.task with usedMath := false, limit := taskSize } }
  onMemory (putArgs w (List.range 32).reverse)
  let sp ← createTables w (r.p + (taskSize - 131072)) r.argc.toNat r.envc
  modify fun s => { s with task := s.task.become r sp }
  clearTail w ((4096 - r.ex.endData.toNat % 4096) % 4096) r.ex.endData.toNat
  modify fun s => { s with eip := r.ex.entry.toNat, esp := sp }

/-- `do_execve`, from user mode. -/
def doExecve (w : World) (c : Call) : M Int := do
  let r ← prepare w c
  match r with
  | .error e => pure e
  | .ok r => do
    commit w r
    pure 0

end Linux011.Fs.Execve
