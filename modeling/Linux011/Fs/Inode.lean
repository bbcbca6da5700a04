/-
`inode.c` under interleaving: the inode table, the buffer cache its sleeps go
through, and every point at which one of the routines may sleep.

A frame is a routine stopped at such a point: `wait_on_inode` and
`lock_inode`, `wait_on_buffer` and `lock_buffer`, the wait for a free buffer,
and the wait for a free request. A turn of the frame is the code from there
to the next such point, which is all that runs without another task in
between. `getblk` is in the model as it is in the source, because it is where
an inode's lock may be met again: with no clean buffer it calls `sync_dev`,
that calls `sync_inodes`, and that waits for every inode.

An inode's block is read and written as a whole (`dinode`): what a buffer of
it holds between the two is the cache's business. Super blocks stay as they
are: nothing here mounts.
-/
import Linux011.Lib.Coop
import Linux011.Fs.Format

namespace Linux011.Fs.Inode

open Coop

/-! ## The kernel's data -/

/-- A buffer's header (`struct buffer_head`). -/
structure Buf where
  dev : Nat
  blocknr : Nat
  uptodate : Bool
  dirt : Bool
  count : Nat
  lock : Bool

inductive Rw
  | read
  | write
  deriving DecidableEq

structure Kern where
  /-- `NR_BUFFERS`. -/
  nbuf : Nat
  buf : Nat → Buf
  /-- The free list, from `free_list` on. -/
  free : List Nat
  /-- The request a buffer is part of. -/
  req : Nat → Option Rw
  /-- The devices with a `request_fn`. -/
  driver : Nat → Bool
  /-- `inode_table`. -/
  ino : Slot → MInode
  /-- `last_inode`. -/
  last : Slot
  dinode : Nat → Nat → DInode
  imap : Nat → Nat → Bool
  /-- `super_block`. -/
  super : List Super
  /-- The references to an entry that tasks keep between calls: `pwd`, `root`,
  `executable`, the file table. -/
  held : Slot → Nat

/-- A value a routine returns. -/
inductive Val
  | null
  | ino (i : Slot)
  | buf (b : Nat)
  deriving DecidableEq

inductive Frame
  /-- `ll_rw_block`, before `lock_buffer`; and `make_request`, before a free request. -/
  | llRwBlock (rw : Rw) (b : Nat)
  | request (rw : Rw) (b : Nat)
  /-- `getblk`: at `repeat`; in `get_hash_table`; and waiting for the buffer it chose. -/
  | getblk (dev block : Nat)
  | hashed (dev block b : Nat)
  | chosen (dev block b : Nat)
  /-- `bread`: at the start, after `getblk`, and after `ll_rw_block`. -/
  | bread (dev block : Nat)
  | breadGot
  | breadWait (b : Nat)
  | brelse (b : Nat)
  /-- `sync_dev`: in its first or second loop, at a buffer or waiting for one. -/
  | syncDev (dev : Nat) (second : Bool) (b : Nat)
  | syncWait (dev : Nat) (second : Bool) (b : Nat)
  /-- `sync_inodes`, waiting for entry `i`; and the loop of `sys_sync`. -/
  | syncInodes (i : Nat)
  | syncAll (b : Nat)
  /-- `read_inode` and `write_inode`: before `lock_inode`, after `bread`, and after `brelse`. -/
  | readInode (i : Slot)
  | readGot (i : Slot)
  | writeInode (i : Slot)
  | writeGot (i : Slot)
  | unlockInode (i : Slot)
  /-- `get_empty_inode`: at the scan, and waiting for its choice. -/
  | getEmptyInode
  | emptyWait (i : Slot)
  /-- `iget dev nr`: at the start; after `get_empty_inode`; waiting for an entry
  found; after the `iput` of a mount point; and before the return. The first
  pair is the call's, the second what the scan looks for. -/
  | iget (dev nr : Nat)
  | igetEmpty (dev nr : Nat)
  | igetWait (dev nr dev' nr' : Nat) (empty i : Slot)
  | igetMount (dev nr : Nat) (empty : Slot) (sb : Super)
  | igetDone (dev nr : Nat) (i : Slot)
  | newInode (dev : Nat)
  | newEmpty (dev : Nat)
  /-- `iput`: at the start, at the later `wait_on_inode`s, and around `free_inode`. -/
  | iput (i : Slot)
  | iputWait (i : Slot)
  | truncate (i : Slot)
  | freeInode (i : Slot)
  deriving DecidableEq

def Kern.setBuf (k : Kern) (b : Nat) (x : Buf) : Kern := { k with buf := Function.update k.buf b x }
def Kern.setIno (k : Kern) (i : Slot) (x : MInode) : Kern := { k with ino := Function.update k.ino i x }

/-- `get_super`. -/
def Kern.getSuper (k : Kern) (dev : Nat) : Option Super :=
  if dev = 0 then none else k.super.find? fun sb => sb.dev = dev

abbrev Next := Turn Kern Frame Val

/-! ## Buffers -/

/-- `ll_rw_block`, and `make_request` up to its search for a request. -/
def llRwBlock (k : Kern) (rw : Rw) (b : Nat) : Next :=
  if !k.driver (k.buf b).dev then .goes k [] .null
  else if (k.buf b).lock then .asleep
  else if (rw = .write ∧ !(k.buf b).dirt) ∨ (rw = .read ∧ (k.buf b).uptodate) then .goes k [] .null
  else .goes (k.setBuf b { k.buf b with lock := true }) [.request rw b] .null

/-- `add_request`. -/
def addRequest (k : Kern) (rw : Rw) (b : Nat) : Next :=
  .goes { k.setBuf b { k.buf b with dirt := false } with req := Function.update k.req b (some rw) } [] .null

/-- `end_request`, from the disk's interrupt. -/
def endRequest (k : Kern) (b : Nat) (uptodate : Bool) : Option Kern :=
  (k.req b).map fun _ =>
    { k.setBuf b { k.buf b with uptodate := uptodate, lock := false } with
      req := Function.update k.req b none }

/-- `find_buffer`. -/
def findBuffer (k : Kern) (dev block : Nat) : Option Nat :=
  (List.range k.nbuf).find? fun b => (k.buf b).dev = dev ∧ (k.buf b).blocknr = block

/-- `BADNESS`. -/
def Buf.badness (b : Buf) : Nat := 2 * b.dirt.toNat + b.lock.toNat

/-- The search of `getblk` through the free list. -/
def pick (k : Kern) : List Nat → Option Nat → Option Nat
  | [], bh => bh
  | tmp :: rest, bh =>
    if (k.buf tmp).count ≠ 0 then pick k rest bh
    else if bh.all fun b => (k.buf tmp).badness < (k.buf b).badness then
      if (k.buf tmp).badness = 0 then some tmp else pick k rest (some tmp)
    else pick k rest bh

/-- `getblk`, from `repeat`. -/
def getblk (k : Kern) (dev block : Nat) : Next :=
  match findBuffer k dev block with
  | some b => .goes (k.setBuf b { k.buf b with count := (k.buf b).count + 1 }) [.hashed dev block b] .null
  | none =>
    match pick k k.free none with
    | none => .asleep
    | some b => .goes k [.chosen dev block b] .null

/-- `get_hash_table`, after `wait_on_buffer`. -/
def getHashTable (k : Kern) (dev block b : Nat) : Next :=
  if (k.buf b).lock then .asleep
  else if (k.buf b).dev = dev ∧ (k.buf b).blocknr = block then .goes k [] (.buf b)
  else .goes (k.setBuf b { k.buf b with count := (k.buf b).count - 1 }) [.getblk dev block] .null

/-- `getblk`, after a `wait_on_buffer` for the buffer it chose. -/
def getblkChosen (k : Kern) (dev block b : Nat) : Next :=
  if (k.buf b).lock then .asleep
  else if (k.buf b).count ≠ 0 then .goes k [.getblk dev block] .null
  else if (k.buf b).dirt then
    .goes k [.syncDev (k.buf b).dev false 0, .chosen dev block b] .null
  else if (findBuffer k dev block).isSome then .goes k [.getblk dev block] .null
  else
    .goes { k.setBuf b { k.buf b with count := 1, dirt := false, uptodate := false, dev := dev, blocknr := block }
      with free := k.free.erase b ++ [b] } [] (.buf b)

/-- `bread`, after `getblk`. -/
def breadGot (k : Kern) : Val → Next
  | .buf b =>
    if (k.buf b).uptodate then .goes k [] (.buf b)
    else .goes k [.llRwBlock .read b, .breadWait b] .null
  | .null | .ino _ => .panic

/-- `brelse`. -/
def brelse (k : Kern) (b : Nat) : Next :=
  if (k.buf b).lock then .asleep
  else if (k.buf b).count = 0 then .panic
  else .goes (k.setBuf b { k.buf b with count := (k.buf b).count - 1 }) [] .null

/-- `bread`, after `ll_rw_block`. -/
def breadWait (k : Kern) (b : Nat) : Next :=
  if (k.buf b).lock then .asleep
  else if (k.buf b).uptodate then .goes k [] (.buf b)
  else brelse k b

/-- A loop of `sync_dev`, up to the next buffer of the device. -/
def syncDev (k : Kern) (dev : Nat) (second : Bool) (b : Nat) : Next :=
  match (List.range' b (k.nbuf - b)).find? fun c => (k.buf c).dev = dev with
  | some c => .goes k [.syncWait dev second c] .null
  | none =>
    if second then .goes k [] .null
    else .goes k [.syncInodes 0, .syncDev dev true 0] .null

def syncWait (k : Kern) (dev : Nat) (second : Bool) (b : Nat) : Next :=
  if (k.buf b).lock then .asleep
  else if (k.buf b).dev = dev ∧ (k.buf b).dirt then
    .goes k [.llRwBlock .write b, .syncDev dev second (b + 1)] .null
  else .goes k [.syncDev dev second (b + 1)] .null

/-- The loop of `sys_sync` over the buffers. -/
def syncAll (k : Kern) (b : Nat) : Next :=
  if k.nbuf ≤ b then .goes k [] .null
  else if (k.buf b).lock then .asleep
  else if (k.buf b).dirt then .goes k [.llRwBlock .write b, .syncAll (b + 1)] .null
  else .goes k [.syncAll (b + 1)] .null

/-! ## Inodes -/

/-- `sync_inodes`, at entry `i`. -/
def syncInodes (k : Kern) (i : Nat) : Next :=
  if h : i < 32 then
    if (k.ino ⟨i, h⟩).lock then .asleep
    else if (k.ino ⟨i, h⟩).dirt && !(k.ino ⟨i, h⟩).pipe then
      .goes k [.writeInode ⟨i, h⟩, .syncInodes (i + 1)] .null
    else .goes k [.syncInodes (i + 1)] .null
  else .goes k [] .null

/-- `read_inode`, up to its `bread`. -/
def readInode (k : Kern) (i : Slot) : Next :=
  if (k.ino i).lock then .asleep
  else
    match k.getSuper (k.ino i).dev with
    | none => .panic
    | some sb =>
      .goes (k.setIno i { k.ino i with lock := true })
        [.bread (k.ino i).dev (sb.inodeBlock (k.ino i).num), .readGot i] .null

/-- `read_inode`, after `bread`. -/
def readGot (k : Kern) (i : Slot) : Val → Next
  | .buf b =>
    .goes (k.setIno i { k.ino i with toDInode := k.dinode (k.ino i).dev (k.ino i).num })
      [.brelse b, .unlockInode i] .null
  | .null | .ino _ => .panic

/-- `write_inode`, up to its `bread`. -/
def writeInode (k : Kern) (i : Slot) : Next :=
  if (k.ino i).lock then .asleep
  else if !(k.ino i).dirt || (k.ino i).dev == 0 then .goes k [] .null
  else
    match k.getSuper (k.ino i).dev with
    | none => .panic
    | some sb =>
      .goes (k.setIno i { k.ino i with lock := true })
        [.bread (k.ino i).dev (sb.inodeBlock (k.ino i).num), .writeGot i] .null

/-- `write_inode`, after `bread`. -/
def writeGot (k : Kern) (i : Slot) : Val → Next
  | .buf b =>
    .goes { (k.setBuf b { k.buf b with dirt := true }).setIno i { k.ino i with dirt := false } with
        dinode := Function.update k.dinode (k.ino i).dev
          (Function.update (k.dinode (k.ino i).dev) (k.ino i).num (k.ino i).toDInode) }
      [.brelse b, .unlockInode i] .null
  | .null | .ino _ => .panic

def unlockInode (k : Kern) (i : Slot) : Next :=
  .goes (k.setIno i { k.ino i with lock := false }) [] .null

/-- The scan of `get_empty_inode` from `last_inode` on: the new `last_inode` and the entry found. -/
def scanEmpty (k : Kern) : Nat → Slot → Option Slot → Slot × Option Slot
  | 0, last, inode => (last, inode)
  | n + 1, last, inode =>
    if (k.ino (last + 1)).count = 0 then
      if !(k.ino (last + 1)).dirt && !(k.ino (last + 1)).lock then (last + 1, some (last + 1))
      else scanEmpty k n (last + 1) (some (last + 1))
    else scanEmpty k n (last + 1) inode

def getEmptyInode (k : Kern) : Next :=
  match (scanEmpty k 32 k.last none).2 with
  | none => .panic
  | some i => .goes { k with last := (scanEmpty k 32 k.last none).1 } [.emptyWait i] .null

/-- `get_empty_inode`, after a `wait_on_inode` for its choice. -/
def emptyWait (k : Kern) (i : Slot) : Next :=
  if (k.ino i).lock then .asleep
  else if (k.ino i).dirt then .goes k [.writeInode i, .emptyWait i] .null
  else if (k.ino i).count ≠ 0 then .goes k [.getEmptyInode] .null
  else .goes (k.setIno i { MInode.blank with count := 1 }) [] (.ino i)

/-- The first entry for inode `nr` of `dev`. -/
def findInode (k : Kern) (dev nr : Nat) : Option Slot :=
  (List.finRange 32).find? fun i => (k.ino i).dev = dev ∧ (k.ino i).num = nr

/-- The loop of `iget` from `inode_table` on, and what follows it. -/
def igetScan (k : Kern) (dev nr dev' nr' : Nat) (empty : Slot) : Next :=
  match findInode k dev' nr' with
  | some i => .goes k [.igetWait dev nr dev' nr' empty i] .null
  | none =>
    .goes (k.setIno empty { k.ino empty with dev := dev', num := nr' })
      [.readInode empty, .igetDone dev nr empty] .null

def igetEmpty (k : Kern) (dev nr : Nat) : Val → Next
  | .ino e => igetScan k dev nr dev nr e
  | .null | .buf _ => .panic

/-- `iget`, after `wait_on_inode` for the entry found. -/
def igetWait (k : Kern) (dev nr dev' nr' : Nat) (empty i : Slot) : Next :=
  if (k.ino i).lock then .asleep
  else if (k.ino i).dev ≠ dev' ∨ (k.ino i).num ≠ nr' then igetScan k dev nr dev' nr' empty
  else
    let k' := k.setIno i { k.ino i with count := (k.ino i).count + 1 }
    if (k.ino i).mount then
      match k.super.find? fun sb => sb.imount = some i with
      | none => .goes k' [.iput empty, .igetDone dev nr i] .null
      | some sb => .goes k' [.iput i, .igetMount dev nr empty sb] .null
    else .goes k' [.iput empty, .igetDone dev nr i] .null

/-- `new_inode`, after `get_empty_inode`. -/
def newEmpty (k : Kern) (dev : Nat) : Val → Next
  | .ino e =>
    match k.getSuper dev with
    | none => .panic
    | some sb =>
      match firstZero (k.imap dev) 0 (8192 * sb.imapBlocks) with
      | none => .goes k [.iput e] .null
      | some j =>
        if sb.ninodes < j then .goes k [.iput e] .null
        else
          .goes { k.setIno e { k.ino e with count := 1, nlinks := 1, dev := dev, dirt := true, num := j } with
            imap := Function.update k.imap dev (Function.update (k.imap dev) j true) } [] (.ino e)
  | .null | .buf _ => .panic

/-- `iput`, from `repeat`. -/
def iputRepeat (k : Kern) (i : Slot) : Next :=
  if 1 < (k.ino i).count then .goes (k.setIno i { k.ino i with count := (k.ino i).count - 1 }) [] .null
  else if (k.ino i).nlinks = 0 then .goes k [.truncate i, .freeInode i] .null
  else if (k.ino i).dirt then .goes k [.writeInode i, .iputWait i] .null
  else .goes (k.setIno i { k.ino i with count := (k.ino i).count - 1 }) [] .null

/-- `iput`, from its first `wait_on_inode`. -/
def iput (k : Kern) (i : Slot) : Next :=
  if (k.ino i).lock then .asleep
  else if (k.ino i).count = 0 then .panic
  else if (k.ino i).pipe then
    if (k.ino i).count - 1 ≠ 0 then .goes (k.setIno i { k.ino i with count := (k.ino i).count - 1 }) [] .null
    else .goes (k.setIno i { k.ino i with count := 0, dirt := false, pipe := false }) [] .null
  else if (k.ino i).dev = 0 then .goes (k.setIno i { k.ino i with count := (k.ino i).count - 1 }) [] .null
  else if isBlk (k.ino i).mode then .goes k [.syncDev ((k.ino i).zone 0) false 0, .iputWait i] .null
  else iputRepeat k i

def iputWait (k : Kern) (i : Slot) : Next :=
  if (k.ino i).lock then .asleep else iputRepeat k i

/-- `truncate`. Its own sleeps, in `bread` and in `free_block`, come before the
stores an entry of the table shows. -/
def truncate (k : Kern) (i : Slot) : Next :=
  if !(isReg (k.ino i).mode || isDir (k.ino i).mode) then .goes k [] .null
  else .goes (k.setIno i { k.ino i with zone := fun _ => 0, size := 0, dirt := true }) [] .null

def freeInode (k : Kern) (i : Slot) : Next :=
  if (k.ino i).dev = 0 then .goes (k.setIno i MInode.blank) [] .null
  else if 1 < (k.ino i).count then .panic
  else if (k.ino i).nlinks ≠ 0 then .panic
  else
    match k.getSuper (k.ino i).dev with
    | none => .panic
    | some sb =>
      if (k.ino i).num < 1 ∨ sb.ninodes < (k.ino i).num ∨ sb.imapBlocks ≤ (k.ino i).num / 8192 then .panic
      else
        .goes { k.setIno i MInode.blank with
          imap := Function.update k.imap (k.ino i).dev
            (Function.update (k.imap (k.ino i).dev) (k.ino i).num false) } [] .null

/-! ## The system -/

def turn : Frame → Val → Kern → Next
  | .llRwBlock rw b, _, k => llRwBlock k rw b
  | .request rw b, _, k => addRequest k rw b
  | .getblk dev block, _, k => getblk k dev block
  | .hashed dev block b, _, k => getHashTable k dev block b
  | .chosen dev block b, _, k => getblkChosen k dev block b
  | .bread dev block, _, k => .goes k [.getblk dev block, .breadGot] .null
  | .breadGot, v, k => breadGot k v
  | .breadWait b, _, k => breadWait k b
  | .brelse b, _, k => brelse k b
  | .syncDev dev second b, _, k => syncDev k dev second b
  | .syncWait dev second b, _, k => syncWait k dev second b
  | .syncInodes i, _, k => syncInodes k i
  | .syncAll b, _, k => syncAll k b
  | .readInode i, _, k => readInode k i
  | .readGot i, v, k => readGot k i v
  | .writeInode i, _, k => writeInode k i
  | .writeGot i, v, k => writeGot k i v
  | .unlockInode i, _, k => unlockInode k i
  | .getEmptyInode, _, k => getEmptyInode k
  | .emptyWait i, _, k => emptyWait k i
  | .iget dev nr, _, k => if dev = 0 then .panic else .goes k [.getEmptyInode, .igetEmpty dev nr] .null
  | .igetEmpty dev nr, v, k => igetEmpty k dev nr v
  | .igetWait dev nr dev' nr' e i, _, k => igetWait k dev nr dev' nr' e i
  | .igetMount dev nr e sb, _, k => igetScan k dev nr sb.dev rootIno e
  | .igetDone _ _ i, _, k => .goes k [] (.ino i)
  | .newInode dev, _, k => .goes k [.getEmptyInode, .newEmpty dev] .null
  | .newEmpty dev, v, k => newEmpty k dev v
  | .iput i, _, k => iput k i
  | .iputWait i, _, k => iputWait k i
  | .truncate i, _, k => truncate k i
  | .freeInode i, _, k => freeInode k i

/-- What a task outside these routines does: a call, the keeping of the
reference a call returned, a change to an inode it has a reference to, and
the use and release of a buffer. -/
inductive Call
  | iget (dev nr : Nat)
  | newInode (dev : Nat)
  | iput (i : Slot)
  | keep
  | change (i : Slot) (x : DInode)
  | sync
  | bread (dev block : Nat)
  | store
  | release

def call : Call → Val → Kern → Option (Kern × List Frame × Val)
  | .iget dev nr, .null, k => some (k, [.iget dev nr], .null)
  | .newInode dev, .null, k => some (k, [.newInode dev], .null)
  | .iput i, .null, k =>
    if k.held i = 0 then none
    else some ({ k with held := Function.update k.held i (k.held i - 1) }, [.iput i], .null)
  | .keep, .ino i, k => some ({ k with held := Function.update k.held i (k.held i + 1) }, [], .null)
  | .change i x, .null, k =>
    if k.held i = 0 then none
    else some (k.setIno i { k.ino i with toDInode := x, dirt := true }, [], .null)
  | .sync, .null, k => some (k, [.syncInodes 0, .syncAll 0], .null)
  | .bread dev block, .null, k => some (k, [.bread dev block], .null)
  | .store, .buf b, k => some (k.setBuf b { k.buf b with dirt := true, uptodate := true }, [], .buf b)
  | .release, .buf b, k => some (k, [.brelse b], .null)
  | _, _, _ => none

/-- The disk's interrupt: the request of a buffer ends, well or not. -/
def irq : Nat × Bool → Kern → Option Kern
  | (b, uptodate), k => endRequest k b uptodate

def machine : Machine Kern Frame Val Call (Nat × Bool) := { turn := turn, call := call, irq := irq }

/-- No task is inside the routines, no inode is locked. -/
structure Idle {T : Type*} (s : Sys T Kern Frame Val) : Prop where
  stack : ∀ t, s.stack t = []
  acc : ∀ t, s.acc t = .null
  lock : ∀ i, (s.kern.ino i).lock = false

def idle (T : Type*) (k : Kern) : Sys T Kern Frame Val :=
  { kern := k, stack := fun _ => [], acc := fun _ => .null }

/-- The super block of a file system on a hard disk partition. -/
def hdSuper : Super :=
  { ninodes := 96, nzones := 360, imapBlocks := 1, zmapBlocks := 1, firstdatazone := 7, dev := 0x301,
    imount := none, isup := none }

/-- A table with nothing in it, and two clean buffers. -/
def freshKern : Kern :=
  { nbuf := 2
    buf := fun _ => { dev := 0, blocknr := 0, uptodate := false, dirt := false, count := 0, lock := false }
    free := [0, 1]
    req := fun _ => none
    driver := fun _ => true
    ino := fun _ => MInode.blank
    last := 0
    dinode := fun _ _ => { DInode.blank with mode := 0o40755, nlinks := 2 }
    imap := fun _ nr => nr ≤ 1
    super := [hdSuper]
    held := fun _ => 0 }

end Linux011.Fs.Inode
