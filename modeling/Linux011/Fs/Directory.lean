/-
One directory and the tasks that work on it.

A call has found its way to the directory and scans it for a name, block by
block (`find_entry`). A creation that missed allocates an inode, for `mkdir`
also a block, and scans the directory again for a free place (`add_entry`),
adding a block at its end if it must. A removal that hit keeps a pointer into
the block and gets the inode. Every block read, block or inode allocated and
`iget` may sleep, and the directory is not locked. The rest of the system is
free to change the inode bitmap, the room on the disk and the inodes.

Reads do not fail here, and a zone is known by when it was given out: no two
blocks are given the same.
-/
import Linux011.Lib.Coop
import Linux011.Fs.Format

namespace Linux011.Fs.Directory

open Coop

/-- What the calls read of an inode, and its `i_nlinks`. -/
structure Attr where
  mode : Nat
  uid : Nat
  count : Nat
  nlinks : Nat
  /-- Another file system is mounted on it. -/
  mount : Bool
  /-- What `empty_dir` says of it. -/
  empty : Bool

/-- A removal that has returned 0: the name it was asked for, the inode whose
`i_nlinks` it took down, and the place it cleared with what the directory had there. -/
structure Removal where
  name : Name
  ino : Nat
  pos : Nat
  old : Option DirEntry
  deriving DecidableEq

structure Kern where
  sb : Super
  /-- The directory's own number, mode and owner. -/
  num : Nat
  mode : Nat
  uid : Nat
  /-- Its `i_size`. -/
  size : Nat
  /-- The zone of each of its blocks, 0 for a block it does not have. -/
  zone : Nat → Nat
  /-- The entries in the block of a zone. -/
  entry : Nat → Nat → DirEntry
  /-- The next zone to be given out, and how many there are. -/
  fresh : Nat
  room : Nat
  imap : Nat → Bool
  inode : Nat → Attr
  /-- The names entered by creations that have succeeded. -/
  created : List Name
  removed : List Removal

/-- What creates an entry: `open` with `O_CREAT`, `mknod` and `mkdir` make an
inode for it, with the caller's `euid` and a mode, and `link` has one. -/
inductive Kind
  | open (mode euid : Nat)
  | mknod (mode euid : Nat)
  | mkdir (mode euid : Nat)
  | link (nr : Nat)
  deriving DecidableEq

/-- The calls, from `find_entry` on; a call without the permission to write
returns without a look at the entries. -/
inductive Call
  | create (kind : Kind) (name : Name)
  | unlink (name : Name) (euid : Nat)
  | rmdir (name : Name) (euid : Nat)
  deriving DecidableEq

def Call.name : Call → Name
  | .create _ n | .unlink n _ | .rmdir n _ => n

/-- Where a task sleeps. -/
inductive Frame
  /-- Before `find_entry`. -/
  | start (c : Call)
  /-- `find_entry`, in `bmap` for the block of entry `i`. -/
  | findMap (c : Call) (i entries : Nat)
  /-- `find_entry`, in `bread` of zone `z`, the block of entry `i`. -/
  | find (c : Call) (i entries z : Nat)
  | newInode (kind : Kind) (n : Name)
  /-- `mkdir`, in `new_block` and in `bread` of the new directory's block. -/
  | newBlock (kind : Kind) (n : Name) (nr z : Nat)
  | newDir (kind : Kind) (n : Name) (nr z : Nat)
  /-- `add_entry`, in `create_block` for the block of entry `i`, before and
  after it has found the block absent. -/
  | addMap (kind : Kind) (n : Name) (nr i : Nat)
  | addBlock (kind : Kind) (n : Name) (nr i z : Nat)
  /-- `add_entry`, in `bread` of zone `z`, the block of entry `i`. -/
  | add (kind : Kind) (n : Name) (nr i z : Nat)
  /-- `link`, in the `iput` of the directory. -/
  | linked (nr : Nat)
  /-- A removal, in `iget`, with its pointer to entry `p`, in the block of zone `z`. -/
  | iget (c : Call) (nr p z : Nat)
  /-- `rmdir`, in `empty_dir`. -/
  | emptyDir (n : Name) (nr p z : Nat)
  deriving DecidableEq

abbrev Next := Turn Kern Frame Unit

/-- The block an entry is in, and its place there. -/
def block (i : Nat) : Nat := i / dirEntriesPerBlock
def place (i : Nat) : Nat := i % dirEntriesPerBlock

/-- What the directory has at a place. -/
def Kern.live (k : Kern) (p : Nat) : Option DirEntry :=
  if 16 * p < k.size ∧ k.zone (block p) ≠ 0 ∧ (k.entry (k.zone (block p)) (place p)).inode ≠ 0 then
    some (k.entry (k.zone (block p)) (place p))
  else none

def Kern.setEntry (k : Kern) (z w : Nat) (de : DirEntry) : Kern :=
  { k with entry := Function.update k.entry z (Function.update (k.entry z) w de) }

/-- `clear_block`. -/
def Kern.clearBlock (k : Kern) (z : Nat) : Kern :=
  { k with entry := Function.update k.entry z fun _ => .free }

def Kern.setInode (k : Kern) (nr : Nat) (a : Attr) : Kern :=
  { k with inode := Function.update k.inode nr a }

/-- `iput` of an inode just made, with no links: `free_inode`. -/
def Kern.freeInode (k : Kern) (nr : Nat) : Kern :=
  { k with imap := Function.update k.imap nr false }

/-! ## Creation -/

/-- A creation whose `add_entry` returned NULL. `mkdir` frees its block and
leaves it to `iput`, which frees it again and halts in `free_block`. -/
def addFails (k : Kern) (kind : Kind) (nr : Nat) : Next :=
  match kind with
  | .open _ _ | .mknod _ _ => .goes (k.freeInode nr) [] ()
  | .mkdir _ _ => .panic
  | .link _ => .goes k [] ()

/-- The start of `add_entry`. -/
def addEntry (k : Kern) (kind : Kind) (n : Name) (nr : Nat) : Next :=
  if k.zone 0 = 0 then addFails k kind nr else .goes k [.add kind n nr 0 (k.zone 0)] ()

/-- The place at `j` is taken: name and inode are stored without a sleep in between. -/
def enter (k : Kern) (n : Name) (nr j z : Nat) : Kern :=
  { k.setEntry z (place j) { inode := nr, name := n.stored } with
    size := if k.size ≤ 16 * j then 16 * (j + 1) else k.size
    created := n :: k.created }

/-- The inode as `new_inode` and the code behind it make it. -/
def Kind.attr : Kind → Attr
  | .open mode euid | .mknod mode euid =>
    { mode := mode, uid := euid, count := 1, nlinks := 1, mount := false, empty := false }
  | .mkdir _ euid => { mode := 0, uid := euid, count := 1, nlinks := 1, mount := false, empty := false }
  | .link _ => { mode := 0, uid := 0, count := 0, nlinks := 0, mount := false, empty := false }

/-- With the new inode: `mkdir` asks for a block, the others go on to `add_entry`. -/
def withInode (k : Kern) (kind : Kind) (n : Name) (nr : Nat) : Next :=
  match kind with
  | .mkdir _ _ =>
    if k.room = 0 then .goes (k.freeInode nr) [] ()
    else .goes { k with room := k.room - 1, fresh := k.fresh + 1 } [.newBlock kind n nr k.fresh] ()
  | .open _ _ | .mknod _ _ | .link _ => addEntry k kind n nr

/-- The new directory's block, with `.` and `..`. -/
def makeDir (k : Kern) (mode nr z : Nat) : Kern :=
  ((k.setEntry z 0 { inode := nr, name := 46 :: List.replicate 13 0 }).setEntry z 1
    { inode := k.num, name := 46 :: 46 :: List.replicate 12 0 }).setInode nr
    { k.inode nr with nlinks := 2, mode := mode, empty := true }

/-! ## Removal -/

/-- `S_ISVTX`. -/
def sticky (mode : Nat) : Bool := mode / 512 % 2 == 1

/-- `unlink` goes through with the inode it got. -/
def mayUnlink (k : Kern) (euid nr : Nat) : Bool :=
  let a := k.inode nr
  !a.mount && !(sticky k.mode && euid != 0 && euid != a.uid && euid != k.uid) && !isDir a.mode

/-- `rmdir` gets as far as `empty_dir`. -/
def mayRmdir (k : Kern) (euid nr : Nat) : Bool :=
  let a := k.inode nr
  !(sticky k.mode && euid != 0 && a.uid != euid) && !(a.mount || a.count != 0) && nr != k.num && isDir a.mode

/-- `de->inode = 0`, and the links of the inode. -/
def remove (k : Kern) (n : Name) (nr p z nlinks : Nat) : Kern :=
  { (k.setEntry z (place p) { k.entry z (place p) with inode := 0 }).setInode nr
      { k.inode nr with nlinks := nlinks } with
    removed := ⟨n, nr, p, k.live p⟩ :: k.removed }

/-! ## The calls -/

/-- `find_entry` returned NULL. -/
def missed (k : Kern) : Call → Next
  | .create (.link nr) n => addEntry k (.link nr) n nr
  | .create kind n => .goes k [.newInode kind n] ()
  | .unlink _ _ | .rmdir _ _ => .goes k [] ()

/-- `find_entry` found entry `p`. -/
def found (k : Kern) (c : Call) (p z : Nat) : Next :=
  match c with
  | .create _ _ => .goes k [] ()
  | .unlink _ _ | .rmdir _ _ => .goes k [.iget c (k.entry z (place p)).inode p z] ()

/-- `find_entry` behind the block of entry `i`. -/
def nextBlock (k : Kern) (c : Call) (i entries : Nat) : Next :=
  if i + dirEntriesPerBlock < entries then .goes k [.findMap c (i + dirEntriesPerBlock) entries] ()
  else missed k c

/-- `find_entry` in the block of zone `z`, whose first entry is `i`. -/
def scan (k : Kern) (c : Call) (i entries z : Nat) : Next :=
  match firstZero (fun j => !c.name.matchEntry (k.entry z (place j))) i
      (min entries (i + dirEntriesPerBlock) - i) with
  | some p => found k c p z
  | none => nextBlock k c i entries

def turn : Frame → Unit → Kern → Next
  | .start c, _, k =>
    if k.zone 0 = 0 then missed k c else .goes k [.find c 0 (k.size / 16) (k.zone 0)] ()
  | .findMap c i entries, _, k =>
    if k.zone (block i) = 0 then nextBlock k c i entries
    else .goes k [.find c i entries (k.zone (block i))] ()
  | .find c i entries z, _, k => scan k c i entries z
  | .newInode kind n, _, k =>
    match firstZero k.imap 0 (8192 * k.sb.imapBlocks) with
    | none => .goes k [] ()
    | some nr =>
      if k.sb.ninodes < nr then .goes k [] ()
      else withInode { k.setInode nr kind.attr with imap := Function.update k.imap nr true } kind n nr
  | .newBlock kind n nr z, _, k => .goes (k.clearBlock z) [.newDir kind n nr z] ()
  | .newDir kind n nr z, _, k =>
    match kind with
    | .mkdir mode _ => addEntry (makeDir k mode nr z) kind n nr
    | .open _ _ | .mknod _ _ | .link _ => .goes k [] ()
  | .addMap kind n nr i, _, k =>
    if k.zone (block i) = 0 then
      if k.room = 0 then addFails k kind nr
      else .goes { k with room := k.room - 1, fresh := k.fresh + 1 } [.addBlock kind n nr i k.fresh] ()
    else .goes k [.add kind n nr i (k.zone (block i))] ()
  | .addBlock kind n nr i z, _, k =>
    .goes { k.clearBlock z with zone := Function.update k.zone (block i) z } [.add kind n nr i z] ()
  | .add kind n nr i z, _, k =>
    match firstZero (fun j => decide (16 * j < k.size) && (k.entry z (place j)).inode != 0) i
        dirEntriesPerBlock with
    | none => .goes k [.addMap kind n nr (i + dirEntriesPerBlock)] ()
    | some j =>
      match kind with
      | .link _ => .goes (enter k n nr j z) [.linked nr] ()
      | .open _ _ | .mknod _ _ | .mkdir _ _ => .goes (enter k n nr j z) [] ()
  | .linked nr, _, k =>
    .goes (k.setInode nr { k.inode nr with nlinks := ((k.inode nr).nlinks + 1) % 256 }) [] ()
  | .iget c nr p z, _, k =>
    match c with
    | .create _ _ => .goes k [] ()
    | .unlink n euid =>
      if mayUnlink k euid nr then .goes (remove k n nr p z ((k.inode nr).nlinks - 1)) [] () else .goes k [] ()
    | .rmdir n euid =>
      if mayRmdir k euid nr then .goes (k.setInode nr { k.inode nr with count := 1 }) [.emptyDir n nr p z] ()
      else .goes k [] ()
  | .emptyDir n nr p z, _, k =>
    let k' := k.setInode nr { k.inode nr with count := (k.inode nr).count - 1 }
    if (k.inode nr).empty then .goes (remove k' n nr p z 0) [] () else .goes k' [] ()

/-- `link` has an inode, whose number is not 0. -/
def call (c : Call) (_ : Unit) (k : Kern) : Option (Kern × List Frame × Unit) :=
  match c with
  | .create (.link 0) _ => none
  | c => some (k, [.start c], ())

/-- The rest of the system: inodes are made and freed, and so are zones, and inodes change. -/
inductive Event
  | imap (bits : Nat → Bool)
  | room (n : Nat)
  | inode (nr : Nat) (a : Attr)

def irq : Event → Kern → Option Kern
  | .imap bits, k => if bits 0 then some { k with imap := bits } else none
  | .room n, k => some { k with room := n }
  | .inode nr a, k => some (k.setInode nr { a with nlinks := (k.inode nr).nlinks })

def machine : Machine Kern Frame Unit Call Event := { turn := turn, call := call, irq := irq }

abbrev State (T : Type*) := Sys T Kern Frame Unit

end Linux011.Fs.Directory
