/-
Zones given out and taken back, one call at a time.

`new_block` and `free_block` on the zone bitmap, `_bmap` that builds a file's
tree of zones, and `truncate` that takes it down. Blocks are tables of 512
words of 16 bits, as the buffer cache has them; a freed block's buffer is
dropped, so that its contents are again those on the disk. No read fails, and
`none` is a panic; the last section has the routines when some blocks cannot
be read.
-/
import Linux011.Fs.Format
import Linux011.Fs.Zones

namespace Linux011.Fs

/-- One file system. -/
structure Disk (I : Type*) where
  sb : Super
  /-- The zone bitmap. -/
  zmap : Nat → Bool
  ino : I → DInode
  /-- The blocks, through the buffer cache, and on the disk. -/
  blk : Nat → Nat → Nat
  disk : Nat → Nat → Nat
  /-- `b_count` of a block's buffer, 0 if it has none. -/
  hold : Nat → Nat

variable {I : Type*}

namespace Disk

/-- The files as trees of zones. -/
def trees (d : Disk I) : Trees I := { zone := fun i => (d.ino i).zone, blk := d.blk }

/-- The place of a zone in the bitmap, and its bit. -/
def index (d : Disk I) (z : Nat) : Nat := z + 1 - d.sb.firstdatazone
def bit (d : Disk I) (z : Nat) : Bool := d.zmap (d.index z)

/-- `getblk` and `bread`, and `brelse`. -/
def bread (d : Disk I) (z : Nat) : Disk I := { d with hold := Function.update d.hold z (d.hold z + 1) }
def brelse (d : Disk I) (z : Nat) : Disk I := { d with hold := Function.update d.hold z (d.hold z - 1) }

/-- A word of a block, an `unsigned short`. -/
def setWord (d : Disk I) (b w z : Nat) : Disk I :=
  { d with blk := Function.update d.blk b (Function.update (d.blk b) w (z % 65536)) }

variable [DecidableEq I]

/-- An entry of `i_zone`, an `unsigned short`. -/
def setZone (d : Disk I) (i : I) (k z : Nat) : Disk I :=
  { d with ino := Function.update d.ino i { d.ino i with zone := Function.update (d.ino i).zone k (z % 65536) } }

end Disk

/-! ## The bitmap -/

/-- `new_block`. -/
def newBlock (d : Disk I) : Option (Disk I × Nat) :=
  match firstZero d.zmap 0 (8192 * d.sb.zmapBlocks) with
  | none => some (d, 0)
  | some j =>
    let d := { d with zmap := Function.update d.zmap j true }
    let z := j + d.sb.firstdatazone - 1
    if d.sb.nzones ≤ z then some (d, 0)
    else
      let d := d.bread z
      if d.hold z ≠ 1 then none
      else some ({ d with blk := Function.update d.blk z fun _ => 0 }.brelse z, z)

/-- `free_block`. A buffer in use is left with the count it was found with, one more than before. -/
def freeBlock (d : Disk I) (z : Nat) : Option (Disk I) :=
  if z < d.sb.firstdatazone ∨ d.sb.nzones ≤ z then none
  else if d.hold z ≠ 0 then some (d.bread z)
  else if d.bit z then
    some { d with
      zmap := Function.update d.zmap (d.index z) false
      blk := Function.update d.blk z (d.disk z) }
  else none

/-! ## The map of a file -/

section Bmap

variable [DecidableEq I]

/-- An entry of `i_zone`, filled with a new zone if it is 0 and `create` is set. -/
def inodeSlot (create : Bool) (d : Disk I) (i : I) (k : Nat) : Option (Disk I × Nat) :=
  if create && (d.ino i).zone k == 0 then
    (newBlock d).map fun r => (r.1.setZone i k r.2, r.2 % 65536)
  else some (d, (d.ino i).zone k)

omit [DecidableEq I] in
/-- A slot of an indirect block, likewise, with the block's buffer in hand. -/
def blockSlot (create : Bool) (d : Disk I) (b w : Nat) : Option (Disk I × Nat) :=
  let d := d.bread b
  if create && d.blk b w == 0 then
    (newBlock d).map fun r => ((if r.2 = 0 then r.1 else r.1.setWord b w r.2).brelse b, r.2)
  else some (d.brelse b, d.blk b w)

/-- `_bmap`. -/
def bmapCreate (create : Bool) (d : Disk I) (i : I) (n : Nat) : Option (Disk I × Nat) :=
  if maxBlock ≤ n then none
  else if n < 7 then inodeSlot create d i n
  else if n - 7 < 512 then
    (inodeSlot create d i 7).bind fun r =>
      if r.2 = 0 then some (r.1, 0) else blockSlot create r.1 r.2 (n - 7)
  else
    (inodeSlot create d i 8).bind fun r =>
      if r.2 = 0 then some (r.1, 0)
      else (blockSlot create r.1 r.2 ((n - 519) / 512)).bind fun r =>
        if r.2 = 0 then some (r.1, 0) else blockSlot create r.1 r.2 ((n - 519) % 512)

def bmap (d : Disk I) (i : I) (n : Nat) : Option (Disk I × Nat) := bmapCreate false d i n
def createBlock (d : Disk I) (i : I) (n : Nat) : Option (Disk I × Nat) := bmapCreate true d i n

end Bmap

/-! ## Truncation -/

/-- The loop over the words of a block, from `w` on. -/
def forWords (free : Disk I → Nat → Option (Disk I)) (b : Nat) (d : Disk I) (w : Nat) : Nat → Option (Disk I)
  | 0 => some d
  | n + 1 =>
    if d.blk b w = 0 then forWords free b d (w + 1) n
    else (free d (d.blk b w)).bind fun d => forWords free b d (w + 1) n

/-- An indirect block, with `free` for what it refers to. -/
def freeSlots (free : Disk I → Nat → Option (Disk I)) (d : Disk I) (b : Nat) : Option (Disk I) :=
  if b = 0 then some d
  else (forWords free b (d.bread b) 0 512).bind fun d => freeBlock (d.brelse b) b

def freeInd (d : Disk I) (b : Nat) : Option (Disk I) := freeSlots freeBlock d b
def freeDind (d : Disk I) (b : Nat) : Option (Disk I) := freeSlots freeInd d b

section Truncate

variable [DecidableEq I]

/-- The loop over the direct zones, from entry `k` on. -/
def freeDirect (i : I) (d : Disk I) (k : Nat) : Nat → Option (Disk I)
  | 0 => some d
  | n + 1 =>
    if (d.ino i).zone k = 0 then freeDirect i d (k + 1) n
    else (freeBlock d ((d.ino i).zone k)).bind fun d => freeDirect i (d.setZone i k 0) (k + 1) n

def truncate (d : Disk I) (i : I) : Option (Disk I) :=
  if !(isReg (d.ino i).mode || isDir (d.ino i).mode) then some d
  else (freeDirect i d 0 7).bind fun d => (freeInd d ((d.ino i).zone 7)).bind fun d =>
    (freeDind d ((d.ino i).zone 8)).map fun d =>
      let d := (d.setZone i 8 0).setZone i 7 0
      { d with ino := Function.update d.ino i { d.ino i with size := 0 } }

/-- `iput` of the last reference to an inode without links: `truncate` and `free_inode`. -/
def iputLast (d : Disk I) (i : I) : Option (Disk I) :=
  (truncate d i).map fun d => { d with ino := Function.update d.ino i .blank }

end Truncate

/-! ## I/O errors

`bread` returns NULL for a block that is not `ok`. -/

def blockSlotIo (ok : Nat → Bool) (create : Bool) (d : Disk I) (b w : Nat) : Option (Disk I × Nat) :=
  if ok b then blockSlot create d b w else some (d, 0)

def freeSlotsIo (ok : Nat → Bool) (free : Disk I → Nat → Option (Disk I)) (d : Disk I) (b : Nat) : Option (Disk I) :=
  if b = 0 then some d else if ok b then freeSlots free d b else freeBlock d b

def freeIndIo (ok : Nat → Bool) (d : Disk I) (b : Nat) : Option (Disk I) := freeSlotsIo ok freeBlock d b
def freeDindIo (ok : Nat → Bool) (d : Disk I) (b : Nat) : Option (Disk I) := freeSlotsIo ok (freeIndIo ok) d b

section Io

variable [DecidableEq I]

def bmapCreateIo (ok : Nat → Bool) (create : Bool) (d : Disk I) (i : I) (n : Nat) : Option (Disk I × Nat) :=
  if maxBlock ≤ n then none
  else if n < 7 then inodeSlot create d i n
  else if n - 7 < 512 then
    (inodeSlot create d i 7).bind fun r =>
      if r.2 = 0 then some (r.1, 0) else blockSlotIo ok create r.1 r.2 (n - 7)
  else
    (inodeSlot create d i 8).bind fun r =>
      if r.2 = 0 then some (r.1, 0)
      else (blockSlotIo ok create r.1 r.2 ((n - 519) / 512)).bind fun r =>
        if r.2 = 0 then some (r.1, 0) else blockSlotIo ok create r.1 r.2 ((n - 519) % 512)

def truncateIo (ok : Nat → Bool) (d : Disk I) (i : I) : Option (Disk I) :=
  if !(isReg (d.ino i).mode || isDir (d.ino i).mode) then some d
  else (freeDirect i d 0 7).bind fun d => (freeIndIo ok d ((d.ino i).zone 7)).bind fun d =>
    (freeDindIo ok d ((d.ino i).zone 8)).map fun d =>
      let d := (d.setZone i 8 0).setZone i 7 0
      { d with ino := Function.update d.ino i { d.ino i with size := 0 } }

theorem truncateIo_readable : truncateIo (I := I) (fun _ => true) = truncate := by
  have hslots : ∀ free : Disk I → Nat → Option (Disk I), freeSlotsIo (fun _ => true) free = freeSlots free := by
    intro free
    ext d b : 2
    unfold freeSlotsIo
    split
    · rename_i hb
      rw [freeSlots, if_pos hb]
    · rfl
  have hind : freeIndIo (I := I) (fun _ => true) = freeInd := hslots freeBlock
  have hdind : freeDindIo (I := I) (fun _ => true) = freeDind := by
    ext d b : 2
    rw [freeDindIo, hind, hslots, freeDind]
  ext d i : 2
  rw [truncateIo, hind, hdind, truncate]

end Io

end Linux011.Fs
