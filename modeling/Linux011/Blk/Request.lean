/-
Requests to block devices: `lock_buffer`, `make_request` and `add_request` of `ll_rw_blk.c`, and
`end_request` of `blk.h`.

`request[]` has 32 slots, shared by all devices; each device links its own from
`current_request` on, in the order of an elevator, and works at the first. A task
locks the buffer, waits for a slot, fills it and links it in. A completion, which an interrupt may bring whenever interrupts
are on, unlocks the buffer, frees the slot and takes it off the list. Between
the filling of a slot and its linking interrupts are on, so this is a state of its own.
-/
import Linux011.Lib.Cells
import Linux011.Lib.Run

namespace Linux011.Blk

/-- READ and WRITE. -/
inductive Cmd
  | read
  | write
  deriving DecidableEq

/-- A slot of `request[]` (`struct request`), without what no routine here reads. `id` says which
request it is of all that were ever queued; it is not in the machine. -/
structure Req (B : Type*) where
  /-- -1 for a free slot. -/
  dev : Int
  cmd : Cmd
  sector : Nat
  bh : Option B
  id : Nat

/-- `IN_ORDER`. -/
def inOrder {B : Type*} (a b : Req B) : Bool :=
  (a.cmd = .read && b.cmd = .write) ||
    (a.cmd = b.cmd && (a.dev < b.dev || (a.dev = b.dev && a.sector < b.sector)))

/-- Where a task is in `make_request` for a buffer, on the device of a major number: outside; in the loop of
`lock_buffer`; behind it; at `repeat:`, where it may sleep for a slot; with
the slot filled. `ahead` is `rw_ahead`. -/
inductive Frame (B : Type*)
  | idle
  | locking (major : Nat) (rw : Cmd) (ahead : Bool) (b : B)
  | locked (major : Nat) (rw : Cmd) (ahead : Bool) (b : B)
  | searching (major : Nat) (rw : Cmd) (ahead : Bool) (b : B)
  | filled (major : Nat) (b : B) (r : Nat)

structure Sys (T B : Type*) where
  req : Nat → Req B
  /-- The `next` of the slots. -/
  next : Nat → Option Nat
  /-- `blk_dev[major].current_request`. -/
  current : Nat → Option Nat
  lock : B → Bool
  dirt : B → Bool
  uptodate : B → Bool
  /-- `b_dev` and `b_blocknr`. -/
  dev : B → Nat
  blocknr : B → Nat
  frame : T → Frame B
  /-- How many requests were ever queued, and those ended, in order; not in the machine. -/
  queued : Nat
  ended : List Nat

inductive Op (T B : Type*)
  /-- `ll_rw_block(rw, bh)`; with `ahead`, READA or WRITEA. -/
  | call (t : T) (rw : Cmd) (ahead : Bool) (b : B)
  /-- `lock_buffer` finds the buffer unlocked. -/
  | lock (t : T)
  /-- The check whether there is anything to do. -/
  | check (t : T)
  /-- From `repeat:` to the last store into the slot. -/
  | search (t : T)
  | add (t : T)
  | endRequest (major : Nat) (uptodate : Bool)
  /-- The driver goes on with the sectors of the current request. -/
  | advance (major : Nat) (sector : Nat)
  /-- A task modifies the buffer, and `getblk` gives it to another block. -/
  | modify (b : B)
  | getblk (b : B) (dev blocknr : Nat)

variable {T B : Type*}

/-- The buffer of the call, with its major number; the buffer the task has locked; the slot it has filled. -/
def Frame.call : Frame B → Option (Nat × B)
  | .idle => none
  | .locking m _ _ b | .locked m _ _ b | .searching m _ _ b | .filled m b _ => some (m, b)

def Frame.holds : Frame B → Option B
  | .locked _ _ _ b | .searching _ _ _ b | .filled _ b _ => some b
  | _ => none

def Frame.slot : Frame B → Option Nat
  | .filled _ _ r => some r
  | _ => none

/-- A free slot below `n`, from above (`while (--req >= request)`). -/
def findSlot (req : Nat → Req B) : Nat → Option Nat
  | 0 => none
  | n + 1 => if (req n).dev < 0 then some n else findSlot req n

/-- The slots a command may have: the last third is for reads. -/
def slotsFor : Cmd → Nat
  | .read => 32
  | .write => 32 * 2 / 3

namespace Sys

variable [DecidableEq T] [DecidableEq B]

def setFrame (s : Sys T B) (t : T) (f : Frame B) : Sys T B := { s with frame := Function.update s.frame t f }

def lockBuffer (s : Sys T B) (b : B) : Sys T B := { s with lock := Function.update s.lock b true }

def unlockBuffer (s : Sys T B) (b : B) : Sys T B := { s with lock := Function.update s.lock b false }

/-- The stores into the slot. -/
def fill (s : Sys T B) (rw : Cmd) (b : B) (r : Nat) : Sys T B :=
  { s with
    req := Function.update s.req r
      { dev := s.dev b, cmd := rw, sector := 2 * s.blocknr b, bh := some b, id := (s.req r).id }
    next := Function.update s.next r none }

/-- Where the loop of `add_request` stops. -/
def stops (s : Sys T B) (r : Nat) (tmp z : Nat) : Bool :=
  (inOrder (s.req tmp) (s.req r) || !inOrder (s.req tmp) (s.req z)) && inOrder (s.req r) (s.req z)

/-- The search for the place, and the links. -/
def link (s : Sys T B) (major r : Nat) : Sys T B :=
  match s.current major with
  | none => { s with current := Function.update s.current major (some r) }
  | some tmp => { s with next := Cells.insertBehind s.next (Cells.seek (s.stops r) s.next 32 tmp) r }

/-- `add_request`, up to its `sti`; the driver it calls on an empty queue ends requests by `endRequest`. -/
def addRequest (s : Sys T B) (major : Nat) (b : B) (r : Nat) : Sys T B :=
  { s with
    next := Function.update s.next r none
    dirt := Function.update s.dirt b false
    req := Function.update s.req r { s.req r with id := s.queued }
    queued := s.queued + 1 }.link major r

/-- `end_request`. -/
def endRequest (s : Sys T B) (major : Nat) (uptodate : Bool) (r : Nat) : Sys T B :=
  let s := match (s.req r).bh with
    | some b => { s with uptodate := Function.update s.uptodate b uptodate }.unlockBuffer b
    | none => s
  { s with
    req := Function.update s.req r { s.req r with dev := -1 }
    current := Function.update s.current major (s.next r)
    ended := s.ended ++ [(s.req r).id] }

/-- `INIT_REQUEST` of the driver of a major number. -/
def initRequest (s : Sys T B) (major : Nat) : Except String Unit :=
  match s.current major with
  | none => .ok ()
  | some r =>
    if (s.req r).dev.toNat / 256 ≠ major then .error "request list destroyed"
    else
      match (s.req r).bh with
      | none => .ok ()
      | some b => if s.lock b then .ok () else .error "block not locked"

end Sys

/-- A command's `READ` or `WRITE` has nothing to do. -/
def nothing (s : Sys T B) (rw : Cmd) (b : B) : Bool :=
  match rw with
  | .write => !s.dirt b
  | .read => s.uptodate b

section Code

variable [DecidableEq T] [DecidableEq B]

def step (s : Sys T B) : Op T B → Option (Sys T B)
  | .call t rw ahead b =>
    match s.frame t with
    | .idle => if ahead && s.lock b then some s else some (s.setFrame t (.locking (s.dev b / 256) rw ahead b))
    | _ => none
  | .lock t =>
    match s.frame t with
    | .locking m rw ahead b =>
      if s.lock b then none else some ((s.lockBuffer b).setFrame t (.locked m rw ahead b))
    | _ => none
  | .check t =>
    match s.frame t with
    | .locked m rw ahead b =>
      if nothing s rw b then some ((s.unlockBuffer b).setFrame t .idle)
      else some (s.setFrame t (.searching m rw ahead b))
    | _ => none
  | .search t =>
    match s.frame t with
    | .searching m rw ahead b =>
      match findSlot s.req (slotsFor rw) with
      | some r => some ((s.fill rw b r).setFrame t (.filled m b r))
      -- no slot: a request ahead is dropped, another one sleeps here
      | none => if ahead then some ((s.unlockBuffer b).setFrame t .idle) else some s
    | _ => none
  | .add t =>
    match s.frame t with
    | .filled m b r => some ((s.addRequest m b r).setFrame t .idle)
    | _ => none
  | .endRequest m uptodate => (s.current m).map fun r => s.endRequest m uptodate r
  | .advance m sector =>
    (s.current m).map fun r => { s with req := Function.update s.req r { s.req r with sector := sector } }
  | .modify b => some { s with dirt := Function.update s.dirt b true }
  | .getblk b dev blocknr =>
    if s.lock b then none
    else some { s with
      dev := Function.update s.dev b dev
      blocknr := Function.update s.blocknr b blocknr
      dirt := Function.update s.dirt b false
      uptodate := Function.update s.uptodate b false }

/-- A buffer that a task has in `ll_rw_block` stays with its block (its `b_count` is not 0). -/
def keepsBuffers (s : Sys T B) : Op T B → Prop
  | .getblk b _ _ => ∀ t m, (s.frame t).call ≠ some (m, b)
  | _ => True

end Code

/-- After `blk_dev_init`. -/
structure Sys.Start (s : Sys T B) : Prop where
  dev : ∀ r, (s.req r).dev = -1
  current : ∀ m, s.current m = none
  lock : ∀ b, s.lock b = false
  frame : ∀ t, s.frame t = .idle
  queued : s.queued = 0
  ended : s.ended = []

end Linux011.Blk
