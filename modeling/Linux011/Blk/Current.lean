/-
Where the hard-disk and the floppy driver use `CURRENT`: their control flow, with a fault where a routine follows
`CURRENT` while the queue is empty.

What the controllers do is left open: any interrupt may come at any time, with any status; a routine runs to its
end before the next. `Hd` has what the disk transfers; here the queue, the flags, and the
routine the next interrupt is to run are enough, and a panic stops everything.
-/
import Linux011.Blk.Hd
import Linux011.Lib.Prog

namespace Linux011.Blk.Current

/-- A routine stops: it follows the null pointer, or the kernel panics. -/
inductive Fault
  | null
  | panic
  deriving DecidableEq

/-! ## The hard disk -/

open Hd (Config Req Handler refused)

structure HdSys (B : Type) where
  queue : List (Req B)
  reset : Bool
  recalibrate : Bool
  doHd : Option Handler

section HdCode

variable {B : Type}

abbrev HdM (B : Type) := StateT (HdSys B) (Except Fault)

/-- `CURRENT->`. -/
def current : HdM B (Req B) := do
  match (← get).queue with
  | [] => throw .null
  | r :: _ => pure r

/-- Stores into the current request. -/
def setCurrent (r : Req B) : HdM B Unit := do
  match (← get).queue with
  | [] => throw .null
  | _ :: q => modify fun s => { s with queue := r :: q }

def endRequest : HdM B Unit := do
  let _ ← current
  modify fun s => { s with queue := s.queue.tail }

/-- `bad_rw_intr`. -/
def badRwIntr : HdM B Unit := do
  let r ← current
  setCurrent { r with errors := r.errors + 1 }
  if 7 ≤ r.errors + 1 then endRequest
  let r ← current
  if 3 < r.errors then modify fun s => { s with reset := true }

/-- `hd_out`. -/
def hdOut (drive head : Nat) (h : Handler) : HdM B Unit := do
  if 1 < drive ∨ 15 < head then throw .panic
  modify fun s => { s with doHd := some h }

/-- `do_hd_request` from `repeat:` on; `noDrq` is what it does if DRQ does not come. -/
def tryRequest (c : Config) (noDrq : Option (HdM B Unit)) : HdM B Unit := do
  -- up to the first request that is not refused
  modify fun s => { s with queue := s.queue.dropWhile (refused c) }
  let s ← get
  match s.queue with
  | [] => pure ()
  | r :: _ =>
    let g := c.info (r.dev / 5)
    -- the divisions trap
    if g.sect = 0 ∨ g.head = 0 then throw .panic
    else if s.reset then do
      set { s with reset := false, recalibrate := true }
      hdOut (r.dev / 5) (g.head - 1) .recalIntr
    else if s.recalibrate then do
      set { s with recalibrate := false }
      hdOut (r.dev / 5) 0 .recalIntr
    else
      let head := (r.sector + (c.hd r.dev).start) % 4294967296 / g.sect % g.head
      match r.cmd with
      | .read => hdOut (r.dev / 5) head .readIntr
      | .write => do
        hdOut (r.dev / 5) head .writeIntr
        match noDrq with
        -- `port_write` of `CURRENT->buffer`
        | none => do
          let _ ← current
          pure ()
        | some again => again

/-- `do_hd_request`. Before DRQ comes, `misses` commands to write go without. -/
def doHdRequest (c : Config) : Nat → HdM B Unit
  | 0 => tryRequest c none
  | n + 1 => tryRequest c (some do
      badRwIntr
      doHdRequest c n)

/-- What comes with an interrupt: what `win_result` says, and the commands that go without DRQ. -/
structure HdOutcome where
  success : Bool
  misses : Nat

/-- `read_intr`. -/
def readIntr (c : Config) (o : HdOutcome) : HdM B Unit := do
  if o.success then
    let r ← current
    setCurrent { r.forward with errors := 0 }
    if r.nr - 1 ≠ 0 then modify fun s => { s with doHd := some .readIntr }
    else do
      endRequest
      doHdRequest c o.misses
  else do
    badRwIntr
    doHdRequest c o.misses

/-- `write_intr`. -/
def writeIntr (c : Config) (o : HdOutcome) : HdM B Unit := do
  if o.success then
    let r ← current
    if r.nr - 1 ≠ 0 then do
      setCurrent r.forward
      modify fun s => { s with doHd := some .writeIntr }
    else do
      setCurrent { r with nr := r.nr - 1 }
      endRequest
      doHdRequest c o.misses
  else do
    badRwIntr
    doHdRequest c o.misses

/-- `recal_intr`. -/
def recalIntr (c : Config) (o : HdOutcome) : HdM B Unit := do
  if !o.success then badRwIntr
  doHdRequest c o.misses

inductive HdOp (B : Type)
  | add (dev : Nat) (cmd : Hd.Cmd) (bh : B) (blocknr place misses : Nat)
  | interrupt (o : HdOutcome)

/-- `add_request` and `hd_interrupt`. -/
def hdStep (c : Config) : HdOp B → HdM B Unit
  | .add dev cmd bh blocknr place misses => do
    match (← get).queue with
    | [] => do
      modify fun s => { s with queue := [.make dev cmd bh blocknr] }
      doHdRequest c misses
    | h :: q => modify fun s => { s with queue := h :: (q.take place ++ .make dev cmd bh blocknr :: q.drop place) }
  | .interrupt o => do
    let h := (← get).doHd
    modify fun s => { s with doHd := none }
    match h with
    | none => pure ()
    | some .readIntr => readIntr c o
    | some .writeIntr => writeIntr c o
    | some .recalIntr => recalIntr c o

end HdCode

/-! ## The floppy disk -/

/-- A request to the floppy disk. -/
structure FdReq where
  /-- The minor number. -/
  dev : Nat
  sector : Nat
  errors : Nat

/-- What `do_floppy` may point to. -/
inductive FdHandler
  | rw
  | seek
  | recal
  | reset
  deriving DecidableEq

/-- The routines the driver gives to `add_timer`. -/
inductive FdTimer
  | floppyOn
  | transfer
  deriving DecidableEq

structure FdSys where
  queue : List FdReq
  reset : Bool
  recalibrate : Bool
  seek : Bool
  doFloppy : Option FdHandler
  timers : List FdTimer

/-- What the controller and the motors do in one event: whether it takes the bytes of each command, whether `result` gets
its reply, whether that is good and says that the disk is write protected, whether the drive or the track is another
one, the motor still has to start, and another drive is selected. -/
structure FdOutcome where
  sense : Bool
  specify : Bool
  recal : Bool
  seekOut : Bool
  rwOut : Bool
  replied : Bool
  good : Bool
  protect : Bool
  moves : Bool
  motor : Bool
  select : Bool

section FdCode

abbrev FdM := StateT FdSys (Except Fault)

def fdCurrent : FdM FdReq := do
  match (← get).queue with
  | [] => throw .null
  | r :: _ => pure r

def fdEndRequest : FdM Unit := do
  let _ ← fdCurrent
  modify fun s => { s with queue := s.queue.tail }

/-- `output_byte`, for the bytes of a command. -/
def outputBytes (taken : Bool) : FdM Unit := modify fun s => { s with reset := s.reset || !taken }

/-- `result`: whether there was a reply. -/
def result (o : FdOutcome) : FdM Bool := do
  if (← get).reset then pure false
  else if o.replied then pure true
  else do
    modify fun s => { s with reset := true }
    pure false

/-- `reset_floppy`. -/
def resetFloppy : FdM Unit := modify fun s => { s with reset := false, recalibrate := true, doFloppy := some .reset }

/-- `do_fd_request` where `reset` is set. -/
def doFdReset : FdM Unit := do
  modify fun s => { s with seek := false }
  resetFloppy

/-- `if (reset) do_fd_request();` -/
def checkReset : FdM Unit := do
  if (← get).reset then doFdReset

/-- `setup_rw_floppy`; `setup_DMA` reads `CURRENT->buffer`. -/
def setupRwFloppy (o : FdOutcome) : FdM Unit := do
  let _ ← fdCurrent
  modify fun s => { s with doFloppy := some .rw }
  outputBytes o.rwOut
  checkReset

/-- `transfer`. -/
def transfer (o : FdOutcome) : FdM Unit := do
  outputBytes o.specify
  let s ← get
  if s.reset then doFdReset
  else if s.seek then do
    modify fun s => { s with doFloppy := some .seek }
    outputBytes o.seekOut
    checkReset
  else setupRwFloppy o

/-- `floppy_on_interrupt`. -/
def floppyOnInterrupt (o : FdOutcome) : FdM Unit := do
  if o.select then modify fun s => { s with timers := .transfer :: s.timers } else transfer o

/-- `recalibrate_floppy`. -/
def recalibrateFloppy (o : FdOutcome) : FdM Unit := do
  modify fun s => { s with recalibrate := false, doFloppy := some .recal }
  let _ ← fdCurrent
  outputBytes o.recal
  checkReset

/-- `block+2 > floppy->size`, for the sizes of the minor numbers' formats. -/
def tooBig (size : Nat → Nat) (r : FdReq) : Bool := size r.dev < (r.sector + 2) % 4294967296

/-- `do_fd_request`. A motor that is on has no timer. -/
def doFdRequest (size : Nat → Nat) (o : FdOutcome) : FdM Unit := do
  modify fun s => { s with seek := false }
  let s ← get
  if s.reset then doFdReset
  else if s.recalibrate then recalibrateFloppy o
  else do
    modify fun s => { s with queue := s.queue.dropWhile (tooBig size) }
    match (← get).queue with
    | [] => pure ()
    | _ :: _ => do
      modify fun s => { s with seek := o.moves }
      if o.motor then modify fun s => { s with timers := .floppyOn :: s.timers } else floppyOnInterrupt o

/-- `bad_flp_intr`. -/
def badFlpIntr : FdM Unit := do
  match (← get).queue with
  | [] => throw .null
  | r :: q => modify fun s => { s with queue := { r with errors := r.errors + 1 } :: q }
  if 8 < (← fdCurrent).errors then fdEndRequest
  if 4 < (← fdCurrent).errors then modify fun s => { s with reset := true }
  else modify fun s => { s with recalibrate := true }

/-- `rw_interrupt`. -/
def rwInterrupt (size : Nat → Nat) (o : FdOutcome) : FdM Unit := do
  if (← result o) && o.good then do
    fdEndRequest
    doFdRequest size o
  else do
    if o.protect then fdEndRequest else badFlpIntr
    doFdRequest size o

/-- `seek_interrupt`. -/
def seekInterrupt (size : Nat → Nat) (o : FdOutcome) : FdM Unit := do
  outputBytes o.sense
  if (← result o) && o.good then setupRwFloppy o
  else do
    badFlpIntr
    doFdRequest size o

/-- `recal_interrupt`. -/
def recalInterrupt (size : Nat → Nat) (o : FdOutcome) : FdM Unit := do
  outputBytes o.sense
  if (← result o) && o.good then modify fun s => { s with recalibrate := false }
  else modify fun s => { s with reset := true }
  doFdRequest size o

/-- `unexpected_floppy_interrupt`. -/
def unexpectedFloppyInterrupt (o : FdOutcome) : FdM Unit := do
  outputBytes o.sense
  if (← result o) && o.good then modify fun s => { s with recalibrate := true }
  else modify fun s => { s with reset := true }

/-- `reset_interrupt`. -/
def resetInterrupt (size : Nat → Nat) (o : FdOutcome) : FdM Unit := do
  outputBytes o.sense
  let _ ← result o
  outputBytes o.specify
  doFdRequest size o

inductive FdOp
  | add (dev sector place : Nat) (o : FdOutcome)
  | interrupt (o : FdOutcome)
  /-- A timer of the driver runs out. -/
  | timer (t : FdTimer) (o : FdOutcome)

/-- `add_request`, `floppy_interrupt`, and a timer. -/
def fdStep (size : Nat → Nat) : FdOp → FdM Unit
  | .add dev sector place o => do
    match (← get).queue with
    | [] => do
      modify fun s => { s with queue := [⟨dev, sector, 0⟩] }
      doFdRequest size o
    | h :: q => modify fun s => { s with queue := h :: (q.take place ++ ⟨dev, sector, 0⟩ :: q.drop place) }
  | .interrupt o => do
    let h := (← get).doFloppy
    modify fun s => { s with doFloppy := none }
    match h with
    | none => unexpectedFloppyInterrupt o
    | some .rw => rwInterrupt size o
    | some .seek => seekInterrupt size o
    | some .recal => recalInterrupt size o
    | some .reset => resetInterrupt size o
  | .timer t o => do
    let s ← get
    if t ∈ s.timers then do
      set { s with timers := s.timers.erase t }
      match t with
      | .floppyOn => floppyOnInterrupt o
      | .transfer => transfer o

end FdCode

end Linux011.Blk.Current
