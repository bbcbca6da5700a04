/-
The hard-disk driver (`hd.c`) and a controller that may fail at any interrupt.

The driver works at the first request of its queue. `do_hd_request` sends a command and names
the routine the next interrupt is to run; the routine moves a sector and waits
for the next one, or ends the request, or counts an error and starts again
with the sector it had come to. The queue is the list that `Queue` is about; here it
is the list itself, and a request comes in anywhere behind the first.
-/
import Linux011.Lib.Run
import Mathlib.Logic.Function.Basic
import Mathlib.Tactic.Common

namespace Linux011.Blk.Hd

/-- An entry of `hd_info`; the BIOS has the numbers in bytes. -/
structure Geometry where
  head : Nat
  sect : Nat
  head_le : head ≤ 255
  sect_le : sect ≤ 255

/-- The drive that an emulator has. -/
def Geometry.usual : Geometry := ⟨16, 63, by decide, by decide⟩

/-- An entry of `hd[]`. -/
structure Part where
  start : Nat
  nr : Nat

/-- What `sys_setup` found. -/
structure Config where
  nrHd : Nat
  info : Nat → Geometry
  hd : Nat → Part

/-- READ and WRITE. -/
inductive Cmd
  | read
  | write
  deriving DecidableEq

/-- A request of the queue; `buf` is where `buffer` points in `b_data`, in sectors. -/
structure Req (B : Type*) where
  /-- The minor number. -/
  dev : Nat
  cmd : Cmd
  bh : B
  /-- `b_blocknr` of the buffer. -/
  blocknr : Nat
  sector : Nat
  nr : Nat
  buf : Nat
  errors : Nat

/-- The request as `make_request` fills it. -/
def Req.make {B : Type*} (dev : Nat) (cmd : Cmd) (bh : B) (blocknr : Nat) : Req B :=
  { dev := dev, cmd := cmd, bh := bh, blocknr := blocknr, sector := 2 * blocknr % 4294967296, nr := 2, buf := 0, errors := 0 }

/-- The next sector of the buffer. -/
def Req.forward {B : Type*} (r : Req B) : Req B :=
  { r with sector := (r.sector + 1) % 4294967296, buf := r.buf + 1, nr := r.nr - 1 }

/-- What `do_hd` may point to. -/
inductive Handler
  | readIntr
  | writeIntr
  | recalIntr
  deriving DecidableEq

/-- The controller: idle, at a command that moves no data, at a sector it reads,
waiting for the data of a sector it is to write, or at a sector it writes. Sectors have their absolute number. -/
inductive Ctl (σ : Type*)
  | idle
  | other
  | read (drive sector n : Nat)
  | wait (drive sector n : Nat)
  | write (drive sector n : Nat) (v : σ)

/-- The end of a request, with what was on the disk and in the buffer then. -/
structure Ended (B σ : Type*) where
  req : Req B
  uptodate : Bool
  disk : Nat → Nat → σ
  data : Nat → σ
  sent : Nat → σ

/-- A command to read or write as the ports got it, and the request it is for. -/
structure Out (B : Type*) where
  req : Req B
  drive : Nat
  cyl : Nat
  head : Nat
  sec : Nat

/-- `σ` is the contents of a sector. What was sent to the controller from each buffer,
and the histories, are not in the machine. -/
structure Sys (B σ : Type*) where
  queue : List (Req B)
  reset : Bool
  recalibrate : Bool
  doHd : Option Handler
  ctl : Ctl σ
  disk : Nat → Nat → σ
  /-- `b_data`, by sectors. -/
  data : B → Nat → σ
  sent : B → Nat → σ
  ended : List (Ended B σ)
  outs : List (Out B)

variable {B σ : Type*}

/-- The sector that a triple denotes. -/
def Geometry.absolute (g : Geometry) (cyl head sec : Nat) : Nat := (cyl * g.head + head) * g.sect + sec - 1

namespace Sys

/-- `hd_out` with a command that moves no data. -/
def hdOutOther (s : Sys B σ) (drive head : Nat) : Option (Sys B σ) :=
  if 1 < drive ∨ 15 < head then none else some { s with doHd := some .recalIntr, ctl := .other }

/-- `hd_out` with WIN_READ or WIN_WRITE. The ports take bytes, and half a byte for the head. -/
def hdOut (c : Config) (s : Sys B σ) (r : Req B) (drive nsect sec head cyl : Nat) : Option (Sys B σ) :=
  if 1 < drive ∨ 15 < head then none
  else
    let sector := (c.info drive).absolute (cyl % 65536) head (sec % 256)
    let s := { s with outs := s.outs ++ [Out.mk r drive (cyl % 65536) head (sec % 256)] }
    match r.cmd with
    | .read => some { s with doHd := some .readIntr, ctl := .read drive sector (nsect % 256) }
    | .write => some { s with doHd := some .writeIntr, ctl := .wait drive sector (nsect % 256) }

/-- `end_request`. -/
def endRequest (s : Sys B σ) (uptodate : Bool) : Sys B σ :=
  match s.queue with
  | [] => s
  | r :: q => { s with queue := q, ended := s.ended ++ [⟨r, uptodate, s.disk, s.data r.bh, s.sent r.bh⟩] }

/-- The second test of `bad_rw_intr`. With no request left `CURRENT->errors` is a word at the bottom of memory, and
`junk` what it says. -/
def checkErrors (junk : Bool) (s : Sys B σ) : Sys B σ :=
  match s.queue with
  | [] => { s with reset := s.reset || junk }
  | r :: _ => { s with reset := s.reset || decide (3 < r.errors) }

/-- `bad_rw_intr`. -/
def badRwIntr (junk : Bool) (s : Sys B σ) : Sys B σ :=
  match s.queue with
  | [] => s
  | r :: q =>
    let r := { r with errors := r.errors + 1 }
    let s := { s with queue := r :: q }
    checkErrors junk (if 7 ≤ r.errors then s.endRequest false else s)

variable [DecidableEq B]

/-- `port_write` of the sector the request has come to. -/
def portWrite (s : Sys B σ) (r : Req B) : Sys B σ :=
  match s.ctl with
  | .wait drive sector n =>
    { s with
      ctl := .write drive sector n (s.data r.bh r.buf)
      sent := Function.update s.sent r.bh (Function.update (s.sent r.bh) r.buf (s.data r.bh r.buf)) }
  | _ => s

end Sys

/-- `block+2 > start_sect+nr_sects-1`, in unsigned arithmetic, or no such drive. -/
def refused (c : Config) {B : Type*} (r : Req B) : Bool :=
  decide (5 * c.nrHd ≤ r.dev) ||
    decide (((c.hd r.dev).start + (c.hd r.dev).nr + 4294967295) % 4294967296 < (r.sector + 2) % 4294967296)

variable [DecidableEq B]

/-- `do_hd_request`, from `repeat:` on. `drq k` says whether DRQ comes at the `k`th attempt to write. -/
def doHdRequest (c : Config) (drq : Nat → Bool) (junk : Bool) : Nat → Nat → Sys B σ → Option (Sys B σ)
  | 0, _, _ => none
  | fuel + 1, k, s =>
    match s.queue with
    | [] => some s
    | r :: _ =>
      if refused c r then doHdRequest c drq junk fuel k (s.endRequest false)
      else
        let block := (r.sector + (c.hd r.dev).start) % 4294967296
        let drive := r.dev / 5
        let g := c.info drive
        -- the divisions trap
        if g.sect = 0 ∨ g.head = 0 then none
        else
          let sec := block % g.sect + 1
          let head := block / g.sect % g.head
          let cyl := block / g.sect / g.head
          if s.reset then { s with reset := false, recalibrate := true }.hdOutOther drive (g.head - 1)
          else if s.recalibrate then { s with recalibrate := false }.hdOutOther drive 0
          else
            match r.cmd with
            | .read => s.hdOut c r drive r.nr sec head cyl
            | .write =>
              match s.hdOut c r drive r.nr sec head cyl with
              | none => none
              | some s =>
                if drq k then some (s.portWrite r)
                -- without DRQ the controller has not taken the command
                else doHdRequest c drq junk fuel (k + 1) ({ s with ctl := .idle }.badRwIntr junk)

/-- Each request is tried seven times at most. -/
def Sys.fuel (s : Sys B σ) : Nat := 8 * s.queue.length + 1

/-- What comes with an interrupt: whether the controller has succeeded, what a failed write leaves
in its sector, and the rest of what the driver cannot know. -/
structure Outcome (σ : Type*) where
  success : Bool
  left : σ
  drq : Nat → Bool
  junk : Bool

/-- The controller's part of an interrupt: the sector it read, and what it is at now. -/
def Sys.controller (s : Sys B σ) (x : Outcome σ) : Sys B σ × Option σ :=
  match s.ctl with
  | .read drive sector n =>
    if x.success then
      ({ s with ctl := if n = 1 then .idle else .read drive (sector + 1) (n - 1) }, some (s.disk drive sector))
    else ({ s with ctl := .idle }, none)
  | .write drive sector n v =>
    if x.success then
      ({ s with
        ctl := if n = 1 then .idle else .wait drive (sector + 1) (n - 1)
        disk := Function.update s.disk drive (Function.update (s.disk drive) sector v) }, none)
    else
      ({ s with ctl := .idle, disk := Function.update s.disk drive (Function.update (s.disk drive) sector x.left) }, none)
  | _ => ({ s with ctl := .idle }, none)

/-- `read_intr`. -/
def readIntr (c : Config) (x : Outcome σ) (v : Option σ) (s : Sys B σ) : Option (Sys B σ) :=
  match s.queue, v with
  | r :: q, some v =>
    let r' := { r.forward with errors := 0 }
    let s := { s with
      queue := r' :: q
      data := Function.update s.data r.bh (Function.update (s.data r.bh) r.buf v) }
    if r'.nr ≠ 0 then some { s with doHd := some .readIntr }
    else
      let s := s.endRequest true
      doHdRequest c x.drq x.junk s.fuel 0 s
  | _, _ =>
    let s := s.badRwIntr x.junk
    doHdRequest c x.drq x.junk s.fuel 0 s

/-- `write_intr`. -/
def writeIntr (c : Config) (x : Outcome σ) (s : Sys B σ) : Option (Sys B σ) :=
  match s.queue, x.success with
  | r :: q, true =>
    if r.nr - 1 ≠ 0 then
      some ({ s with queue := r.forward :: q, doHd := some .writeIntr }.portWrite r.forward)
    else
      let s := { s with queue := { r with nr := r.nr - 1 } :: q }.endRequest true
      doHdRequest c x.drq x.junk s.fuel 0 s
  | _, _ =>
    let s := s.badRwIntr x.junk
    doHdRequest c x.drq x.junk s.fuel 0 s

/-- `recal_intr`. -/
def recalIntr (c : Config) (x : Outcome σ) (s : Sys B σ) : Option (Sys B σ) :=
  let s := if x.success then s else s.badRwIntr x.junk
  doHdRequest c x.drq x.junk s.fuel 0 s

inductive Op (B σ : Type*)
  /-- `add_request`, at a place of the queue behind the first. -/
  | add (dev : Nat) (cmd : Cmd) (bh : B) (blocknr place : Nat) (x : Outcome σ)
  /-- `hd_interrupt`. -/
  | interrupt (x : Outcome σ)
  /-- A task stores into a buffer. -/
  | store (b : B) (k : Nat) (v : σ)

/-- A step; `none` where the machine cannot do it, and where the kernel panics. -/
def step (c : Config) (s : Sys B σ) : Op B σ → Option (Sys B σ)
  | .add dev cmd bh blocknr place x =>
    match s.queue with
    | [] =>
      let s := { s with queue := [.make dev cmd bh blocknr] }
      doHdRequest c x.drq x.junk s.fuel 0 s
    | h :: q => some { s with queue := h :: (q.take place ++ .make dev cmd bh blocknr :: q.drop place) }
  | .interrupt x =>
    match s.ctl, s.doHd with
    | .idle, _ | .wait _ _ _, _ => none
    | _, none => some (s.controller x).1
    | _, some h =>
      let p := s.controller x
      let s := { p.1 with doHd := none }
      match h with
      | .readIntr => readIntr c x p.2 s
      | .writeIntr => writeIntr c x s
      | .recalIntr => recalIntr c x s
  -- not into one that is being read: it is locked, and not up to date
  | .store b k v =>
    if s.queue.any fun r => decide (r.bh = b) && decide (r.cmd = .read) then none
    else some { s with data := Function.update s.data b (Function.update (s.data b) k v) }

/-- The queue is empty, and so are the histories. -/
structure Sys.Start (s : Sys B σ) : Prop where
  queue : s.queue = []
  ctl : s.ctl = .idle
  ended : s.ended = []
  outs : s.outs = []

/-- The controller can address the sectors of a request: a cylinder has 16 bits. -/
def addressable (c : Config) (_ : Sys B σ) : Op B σ → Prop
  | .add dev _ _ blocknr _ _ => dev < 5 * c.nrHd →
      (c.hd dev).start + 2 * blocknr + 1 < 65536 * ((c.info (dev / 5)).head * (c.info (dev / 5)).sect)
  | _ => True

end Linux011.Blk.Hd
