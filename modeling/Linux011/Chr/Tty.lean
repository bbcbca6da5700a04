/-
Terminals (kernel/chr_drv/tty_io.c, and the ends of it in console.c, serial.c, rs_io.s and kb.S): three queues, what
`copy_to_cooked` moves from the first to the last and echoes into the one between, and who drains them.

`con_write` takes what it finds in `write_q`; a query among it is answered into `read_q`, and `respond` calls
`copy_to_cooked`, which through an echo calls `con_write` again, in the middle of its own loop. So the routines call
each other, and are given a number that bounds how deep: with too small a one there is no result. `rs_write` only lets
the transmit interrupt in.

A queue keeps what was put and what was taken, and whether anything was ever put into it when it was full; these are not
in the machine. `data`, the lines in `secondary`, is counted up before the echo and down by `tty_read`. `stopped` and the
signals are left out: nothing here depends on them.
-/
import Linux011.Chr.Console
import Linux011.Lib.Depth
import Linux011.Lib.Fifo
import Linux011.Lib.Run

namespace Linux011.Chr

/-! ## Queues -/

/-- `struct tty_queue`. -/
structure TtyQueue where
  ring : Fifo 1024 UInt8
  put : List UInt8
  taken : List UInt8
  overrun : Bool

namespace TtyQueue

def isEmpty (q : TtyQueue) : Bool := q.ring.head = q.ring.tail

def isFull (q : TtyQueue) : Bool := q.ring.left = 0

def putch (q : TtyQueue) (c : UInt8) : TtyQueue :=
  { q with ring := q.ring.putch c, put := q.put ++ [c], overrun := q.overrun || q.isFull }

def getch (q : TtyQueue) : TtyQueue := { q with ring := q.ring.getch, taken := q.taken ++ [q.ring.first] }

/-- `DEC(head)`. -/
def dec (q : TtyQueue) : TtyQueue := { q with ring := q.ring.dec, put := q.put.dropLast }

def putAll (q : TtyQueue) (cs : List UInt8) : TtyQueue := cs.foldl putch q

end TtyQueue

/-! ## The terminal -/

/-- The flags and characters of `struct termios` that the routines look at. -/
structure Termios where
  icrnl : Bool
  igncr : Bool
  inlcr : Bool
  iuclc : Bool
  opost : Bool
  ocrnl : Bool
  onlret : Bool
  onlcr : Bool
  olcuc : Bool
  isig : Bool
  icanon : Bool
  echo : Bool
  echoctl : Bool
  intr : UInt8
  quit : UInt8
  erase : UInt8
  kill : UInt8
  eof : UInt8
  start : UInt8
  stop : UInt8

/-- A terminal: the console, whose `write` is `con_write`, or a serial line. -/
structure Tty where
  isConsole : Bool
  termios : Termios
  readQ : TtyQueue
  writeQ : TtyQueue
  secondary : TtyQueue
  con : Console
  /-- `secondary.data`. -/
  data : BitVec 32

/-- A `signed char` against a character of `c_cc`, which is unsigned. -/
def sameChar (c cc : UInt8) : Bool := c < 128 && c = cc

/-- `c < 32`, of a `signed char`. -/
def isControl (c : UInt8) : Bool := c < 32 || 128 ≤ c

/-- `RESPONSE`. -/
def response : List UInt8 := [27, 91, 63, 49, 59, 50, 99]

/-- What is echoed for `c`. -/
def Termios.echoOf (tm : Termios) (c : UInt8) : List UInt8 :=
  if c = 10 then [10, 13]
  else if isControl c then if tm.echoctl then [94, c + 64] else []
  else [c]

/-- What is echoed when `c` is taken back. -/
def ruboutOf (c : UInt8) : List UInt8 := if isControl c then [127, 127] else [127]

/-- `con_write` is about to answer. -/
def Tty.asks (t : Tty) (c : UInt8) : Bool := t.con.state = .escape && c = 90

/-- A routine that has been called, or a loop that has been entered. -/
inductive Call
  | copyToCooked
  | killLine
  | write
  | conWrite (nr : Nat)
  deriving DecidableEq, Repr

section Code

/- `isupper` and `islower` index a table with a `char`: for bytes from 128 on, they look in front of it. -/
variable (v : Video) (isupper islower : UInt8 → Bool)

def tolower (c : UInt8) : UInt8 := if isupper c then c + 32 else c

def toupper (c : UInt8) : UInt8 := if islower c then c - 32 else c

/-- The carriage returns and newlines of the input; one may be dropped. -/
def Termios.mapCrNl (tm : Termios) (c : UInt8) : Option UInt8 :=
  if c = 13 then if tm.icrnl then some 10 else if tm.igncr then none else some 13
  else if c = 10 && tm.inlcr then some 13
  else some c

def Termios.mapCase (tm : Termios) (c : UInt8) : UInt8 := if tm.iuclc then tolower isupper c else c

variable (call : Call → Tty → Option Tty)

/-- A turn of the loop of `con_write`, with `nr` more to go. -/
def conTurn (nr : Nat) (t : Tty) : Option Tty :=
  let c := t.writeQ.ring.first
  let t' := { t with writeQ := t.writeQ.getch, con := conChar v t.termios.erase.toNat t.con c }
  if t.asks c then do
    let t' ← call .copyToCooked { t' with readQ := t'.readQ.putAll response }
    call (.conWrite nr) t'
  else call (.conWrite nr) t'

/-- The characters `cs` into `write_q`, and `tty->write(tty)`, if there is an echo. -/
def echo (t : Tty) (cs : List UInt8) : Option Tty :=
  if t.termios.echo then call .write { t with writeQ := t.writeQ.putAll cs } else some t

/-- A line ends at a newline and at the end-of-file character. -/
def Termios.endsLine (tm : Termios) (c : UInt8) : Bool := c = 10 || sameChar c tm.eof

/-- `secondary.data++`, for the character that ends a line. -/
def Tty.countUp (t : Tty) (c : UInt8) : Tty := { t with data := if t.termios.endsLine c then t.data + 1 else t.data }

/-- `secondary.data--`. -/
def Tty.countDown (t : Tty) (c : UInt8) : Tty := { t with data := if t.termios.endsLine c then t.data - 1 else t.data }

/-- The last character of `secondary` is taken back, unless the line begins there: then `none`. -/
def Tty.erasable (t : Tty) : Option UInt8 :=
  if t.secondary.isEmpty then none
  else if t.termios.endsLine t.secondary.ring.last then none
  else some t.secondary.ring.last

def takeBack (t : Tty) (c : UInt8) : Option Tty := do
  let t ← echo call t (ruboutOf c)
  some { t with secondary := t.secondary.dec }

/-- A turn of the loop that takes back a line. -/
def killTurn (t : Tty) : Option Tty :=
  match t.erasable with
  | none => some t
  | some c => do
    let t ← takeBack call t c
    call .killLine t

/-- The rest of a turn of `copy_to_cooked`, after its character has been mapped. -/
def cook (t : Tty) (c : UInt8) : Option Tty :=
  let tm := t.termios
  if tm.icanon && sameChar c tm.kill then call .killLine t
  else if tm.icanon && sameChar c tm.erase then
    match t.erasable with
    | none => some t
    | some c => takeBack call t c
  else if tm.icanon && (sameChar c tm.stop || sameChar c tm.start) then some t
  else if tm.isig && (sameChar c tm.intr || sameChar c tm.quit) then some t
  else do
    let t ← echo call (t.countUp c) (tm.echoOf c)
    some { t with secondary := t.secondary.putch c }

/-- A turn of the loop of `copy_to_cooked`. -/
def copyTurn (t : Tty) : Option Tty :=
  if t.readQ.isEmpty || t.secondary.isFull then some t
  else
    let t' := { t with readQ := t.readQ.getch }
    match t.termios.mapCrNl t.readQ.ring.first with
    | none => call .copyToCooked t'
    | some c => do
      let t' ← cook call t' (t.termios.mapCase isupper c)
      call .copyToCooked t'

/-- What is called, with the calls inside made by `call`. -/
def body : Call → Tty → Option Tty
  | .copyToCooked, t => copyTurn isupper call t
  | .killLine, t => killTurn call t
  | .write, t => if t.isConsole then call (.conWrite t.writeQ.ring.chars) t else some t
  | .conWrite 0, t => some t
  | .conWrite (nr + 1), t => conTurn v call nr t

end Code

/-! ## What happens to a terminal -/

inductive Op
  /-- The keyboard or the line brings bytes; if they do not all fit into `read_q` they are dropped. -/
  | arrive (cs : List UInt8)
  /-- `do_tty_interrupt`. -/
  | interrupt (depth : Nat)
  /-- `tty_write` finds room, and puts a byte. `cr_flag` is shared with the other terminals. -/
  | put (c : UInt8) (crFlag : Bool)
  /-- `tty->write(tty)`, by `tty_write`. -/
  | write (depth : Nat)
  /-- The transmit interrupt of a serial line. -/
  | transmit
  /-- `tty_read` takes a byte. -/
  | read
  | setTermios (tm : Termios)

/-- What `tty_write` puts for a byte: a carriage return before a newline, or the byte. -/
def Termios.output (tm : Termios) (islower : UInt8 → Bool) (c : UInt8) (crFlag : Bool) : UInt8 :=
  if tm.opost then
    let c := if c = 13 && tm.ocrnl then 10 else if c = 10 && tm.onlret then 13 else c
    if c = 10 && !crFlag && tm.onlcr then 13
    else if tm.olcuc then toupper islower c
    else c
  else c

def step (v : Video) (isupper islower : UInt8 → Bool) (t : Tty) : Op → Option Tty
  | .arrive cs => some (if cs.length ≤ t.readQ.ring.left then { t with readQ := t.readQ.putAll cs } else t)
  | .interrupt n => Depth.run (body v isupper) n .copyToCooked t
  | .put c crFlag =>
    if t.writeQ.isFull then none
    else some { t with writeQ := t.writeQ.putch (t.termios.output islower c crFlag) }
  | .write n => Depth.run (body v isupper) n .write t
  | .transmit =>
    if t.isConsole then none
    else some (if t.writeQ.isEmpty then t else { t with writeQ := t.writeQ.getch })
  | .read =>
    if t.secondary.isEmpty then none
    else some ({ t with secondary := t.secondary.getch }.countDown t.secondary.ring.first)
  | .setTermios tm => some { t with termios := tm }

/-- An empty queue. -/
def TtyQueue.Fresh (q : TtyQueue) : Prop := q.ring.head = q.ring.tail ∧ q.put = [] ∧ q.taken = [] ∧ q.overrun = false

/-- As `tty_table` starts. -/
structure Tty.Start (t : Tty) : Prop where
  readQ : t.readQ.Fresh
  writeQ : t.writeQ.Fresh
  secondary : t.secondary.Fresh

end Linux011.Chr
