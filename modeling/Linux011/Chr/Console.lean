/-
The console (kernel/chr_drv/console.c): the display `con_init` finds, the screen, and what `con_write` does with a
byte.

Addresses are the source's byte addresses, and a cell of the screen is the word at an even one: the memory is indexed
by half the address. `touched` marks the cells that something has been stored to. The variables of the source are
unsigned 32-bit; the parameters of an escape sequence wrap around, and so do the sums and differences made with them.
The cursor and the addresses stay far below 2^32 and are never taken below 0.

`sysbeep`, `set_origin` and `set_cursor` only talk to ports, and are left out. `respond` puts the answer to a query into
the terminal's queue; the screen changes by what comes back through `con_write`.
-/
import Linux011.Lib.Block
import Mathlib.Algebra.Group.Nat.Defs
import Mathlib.Logic.Function.Iterate

namespace Linux011.Chr

/-- `video_type`. -/
inductive VideoType
  | mda
  | cga
  | egam
  | egac
  deriving DecidableEq, Repr

/-- The display: its type, and `ORIG_VIDEO_COLS`, a byte. -/
structure Video where
  type : VideoType
  numColumns : Nat
  columns_lt : numColumns < 256

def videoNumLines : Nat := 25

def videoEraseChar : Nat := 0x0720

def Video.sizeRow (v : Video) : Nat := v.numColumns * 2

/-- `VIDEO_TYPE_EGAC` or `VIDEO_TYPE_EGAM`. -/
def Video.ega (v : Video) : Bool := v.type = .egac || v.type = .egam

def Video.memStart (v : Video) : Nat :=
  match v.type with
  | .mda | .egam => 0xb0000
  | .cga | .egac => 0xb8000

def Video.memEnd (v : Video) : Nat :=
  match v.type with
  | .mda => 0xb2000
  | .cga => 0xba000
  | .egam => 0xb8000
  | .egac => 0xbc000

/-- `display_desc`. -/
def Video.desc (v : Video) : List Char :=
  match v.type with
  | .mda => "*MDA".toList
  | .cga => "*CGA".toList
  | .egam => "EGAm".toList
  | .egac => "EGAc".toList

/-- `state`: 0 to 3. In state 4 nothing is ever left. -/
inductive State
  | plain
  | escape
  | bracket
  | params
  deriving DecidableEq, Repr

/-- The cursor, the scrolling region, the parser, the attribute and the saved cursor. -/
structure Control where
  x : Nat
  y : Nat
  top : Nat
  bottom : Nat
  state : State
  npar : Nat
  par : Nat → Nat
  attr : Nat
  savedX : Nat
  savedY : Nat

structure Console extends Control where
  origin : Nat
  scrEnd : Nat
  pos : Nat
  mem : Nat → Nat
  touched : Nat → Bool

/-! ## Stores -/

namespace Console

/-- A word, to address `a`. -/
def store (s : Console) (a w : Nat) : Console :=
  { s with mem := Function.update s.mem (a / 2) w, touched := Function.update s.touched (a / 2) true }

/-- `cld; rep; stosw`. -/
def stosw (s : Console) (a n w : Nat) : Console :=
  { s with mem := Block.fill s.mem (a / 2) n w, touched := Block.fill s.touched (a / 2) n true }

/-- `std; rep; stosw`. -/
def stoswDown (s : Console) (a n w : Nat) : Console :=
  { s with mem := Block.fillDown s.mem (a / 2) n w, touched := Block.fillDown s.touched (a / 2) n true }

/-- `cld; rep; movsl`. -/
def movsl (s : Console) (d r n : Nat) : Console :=
  { s with mem := Block.moveUp s.mem (d / 2) (r / 2) n, touched := Block.fill s.touched (d / 2) (2 * n) true }

/-- `std; rep; movsl`. -/
def movslDown (s : Console) (d r n : Nat) : Console :=
  { s with
    mem := Block.moveDown s.mem (d / 2) (r / 2) n
    touched := Block.fillDown s.touched (d / 2 + 1) (2 * n) true }

end Console

/-! ## The cursor and scrolling -/

/-- A difference of `unsigned long`s. -/
def wsub (a b : Nat) : Nat := (a + 2 ^ 32 - b) % 2 ^ 32

/-- A sum of `unsigned long`s. -/
def wadd (a b : Nat) : Nat := (a + b) % 2 ^ 32

variable (v : Video)

def gotoxy (s : Console) (newX newY : Nat) : Console :=
  if newX > v.numColumns ∨ newY ≥ videoNumLines then s
  else { s with x := newX, y := newY, pos := s.origin + newY * v.sizeRow + newX * 2 }

/-- How many double words the lines of the region below its first take. -/
def Console.lineWords (s : Console) : Nat := (s.bottom - s.top - 1) * v.numColumns / 2

/-- The lines of the region move up by one, and the last one is cleared. -/
def copyUp (s : Console) : Console :=
  (s.movsl (s.origin + v.sizeRow * s.top) (s.origin + v.sizeRow * (s.top + 1)) (s.lineWords v)).stosw
    (s.origin + v.sizeRow * s.top + 4 * s.lineWords v) v.numColumns videoEraseChar

/-- All lines but the first go to the start of the memory, and `origin` too. -/
def copyBack (s : Console) : Console :=
  let n := (videoNumLines - 1) * v.numColumns / 2
  let s := (s.movsl v.memStart s.origin n).stosw (v.memStart + 4 * n) v.numColumns videoEraseChar
  { s with
    scrEnd := s.scrEnd - (s.origin - v.memStart)
    pos := s.pos - (s.origin - v.memStart)
    origin := v.memStart }

/-- The screen moves on through the memory by a line. -/
def advance (s : Console) : Console :=
  let s := { s with origin := s.origin + v.sizeRow, pos := s.pos + v.sizeRow, scrEnd := s.scrEnd + v.sizeRow }
  if s.scrEnd > v.memEnd then copyBack v s
  else s.stosw (s.scrEnd - v.sizeRow) v.numColumns videoEraseChar

def scrup (s : Console) : Console :=
  if v.ega then
    if s.top = 0 ∧ s.bottom = videoNumLines then advance v s else copyUp v s
  else copyUp v s

/-- Both types of display have the same code here. -/
def scrdown (s : Console) : Console :=
  let d := s.origin + v.sizeRow * s.bottom - 4
  (s.movslDown d (s.origin + v.sizeRow * (s.bottom - 1) - 4) (s.lineWords v)).stoswDown
    (d - 4 * s.lineWords v + 2) v.numColumns videoEraseChar

def lf (s : Console) : Console :=
  if s.y + 1 < s.bottom then { s with y := s.y + 1, pos := s.pos + v.sizeRow } else scrup v s

def ri (s : Console) : Console :=
  if s.top < s.y then { s with y := s.y - 1, pos := s.pos - v.sizeRow } else scrdown v s

def cr (s : Console) : Console := { s with pos := s.pos - s.x * 2, x := 0 }

def del (s : Console) : Console :=
  if s.x = 0 then s else Console.store { s with pos := s.pos - 2, x := s.x - 1 } (s.pos - 2) videoEraseChar

/-! ## Erasing, inserting and deleting -/

def csiJ (s : Console) (par : Nat) : Console :=
  match par with
  | 0 => s.stosw s.pos (wsub s.scrEnd s.pos / 2) videoEraseChar
  | 1 => s.stosw s.origin (wsub s.pos s.origin / 2) videoEraseChar
  | 2 => s.stosw s.origin (v.numColumns * videoNumLines) videoEraseChar
  | _ => s

def csiK (s : Console) (par : Nat) : Console :=
  match par with
  | 0 => if s.x ≥ v.numColumns then s else s.stosw s.pos (v.numColumns - s.x) videoEraseChar
  | 1 => s.stosw (s.pos - s.x * 2) (if s.x < v.numColumns then s.x else v.numColumns) videoEraseChar
  | 2 => s.stosw (s.pos - s.x * 2) v.numColumns videoEraseChar
  | _ => s

/-- One parameter of `csi_m`. -/
def csimOne (attr par : Nat) : Nat :=
  match par with
  | 0 => 0x07
  | 1 => 0x0f
  | 4 => 0x0f
  | 7 => 0x70
  | 27 => 0x07
  | _ => attr

def csim (s : Console) : Console :=
  { s with attr := ((List.range (s.npar + 1)).map s.par).foldl csimOne s.attr }

def insertChar (s : Console) : Console :=
  { s with
    mem := Block.shiftIn s.mem (s.pos / 2) (v.numColumns - s.x) videoEraseChar
    touched := Block.fill s.touched (s.pos / 2) (v.numColumns - s.x) true }

/-- From the line of the cursor to the last one, for the time of `f`. -/
def fromLine (f : Console → Console) (s : Console) : Console :=
  { f { s with top := s.y, bottom := videoNumLines } with top := s.top, bottom := s.bottom }

def insertLine (s : Console) : Console := fromLine (scrdown v) s

def deleteChar (s : Console) : Console :=
  if s.x ≥ v.numColumns then s
  else
    let n := v.numColumns - s.x - 1
    Console.store
      { s with
        mem := Block.shiftOut s.mem (s.pos / 2) n
        touched := Block.fill s.touched (s.pos / 2) n true }
      (s.pos + 2 * n) videoEraseChar

def deleteLine (s : Console) : Console := fromLine (scrup v) s

/-- `nr`, at least 1 and at most `most`. -/
def clamp (nr most : Nat) : Nat := if nr > most then most else if nr = 0 then 1 else nr

def csiAt (s : Console) (nr : Nat) : Console := (insertChar v)^[clamp nr v.numColumns] s

def csiL (s : Console) (nr : Nat) : Console := (insertLine v)^[clamp nr videoNumLines] s

def csiP (s : Console) (nr : Nat) : Console := (deleteChar v)^[clamp nr v.numColumns] s

def csiM (s : Console) (nr : Nat) : Console := (deleteLine v)^[clamp nr videoNumLines] s

def saveCur (s : Console) : Console := { s with savedX := s.x, savedY := s.y }

def restoreCur (s : Console) : Console := gotoxy v s s.savedX s.savedY

/-! ## The bytes -/

/-- `if (x >= video_num_columns)`: to the next line. -/
def wrap (s : Console) : Console :=
  if s.x ≥ v.numColumns then lf v { s with x := s.x - v.numColumns, pos := s.pos - v.sizeRow } else s

/-- A character between blank and tilde. -/
def print (s : Console) (c : Nat) : Console :=
  let s := wrap v s
  let s := s.store s.pos (s.attr * 256 + c)
  { s with pos := s.pos + 2, x := s.x + 1 }

def backspace (s : Console) : Console := if s.x = 0 then s else { s with x := s.x - 1, pos := s.pos - 2 }

def tab (s : Console) : Console :=
  let c := 8 - s.x % 8
  let s := { s with x := s.x + c, pos := s.pos + c * 2 }
  if s.x > v.numColumns then lf v { s with x := s.x - v.numColumns, pos := s.pos - v.sizeRow } else s

/-- State 0. Bytes from 128 on are negative `char`s. -/
def plain (eraseChar : Nat) (s : Console) (c : Nat) : Console :=
  if 31 < c ∧ c < 127 then print v s c
  else if c = 27 then { s with state := .escape }
  else if c = 10 ∨ c = 11 ∨ c = 12 then lf v s
  else if c = 13 then cr s
  else if c < 128 ∧ c = eraseChar then del s
  else if c = 8 then backspace s
  else if c = 9 then tab v s
  else s

/-- State 1. The last two comparisons are with `x`, not with the byte. -/
def escape (s : Console) (c : Char) : Console :=
  let s := { s with state := .plain }
  if c = '[' then { s with state := .bracket }
  else if c = 'E' then gotoxy v s 0 (wadd s.y 1)
  else if c = 'M' then ri v s
  else if c = 'D' then lf v s
  else if c = 'Z' then s
  else if s.x = '7'.toNat then saveCur s
  else if s.x = '8'.toNat then restoreCur v s
  else s

/-- `if (!par[0]) par[0]++`. -/
def Control.atLeastOne (c : Control) : Nat := if c.par 0 = 0 then 1 else c.par 0

/-- `if (par[i]) par[i]--`. -/
def Control.fromOne (c : Control) (i : Nat) : Nat := c.par i - 1

/-- `ESC [ ... r`. -/
def Control.setRegion (c : Control) : Control :=
  let low := c.fromOne 0
  let high := if c.par 1 = 0 then videoNumLines else c.par 1
  if low < high ∧ high ≤ videoNumLines then { c with top := low, bottom := high } else c

/-- State 4. The parameters are not read again before state 2 has cleared them. -/
def csi (s : Console) (c : Char) : Console :=
  let s := { s with state := .plain }
  match c with
  | 'G' | '\x60' => gotoxy v s (s.fromOne 0) s.y
  | 'A' => gotoxy v s s.x (wsub s.y s.atLeastOne)
  | 'B' | 'e' => gotoxy v s s.x (wadd s.y s.atLeastOne)
  | 'C' | 'a' => gotoxy v s (wadd s.x s.atLeastOne) s.y
  | 'D' => gotoxy v s (wsub s.x s.atLeastOne) s.y
  | 'E' => gotoxy v s 0 (wadd s.y s.atLeastOne)
  | 'F' => gotoxy v s 0 (wsub s.y s.atLeastOne)
  | 'd' => gotoxy v s s.x (s.fromOne 0)
  | 'H' | 'f' => gotoxy v s (s.fromOne 1) (s.fromOne 0)
  | 'J' => csiJ v s (s.par 0)
  | 'K' => csiK v s (s.par 0)
  | 'L' => csiL v s (s.par 0)
  | 'M' => csiM v s (s.par 0)
  | 'P' => csiP v s (s.par 0)
  | '@' => csiAt v s (s.par 0)
  | 'm' => csim s
  | 'r' => { s with toControl := s.setRegion }
  | 's' => saveCur s
  | 'u' => restoreCur v s
  | _ => s

/-- State 3. -/
def params (s : Console) (c : Char) : Console :=
  if c = ';' ∧ s.npar < 15 then { s with npar := s.npar + 1 }
  else if '0' ≤ c ∧ c ≤ '9' then
    { s with par := Function.update s.par s.npar ((10 * s.par s.npar + (c.toNat - '0'.toNat)) % 2 ^ 32) }
  else csi v s c

/-- State 2. A question mark is dropped; anything else is state 3's already. -/
def bracket (s : Console) (c : Char) : Console :=
  let s := { s with npar := 0, par := fun _ => 0, state := .params }
  if c = '?' then s else params v s c

/-- The body of `con_write`'s loop, for one byte. -/
def conChar (eraseChar : Nat) (s : Console) (c : UInt8) : Console :=
  match s.state with
  | .plain => plain v eraseChar s c.toNat
  | .escape => escape v s (Char.ofNat c.toNat)
  | .bracket => bracket v s (Char.ofNat c.toNat)
  | .params => params v s (Char.ofNat c.toNat)

/-- The bytes that `con_write` takes off the queue, each with the `ERASE_CHAR` of its time. -/
def conWrite (s : Console) (cs : List (UInt8 × UInt8)) : Console := cs.foldl (fun s c => conChar v c.1.toNat s c.2) s

/-! ## What the routines leave alone -/

variable {v}

@[simp] theorem scrup_toControl (s : Console) : (scrup v s).toControl = s.toControl := by
  unfold scrup advance copyBack
  split
  · split
    · dsimp only
      split <;> rfl
    · rfl
  · rfl

@[simp] theorem lf_x (s : Console) : (lf v s).x = s.x := by
  unfold lf
  split
  · rfl
  · rw [scrup_toControl]

@[simp] theorem lf_state (s : Console) : (lf v s).state = s.state := by
  unfold lf
  split
  · rfl
  · rw [scrup_toControl]

@[simp] theorem ri_state (s : Console) : (ri v s).state = s.state := by
  unfold ri
  split <;> rfl

@[simp] theorem gotoxy_state (s : Console) (a b : Nat) : (gotoxy v s a b).state = s.state := by
  unfold gotoxy
  split <;> rfl

theorem iterate_state {f : Console → Console} (hf : ∀ s, (f s).state = s.state) (n : Nat) (s : Console) :
    (f^[n] s).state = s.state := by
  induction n generalizing s with
  | zero => rfl
  | succ n ih => rw [Function.iterate_succ_apply, ih, hf]

theorem csiJ_state (s : Console) (n : Nat) : (csiJ v s n).state = s.state := by
  unfold csiJ Console.stosw
  split <;> dsimp only

theorem csiK_state (s : Console) (n : Nat) : (csiK v s n).state = s.state := by
  unfold csiK Console.stosw
  split
  · split <;> rfl
  all_goals rfl

theorem deleteChar_state (s : Console) : (deleteChar v s).state = s.state := by
  unfold deleteChar
  split <;> rfl

theorem deleteLine_state (s : Console) : (deleteLine v s).state = s.state := by
  unfold deleteLine fromLine
  dsimp only
  rw [scrup_toControl]

theorem insertLine_state (s : Console) : (insertLine v s).state = s.state := rfl

theorem insertChar_state (s : Console) : (insertChar v s).state = s.state := rfl

theorem Control.setRegion_state (c : Control) : c.setRegion.state = c.state := by
  unfold Control.setRegion
  dsimp only
  generalize (if c.par 1 = 0 then videoNumLines else c.par 1) = high
  split <;> rfl

theorem csi_state (s : Console) (c : Char) : (csi v s c).state = .plain := by
  unfold csi
  dsimp only
  split
  all_goals try exact gotoxy_state _ _ _
  · exact csiJ_state _ _
  · exact csiK_state _ _
  · exact iterate_state insertLine_state _ _
  · exact iterate_state deleteLine_state _ _
  · exact iterate_state deleteChar_state _ _
  · exact iterate_state insertChar_state _ _
  · rfl
  · exact Control.setRegion_state _
  · rfl
  · rfl

theorem params_state (s : Console) (c : Char) (h : s.state = .params) : (params v s c).state ≠ .escape := by
  unfold params
  split
  · rw [h]
    exact fun e => by cases e
  · split
    · rw [h]
      exact fun e => by cases e
    · rw [csi_state]
      exact fun e => by cases e

theorem escape_state (s : Console) (c : Char) : (escape v s c).state = .plain ∨ (escape v s c).state = .bracket := by
  unfold escape
  dsimp only
  split
  · exact .inr rfl
  left
  split
  · exact gotoxy_state _ _ _
  split
  · exact ri_state _
  split
  · exact lf_state _
  split
  · rfl
  split
  · rfl
  split
  · exact gotoxy_state _ _ _
  · rfl

theorem plain_state (e : Nat) (s : Console) {c : Nat} (h : c ≠ 27) : (plain v e s c).state = s.state := by
  unfold plain
  split
  · show (wrap v s).state = _
    unfold wrap
    split
    · rw [lf_state]
    · rfl
  split
  · exact lf_state s
  split
  · rfl
  split
  · unfold del
    split <;> rfl
  split
  · unfold backspace
    split <;> rfl
  split
  · unfold tab
    dsimp only
    split
    · rw [lf_state]
    · rfl
  · rfl

/-- An escape sequence begins with an escape. -/
theorem eq_escape_of_conChar (e : Nat) (s : Console) (c : UInt8) (h : (conChar v e s c).state = .escape) : c = 27 := by
  unfold conChar at h
  split at h
  · rename_i hs
    by_cases hc : c.toNat = 27
    · exact UInt8.toNat_inj.1 hc
    · rw [plain_state e s hc, hs] at h
      cases h
  · rcases escape_state s _ with e | e <;> rw [e] at h <;> cases h
  · unfold bracket at h
    dsimp only at h
    split at h
    · cases h
    · exact absurd h (params_state _ _ rfl)
  · rename_i hs
    exact absurd h (params_state _ _ hs)

variable (v)

/-! ## con_init -/

/-- The characters of `desc`, from cell `i` on: only the low bytes. -/
def writeDesc (mem : Nat → Nat) (i : Nat) : List Char → Nat → Nat
  | [] => mem
  | c :: cs => writeDesc (Function.update mem i (mem i / 256 * 256 + c.toNat)) (i + 1) cs

/-- The console as `con_init` leaves it, with `ORIG_X` and `ORIG_Y`, and with `mem` in the memory. Nothing has been
drawn. -/
def conStart (origX origY : Nat) (mem : Nat → Nat) : Console :=
  gotoxy v
    { x := 0, y := 0, top := 0, bottom := videoNumLines, state := .plain, npar := 0, par := fun _ => 0, attr := 0x07,
      savedX := 0, savedY := 0, origin := v.memStart, scrEnd := v.memStart + videoNumLines * v.sizeRow, pos := 0,
      mem := mem, touched := fun _ => false }
    origX origY

/-- `con_init` says in the corner of the screen which display it has found. -/
def conInit (origX origY : Nat) (mem : Nat → Nat) : Console :=
  conStart v origX origY (writeDesc mem ((v.memStart + v.sizeRow - 8) / 2) v.desc)

end Linux011.Chr
