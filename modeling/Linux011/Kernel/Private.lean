/-
What paging is for: every task has a memory of its own.

In the abstract model a task is a map from user addresses to cells. A cell
holds a byte of the task's own, or stands for a byte of the memory kept for
the kernel (the first 640 kB that task 0 hands to its children, read-only),
or is absent. `PrivateStep` says what each operation does to these maps: it
changes the map of one task, and knows nothing of frames, tables or counts.

`view` reads the maps off the two-level page tables.
-/
import Linux011.Kernel.System
import Mathlib.Tactic.IntervalCases
import Mathlib.Tactic.NormNum

namespace Linux011.Kernel

open Mm RefCount

/-! ## Bytes of a word -/

theorem State.getByte_setByte (w b : Nat) {i j : Nat} (hi : i < 4) (hj : j < 4) :
    State.getByte (State.setByte w i b) j = if j = i then b % 256 else State.getByte w j := by
  unfold State.setByte State.getByte
  interval_cases i <;> interval_cases j <;> norm_num <;> omega

theorem State.getByte_imageWord (file : Nat → Fin 256) (e a : Nat) {i : Nat} (hi : i < 4) :
    State.getByte (State.imageWord file e a) i = State.imageByte file e (a + i) := by
  have hb : ∀ x, State.imageByte file e x < 256 := fun x => by
    unfold State.imageByte
    split
    · exact (file _).2
    · omega
  have h₀ := hb a
  have h₁ := hb (a + 1)
  have h₂ := hb (a + 2)
  have h₃ := hb (a + 3)
  unfold State.getByte State.imageWord
  interval_cases i <;> norm_num <;> omega

/-! ## Private memories -/

/-- What a task finds at an address. -/
inductive Cell
  | absent
  /-- A byte of the task's own. -/
  | byte (v : Nat)
  /-- A byte of kernel memory, at offset `o` of frame `f`. -/
  | kernel (f o : Nat)
  deriving DecidableEq

/-- The memory of each task. -/
abbrev View := Fin 64 → Nat → Cell

/-- The memory of a task without pages. -/
def gone : Nat → Cell := fun _ => .absent

/-- Task 0's first 640 kB, as its children find them. -/
def kernelMap (x : Nat) : Cell := if x < 655360 then .kernel (x / 4096) (x % 4096) else .absent

/-- Memory `M` with the page of `a` taken from `P`. -/
def onPage (M : Nat → Cell) (a : Nat) (P : Nat → Cell) (x : Nat) : Cell :=
  if x / 4096 = a / 4096 then P x else M x

/-- The byte at offset `o` of frame `f`. -/
def kbyte (m : Mem) (f o : Nat) : Nat := State.getByte (m.word f (o / 4)) (o % 4)

/-- A cell after the write fault that makes it the task's own. -/
def Cell.own (m : Mem) : Cell → Cell
  | .kernel f o => .byte (kbyte m f o)
  | c => c

@[simp] theorem Cell.own_byte (m : Mem) (v : Nat) : (Cell.byte v).own m = .byte v := rfl

@[simp] theorem Cell.own_kernel (m : Mem) (f o : Nat) : (Cell.kernel f o).own m = .byte (kbyte m f o) := rfl

/-- A cell after `verify_area`: as it was, or a copy of kernel memory. -/
def Cell.Verified (c c' : Cell) : Prop := c' = c ∨ ∃ f o v, c = .kernel f o ∧ c' = .byte v

/-- What a task reads through a cell. -/
def Cell.read (m : Mem) : Cell → Option Nat
  | .absent => none
  | .byte v => some v
  | .kernel f o => some (kbyte m f o)

/-- The operations on private memories. `k` is the state of the kernel before the
operation and `k'` the one after it, for the files and the kernel's own bytes. -/
def PrivateStep (k k' : State) (V : View) : Op → View → Prop
  | .fork t, V' => V' = V ∨ ∃ nr, V nr = gone ∧ V' = Function.update V nr (if t = 0 then kernelMap else V t)
  | .fault t a, V' =>
    -- No change yet, the task's death, a cleared page, or the page of another task.
    V' = V ∨ V' = Function.update V t gone ∨
      V' = Function.update V t (onPage (V t) a fun _ => .byte 0) ∨
      ∃ p, p ≠ t ∧ V' = Function.update V t (onPage (V t) a (V p))
  | .loaded t, V' =>
    V' = Function.update V t gone ∨
      ∃ tk n a ino, k.task t = some tk ∧ tk.load = some (n, a) ∧ tk.executable = some ino ∧
        V' = Function.update V t (onPage (V t) a fun x => .byte (State.imageByte (k.file ino) tk.endData x))
  | .wpFault t a, V' =>
    V' = Function.update V t gone ∨
      V' = Function.update V t (onPage (V t) a fun x => (V t x).own k'.mem)
  | .write t a b, V' => V' = Function.update V t (Function.update (V t) a (.byte (b % 256)))
  | .sysRead t _ _, V' =>
    V' = Function.update V t gone ∨
      ∃ M, V' = Function.update V t M ∧ ∀ x, (V t x).Verified (M x)
  | .execClear t, V' =>
    -- The new image has the argument pages alone.
    ∃ M, V' = Function.update V t M ∧ ∀ x, x < taskSize - 131072 → M x = .absent
  | .exit t, V' => V' = Function.update V t gone
  | _, V' => V' = V

/-! ## The memories the page tables give -/

/-- The cell behind entry `e` at address `x`. -/
def cell (m : Mem) (e x : Nat) : Cell :=
  if ¬ Present e then .absent
  else if m.Managed (frame e) then .byte (kbyte m (frame e) (x % 4096))
  else .kernel (frame e) (x % 4096)

/-- The memory the tables give task `u`. -/
def view (k : State) : View := fun u x =>
  if x < taskSize then cell k.mem (k.tabEntry u (Mem.dirIx x) (Mem.tabIx x)) x else .absent

/-- The byte task `u` reads at `x`. -/
def State.read (k : State) (u : Fin 64) (x : Nat) : Option Nat := (view k u x).read k.mem

variable {s : Prop} {lost lost' : Fin 4096 → Bool} {k k' : State} {t u : Fin 64} {tk : Task} {m m' : Mem}

theorem cell_of_not {e : Nat} (h : ¬ Present e) (x : Nat) : cell m e x = .absent := if_pos h

theorem cell_of_managed {e : Nat} (h : Present e) (hM : m.Managed (frame e)) (x : Nat) :
    cell m e x = .byte (kbyte m (frame e) (x % 4096)) := by
  rw [cell, if_neg (not_not.2 h), if_pos hM]

theorem cell_of_kernel {e : Nat} (h : Present e) (hM : ¬ m.Managed (frame e)) (x : Nat) :
    cell m e x = .kernel (frame e) (x % 4096) := by
  rw [cell, if_neg (not_not.2 h), if_neg hM]

/-- Entries that map the same frame, with its words as they were. -/
theorem cell_congr {e e' x : Nat} (hl : m'.low = m.low) (hh : m'.high = m.high) (hp : Present e' ↔ Present e)
    (hf : frame e' = frame e)
    (hw : Present e → m.Managed (frame e) → ∀ w, m'.word (frame e) w = m.word (frame e) w) :
    cell m' e' x = cell m e x := by
  by_cases h : Present e
  · by_cases hM : m.Managed (frame e)
    · rw [cell_of_managed h hM, cell_of_managed (hp.2 h) (by rw [hf]; exact (Inv.managed_congr hl hh _).2 hM), hf]
      unfold kbyte
      rw [hw h hM]
    · rw [cell_of_kernel h hM, cell_of_kernel (hp.2 h) (by rw [hf]; exact fun e => hM ((Inv.managed_congr hl hh _).1 e)), hf]
  · rw [cell_of_not h, cell_of_not (fun e => h (hp.1 e))]

theorem view_of_lt {x : Nat} (hx : x < taskSize) :
    view k u x = cell k.mem (k.tabEntry u (Mem.dirIx x) (Mem.tabIx x)) x := if_pos hx

theorem view_of_ge {x : Nat} (hx : ¬ x < taskSize) : view k u x = .absent := if_neg hx

end Linux011.Kernel
