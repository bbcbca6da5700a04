/-
`mm/memory.c`: frames, page tables and the fault handlers.

Physical memory is an array of frames of 1024 words, and the page
directories, the page tables, the user pages and the kernel's own tables all
live in it, so a table that is written as data, or data that is read as a
table, is visible to the model. Page addresses are frame numbers
(`MAP_NR`), since the code only ever passes page-aligned ones; user
addresses are byte addresses. A `printk` leaves no state behind and is
dropped; a `panic` is an error.

The processor takes part in two places. A store through an entry sets its
dirty bit, and the kernel reaches every frame through its own tables at 3 GB
(`pg0` to `pg3` of `boot/head.s`), so the page `get_free_page` clears is
marked dirty there; later kernel stores find the bit set. CR0.WP is clear,
so a kernel store never faults on `PAGE_RW`.
-/
import Linux011.Mm.Entry
import Mathlib.Logic.Function.Basic

namespace Linux011.Mm

/-- The panics of `memory.c`. -/
inductive Panic
  /-- `free_page`: "trying to free nonexistent page". -/
  | freeNonexistent
  /-- `free_page`: "trying to free free page". -/
  | freeFree
  /-- `try_to_share`: "to_page already exists". -/
  | shareExists
  deriving DecidableEq, Repr

/-- `LOW_MEMORY` and `HIGH_MEMORY` (as frame numbers), `mem_map`, and the
words of physical memory. -/
structure Mem where
  low : Nat
  high : Nat
  map : Nat → Nat
  word : Nat → Nat → Nat

namespace Mem

/-- `mem_map[n] & USED`. -/
def Used (m : Mem) (n : Nat) : Prop := m.map n / 128 % 2 = 1

instance (m : Mem) (n : Nat) : Decidable (m.Used n) := inferInstanceAs (Decidable (_ = _))

/-- The frames `mem_init` hands to the allocator. -/
def Managed (m : Mem) (n : Nat) : Prop := m.low ≤ n ∧ n < m.high

instance (m : Mem) (n : Nat) : Decidable (m.Managed n) := inferInstanceAs (Decidable (_ ∧ _))

/-- A store of one word. -/
def set (m : Mem) (f k v : Nat) : Mem :=
  { m with word := fun f' k' => if f' = f ∧ k' = k then v else m.word f' k' }

/-- A store into `mem_map`. -/
def setMap (m : Mem) (n v : Nat) : Mem := { m with map := Function.update m.map n v }

@[simp] theorem set_map (m : Mem) (f k v : Nat) : (m.set f k v).map = m.map := rfl
@[simp] theorem used_set (m : Mem) (f k v n : Nat) : (m.set f k v).Used n ↔ m.Used n := Iff.rfl
theorem set_word (m : Mem) (f k v f' k' : Nat) :
    (m.set f k v).word f' k' = if f' = f ∧ k' = k then v else m.word f' k' := rfl
@[simp] theorem set_word_self (m : Mem) (f k v : Nat) : (m.set f k v).word f k = v := by simp [set]
theorem set_comm (m : Mem) {f f' : Nat} (h : f ≠ f') (k v k' v' : Nat) :
    (m.set f k v).set f' k' v' = (m.set f' k' v').set f k v := by
  simp only [set, mk.injEq, true_and]
  funext g l
  by_cases h₁ : g = f' ∧ l = k' <;> by_cases h₂ : g = f ∧ l = k
  · exact absurd (h₂.1.symm.trans h₁.1) h
  · rw [if_pos h₁, if_neg h₂, if_pos h₁]
  · rw [if_neg h₁, if_pos h₂, if_pos h₂]
  · rw [if_neg h₁, if_neg h₂, if_neg h₂, if_neg h₁]
@[simp] theorem set_set (m : Mem) (f k v v' : Nat) : (m.set f k v).set f k v' = m.set f k v' := by
  simp only [set, mk.injEq, true_and]
  funext g l
  split <;> rfl
@[simp] theorem setMap_word (m : Mem) (n v : Nat) : (m.setMap n v).word = m.word := rfl
@[simp] theorem setMap_map (m : Mem) (n v : Nat) : (m.setMap n v).map = Function.update m.map n v := rfl

/-- Frame `i` claimed by `get_free_page`: count 1, all words zero. The
clearing stores go through the kernel's table entry for `i`. -/
def claim (m : Mem) (i : Nat) : Mem :=
  { m with
    map := Function.update m.map i 1
    word := fun f k =>
      if f = i then 0
      else if f = 1 + i / 1024 ∧ k = i % 1024 then setDirty (m.word f k)
      else m.word f k }

/-- `get_free_page`: the first frame from `LOW_MEMORY` on with a zero count;
`none` where the C returns 0. -/
def getFreePage (m : Mem) : Option (Nat × Mem) :=
  ((List.range' m.low (4096 - m.low)).find? fun i => m.map i == 0).map fun i => (i, m.claim i)

/-- `free_page`. -/
def freePage (m : Mem) (n : Nat) : Except Panic Mem :=
  if m.high ≤ n then .error .freeNonexistent
  else if m.Used n then .ok m
  else if m.map n ≠ 0 then .ok (m.setMap n (m.map n - 1))
  else .error .freeFree

/-- One turn of the loop of `free_one_table`, for entry `j` of table `t`. -/
def freeEntry (t : Nat) (m : Mem) (j : Nat) : Except Panic Mem :=
  let pg := m.word t j
  if pg = 0 then .ok m
  else if m.Used (frame pg) then .ok m
  else if Present pg then (m.set t j 0).freePage (frame pg)
  else .ok (m.set t j 0)

/-- `free_one_table`, on the directory entry `i` of `d`. -/
def freeOneTable (d : Nat) (m : Mem) (i : Nat) : Except Panic Mem :=
  let pgTable := m.word d i
  if pgTable = 0 then .ok m
  else if m.high ≤ frame pgTable ∨ ¬ Present pgTable then .ok m
  else if m.Used (frame pgTable) then .ok m
  else do
    let m ← (List.range 1024).foldlM (freeEntry (frame pgTable)) m
    (m.set d i 0).freePage (frame pgTable)

/-- `clear_page_tables`, of the task with this `cr3` (task 0, whose `cr3` is
`swapper_pg_dir` at address 0, is refused). -/
def clearPageTables (m : Mem) (cr3 : Nat) : Except Panic Mem :=
  if cr3 = 0 then .ok m else (List.range 768).foldlM (freeOneTable cr3) m

/-- `free_page_tables`; the caller sets the task's `cr3` to `swapper_pg_dir`. -/
def freePageTables (m : Mem) (cr3 : Nat) : Except Panic Mem :=
  if cr3 = 0 then .ok m
  else do
    let m ← (List.range 1024).foldlM (freeOneTable cr3) m
    m.freePage cr3

/-- One turn of the inner loop of `copy_page_tables`. -/
def copyEntry (old new : Nat) (m : Mem) (j : Nat) : Mem :=
  let pg := m.word old j
  if pg = 0 then m
  else if ¬ Present pg then m
  else
    let pg := clearRw pg
    let m := m.set new j pg
    if m.Used (frame pg) then m
    else (m.set old j pg).setMap (frame pg) ((m.map (frame pg) + 1) % 256)

/-- One turn of the outer loop of `copy_page_tables`, for directory entry `i`.
The error is the failed `get_free_page`, with the memory at that point. -/
def copyDir (old new pageCount : Nat) (m : Mem) (i : Nat) : Except Mem Mem :=
  let oldTable := m.word old i
  if oldTable = 0 then .ok m
  else if m.high ≤ frame oldTable ∨ ¬ Present oldTable then .ok m
  else if m.Used (frame oldTable) ∧ 768 ≤ i then .ok (m.set new i oldTable)
  else match m.getFreePage with
    | none => .error m
    | some (t, m) =>
      -- PAGE_ACCESSED | 7
      .ok ((List.range pageCount).foldl (copyEntry (frame oldTable) t) (m.set new i (entry t 39)))

/-- `copy_page_tables`, from the directory `old`: the new directory, or `none`
for -1. `pageCount` is 160 when task 0 forks and 1024 otherwise. -/
def copyPageTables (m : Mem) (old pageCount : Nat) : Except Panic (Mem × Option Nat) :=
  match m.getFreePage with
  | none => .ok (m, none)
  | some (new, m) =>
    match (List.range 1024).foldlM (copyDir old new pageCount) m with
    | .ok m => .ok (m, some new)
    | .error m => do
      let m ← m.freePageTables new
      .ok (m, none)

/-- The entry the processor finds under `cr3` for directory index `i` and
table index `j`; 0 where the directory entry is not present. -/
def walk (m : Mem) (cr3 i j : Nat) : Nat :=
  if Present (m.word cr3 i) then m.word (frame (m.word cr3 i)) j else 0

/-- `address >> 22`, the directory index. -/
def dirIx (a : Nat) : Nat := a / 4194304

/-- `(address >> 12) & 0x3ff`, the table index. -/
def tabIx (a : Nat) : Nat := a / 4096 % 1024

/-- `put_page`: `none` where the C returns 0, with memory as it was. -/
def putPage (m : Mem) (cr3 page a : Nat) : Option Mem :=
  let dir := m.word cr3 (dirIx a)
  if Present dir then
    -- An entry already there is overwritten; PAGE_DIRTY | PAGE_ACCESSED | 7.
    some (m.set (frame dir) (tabIx a) (entry page 103))
  else match m.getFreePage with
    | none => none
    | some (t, m) => some ((m.set cr3 (dirIx a) (entry t 39)).set t (tabIx a) (entry page 103))

/-- `copy_page`. -/
def copyPage (m : Mem) (src dst : Nat) : Mem :=
  { m with word := fun f k => if f = dst then m.word src k else m.word f k }

/-- `un_wp_page`, on entry `j` of table `t`; `none` where it calls `oom`. -/
def unWpPage (m : Mem) (t j : Nat) : Option Mem :=
  let old := frame (m.word t j)
  if ¬ m.Used old ∧ m.map old = 1 then some (m.set t j (setRw (m.word t j)))
  else match m.getFreePage with
    | none => none
    | some (new, m) =>
      let m := if m.Used old then m else m.setMap old ((m.map old + 255) % 256)
      some ((m.set t j (entry new 7)).copyPage old new)

/-- `do_wp_page`. -/
def doWpPage (m : Mem) (cr3 a : Nat) : Option Mem :=
  m.unWpPage (frame (m.word cr3 (dirIx a))) (tabIx a)

/-- `write_verify`. -/
def writeVerify (m : Mem) (cr3 a : Nat) : Option Mem :=
  let page := m.word cr3 (dirIx a)
  if ¬ Present page then some m
  else
    let e := m.word (frame page) (tabIx a)
    -- (3 & entry) == 1: present and not writable
    if Present e ∧ ¬ Rw e then m.unWpPage (frame page) (tabIx a) else some m

/-- The pages `verify_area` (`kernel/fork.c`) walks: `size += addr & 0xfff` is
a signed 32-bit sum, and a sum past `INT_MAX` is negative and ends the loop
before it starts. -/
def verifyPages (addr size : Nat) : Nat :=
  let size := size + addr % 4096
  if size < 2147483648 then (size + 4095) / 4096 else 0

/-- One turn of the loop of `verify_area`, for page `i` of the range. -/
def verifyPage (cr3 addr : Nat) (m : Mem) (i : Nat) : Except Mem Mem :=
  match m.writeVerify cr3 (addr / 4096 * 4096 + 4096 * i) with
  | none => .error m
  | some m => .ok m

/-- `verify_area`; the error is `oom` in the middle, with the memory there. -/
def verifyArea (m : Mem) (cr3 addr size : Nat) : Except Mem Mem :=
  (List.range (verifyPages addr size)).foldlM (verifyPage cr3 addr) m

/-- How a page-fault handler ends: in the memory it leaves, or in `oom`. -/
inductive Outcome
  | done (m : Mem)
  | oom (m : Mem)

/-- `get_empty_page`. -/
def getEmptyPage (m : Mem) (cr3 a : Nat) : Except Panic Outcome :=
  match m.getFreePage with
  | none => do
    -- `free_page(0)`, which frame 0 being USED makes harmless
    let m ← m.freePage 0
    .ok (.oom m)
  | some (tmp, m) =>
    match m.putPage cr3 tmp a with
    | some m => .ok (.done m)
    | none => do
      let m ← m.freePage tmp
      .ok (.oom m)

/-- The end of `try_to_share`, with both tables there: entry `j` of table
`from` for frame `n` is write-protected and copied into table `to`. -/
def shareEntry (m : Mem) (fromTable toTable j n : Nat) : Except Panic (Mem × Bool) :=
  if Present (m.word toTable j) then .error .shareExists
  else
    let m := m.set fromTable j (clearRw (m.word fromTable j))
    let m := m.set toTable j (m.word fromTable j)
    .ok (m.setMap n ((m.map n + 1) % 256), true)

/-- `try_to_share`: the page at `a` under the directory `src`, also mapped
under `cr3`; `false` where the C returns 0. -/
def tryToShare (m : Mem) (cr3 src a : Nat) : Except Panic (Mem × Bool) :=
  let dir := m.word src (dirIx a)
  if ¬ Present dir then .ok (m, false)
  else
    let phys := m.word (frame dir) (tabIx a)
    -- (phys_addr & 0x41) != 0x01
    if ¬ (Present phys ∧ ¬ Dirty phys) then .ok (m, false)
    else if m.high ≤ frame phys then .ok (m, false)
    else if m.Used (frame phys) then .ok (m, false)
    else
      let dest := m.word cr3 (dirIx a)
      if Present dest then m.shareEntry (frame dir) (frame dest) (tabIx a) (frame phys)
      else match m.getFreePage with
        | none => .ok (m, false)
        | some (t, m) => (m.set cr3 (dirIx a) (entry t 39)).shareEntry (frame dir) t (tabIx a) (frame phys)

end Mem

/-! ## The tables `boot/head.s` leaves and `mem_init` -/

/-- The words of physical memory after `setup_paging`: `swapper_pg_dir` in
frame 0, `pg0` to `pg3` in frames 1 to 4; `ram` is what memory held. -/
def bootWord (ram : Nat → Nat → Nat) (f k : Nat) : Nat :=
  if f = 0 then
    if k = 0 then entry 1 7
    else if 768 ≤ k ∧ k < 772 then entry (k - 767) 7
    else 0
  else if f ≤ 4 then entry ((f - 1) * 1024 + k) 7
  else ram f k

/-- What `start_kernel` passes to `mem_init`, in frames: `main_memory_start`
is at least 1 MB, `memory_end` at most 16 MB. -/
structure Boot where
  low : Nat
  high : Nat
  ram : Nat → Nat → Nat
  low_ge : 256 ≤ low
  low_le : low ≤ high
  high_le : high ≤ 4096

/-- `mem_init`. -/
def memInit (b : Boot) : Mem where
  low := b.low
  high := b.high
  map n := if b.low ≤ n ∧ n < b.high then 0 else 128
  word := bootWord b.ram

end Linux011.Mm
