/-
The memory of a task inside `do_execve`: its page table, the counts of `mem_map`, the pages of the
argument strings, and the pages that faults bring in.

In `Mm` the tables are words of the frames they are in. Here they are maps of their own, and a
frame has bytes. `start_code` is 0 for every task.
-/
import Linux011.Lib.Bytes
import Linux011.Lib.Prog
import Linux011.Fs.Zones
import Mathlib.Logic.Function.Basic
import Mathlib.Logic.Relation

namespace Linux011.Fs.Execve

open Bytes
open Prog (Ends)

/-- What a call ends in if it does not come back. -/
inductive Stop
  | panic (text : String)
  /-- An address beyond the segment, or without end: `do_exit(11)`. -/
  | segv
  /-- A page fault without a page: `do_exit(SIGSEGV)`. -/
  | oom
  /-- `page[i]`, behind the end of the array. -/
  | index (i : Nat)
  deriving DecidableEq

/-- An entry of a page table. -/
structure Entry where
  frame : Nat
  rw : Bool
  deriving DecidableEq

/-- `mem_map`, the bytes of the frames, the page tables of the task by directory entry and its
entries by page number, and `page[]`. There is no table, and no page, where the number is 0. -/
structure Space where
  map : Nat → Nat
  frame : Nat → Nat → UInt8
  table : Nat → Nat
  pte : Nat → Option Entry
  page : Nat → Nat

namespace Space

/-- `mem_map[n] & USED`. -/
def Used (m : Space) (n : Nat) : Prop := m.map n / 128 % 2 = 1

instance (m : Space) (n : Nat) : Decidable (m.Used n) := inferInstanceAs (Decidable (_ = _))

def setMap (m : Space) (n x : Nat) : Space := { m with map := Function.update m.map n x }

def setTable (m : Space) (i t : Nat) : Space := { m with table := Function.update m.table i t }

def link (m : Space) (v : Nat) (e : Entry) : Space := { m with pte := Function.update m.pte v (some e) }

def setPage (m : Space) (i n : Nat) : Space := { m with page := Function.update m.page i n }

/-- A frame in use, with these bytes. -/
def give (m : Space) (n : Nat) (c : Nat → UInt8) : Space :=
  { m with map := Function.update m.map n 1, frame := Function.update m.frame n c }

/-- A byte stored in a frame. -/
def store (m : Space) (n k : Nat) (b : UInt8) : Space :=
  { m with frame := Function.update m.frame n (Function.update (m.frame n) k b) }

theorem setMap_map (m : Space) (n x : Nat) : (m.setMap n x).map = Function.update m.map n x := rfl
theorem setTable_table (m : Space) (i t : Nat) : (m.setTable i t).table = Function.update m.table i t := rfl
theorem link_pte (m : Space) (v : Nat) (e : Entry) : (m.link v e).pte = Function.update m.pte v (some e) := rfl
theorem setPage_page (m : Space) (i n : Nat) : (m.setPage i n).page = Function.update m.page i n := rfl
theorem give_map (m : Space) (n : Nat) (c : Nat → UInt8) : (m.give n c).map = Function.update m.map n 1 := rfl
theorem give_frame (m : Space) (n : Nat) (c : Nat → UInt8) : (m.give n c).frame = Function.update m.frame n c := rfl
theorem store_frame (m : Space) (n k : Nat) (b : UInt8) :
    (m.store n k b).frame = Function.update m.frame n (Function.update (m.frame n) k b) := rfl

end Space

inductive Handler
  | dfl
  | ign
  | user (a : Nat)
  deriving DecidableEq

/-- What `do_execve` reads and writes of `current`. The sizes have 32 bits. -/
structure Task where
  euid : Nat
  egid : Nat
  executable : Option Nat
  endCode : Nat
  endData : Nat
  brk : Nat
  startStack : Nat
  /-- Of the data segment. -/
  limit : Nat
  handler : Nat → Handler
  filp : Nat → Option Nat
  closeOnExec : Nat → Bool
  usedMath : Bool

/-- What `do_execve` reads of an inode. -/
structure Inode where
  mode : Nat
  uid : Nat
  gid : Nat
  size : Nat
  dev : Nat
  zone : Nat

/-- What the call finds outside of the task. -/
structure World where
  /-- `MAP_NR(LOW_MEMORY)` and `MAP_NR(HIGH_MEMORY)`. -/
  low : Nat
  high : Nat
  low_pos : 0 < low
  high_le : high ≤ 4096
  /-- The frame that `share_page` finds for a page of an executable: another task that runs it has it,
  clean. The inode has two users then. -/
  share : Nat → Nat → Option Nat
  /-- It is none of the kernel's own. -/
  share_low : ∀ {ino v n : Nat}, share ino v = some n → low ≤ n
  /-- A frame is mapped at one address. -/
  share_addr : ∀ {ino v ino' v' n : Nat}, share ino v = some n → share ino' v' = some n → v = v'
  /-- The bytes of the files. -/
  file : Nat → Nat → UInt8
  /-- What `namei` comes to with the bytes of the name that it has read; `none` while it needs more. -/
  walk : List UInt8 → Option (Option Nat)
  walk_end : ∀ l, walk (l ++ [0]) ≠ none
  inode : Nat → Inode
  /-- `bread`. -/
  block : Nat → Nat → Option (Nat → UInt8)
  /-- `f_inode` of the open files. -/
  fileInode : Nat → Nat
  /-- Where the local variables of `do_execve` are, in the kernel's segment. -/
  locals : Nat
  locals_lt : locals + 1036 ≤ 4294967296

abbrev MM := StateT Space (Except Stop)

/-- `if (c) x;` -/
def onlyIf {S : Type} (c : Prop) [Decidable c] (x : StateT S (Except Stop) Unit) : StateT S (Except Stop) Unit :=
  if c then x else pure ()

/-- `get_free_page`: the first frame that is not in use, cleared; 0 if there is none. -/
def getFreePage (w : World) : MM Nat := fun m =>
  match (List.range' w.low (4096 - w.low)).find? fun n => m.map n == 0 with
  | none => .ok (0, m)
  | some n => .ok (n, m.give n fun _ => 0)

/-- `free_page`. -/
def freePage (w : World) (n : Nat) : MM Unit := fun m =>
  if w.high ≤ n then .error (.panic "trying to free nonexistent page")
  else if m.Used n then .ok ((), m)
  else if m.map n ≠ 0 then .ok ((), m.setMap n (m.map n - 1))
  else .error (.panic "trying to free free page")

/-- The page table for directory entry `i`, made if there is none; `false` if there is no page for it. -/
def needTable (w : World) (i : Nat) : MM Bool := do
  let m ← get
  if m.table i ≠ 0 then pure true
  else do
    let t ← getFreePage w
    if t = 0 then pure false
    else do
      modify fun m => m.setTable i t
      pure true

/-- `put_page`, at page `v`. An entry that is there is overwritten. -/
def putPage (w : World) (page v : Nat) : MM Bool := do
  if ← needTable w (v / 1024) then do
    modify fun m => m.link v ⟨page, true⟩
    pure true
  else pure false

/-- `get_empty_page`. -/
def getEmptyPage (w : World) (v : Nat) : MM Unit := do
  let tmp ← getFreePage w
  if tmp = 0 then throw .oom
  else if ← putPage w tmp v then pure ()
  else throw .oom

/-- `share_page`, and `try_to_share` with the task that has the page. -/
def sharePage (w : World) (ino v : Nat) : MM Bool :=
  match w.share ino v with
  | none => pure false
  | some n => do
    if ← needTable w (v / 1024) then do
      modify fun m => (m.setMap n (m.map n + 1)).link v ⟨n, false⟩
      pure true
    else pure false

/-- The bytes that the last loop of `do_no_page` clears, for page `v`: `tmp + 4096 - end_data` as an `int`. -/
def cleared (v endData : Nat) : Nat :=
  let i := (4096 * v + 4096 + 4294967296 - endData) % 4294967296
  if i < 2147483648 then i else 0

/-- `bread_page`, and the bytes below the end of the page that are cleared. -/
def fill (w : World) (ino endData v page : Nat) (m : Space) : Space :=
  { m with frame := fun f k =>
      if k < 4096 ∧ 4096 * page + 4096 ≤ 4096 * f + k + cleared v endData ∧ 4096 * f + k < 4096 * page + 4096 then 0
      else if f = page then w.file ino (1024 + 4096 * v + k)
      else m.frame f k }

/-- `do_no_page` from `get_free_page` on. -/
def loadPage (w : World) (ino endData v : Nat) : MM Unit := do
  let page ← getFreePage w
  if page = 0 then throw .oom
  else if maxBlock ≤ 1 + 4 * v + 3 then throw (.panic "_bmap: block>big")
  else do
    modify (fill w ino endData v page)
    if ← putPage w page v then pure ()
    else throw .oom

/-- `do_no_page`, for page `v`. -/
def doNoPage (w : World) (tk : Task) (v : Nat) : MM Unit :=
  match tk.executable with
  | none => getEmptyPage w v
  | some ino =>
    if tk.endData ≤ 4096 * v then getEmptyPage w v
    else do
      if ← sharePage w ino v then pure ()
      else loadPage w ino tk.endData v

/-- The frame an access to user address `a` comes to, after a page fault if there has to be one. The
processor does not look at the RW bit in the kernel. -/
def touch (w : World) (tk : Task) (a : Nat) : MM Nat := do
  if tk.limit ≤ a then throw .segv
  else do
    let m ← get
    match m.pte (a / 4096) with
    | some e => pure e.frame
    | none => do
      doNoPage w tk (a / 4096)
      let m ← get
      match m.pte (a / 4096) with
      | some e => pure e.frame
      | none => throw .segv

def userByte (w : World) (tk : Task) (a : Nat) : MM UInt8 := do
  let n ← touch w tk a
  let m ← get
  pure (m.frame n (a % 4096))

def setUserByte (w : World) (tk : Task) (a : Nat) (b : UInt8) : MM Unit := do
  let n ← touch w tk a
  modify fun m => m.store n (a % 4096) b

/-- `page[i]`, with a page got for it if there is none; 0 if there is none to get. -/
def argPage (w : World) (i : Nat) : MM Nat := do
  if 32 ≤ i then throw (.index i)
  else do
    let m ← get
    if m.page i ≠ 0 then pure (m.page i)
    else do
      let n ← getFreePage w
      modify fun m => m.setPage i n
      pure n

/-- The pages of `page[]`, freed; `free_page(0)` does nothing. -/
def freeArgs (w : World) : List Nat → MM Unit
  | [] => pure ()
  | i :: l => do
    let m ← get
    freePage w (m.page i)
    freeArgs w l

/-- One turn of the loop of `free_one_table`. -/
def freeEntry (w : World) (v : Nat) : MM Unit := do
  let m ← get
  match m.pte v with
  | none => pure ()
  | some e =>
    if m.Used e.frame then pure ()
    else do
      set { m with pte := Function.update m.pte v none }
      freePage w e.frame

def freeEntries (w : World) : List Nat → MM Unit
  | [] => pure ()
  | v :: l => do
    freeEntry w v
    freeEntries w l

/-- The entries of a table are gone with it. -/
def Space.dropTable (m : Space) (i : Nat) : Space :=
  { m with table := Function.update m.table i 0, pte := fun v => if v / 1024 = i then none else m.pte v }

/-- `free_one_table`. -/
def freeOneTable (w : World) (i : Nat) : MM Unit := do
  let m ← get
  let t := m.table i
  if t = 0 ∨ w.high ≤ t ∨ m.Used t then pure ()
  else do
    freeEntries w (List.range' (1024 * i) 1024)
    modify fun m => m.dropTable i
    freePage w t

/-- `clear_page_tables`, on the directory entries that are left. -/
def clearPageTables (w : World) : List Nat → MM Unit
  | [] => pure ()
  | i :: l => do
    freeOneTable w i
    clearPageTables w l

theorem update_ne_zero {f : Nat → Nat} {n x k : Nat} (hx : x ≠ 0) (hk : f k ≠ 0) : Function.update f n x k ≠ 0 := by
  rw [Function.update_apply]
  split
  · exact hx
  · exact hk

/-! ## What a page fault brings in -/

section Faults

variable {w : World} {tk : Task} {m m' : Space} {E : Stop → Prop} {i v n : Nat} {c : Nat → UInt8}

theorem getFreePage_ends {Q : Nat → Space → Prop} (hno : (∀ n, w.low ≤ n → n < 4096 → m.map n ≠ 0) → Q 0 m)
    (hgot : ∀ n, m.map n = 0 → w.low ≤ n → n < 4096 → Q n (m.give n fun _ => 0)) : Ends (getFreePage w) E Q m := by
  unfold Ends getFreePage
  cases hf : (List.range' w.low (4096 - w.low)).find? fun n => m.map n == 0 with
  | none =>
    refine hno fun n hlow hlt h0 => ?_
    have := List.find?_eq_none.1 hf n (List.mem_range'_1.2 ⟨hlow, by omega⟩)
    rw [h0] at this
    exact this rfl
  | some n =>
    obtain ⟨hlow, hlt⟩ := List.mem_range'_1.1 (List.mem_of_find?_eq_some hf)
    exact hgot n (eq_of_beq (List.find?_some (p := fun n => m.map n == 0) hf)) hlow (by omega)

/-- A page that `get_free_page` gives is not page 0. -/
theorem World.ne_zero (h : w.low ≤ n) : n ≠ 0 := by
  have := w.low_pos
  omega

/-- There is a table for directory entry `i`, a new one if there was none. -/
inductive Tabled (w : World) (m : Space) (i : Nat) : Space → Prop
  | there (h : m.table i ≠ 0) : Tabled w m i m
  | made {t : Nat} (h : m.table i = 0) (hfree : m.map t = 0) (hlow : w.low ≤ t) (hlt : t < 4096) :
    Tabled w m i ((m.give t fun _ => 0).setTable i t)

theorem needTable_ends {Q : Bool → Space → Prop} (hno : m.table i = 0 → (∀ n, w.low ≤ n → n < 4096 → m.map n ≠ 0) → Q false m)
    (hyes : ∀ m', Tabled w m i m' → Q true m') : Ends (needTable w i) E Q m := by
  refine Ends.bind (Ends.get (Ends.ite (fun h => Ends.pure (hyes m (.there h))) fun h => Ends.bind (getFreePage_ends ?_ ?_)))
  · exact fun hfull => Ends.ite (fun _ => Ends.pure (hno (Decidable.not_not.1 h) hfull)) fun h0 => absurd rfl h0
  · intro t hfree hlow hlt
    refine Ends.ite (fun h0 => absurd h0 (World.ne_zero hlow)) fun _ => Ends.bind (Ends.modify (Ends.pure ?_))
    exact hyes _ (.made (Decidable.not_not.1 h) hfree hlow hlt)

/-- A page claimed before the table might as well be claimed after it. -/
theorem Tabled.of_give (h : Tabled w (m.give n c) i m') (hn : m.map n = 0) :
    ∃ m₁, Tabled w m i m₁ ∧ m₁.map n = 0 ∧ m' = m₁.give n c := by
  cases h with
  | there h => exact ⟨m, .there h, hn, rfl⟩
  | @made t h hfree hlow hlt =>
    have hne : t ≠ n := fun e => by
      rw [e] at hfree
      simp [Space.give] at hfree
    have hfree' : m.map t = 0 := by simpa [Space.give, hne] using hfree
    refine ⟨_, .made h hfree' hlow hlt, by simpa [Space.give, Space.setTable, hne.symm] using hn, ?_⟩
    simp only [Space.give, Space.setTable, Space.mk.injEq, and_true]
    exact ⟨Function.update_comm hne.symm _ _ _, Function.update_comm hne.symm _ _ _⟩

/-- Byte `k` of page `v`, as `do_no_page` reads it in. -/
def loadedByte (w : World) (ino endData v k : Nat) : UInt8 :=
  if k < 4096 ∧ 4096 ≤ k + cleared v endData then 0 else w.file ino (1024 + 4096 * v + k)

/-- Byte `k` of page `v` while it is not in memory; `none` if it cannot be read in. -/
def absentByte (w : World) (tk : Task) (m : Space) (v k : Nat) : Option UInt8 :=
  match tk.executable with
  | none => some 0
  | some ino =>
    if tk.endData ≤ 4096 * v then some 0
    else match w.share ino v with
      | some n => some (m.frame n k)
      | none => if maxBlock ≤ 1 + 4 * v + 3 then none else some (loadedByte w ino tk.endData v k)

/-- Page `v` is there: a new page with its bytes, or the page of another task. -/
inductive Paged (w : World) (tk : Task) (m : Space) (v : Nat) : Space → Prop
  | fresh {n : Nat} {c : Nat → UInt8} (hfree : m.map n = 0) (hlow : w.low ≤ n) (hlt : n < 4096)
    (hc : ∀ k, absentByte w tk m v k = some (c k)) : Paged w tk m v ((m.give n c).link v ⟨n, true⟩)
  | shared {ino n : Nat} (hshare : w.share ino v = some n) (hc : ∀ k, absentByte w tk m v k = some (m.frame n k)) :
    Paged w tk m v ((m.setMap n (m.map n + 1)).link v ⟨n, false⟩)

/-- What a page fault at page `v` does. -/
def Brought (w : World) (tk : Task) (m : Space) (v : Nat) (m' : Space) : Prop :=
  ∃ m₁, Tabled w m (v / 1024) m₁ ∧ Paged w tk m₁ v m'

theorem cleared_le {endData : Nat} (hend : endData ≤ 2147483648) (hv : 4096 * v < endData) : cleared v endData ≤ 4096 := by
  simp only [cleared]
  split <;> omega

theorem fill_give {ino endData : Nat} (hend : endData ≤ 2147483648) (hv : 4096 * v < endData) (c : Nat → UInt8) :
    fill w ino endData v n (m.give n c) = m.give n (loadedByte w ino endData v) := by
  have hle := cleared_le hend hv
  simp only [fill, Space.give, Space.mk.injEq, true_and, and_true]
  funext f k
  by_cases hf : f = n
  · subst hf
    simp only [Function.update_self, loadedByte, if_true]
    exact if_congr ⟨fun h => by omega, fun h => by omega⟩ rfl rfl
  · rw [if_neg (by omega), if_neg hf, Function.update_of_ne hf, Function.update_of_ne hf]

/-- A new page is mapped. -/
theorem putPage_fresh {Q : Unit → Space → Prop} (hfree : m.map n = 0) (hlow : w.low ≤ n) (hlt : n < 4096)
    (hc : ∀ m₁ k, absentByte w tk m₁ v k = some (c k)) (hoom : E .oom) (h : ∀ m', Brought w tk m v m' → Q () m') :
    Ends (do if ← putPage w n v then pure () else throw .oom) E Q (m.give n c) := by
  refine Ends.bind (Ends.bind (needTable_ends (fun _ _ => Ends.ite (fun h => absurd h Bool.false_ne_true) fun _ => Ends.pure ?_)
    fun m' ht => Ends.ite (fun _ => Ends.bind (Ends.modify (Ends.pure ?_))) fun h => absurd rfl h))
  · exact Ends.ite (fun h => absurd h Bool.false_ne_true) fun _ => Ends.throw hoom
  · refine Ends.ite (fun _ => Ends.pure (h _ ?_)) fun h => absurd rfl h
    obtain ⟨m₁, ht₁, hn₁, rfl⟩ := ht.of_give hfree
    exact ⟨m₁, ht₁, .fresh hn₁ hlow hlt (hc m₁)⟩

theorem getEmptyPage_ends {Q : Unit → Space → Prop} (hc : ∀ m₁ k, absentByte w tk m₁ v k = some 0) (hoom : E .oom)
    (h : ∀ m', Brought w tk m v m' → Q () m') : Ends (getEmptyPage w v) E Q m := by
  refine Ends.bind (getFreePage_ends (fun _ => Ends.ite (fun _ => Ends.throw hoom) fun h => absurd rfl h) ?_)
  intro n hfree hlow hlt
  exact Ends.ite (fun h0 => absurd h0 (World.ne_zero hlow)) fun _ => putPage_fresh hfree hlow hlt hc hoom h

theorem loadPage_ends {Q : Unit → Space → Prop} {ino : Nat} (hend : tk.endData ≤ 2147483648) (hv : 4096 * v < tk.endData)
    (hex : tk.executable = some ino) (hshare : w.share ino v = none) (hoom : E .oom)
    (hbad : (∃ k, absentByte w tk m v k = none) → ∀ e, E e) (h : ∀ m', Brought w tk m v m' → Q () m') :
    Ends (loadPage w ino tk.endData v) E Q m := by
  have habsent (m₁ : Space) (k : Nat) : absentByte w tk m₁ v k =
      if maxBlock ≤ 1 + 4 * v + 3 then none else some (loadedByte w ino tk.endData v k) := by
    simp [absentByte, hex, hshare, Nat.not_le.2 hv]
  refine Ends.bind (getFreePage_ends (fun _ => Ends.ite (fun _ => Ends.throw hoom) fun h => absurd rfl h) ?_)
  intro n hfree hlow hlt
  refine Ends.ite (fun h0 => absurd h0 (World.ne_zero hlow)) fun _ => Ends.ite (fun hbig => Ends.throw ?_) fun hsmall => ?_
  · exact hbad ⟨0, by rw [habsent, if_pos hbig]⟩ _
  · refine Ends.bind (Ends.modify ?_)
    rw [fill_give hend hv]
    exact putPage_fresh hfree hlow hlt (fun m₁ k => by rw [habsent, if_neg hsmall]) hoom h

/-- **`do_no_page`** brings the page in, if there is memory for it and the file has it. -/
theorem doNoPage_ends {Q : Unit → Space → Prop} (hend : tk.endData ≤ 2147483648) (hoom : E .oom)
    (hbad : (∃ k, absentByte w tk m v k = none) → ∀ e, E e) (h : ∀ m', Brought w tk m v m' → Q () m') :
    Ends (doNoPage w tk v) E Q m := by
  unfold doNoPage
  split
  · rename_i hex
    exact getEmptyPage_ends (fun m₁ k => by simp [absentByte, hex]) hoom h
  · rename_i ino hex
    refine Ends.ite (fun hge => ?_) fun hlt => Ends.bind ?_
    · exact getEmptyPage_ends (fun m₁ k => by simp [absentByte, hex, hge]) hoom h
    · have hv : 4096 * v < tk.endData := Nat.not_le.1 hlt
      unfold sharePage
      split
      · rename_i hshare
        exact Ends.pure (Ends.ite (fun h => absurd h Bool.false_ne_true) fun _ => loadPage_ends hend hv hex hshare hoom hbad h)
      · rename_i n hshare
        have hshared (m₁ : Space) (k : Nat) : absentByte w tk m₁ v k = some (m₁.frame n k) := by
          simp [absentByte, hex, hshare, Nat.not_le.2 hv]
        refine Ends.bind (needTable_ends (fun _ hfull => ?_) fun m₁ ht => ?_)
        · -- without a page for the table there is none to load into
          refine Ends.ite (fun h => absurd h Bool.false_ne_true) fun _ => Ends.pure ?_
          refine Ends.ite (fun h => absurd h Bool.false_ne_true) fun _ => Ends.bind (getFreePage_ends ?_ ?_)
          · exact fun _ => Ends.ite (fun _ => Ends.throw hoom) fun h => absurd rfl h
          · exact fun n h0 hlow hlt => absurd h0 (hfull n hlow hlt)
        · refine Ends.ite (fun _ => Ends.bind (Ends.modify (Ends.pure ?_))) fun h => absurd rfl h
          exact Ends.ite (fun _ => Ends.pure (h _ ⟨m₁, ht, .shared hshare (hshared m₁)⟩)) fun h => absurd rfl h

theorem Brought.there (h : Brought w tk m v m') : ∃ e, m'.pte v = some e := by
  obtain ⟨m₁, -, h⟩ := h
  cases h with
  | fresh => exact ⟨_, Function.update_self ..⟩
  | shared => exact ⟨_, Function.update_self ..⟩

/-- An access to a user address. -/
theorem touch_ends {Q : Nat → Space → Prop} {a : Nat} (hend : tk.endData ≤ 2147483648) (hseg : tk.limit ≤ a → E .segv)
    (hthere : ∀ e, a < tk.limit → m.pte (a / 4096) = some e → Q e.frame m) (hoom : m.pte (a / 4096) = none → E .oom)
    (hbad : a < tk.limit → m.pte (a / 4096) = none → (∃ k, absentByte w tk m (a / 4096) k = none) → ∀ e, E e)
    (hfault : a < tk.limit → m.pte (a / 4096) = none → ∀ m' e, Brought w tk m (a / 4096) m' → m'.pte (a / 4096) = some e →
      Q e.frame m') : Ends (touch w tk a) E Q m := by
  refine Ends.ite (fun h => Ends.throw (hseg h)) fun hlt => Ends.bind (Ends.get ?_)
  have hlt := Nat.not_le.1 hlt
  split
  · rename_i e he
    exact Ends.pure (hthere e hlt he)
  · rename_i hnone
    refine Ends.bind (doNoPage_ends hend (hoom hnone) (hbad hlt hnone) fun m' hm' => Ends.bind (Ends.get ?_))
    obtain ⟨e, he⟩ := hm'.there
    rw [he]
    exact Ends.pure (hfault hlt hnone m' e hm' he)

end Faults

end Linux011.Fs.Execve
