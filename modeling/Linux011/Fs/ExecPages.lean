/-
What `do_execve` does to memory before the point of no return: page faults on the caller's own pages, and
pages got for the strings.

Neither changes what the caller sees of its memory (`view`), pages that are not there yet
included. Without the pages of the strings, the counts and the tables are those
that the page faults alone would have left (`Brings`).
-/
import Linux011.Fs.ExecMemory
import Mathlib.Tactic.Common

namespace Linux011.Fs.Execve

open Bytes Relation
open Prog (Ends)

variable {w : World} {tk : Task} {m m' m'' : Space} {E : Stop → Prop} {i v n k : Nat} {c : Nat → UInt8}

/-! ## What the caller sees -/

def pageByte (w : World) (tk : Task) (m : Space) (v k : Nat) : Option UInt8 :=
  match m.pte v with
  | some e => some (m.frame e.frame k)
  | none => absentByte w tk m v k

/-- The memory of the task, with the bytes that page faults would bring in. -/
def view (w : World) (tk : Task) (m : Space) : Memory := fun a =>
  if tk.limit ≤ a then none else pageByte w tk m (a / 4096) (a % 4096)

/-- The bytes in the pages of `page[]`. -/
def argBytes (m : Space) : Memory := fun x =>
  if m.page (x / 4096) = 0 then none else some (m.frame (m.page (x / 4096)) (x % 4096))

/-- The segment ends at 3 GB, or below. -/
structure Task.Ok (tk : Task) : Prop where
  limit : tk.limit ≤ 3221225472
  endData : tk.endData ≤ 2147483648

/-! ## The references -/

/-- The frames of other tasks are in use, and mapped where those map them. -/
structure Shares (w : World) (m : Space) : Prop where
  inUse : ∀ {ino v n}, w.share ino v = some n → m.map n ≠ 0
  addr : ∀ {ino v n v' e}, w.share ino v = some n → m.pte v' = some e → e.frame = n → v' = v
  twice : ∀ {ino v n e}, w.share ino v = some n → m.pte v = some e → e.frame = n → 2 ≤ m.map n

/-- A page that nothing but a variable of the call refers to. -/
structure Held (w : World) (m : Space) (n : Nat) : Prop where
  count : m.map n = 1
  low : w.low ≤ n
  high : n < w.high
  unmapped : ∀ {v e}, m.pte v = some e → e.frame ≠ n
  noTable : ∀ i, m.table i ≠ n
  unshared : ∀ ino v, w.share ino v ≠ some n

structure Ok (w : World) (m : Space) : Prop extends Shares w m where
  zero : m.Used 0
  free : ∀ {n}, m.map n = 0 → n < w.high
  mapped : ∀ {v e}, m.pte v = some e → m.map e.frame ≠ 0
  user : ∀ {v e}, m.pte v = some e → v < 786432
  tables : ∀ {v e}, m.pte v = some e → m.table (v / 1024) ≠ 0
  table : ∀ {i}, m.table i ≠ 0 → m.map (m.table i) = 1 ∧ w.low ≤ m.table i ∧ m.table i < w.high ∧
    ∀ ino v, w.share ino v ≠ some (m.table i)
  /-- The caller runs, so it has a page. -/
  runs : ∃ i < 768, m.table i ≠ 0
  args : ∀ {i}, m.page i ≠ 0 → i < 32 ∧ Held w m (m.page i)
  distinct : ∀ {i j}, m.page i ≠ 0 → m.page i = m.page j → i = j

/-- The page is one of `page[]`. -/
def Space.Arg (m : Space) (n : Nat) : Prop := ∃ i, m.page i = n ∧ n ≠ 0

namespace Ok

theorem share_ne (h : Ok w m) (hn : m.map n = 0) {ino v : Nat} : w.share ino v ≠ some n := fun e => h.inUse e hn

theorem frame_ne (h : Ok w m) (hn : m.map n = 0) {v : Nat} {e : Entry} (he : m.pte v = some e) : e.frame ≠ n :=
  fun e' => h.mapped he (e' ▸ hn)

theorem page_ne (h : Ok w m) (hn : m.map n = 0) {i : Nat} (hi : m.page i ≠ 0) : m.page i ≠ n := fun e => by
  have := (h.args hi).2.count
  rw [e, hn] at this
  cases this

theorem table_ne (h : Ok w m) (hn : m.map n = 0) {i : Nat} (hi : m.table i ≠ 0) : m.table i ≠ n := fun e => by
  have := (h.table hi).1
  rw [e, hn] at this
  cases this

theorem ne_zero (h : Ok w m) (hn : m.map n = 0) : n ≠ 0 := by
  intro e
  have := h.zero
  rw [Space.Used, ← e, hn] at this
  cases this

theorem not_arg (h : Ok w m) (hn : m.map n = 0) : ¬m.Arg n := by
  intro harg
  obtain ⟨i, hi, h0⟩ := harg
  exact h.page_ne hn (hi ▸ h0) hi

/-- A free page taken, that nothing refers to yet. -/
theorem give (h : Ok w m) (hn : m.map n = 0) (c : Nat → UInt8) : Ok w (m.give n c) where
  inUse hs := by
    rw [Space.give_map, Function.update_of_ne fun e => h.share_ne hn (e ▸ hs)]
    exact h.inUse hs
  addr := h.addr
  twice hs he hf := by
    rw [Space.give_map, Function.update_of_ne fun e => h.share_ne hn (e ▸ hs)]
    exact h.twice hs he hf
  zero := by
    rw [Space.Used, Space.give_map, Function.update_of_ne (h.ne_zero hn).symm]
    exact h.zero
  free h0 := by
    refine h.free ?_
    rw [Space.give_map, Function.update_apply] at h0
    split at h0
    · cases h0
    · exact h0
  mapped he := by
    rw [Space.give_map, Function.update_of_ne (h.frame_ne hn he)]
    exact h.mapped he
  user := h.user
  tables := h.tables
  table hi := by
    obtain ⟨h1, hrest⟩ := h.table hi
    exact ⟨(Function.update_of_ne (h.table_ne hn hi) ..).trans h1, hrest⟩
  runs := h.runs
  args hi := by
    obtain ⟨hlt, hheld⟩ := h.args hi
    exact ⟨hlt, { hheld with count := (Function.update_of_ne (h.page_ne hn hi) ..).trans hheld.count }⟩
  distinct := h.distinct

/-- What `get_free_page` has given is held. -/
theorem held (h : Ok w m) (hn : m.map n = 0) (hlow : w.low ≤ n) (c : Nat → UInt8) : Held w (m.give n c) n where
  count := Function.update_self ..
  low := hlow
  high := h.free hn
  unmapped he := h.frame_ne hn he
  noTable i e := by
    have h0 : m.table i ≠ 0 := fun h0 => h.ne_zero hn (e.symm.trans h0)
    exact h.table_ne hn h0 e
  unshared _ _ := h.share_ne hn

/-- A held page becomes a page table. -/
theorem setTable (h : Ok w m) (hi : m.table i = 0) (hn : Held w m n) (harg : ¬m.Arg n) : Ok w (m.setTable i n) where
  inUse := h.inUse
  addr := h.addr
  twice := h.twice
  zero := h.zero
  free := h.free
  mapped := h.mapped
  user := h.user
  tables {v e} he := by
    rw [Space.setTable_table, Function.update_apply]
    split
    · exact World.ne_zero hn.low
    · exact h.tables he
  table {j} hj := by
    by_cases e : j = i
    · rw [e, Space.setTable_table, Function.update_self]
      exact ⟨hn.count, hn.low, hn.high, hn.unshared⟩
    · rw [Space.setTable_table, Function.update_of_ne e] at hj ⊢
      exact h.table hj
  runs := by
    obtain ⟨j, hj, h0⟩ := h.runs
    have hne : j ≠ i := fun e => h0 (e ▸ hi)
    refine ⟨j, hj, ?_⟩
    rw [Space.setTable_table, Function.update_of_ne hne]
    exact h0
  args {j} hj := by
    obtain ⟨hlt, hheld⟩ := h.args hj
    refine ⟨hlt, { hheld with noTable := fun k e => ?_ }⟩
    rw [Space.setTable_table, Function.update_apply] at e
    split at e
    · exact harg ⟨j, e.symm, World.ne_zero hn.low⟩
    · exact hheld.noTable k e
  distinct := h.distinct

/-- A page is mapped, where there is a table for it. -/
theorem link (h : Ok w m) {e : Entry} (hv : v < 786432) (ht : m.table (v / 1024) ≠ 0) (hmap : m.map e.frame ≠ 0)
    (haddr : ∀ {ino v'}, w.share ino v' = some e.frame → v = v' ∧ 2 ≤ m.map e.frame) (harg : ¬m.Arg e.frame) :
    Ok w (m.link v e) where
  inUse := h.inUse
  addr {ino v₁ n v' e'} hs he hf := by
    by_cases hv' : v' = v
    · rw [Space.link_pte, hv', Function.update_self] at he
      cases he
      exact hv'.trans (haddr (hf ▸ hs)).1
    · rw [Space.link_pte, Function.update_of_ne hv'] at he
      exact h.addr hs he hf
  twice {ino v₁ n e'} hs he hf := by
    by_cases hv' : v₁ = v
    · rw [Space.link_pte, hv', Function.update_self] at he
      cases he
      rw [← hf] at hs ⊢
      exact (haddr hs).2
    · rw [Space.link_pte, Function.update_of_ne hv'] at he
      exact h.twice hs he hf
  zero := h.zero
  free := h.free
  mapped {v' e'} he := by
    by_cases hv' : v' = v
    · rw [Space.link_pte, hv', Function.update_self] at he
      cases he
      exact hmap
    · rw [Space.link_pte, Function.update_of_ne hv'] at he
      exact h.mapped he
  user {v' e'} he := by
    by_cases hv' : v' = v
    · exact hv' ▸ hv
    · rw [Space.link_pte, Function.update_of_ne hv'] at he
      exact h.user he
  tables {v' e'} he := by
    by_cases hv' : v' = v
    · exact hv' ▸ ht
    · rw [Space.link_pte, Function.update_of_ne hv'] at he
      exact h.tables he
  table := h.table
  runs := h.runs
  args {j} hj := by
    obtain ⟨hlt, hheld⟩ := h.args hj
    refine ⟨hlt, { hheld with unmapped := fun {v' e'} he hf => ?_ }⟩
    by_cases hv' : v' = v
    · rw [Space.link_pte, hv', Function.update_self] at he
      cases he
      exact harg ⟨j, hf.symm, hf ▸ hj⟩
    · rw [Space.link_pte, Function.update_of_ne hv'] at he
      exact hheld.unmapped he hf
  distinct := h.distinct

/-- One more reference to a page of another task. -/
theorem addRef (h : Ok w m) {ino : Nat} (hs : w.share ino v = some n) : Ok w (m.setMap n (m.map n + 1)) where
  inUse {ino' v' n'} hs' := by
    rw [Space.setMap_map, Function.update_apply]
    split
    · omega
    · exact h.inUse hs'
  addr := h.addr
  twice {ino' v' n' e} hs' he hf := by
    have := h.twice hs' he hf
    rw [Space.setMap_map, Function.update_apply]
    split
    · rename_i e
      rw [e] at this
      omega
    · exact this
  zero := by
    have h0 := h.zero
    rw [Space.Used, Space.setMap_map, Function.update_apply]
    split
    · rename_i e
      exact absurd e.symm (World.ne_zero (w.share_low hs))
    · exact h0
  free {n'} h0 := by
    rw [Space.setMap_map, Function.update_apply] at h0
    split at h0
    · omega
    · exact h.free h0
  mapped {v' e} he := by
    rw [Space.setMap_map, Function.update_apply]
    split
    · omega
    · exact h.mapped he
  user := h.user
  tables := h.tables
  table {i} hi := by
    obtain ⟨h1, hlow, hhigh, hns⟩ := h.table hi
    have hne : m.table i ≠ n := fun e => hns ino v (hs.trans (congrArg some e.symm))
    exact ⟨(Function.update_of_ne hne ..).trans h1, hlow, hhigh, hns⟩
  runs := h.runs
  args {i} hi := by
    obtain ⟨hlt, hheld⟩ := h.args hi
    have hne : m.page i ≠ n := fun e => hheld.unshared ino v (hs.trans (congrArg some e.symm))
    exact ⟨hlt, { hheld with count := (Function.update_of_ne hne ..).trans hheld.count }⟩
  distinct := h.distinct

/-- A held page becomes one of `page[]`. -/
theorem setPage (h : Ok w m) (hi : i < 32) (hn : Held w m n) (harg : ¬m.Arg n) : Ok w (m.setPage i n) where
  inUse := h.inUse
  addr := h.addr
  twice := h.twice
  zero := h.zero
  free := h.free
  mapped := h.mapped
  user := h.user
  tables := h.tables
  table := h.table
  runs := h.runs
  args {j} hj := by
    by_cases e : j = i
    · rw [e, Space.setPage_page, Function.update_self]
      exact ⟨hi, { hn with }⟩
    · rw [Space.setPage_page, Function.update_of_ne e] at hj ⊢
      exact ⟨(h.args hj).1, { (h.args hj).2 with }⟩
  distinct {j k} hj hjk := by
    have hne (l : Nat) (hl : m.page l ≠ 0) : n ≠ m.page l := fun e => harg ⟨l, e.symm, World.ne_zero hn.low⟩
    rw [Space.setPage_page] at hj hjk
    by_cases ej : j = i
    · by_cases ek : k = i
      · rw [ej, ek]
      · rw [ej, Function.update_self, Function.update_of_ne ek] at hjk
        exact absurd hjk (hne k fun e => World.ne_zero hn.low (hjk.trans e))
    · rw [Function.update_of_ne ej] at hj hjk
      by_cases ek : k = i
      · rw [ek, Function.update_self] at hjk
        exact absurd hjk.symm (hne j hj)
      · rw [Function.update_of_ne ek] at hjk
        exact h.distinct hj hjk

theorem store (h : Ok w m) (n k : Nat) (b : UInt8) : Ok w (m.store n k b) where
  inUse := h.inUse
  addr := h.addr
  twice := h.twice
  zero := h.zero
  free := h.free
  mapped := h.mapped
  user := h.user
  tables := h.tables
  table := h.table
  runs := h.runs
  args hi := ⟨(h.args hi).1, { (h.args hi).2 with }⟩
  distinct := h.distinct

end Ok

/-! ## The bytes -/

theorem absentByte_give (h : Ok w m) (hn : m.map n = 0) (c : Nat → UInt8) :
    absentByte w tk (m.give n c) v k = absentByte w tk m v k := by
  unfold absentByte
  split
  · rfl
  · split
    · rfl
    · split
      · rename_i hs
        have hne := fun e => h.share_ne hn (hs.trans (congrArg some e))
        rw [Space.give_frame, Function.update_of_ne hne]
      · rfl

theorem view_give (h : Ok w m) (hn : m.map n = 0) (c : Nat → UInt8) : view w tk (m.give n c) = view w tk m := by
  funext a
  have hpage (v k : Nat) : pageByte w tk (m.give n c) v k = pageByte w tk m v k := by
    unfold pageByte
    rw [show (m.give n c).pte = m.pte from rfl]
    split
    · rename_i e he
      rw [Space.give_frame, Function.update_of_ne (h.frame_ne hn he)]
    · exact absentByte_give h hn c
  rw [view, view, hpage]

/-- The entry made by a page fault shows the bytes that were to come. -/
theorem view_link {e : Entry} (hv : m.pte v = none) (hc : ∀ k, absentByte w tk m v k = some (m.frame e.frame k)) :
    view w tk (m.link v e) = view w tk m := by
  funext a
  have hpage (v' k : Nat) : pageByte w tk (m.link v e) v' k = pageByte w tk m v' k := by
    unfold pageByte
    rw [Space.link_pte]
    by_cases hv' : v' = v
    · rw [hv', Function.update_self, hv]
      exact (hc k).symm
    · rw [Function.update_of_ne hv']
      rfl
  rw [view, view, hpage]

theorem view_store (h : Held w m n) (k : Nat) (b : UInt8) : view w tk (m.store n k b) = view w tk m := by
  funext a
  have hshare (ino v n' : Nat) (hs : w.share ino v = some n') : (m.store n k b).frame n' = m.frame n' := by
    rw [Space.store_frame, Function.update_of_ne fun e => h.unshared ino v (hs.trans (congrArg some e))]
  have hpage (v k' : Nat) : pageByte w tk (m.store n k b) v k' = pageByte w tk m v k' := by
    unfold pageByte
    rw [show (m.store n k b).pte = m.pte from rfl]
    split
    · rename_i e he
      rw [Space.store_frame, Function.update_of_ne (h.unmapped he)]
    · unfold absentByte
      split
      · rfl
      · split
        · rfl
        · split
          · rename_i hs
            rw [hshare _ _ _ hs]
          · rfl
  rw [view, view, hpage]

theorem argBytes_give (h : Ok w m) (hn : m.map n = 0) (c : Nat → UInt8) : argBytes (m.give n c) = argBytes m := by
  funext x
  unfold argBytes
  rw [show (m.give n c).page = m.page from rfl]
  split
  · rfl
  · rename_i h0
    rw [Space.give_frame, Function.update_of_ne (h.page_ne hn h0)]

/-- A byte stored in a page of `page[]`. -/
theorem argBytes_store (h : Ok w m) (h0 : m.page i ≠ 0) (hk : k < 4096) (b : UInt8) (x : Nat) :
    argBytes (m.store (m.page i) k b) x = if x = 4096 * i + k then some b else argBytes m x := by
  unfold argBytes
  rw [show (m.store (m.page i) k b).page = m.page from rfl, Space.store_frame]
  by_cases hx : x / 4096 = i
  · rw [hx, if_neg h0, if_neg h0, Function.update_self, Function.update_apply]
    by_cases hxk : x = 4096 * i + k
    · rw [if_pos (by omega), if_pos hxk]
    · rw [if_neg (by omega), if_neg hxk]
  · rw [if_neg (c := x = 4096 * i + k) (by omega)]
    split
    · rfl
    · rename_i h0'
      rw [Function.update_of_ne fun e => hx (h.distinct h0' e)]

/-! ## Counts and tables -/

@[ext] structure Maps where
  map : Nat → Nat
  table : Nat → Nat
  pte : Nat → Option Entry

def Space.maps (m : Space) : Maps := ⟨m.map, m.table, m.pte⟩

/-- One thing that a page fault of the task does: it gets a page table, or maps a new page, or maps a page
of another task that runs the same program. -/
inductive Brings (w : World) (tk : Task) : Maps → Maps → Prop
  | table {R : Maps} {i t : Nat} (hlim : 4194304 * i < tk.limit) (h : R.table i = 0) (hfree : R.map t = 0) :
    Brings w tk R ⟨Function.update R.map t 1, Function.update R.table i t, R.pte⟩
  | fresh {R : Maps} {v n : Nat} (hlim : 4096 * v < tk.limit) (h : R.pte v = none) (ht : R.table (v / 1024) ≠ 0)
    (hfree : R.map n = 0) : Brings w tk R ⟨Function.update R.map n 1, R.table, Function.update R.pte v (some ⟨n, true⟩)⟩
  | shared {R : Maps} {ino v n : Nat} (hlim : 4096 * v < tk.limit) (h : R.pte v = none) (ht : R.table (v / 1024) ≠ 0)
    (hs : w.share ino v = some n) :
    Brings w tk R ⟨Function.update R.map n (R.map n + 1), R.table, Function.update R.pte v (some ⟨n, false⟩)⟩

open Classical in
/-- The counts and the tables without the pages of `page[]`. -/
noncomputable def Space.rest (m : Space) : Maps := ⟨fun n => if m.Arg n then 0 else m.map n, m.table, m.pte⟩

theorem rest_map_of_arg (h : m.Arg n) : m.rest.map n = 0 := if_pos h

theorem rest_map_of_not (h : ¬m.Arg n) : m.rest.map n = m.map n := if_neg h

/-- A change of the count of a page that is not one of them. -/
theorem rest_update (m m' : Space) {x : Nat} (hp : m'.page = m.page) (hm : m'.map = Function.update m.map n x) (hn : ¬m.Arg n) :
    m'.rest.map = Function.update m.rest.map n x := by
  funext n'
  have harg : m'.Arg n' ↔ m.Arg n' := by rw [Space.Arg, Space.Arg, hp]
  by_cases ha : m.Arg n'
  · have hne : n' ≠ n := fun e => hn (e ▸ ha)
    rw [rest_map_of_arg (harg.2 ha), Function.update_of_ne hne, rest_map_of_arg ha]
  · rw [rest_map_of_not (mt harg.1 ha), hm, Function.update_apply, Function.update_apply, rest_map_of_not ha]

/-- What may happen before the point of no return. -/
structure Quiet (w : World) (tk : Task) (m m' : Space) : Prop where
  ok : Ok w m'
  view : view w tk m' = view w tk m
  there : ∀ {v e}, m.pte v = some e → m'.pte v = some e
  grown : ReflTransGen (Brings w tk) m.rest m'.rest

/-- What page faults do: the pages of the strings stay. -/
structure Faulted (w : World) (tk : Task) (m m' : Space) : Prop extends Quiet w tk m m' where
  page : m'.page = m.page
  bytes : argBytes m' = argBytes m

theorem Quiet.refl (h : Ok w m) : Quiet w tk m m := ⟨h, rfl, id, .refl⟩

theorem Quiet.trans (h : Quiet w tk m m') (h' : Quiet w tk m' m'') : Quiet w tk m m'' :=
  ⟨h'.ok, h'.view.trans h.view, fun he => h'.there (h.there he), h.grown.trans h'.grown⟩

theorem Faulted.refl (h : Ok w m) : Faulted w tk m m := { Quiet.refl h with page := rfl, bytes := rfl }

theorem Faulted.trans (h : Faulted w tk m m') (h' : Faulted w tk m' m'') : Faulted w tk m m'' :=
  { h.toQuiet.trans h'.toQuiet with page := h'.page.trans h.page, bytes := h'.bytes.trans h.bytes }

theorem Tabled.faulted (ht : Tabled w m i m') (h : Ok w m) (hlim : 4194304 * i < tk.limit) : Faulted w tk m m' := by
  cases ht with
  | there => exact .refl h
  | @made t hi hfree hlow hlt =>
    have harg := h.not_arg hfree
    refine ⟨⟨(h.give hfree _).setTable hi (h.held hfree hlow _) harg, view_give h hfree _, id, .single ?_⟩, rfl,
      argBytes_give h hfree _⟩
    have hb : Brings w tk m.rest _ := .table hlim hi ((rest_map_of_not harg).trans hfree)
    rwa [← rest_update m ((m.give t fun _ => 0).setTable i t) rfl rfl harg] at hb

theorem Paged.faulted (hp : Paged w tk m v m') (h : Ok w m) (htk : tk.Ok) (hlim : 4096 * v < tk.limit) (hv : m.pte v = none)
    (ht : m.table (v / 1024) ≠ 0) : Faulted w tk m m' := by
  have hlimit := htk.limit
  cases hp with
  | @fresh n c hfree hlow hlt hc =>
    have harg := h.not_arg hfree
    have hheld := h.held hfree hlow c
    have hok : Ok w ((m.give n c).link v ⟨n, true⟩) := by
      refine (h.give hfree c).link (by omega) ht ?_ (fun hs => absurd hs (hheld.unshared _ _)) harg
      rw [hheld.count]
      exact Nat.one_ne_zero
    have hview : view w tk ((m.give n c).link v ⟨n, true⟩) = view w tk m := by
      refine (view_link (m := m.give n c) hv fun k => ?_).trans (view_give h hfree c)
      rw [absentByte_give h hfree, hc, Space.give_frame, Function.update_self]
    refine ⟨⟨hok, hview, fun {v' e} he => ?_, .single ?_⟩, rfl, argBytes_give h hfree c⟩
    · rw [Space.link_pte, Function.update_of_ne fun e' => nomatch (e' ▸ he).symm.trans hv]
      exact he
    · have hb : Brings w tk m.rest _ := .fresh hlim hv ht ((rest_map_of_not harg).trans hfree)
      rwa [← rest_update m ((m.give n c).link v ⟨n, true⟩) rfl rfl harg] at hb
  | @shared ino n hs hc =>
    have hne {i : Nat} (hi : m.page i ≠ 0) : m.page i ≠ n := fun e => (h.args hi).2.unshared ino v (hs.trans (congrArg some e.symm))
    have harg : ¬m.Arg n := fun harg => by
      obtain ⟨i, hi, h0⟩ := harg
      exact hne (hi ▸ h0) hi
    have hcount : (m.setMap n (m.map n + 1)).map n = m.map n + 1 := Function.update_self ..
    have hok : Ok w ((m.setMap n (m.map n + 1)).link v ⟨n, false⟩) := by
      have huse := h.inUse hs
      have htwice : 2 ≤ (m.setMap n (m.map n + 1)).map n := by omega
      exact (h.addRef hs).link (by omega) ht (Nat.ne_of_gt (Nat.lt_of_lt_of_le Nat.two_pos htwice))
        (fun hs' => ⟨w.share_addr hs hs', htwice⟩) harg
    refine ⟨⟨hok, view_link hv hc, fun {v' e} he => ?_, .single ?_⟩, rfl, rfl⟩
    · rw [Space.link_pte, Function.update_of_ne fun e' => nomatch (e' ▸ he).symm.trans hv]
      exact he
    · have hb : Brings w tk m.rest _ := .shared hlim hv ht hs
      rw [rest_map_of_not harg] at hb
      rwa [← rest_update m ((m.setMap n (m.map n + 1)).link v ⟨n, false⟩) rfl rfl harg] at hb

/-- **A page fault** of the caller, before the point of no return. -/
theorem Brought.faulted (hb : Brought w tk m v m') (h : Ok w m) (htk : tk.Ok) (hlim : 4096 * v < tk.limit) (hv : m.pte v = none) :
    Faulted w tk m m' := by
  obtain ⟨m₁, ht, hp⟩ := hb
  have hf : Faulted w tk m m₁ := ht.faulted h (by omega)
  have hv₁ : m₁.pte v = none := by
    cases ht with
    | there => exact hv
    | made => exact hv
  have ht₁ : m₁.table (v / 1024) ≠ 0 := by
    cases ht with
    | there h => exact h
    | made _ _ hlow =>
      rw [Space.setTable_table, Function.update_self]
      exact World.ne_zero hlow
  exact hf.trans (hp.faulted hf.ok htk hlim hv₁ ht₁)

/-! ## Reading the caller's memory -/

/-- A page cannot be read in, or it can. -/
theorem absentByte_none (h : absentByte w tk m v n = none) (k : Nat) : absentByte w tk m v k = none := by
  unfold absentByte at h ⊢
  split at h
  · cases h
  · split at h
    · cases h
    · rename_i hlt
      rw [if_neg hlt]
      split at h
      · cases h
      · split at h
        · rename_i hbig
          rw [if_pos hbig]
        · cases h

/-- A byte of the caller's memory. -/
theorem userByte_ends {Q : UInt8 → Space → Prop} {a : Nat} (h : Ok w m) (htk : tk.Ok)
    (hbad : view w tk m a = none → ∀ e, E e) (hoom : m.pte (a / 4096) = none → E .oom)
    (hQ : ∀ b m', view w tk m a = some b → Faulted w tk m m' → Q b m') : Ends (userByte w tk a) E Q m := by
  have hin (hlt : a < tk.limit) : view w tk m a = pageByte w tk m (a / 4096) (a % 4096) := if_neg (Nat.not_le.2 hlt)
  refine Ends.bind (touch_ends htk.endData (fun hge => hbad (if_pos hge) _) ?_ hoom ?_ ?_)
  · intro e hlt he
    refine Ends.bind (Ends.get (Ends.pure (hQ _ m ?_ (.refl h))))
    rw [hin hlt, pageByte, he]
  · intro hlt hnone hk
    obtain ⟨k, hk⟩ := hk
    refine hbad ?_
    rw [hin hlt, pageByte, hnone]
    exact absentByte_none hk _
  · intro hlt hnone m' e hb he
    have hf := hb.faulted h htk (by omega) hnone
    refine Ends.bind (Ends.get (Ends.pure (hQ _ m' ?_ hf)))
    rw [← hf.view, view, if_neg (Nat.not_le.2 hlt), pageByte, he]

/-! ## The pages of the strings -/

/-- `page[i]`, got if there is none. -/
theorem argPage_ends (tk : Task) {Q : Nat → Space → Prop} (h : Ok w m) (hindex : 32 ≤ i → E (.index i))
    (hno : (∀ n, w.low ≤ n → n < 4096 → m.map n ≠ 0) → Q 0 m)
    (hgot : ∀ n m', i < 32 → n ≠ 0 → m'.page i = n → Quiet w tk m m' →
      (∀ x b, argBytes m x = some b → argBytes m' x = some b) → Q n m') : Ends (argPage w i) E Q m := by
  refine Ends.ite (fun hge => Ends.throw (hindex hge)) fun hlt => Ends.bind (Ends.get ?_)
  have hlt := Nat.not_le.1 hlt
  refine Ends.ite (fun h0 => Ends.pure (hgot _ m hlt h0 rfl (.refl h) fun _ _ hx => hx)) fun h0 =>
    Ends.bind (getFreePage_ends ?_ ?_)
  · have h0 := Decidable.not_not.1 h0
    have hsame : m.setPage i 0 = m := by
      rw [Space.setPage, ← h0, Function.update_eq_self]
    refine fun hfull => Ends.bind (Ends.modify (Ends.pure ?_))
    rw [hsame]
    exact hno hfull
  · intro n hfree hlow _
    have h0 := Decidable.not_not.1 h0
    have harg := h.not_arg hfree
    have hok : Ok w ((m.give n fun _ => 0).setPage i n) :=
      (h.give hfree _).setPage hlt (h.held hfree hlow _) harg
    refine Ends.bind (Ends.modify (Ends.pure (hgot n _ hlt (World.ne_zero hlow) (Function.update_self ..)
      ⟨hok, view_give h hfree _, id, ?_⟩ fun x b hx => ?_)))
    · -- the page was not in use, and is not counted among the rest now
      have hrest : ((m.give n fun _ => 0).setPage i n).rest = m.rest := by
        ext1
        · funext n'
          have hiff : ((m.give n fun _ => 0).setPage i n).Arg n' ↔ n' = n ∨ m.Arg n' := by
            constructor
            · intro ha
              obtain ⟨j, hj, hn'⟩ := ha
              rw [Space.setPage_page, Function.update_apply] at hj
              split at hj
              · exact .inl hj.symm
              · exact .inr ⟨j, hj, hn'⟩
            · intro ha
              rcases ha with rfl | ⟨j, hj, hn'⟩
              · exact ⟨i, Function.update_self .., World.ne_zero hlow⟩
              · have hne : j ≠ i := fun e => hn' (hj.symm.trans (e ▸ h0))
                exact ⟨j, (Function.update_of_ne hne ..).trans hj, hn'⟩
          by_cases ha : m.Arg n'
          · rw [rest_map_of_arg (hiff.2 (.inr ha)), rest_map_of_arg ha]
          · by_cases e : n' = n
            · rw [rest_map_of_arg (hiff.2 (.inl e)), rest_map_of_not ha, e, hfree]
            · rw [rest_map_of_not fun h' => (hiff.1 h').elim e ha, rest_map_of_not ha]
              exact Function.update_of_ne e ..
        · rfl
        · rfl
      rw [hrest]
    · have hx' : m.page (x / 4096) ≠ 0 := fun e => nomatch (if_pos e).symm.trans hx
      have hne : x / 4096 ≠ i := fun e => hx' (e ▸ h0)
      rw [← argBytes_give h hfree fun _ => 0] at hx
      rw [argBytes, Space.setPage_page, Function.update_of_ne hne]
      exact hx

/-- A byte stored in a page of `page[]`. -/
theorem quiet_store (h : Ok w m) (h0 : m.page i ≠ 0) (k : Nat) (b : UInt8) : Quiet w tk m (m.store (m.page i) k b) :=
  ⟨h.store _ k b, view_store (h.args h0).2 k b, id, .refl⟩

/-- `free_page` for some of `page[]`. -/
theorem freeArgs_ends {l : List Nat} {Q : Unit → Space → Prop} (hnodup : l.Nodup) (hzero : m.Used 0) (hhigh : 0 < w.high)
    (hcount : ∀ i ∈ l, m.page i ≠ 0 → m.map (m.page i) = 1 ∧ m.page i < w.high)
    (hdistinct : ∀ i ∈ l, ∀ j ∈ l, m.page i ≠ 0 → m.page i = m.page j → i = j)
    (hQ : ∀ m', m'.table = m.table → m'.pte = m.pte → m'.frame = m.frame → m'.page = m.page →
      (∀ n, m'.map n = if ∃ i ∈ l, m.page i = n ∧ n ≠ 0 then 0 else m.map n) → Q () m') : Ends (freeArgs w l) E Q m := by
  induction l generalizing m with
  | nil => exact Ends.pure (hQ m rfl rfl rfl rfl fun n => by simp)
  | cons i l ih =>
    obtain ⟨hi, hnodup⟩ := List.nodup_cons.1 hnodup
    refine Ends.bind (Ends.get (Ends.bind ?_))
    by_cases h0 : m.page i = 0
    · -- the kernel's own page 0
      have hfree : freePage w 0 m = .ok ((), m) := by
        rw [freePage, if_neg (Nat.not_le.2 hhigh), if_pos hzero]
      rw [h0, Ends, hfree]
      refine ih hnodup hzero (fun j hj => hcount j (List.mem_cons_of_mem _ hj))
        (fun j hj k hk => hdistinct j (List.mem_cons_of_mem _ hj) k (List.mem_cons_of_mem _ hk))
        fun m' ht hp hf hpg hm => hQ m' ht hp hf hpg fun n => ?_
      rw [hm n]
      refine if_congr ?_ rfl rfl
      simp only [List.mem_cons, exists_eq_or_imp]
      exact ⟨.inr, fun h => h.elim (fun h => absurd (h.1.symm.trans h0) h.2) id⟩
    · obtain ⟨hone, hlt⟩ := hcount i List.mem_cons_self h0
      have hused : ¬m.Used (m.page i) := by
        rw [Space.Used, hone]
        decide
      have hfree : freePage w (m.page i) m = .ok ((), m.setMap (m.page i) 0) := by
        rw [freePage, if_neg (Nat.not_le.2 hlt), if_neg hused, if_pos (by rw [hone]; decide), hone]
      have hne {j : Nat} (hj : j ∈ l) : m.page j ≠ 0 → m.page j ≠ m.page i := fun hj0 e =>
        hi (hdistinct j (List.mem_cons_of_mem _ hj) i List.mem_cons_self hj0 e ▸ hj)
      rw [Ends, hfree]
      refine ih (m := m.setMap (m.page i) 0) hnodup ?_ (fun j hj hj0 => ?_)
        (fun j hj k hk => hdistinct j (List.mem_cons_of_mem _ hj) k (List.mem_cons_of_mem _ hk))
        fun m' ht hp hf hpg hm => hQ m' ht hp hf hpg fun n => ?_
      · rw [Space.Used, Space.setMap_map, Function.update_of_ne (Ne.symm h0)]
        exact hzero
      · obtain ⟨hj1, hjlt⟩ := hcount j (List.mem_cons_of_mem _ hj) hj0
        exact ⟨(Function.update_of_ne (hne hj hj0) ..).trans hj1, hjlt⟩
      · rw [hm n]
        by_cases hn : m.page i = n
        · rw [if_pos (c := ∃ j ∈ i :: l, _) ⟨i, List.mem_cons_self, hn, hn ▸ h0⟩, Space.setMap_map, hn, Function.update_self]
          split <;> rfl
        · rw [Space.setMap_map, Function.update_of_ne (Ne.symm hn)]
          refine if_congr ?_ rfl rfl
          simp only [List.mem_cons, exists_eq_or_imp]
          exact ⟨.inr, fun h => h.elim (fun h => absurd h.1 hn) id⟩

/-- **The cleanup of `exec_error1`**: what is left is what the page faults have done. -/
theorem Ok.freeArgs_ends {Q : Unit → Space → Prop} (h : Ok w m)
    (hQ : ∀ m', m'.maps = m.rest → m'.frame = m.frame → m'.page = m.page → Q () m') : Ends (freeArgs w (List.range 32)) E Q m := by
  have hhigh : 0 < w.high := by
    obtain ⟨i, -, hi⟩ := h.runs
    have := (h.table hi).2.2.1
    omega
  refine Execve.freeArgs_ends List.nodup_range h.zero hhigh (fun i _ hi => ⟨(h.args hi).2.count, (h.args hi).2.high⟩)
    (fun i _ j _ => h.distinct) fun m' ht hp hf hpg hm => hQ m' ?_ hf hpg
  ext1
  · funext n
    refine (hm n).trans ?_
    by_cases ha : m.Arg n
    · obtain ⟨i, hi, h0⟩ := ha
      rw [rest_map_of_arg ⟨i, hi, h0⟩, if_pos ⟨i, List.mem_range.2 (h.args (hi ▸ h0)).1, hi, h0⟩]
    · have hno : ¬∃ i ∈ List.range 32, m.page i = n ∧ n ≠ 0 := fun hex => by
        obtain ⟨i, -, hi⟩ := hex
        exact ha ⟨i, hi⟩
      rw [rest_map_of_not ha, if_neg hno]
  · exact ht
  · exact hp

end Linux011.Fs.Execve
