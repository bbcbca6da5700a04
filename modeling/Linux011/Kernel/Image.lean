/-
Executables: the checks `do_execve` makes on a header, and the pages
`do_no_page` reads in from the file.

The sums of the checks have 32 bits. A header whose sizes wrap around passes
them, and the end of its data can be anywhere: `do_no_page` then asks `_bmap`
for blocks no file has, or clears more than the page. With sums that do not
wrap, the page is the part of the file behind the header block, and zero from
`end_data` on. `State.loaded` has it so.
-/
import Linux011.Kernel.Private
import Linux011.Fs.File

namespace Linux011.Kernel.Image

open Mm Fs

/-! ## The header -/

/-- `struct exec`. -/
structure Header where
  magic : BitVec 32
  text : BitVec 32
  data : BitVec 32
  bss : BitVec 32
  syms : BitVec 32
  entry : BitVec 32
  trsize : BitVec 32
  drsize : BitVec 32

namespace Header

/-- `ZMAGIC`. -/
def zmagic : BitVec 32 := 0o413

/-- `N_TXTOFF`, with `SEGMENT_SIZE` 1024. -/
def txtOff (ex : Header) : BitVec 32 := if ex.magic = zmagic then 1024 - 32 + 32 else 32

/-- The checks of `do_execve`. -/
def accepted (ex : Header) (size : BitVec 32) : Bool :=
  !(ex.magic != zmagic || ex.trsize != 0 || ex.drsize != 0 || decide (16777216 < ex.text + ex.data + ex.bss) ||
      decide (size < ex.text + ex.data + ex.syms + ex.txtOff)) &&
    ex.txtOff == 1024

/-- What `do_execve` sets of the task: `end_code`, `end_data` and `brk`. -/
def endCode (ex : Header) : BitVec 32 := ex.text
def endData (ex : Header) : BitVec 32 := ex.data + ex.endCode
def brk (ex : Header) : BitVec 32 := ex.bss + ex.endData

/-- The sums of the checks have room in 32 bits. -/
def noWrap (ex : Header) : Prop :=
  ex.text.toNat + ex.data.toNat + ex.bss.toNat < 4294967296 ∧
    ex.text.toNat + ex.data.toNat + ex.syms.toNat + 1024 < 4294967296

instance (ex : Header) : Decidable ex.noWrap := inferInstanceAs (Decidable (_ ∧ _))

end Header

/-! ## A page fault -/

/-- What `do_no_page` reads of `current`. -/
structure Current (I : Type*) where
  cr3 : Nat
  startCode : BitVec 32
  endData : BitVec 32
  executable : Option I

inductive Stop
  | bmap (text : String)
  | mem (p : Panic)

section Code

variable {I : Type*} [DecidableEq I]

/-- The four calls of `bmap`, from `block` on. -/
def bmaps (ok : Nat → Bool) (i : I) : Nat → Disk I → Int → Except String (Disk I × List Nat)
  | 0, d, _ => .ok (d, [])
  | n + 1, d, block =>
    match mapBlock ok false d i block with
    | .error e => .error e
    | .ok (d, z) =>
      match bmaps ok i n d (block + 1) with
      | .error e => .error e
      | .ok (d, nr) => .ok (d, z :: nr)

/-- A `long` of a block. -/
def blockLong (d : Disk I) (z k : Nat) : Nat :=
  d.byte z (4 * k) + 256 * d.byte z (4 * k + 1) + 65536 * d.byte z (4 * k + 2) + 16777216 * d.byte z (4 * k + 3)

/-- `COPYBLK`, to the `i`-th quarter of a page. -/
def copyBlk (m : Mem) (page i : Nat) (w : Nat → Nat) : Mem :=
  { m with word := fun f k => if f = page ∧ k / 256 = i then w (k % 256) else m.word f k }

/-- The second loop of `bread_page`, from the `i`-th block on. -/
def breadPage (ok : Nat → Bool) (d : Disk I) (page : Nat) : Nat → List Nat → Mem → Mem
  | _, [], m => m
  | i, z :: nr, m =>
    breadPage ok d page (i + 1) nr (if z ≠ 0 ∧ ok z = true then copyBlk m page i (blockLong d z) else m)

/-- A byte stored at a physical address. -/
def storePhys (m : Mem) (x b : Nat) : Mem :=
  m.set (x / 4096) (x % 4096 / 4) (State.setByte (m.word (x / 4096) (x % 4096 / 4)) (x % 4) b)

/-- `while (i-- > 0) { tmp--; *(char *)tmp = 0; }` -/
def clearBelow : Nat → BitVec 32 → Mem → Mem
  | 0, _, m => m
  | n + 1, tmp, m => clearBelow n (tmp - 1) (storePhys m (tmp - 1).toNat 0)

/-- `do_no_page` from `get_free_page` on. -/
def slowPath (ok : Nat → Bool) (d : Disk I) (i : I) (tk : Current I) (m : Mem) (address tmp : BitVec 32) :
    Except Stop (Disk I × Mem.Outcome) :=
  match m.getFreePage with
  | none => .ok (d, .oom m)
  | some (page, m) =>
    match bmaps ok i 4 d (1 + tmp.toNat / 1024) with
    | .error e => .error (.bmap e)
    | .ok (d, nr) =>
      let m := breadPage ok d page 0 nr m
      let m := clearBelow (tmp + 4096 - tk.endData).toInt.toNat (BitVec.ofNat 32 (page * 4096) + 4096) m
      match m.putPage tk.cr3 page address.toNat with
      | some m => .ok (d, .done m)
      | none =>
        match m.freePage page with
        | .error p => .error (.mem p)
        | .ok m => .ok (d, .oom m)

def emptyPage (d : Disk I) (tk : Current I) (m : Mem) (address : BitVec 32) : Except Stop (Disk I × Mem.Outcome) :=
  match m.getEmptyPage tk.cr3 address.toNat with
  | .error p => .error (.mem p)
  | .ok r => .ok (d, r)

/-- `do_no_page`, with what `share_page` comes to. -/
def doNoPage (sharePage : BitVec 32 → Except Panic (Mem × Bool)) (ok : Nat → Bool) (d : Disk I) (tk : Current I) (m : Mem)
    (address : BitVec 32) : Except Stop (Disk I × Mem.Outcome) :=
  let address := address &&& 0xfffff000#32
  let tmp := address - tk.startCode
  match tk.executable with
  | none => emptyPage d tk m address
  | some i =>
    if tk.endData ≤ tmp then emptyPage d tk m address
    else
      match sharePage tmp with
      | .error p => .error (.mem p)
      | .ok (m, true) => .ok (d, .done m)
      | .ok (m, false) => slowPath ok d i tk m address tmp

end Code

/-! ## Sizes -/

namespace Header

variable {ex : Header} {size : BitVec 32}

theorem accepted_magic (h : ex.accepted size = true) : ex.txtOff = 1024 := by
  rw [accepted, Bool.and_eq_true] at h
  exact eq_of_beq h.2

/-- The two sums are those of the numbers, if they do not wrap. -/
theorem accepted_sizes (h : ex.accepted size = true) (hw : ex.noWrap) :
    ex.text.toNat + ex.data.toNat + ex.bss.toNat ≤ 16777216 ∧
      1024 + ex.text.toNat + ex.data.toNat + ex.syms.toNat ≤ size.toNat := by
  have htxt := accepted_magic h
  obtain ⟨hw₁, hw₂⟩ := hw
  simp only [accepted, Bool.and_eq_true, Bool.not_eq_true', Bool.or_eq_false_iff, decide_eq_false_iff_not, BitVec.not_lt] at h
  obtain ⟨⟨⟨_, hsum⟩, hsize⟩, _⟩ := h
  rw [BitVec.le_def, BitVec.toNat_add, BitVec.toNat_add] at hsum
  rw [htxt, BitVec.le_def, BitVec.toNat_add, BitVec.toNat_add, BitVec.toNat_add] at hsize
  have h1 : (16777216 : BitVec 32).toNat = 16777216 := rfl
  have h2 : (1024 : BitVec 32).toNat = 1024 := rfl
  omega

theorem endData_toNat (hw : ex.noWrap) : ex.endData.toNat = ex.text.toNat + ex.data.toNat := by
  have h := hw.1
  rw [endData, endCode, BitVec.toNat_add]
  omega

theorem brk_toNat (hw : ex.noWrap) : ex.brk.toNat = ex.text.toNat + ex.data.toNat + ex.bss.toNat := by
  have h := hw.1
  rw [brk, BitVec.toNat_add, endData_toNat hw]
  omega

/-- A task that runs the executable `i` with this header. -/
def current {I : Type*} (ex : Header) (cr3 : Nat) (i : I) : Current I :=
  { cr3 := cr3, startCode := 0, endData := ex.endData, executable := some i }

end Header

/-! ## The blocks -/

section Blocks

variable {I : Type*} [DecidableEq I] {ok : Nat → Bool} {d : Disk I} {i : I}

/-- The panics of `_bmap` on a number. -/
def offBlock (e : String) : Prop := e = "_bmap: block<0" ∨ e = "_bmap: block>big"

theorem mapBlock_inside {create : Bool} {block : Int} (h0 : 0 ≤ block) (hb : block < maxBlock) {e : String}
    (he : mapBlock ok create d i block = .error e) : ¬offBlock e := by
  rw [mapBlock, if_neg (by omega), if_neg (by omega)] at he
  split at he
  · cases he
  · cases he
    unfold offBlock
    decide

theorem bmaps_inside {n : Nat} {block : Int} (h0 : 0 ≤ block) (hb : block + n ≤ maxBlock) {e : String}
    (he : bmaps ok i n d block = .error e) : ¬offBlock e := by
  induction n generalizing d block with
  | zero => cases he
  | succ n ih =>
    rw [bmaps] at he
    split at he
    · rename_i hm
      cases he
      exact mapBlock_inside h0 (by omega) hm
    · split at he
      · rename_i hm
        cases he
        exact ih (by omega) (by omega) hm
      · cases he

/-- Blocks that a file can have. -/
theorem doNoPage_inside {sharePage : BitVec 32 → Except Panic (Mem × Bool)} {tk : Current I} {m : Mem} {address : BitVec 32}
    (hend : tk.endData.toNat ≤ 16777216) {e : String}
    (he : doNoPage sharePage ok d tk m address = .error (.bmap e)) : ¬offBlock e := by
  have hempty (a : BitVec 32) : emptyPage d tk m a ≠ .error (.bmap e) := by
    unfold emptyPage
    split <;> simp
  simp only [doNoPage] at he
  split at he
  · exact absurd he (hempty _)
  · split at he
    · exact absurd he (hempty _)
    · rename_i htmp
      rw [BitVec.not_le, BitVec.lt_def] at htmp
      split at he
      · cases he
      · cases he
      · simp only [slowPath] at he
        split at he
        · cases he
        · split at he
          · rename_i hb
            cases he
            have hmax : (maxBlock : Int) = 262663 := rfl
            exact bmaps_inside (by omega) (by omega) hb
          · split at he
            · cases he
            · split at he <;> cases he

end Blocks

/-! ## The page -/

section Page

variable {I : Type*} [DecidableEq I] {ok : Nat → Bool} {d : Disk I} {i : I}

omit [DecidableEq I] in
theorem descend_read (hok : ∀ b, ok b = true) (l : Loc I) (rest : List Nat) :
    descend ok false d (d.trees.val l) rest = some (d, d.trees.walk l rest) := by
  induction rest generalizing l with
  | nil => rfl
  | cons w rest ih =>
    rw [descend, Trees.walk]
    split
    · rfl
    · have hslot : blockSlotIo ok false d (d.trees.val l) w = some (d, d.trees.val (.blk (d.trees.val l) w)) := by
        rw [blockSlotIo, hok, if_pos rfl, blockSlot, Bool.false_and, if_neg Bool.false_ne_true, Disk.brelse_of_hold rfl]
        rfl
      rw [hslot, Option.bind_some]
      exact ih (.blk (d.trees.val l) w)

/-- `bmap` without I/O errors, on any tree of zones. -/
theorem mapBlock_read (hok : ∀ b, ok b = true) {block : Int} (h0 : 0 ≤ block) (hb : block < maxBlock) :
    mapBlock ok false d i block = .ok (d, d.trees.bmap i block.toNat) := by
  have hn : block.toNat < maxBlock := by omega
  have hslot : inodeSlot false d i (path block.toNat).1 = some (d, d.trees.val (.ino i (path block.toNat).1)) := rfl
  rw [mapBlock, if_neg (by omega), if_neg (by omega), bmapCreateIo_eq ok false d i hn, hslot, Option.bind_some,
    descend_read hok]
  rfl

theorem bmaps_read (hok : ∀ b, ok b = true) (n : Nat) {block : Nat} (hb : block + n ≤ maxBlock) :
    bmaps ok i n d block = .ok (d, (List.range' block n).map (d.trees.bmap i)) := by
  induction n generalizing block with
  | zero => rfl
  | succ n ih =>
    rw [bmaps, mapBlock_read hok (by omega) (by omega)]
    simp only
    rw [show (block : Int) + 1 = (block + 1 : Nat) from rfl, ih (by omega)]
    rfl

omit [DecidableEq I] in
theorem getByte_blockLong (d : Disk I) (z k : Nat) {j : Nat} (hj : j < 4) :
    State.getByte (blockLong d z k) j = d.byte z (4 * k + j) := by
  have hb (c : Nat) : d.byte z c < 256 := Nat.mod_lt _ (by decide)
  have h0 := hb (4 * k)
  have h1 := hb (4 * k + 1)
  have h2 := hb (4 * k + 2)
  have h3 := hb (4 * k + 3)
  unfold State.getByte blockLong
  interval_cases j <;> norm_num <;> omega

omit [DecidableEq I] in
theorem breadPage_other (ok : Nat → Bool) (d : Disk I) (page n : Nat) (nr : List Nat) (m : Mem) :
    (breadPage ok d page n nr m).low = m.low ∧ (breadPage ok d page n nr m).high = m.high ∧
      (breadPage ok d page n nr m).map = m.map ∧
      ∀ f k, f ≠ page → (breadPage ok d page n nr m).word f k = m.word f k := by
  induction nr generalizing n m with
  | nil => exact ⟨rfl, rfl, rfl, fun _ _ _ => rfl⟩
  | cons z nr ih =>
    rw [breadPage]
    obtain ⟨hl, hh, hm, hw⟩ := ih (n + 1) (if z ≠ 0 ∧ ok z = true then copyBlk m page n (blockLong d z) else m)
    refine ⟨hl.trans ?_, hh.trans ?_, hm.trans ?_, fun f k hf => (hw f k hf).trans ?_⟩
    · split <;> rfl
    · split <;> rfl
    · split <;> rfl
    · split
      · exact if_neg fun h => hf h.1
      · rfl

omit [DecidableEq I] in
/-- The words of the page: the quarter of a block that is there has its words. -/
theorem breadPage_word (hok : ∀ b, ok b = true) (d : Disk I) (page n : Nat) (nr : List Nat) (m : Mem) (k : Nat) :
    (breadPage ok d page n nr m).word page k =
      if k / 256 < n ∨ nr.getD (k / 256 - n) 0 = 0 then m.word page k
      else blockLong d (nr.getD (k / 256 - n) 0) (k % 256) := by
  induction nr generalizing n m with
  | nil => simp [breadPage]
  | cons z nr ih =>
    rw [breadPage, ih]
    have hone : (if z ≠ 0 ∧ ok z = true then copyBlk m page n (blockLong d z) else m).word page k =
        if k / 256 = n ∧ z ≠ 0 then blockLong d z (k % 256) else m.word page k := by
      by_cases hz : z = 0
      · rw [if_neg fun h => h.1 hz, if_neg fun h => h.2 hz]
      · rw [if_pos ⟨hz, hok z⟩]
        by_cases hk : k / 256 = n
        · exact (if_pos ⟨rfl, hk⟩).trans (if_pos ⟨hk, hz⟩).symm
        · exact (if_neg fun h => hk h.2).trans (if_neg fun h => hk h.1).symm
    rw [hone]
    rcases Nat.lt_trichotomy (k / 256) n with hlt | heq | hgt
    · rw [if_pos (Or.inl (Nat.lt_succ_of_lt hlt)), if_pos (Or.inl hlt), if_neg fun h => Nat.ne_of_lt hlt h.1]
    · rw [heq, if_pos (Or.inl (Nat.lt_succ_self n)), Nat.sub_self, List.getD_cons_zero]
      by_cases hz : z = 0
      · rw [if_neg fun h => h.2 hz, if_pos (Or.inr hz)]
      · rw [if_pos ⟨rfl, hz⟩, if_neg fun h => h.elim (Nat.lt_irrefl n) hz]
    · have hsub : k / 256 - n = k / 256 - (n + 1) + 1 := by omega
      have hmid : (if k / 256 = n ∧ z ≠ 0 then blockLong d z (k % 256) else m.word page k) = m.word page k :=
        if_neg fun h => Nat.ne_of_gt hgt h.1
      rw [hmid, hsub, List.getD_cons_succ]
      by_cases hz : nr.getD (k / 256 - (n + 1)) 0 = 0
      · rw [if_pos (Or.inr hz), if_pos (Or.inr hz)]
      · rw [if_neg fun h => h.elim (fun h => by omega) hz, if_neg fun h => h.elim (fun h => by omega) hz]

/-- A byte of physical memory. -/
def pbyte (m : Mem) (x : Nat) : Nat := kbyte m (x / 4096) (x % 4096)

theorem pbyte_page (m : Mem) (page : Nat) {o : Nat} (ho : o < 4096) : pbyte m (page * 4096 + o) = kbyte m page o := by
  rw [pbyte, show (page * 4096 + o) / 4096 = page by omega, show (page * 4096 + o) % 4096 = o by omega]

theorem pbyte_storePhys (m : Mem) (x y b : Nat) : pbyte (storePhys m y b) x = if x = y then b % 256 else pbyte m x := by
  unfold pbyte kbyte storePhys
  rw [Mem.set_word]
  by_cases hw : x / 4096 = y / 4096 ∧ x % 4096 / 4 = y % 4096 / 4
  · rw [if_pos hw, State.getByte_setByte _ _ (by omega) (by omega), hw.1, hw.2]
    congr 1
    exact propext ⟨fun h => by omega, fun h => by omega⟩
  · have hne : x ≠ y := fun e => hw (e ▸ ⟨rfl, rfl⟩)
    rw [if_neg hw, if_neg hne]

theorem pred_toNat {x : BitVec 32} (h : 0 < x.toNat) : (x - 1).toNat = x.toNat - 1 := by
  rw [BitVec.toNat_sub_of_le (by rw [BitVec.le_def]; exact h)]
  rfl

theorem clearBelow_pbyte (m : Mem) {n : Nat} {tmp : BitVec 32} (hn : n ≤ tmp.toNat) (x : Nat) :
    pbyte (clearBelow n tmp m) x = if tmp.toNat - n ≤ x ∧ x < tmp.toNat then 0 else pbyte m x := by
  induction n generalizing tmp m with
  | zero => rw [clearBelow, if_neg (by omega)]
  | succ n ih =>
    have hpred := pred_toNat (x := tmp) (by omega)
    rw [clearBelow, ih _ (by omega), hpred, pbyte_storePhys]
    by_cases hx : x = tmp.toNat - 1
    · rw [if_neg (by omega), if_pos hx, if_pos (by omega)]
    · rw [if_neg hx]
      congr 1
      exact propext ⟨fun h => by omega, fun h => by omega⟩

/-- What the loop leaves alone. -/
theorem clearBelow_other (m : Mem) (tmp : BitVec 32) {n : Nat} (hn : n ≤ tmp.toNat) :
    (clearBelow n tmp m).low = m.low ∧ (clearBelow n tmp m).high = m.high ∧ (clearBelow n tmp m).map = m.map ∧
      ∀ f k, f * 4096 + 4096 ≤ tmp.toNat - n ∨ tmp.toNat ≤ f * 4096 → (clearBelow n tmp m).word f k = m.word f k := by
  induction n generalizing tmp m with
  | zero => exact ⟨rfl, rfl, rfl, fun _ _ _ => rfl⟩
  | succ n ih =>
    have hpred := pred_toNat (x := tmp) (by omega)
    obtain ⟨hl, hh, hm, hw⟩ := ih (storePhys m (tmp - 1).toNat 0) (tmp - 1) (by omega)
    refine ⟨hl, hh, hm, fun f k hf => (hw f k (by omega)).trans (if_neg fun h => ?_)⟩
    omega

end Page

/-- The frames of the directory `cr3` and its tables are in use and are not each other, and the frames `get_free_page` can give
are not the kernel's own. -/
structure Separate (m : Mem) (cr3 : Nat) : Prop where
  low : 4 < m.low
  high : m.low ≤ m.high
  first : m.Used 0
  managed : ∀ n, m.map n = 0 → n < 4096 → m.Managed n
  dir : m.low ≤ cr3 ∧ m.map cr3 ≠ 0
  tables : ∀ i < 1024, Present (m.word cr3 i) → frame (m.word cr3 i) ≠ cr3 ∧ m.map (frame (m.word cr3 i)) ≠ 0

/-- It is so for every task with a directory of its own, in every state the kernel reaches. -/
theorem separate_of_reachable {b : Boot} {file : Nat → Nat → Fin 256} {k : State} {t : Fin 64} {tk : Task}
    (hr : Run.Reaches State.Step (State.boot b file) k) (ht : t ≠ 0) (hk : k.task t = some tk) (hc : tk.cr3 ≠ 0) :
    Separate k.mem tk.cr3 := by
  obtain ⟨lost, hinv⟩ := reachable_inv hr
  have h := hinv.mem
  have hlow := h.low_ge
  have hd : (roots k.task lost).dir t = some tk.cr3 := roots_dir ht hk hc
  have hman := h.dir_managed hd
  refine ⟨by omega, h.low_le, (h.used_iff 0).2 (h.not_managed_lt (by decide)), fun n h0 _ => ?_, ⟨hman.1, ?_⟩,
    fun i hi hp => ?_⟩
  · by_contra hm
    rw [h.map_used n hm] at h0
    cases h0
  · exact Nat.ne_of_gt (h.map_pos hman (r := .cr3 t) hd)
  · by_cases hi' : i < 768
    · have he : pde k.mem (roots k.task lost) t i = k.mem.word tk.cr3 i := by simp only [pde, hd]
      rw [← he] at hp ⊢
      refine ⟨fun e => h.table_ne_dir hi' hp t (hd.trans (congrArg some e.symm)), ?_⟩
      exact Nat.ne_of_gt (h.map_pos (h.table_managed hi' hp) (r := .pde t ⟨i, hi'⟩) (ent_of_present hp))
    · -- the kernel's own tables are not managed
      rcases h.kern t tk.cr3 hd i (by omega) hi with he | he
      · rw [he] at hp ⊢
        rcases h.swap.kern i (by omega) hi with h0 | ⟨-, h4⟩
        · rw [h0] at hp
          exact absurd hp not_present_zero
        · have hun := h.not_managed_lt (n := frame (k.mem.word 0 i)) (by omega)
          rw [h.map_used _ hun]
          exact ⟨fun e => hun (e ▸ hman), by decide⟩
      · rw [he] at hp
        exact absurd hp not_present_zero

theorem getFreePage_lt {m m' : Mem} {n : Nat} (h : m.getFreePage = some (n, m')) : m.low ≤ n ∧ n < 4096 := by
  unfold Mem.getFreePage at h
  obtain ⟨i, hi, he⟩ := Option.map_eq_some_iff.1 h
  cases he
  have hmem := List.mem_of_find?_eq_some hi
  rw [List.mem_range'] at hmem
  obtain ⟨j, hj, he⟩ := hmem
  omega

/-- `put_page` on a page that is no table: the page is mapped, with the words it has. -/
theorem putPage_spec {m m' : Mem} {cr3 page a : Nat} (hlow : 4 < m.low) (hpage : m.low ≤ page ∧ m.map page ≠ 0)
    (hdir : m.low ≤ cr3 ∧ m.map cr3 ≠ 0) (hne : cr3 ≠ page)
    (htab : Present (m.word cr3 (Mem.dirIx a)) →
      frame (m.word cr3 (Mem.dirIx a)) ≠ cr3 ∧ frame (m.word cr3 (Mem.dirIx a)) ≠ page)
    (h : m.putPage cr3 page a = some m') :
    m'.walk cr3 (Mem.dirIx a) (Mem.tabIx a) = entry page 103 ∧ ∀ k, m'.word page k = m.word page k := by
  simp only [Mem.putPage] at h
  split at h
  · rename_i hp
    obtain ⟨hc, hg⟩ := htab hp
    cases h
    refine ⟨?_, fun k => if_neg fun e => hg e.1.symm⟩
    have hsame : (m.set (frame (m.word cr3 (Mem.dirIx a))) (Mem.tabIx a) (entry page 103)).word cr3 (Mem.dirIx a) =
        m.word cr3 (Mem.dirIx a) := if_neg fun e => hc e.1.symm
    rw [Mem.walk, hsame, if_pos hp, Mem.set_word_self]
  · split at h
    · cases h
    · rename_i t m₁ hg
      obtain ⟨hmap, rfl⟩ := Mem.getFreePage_some hg
      have ht := getFreePage_lt hg
      cases h
      have htc : cr3 ≠ t := fun e => hdir.2 (e ▸ hmap)
      have htp : page ≠ t := fun e => hpage.2 (e ▸ hmap)
      have hsame : (((m.claim t).set cr3 (Mem.dirIx a) (entry t 39)).set t (Mem.tabIx a) (entry page 103)).word cr3
          (Mem.dirIx a) = entry t 39 := by
        rw [Mem.set_word, if_neg fun e => htc e.1, Mem.set_word_self]
      refine ⟨?_, fun k => ?_⟩
      · rw [Mem.walk, hsame, if_pos (present_entry.2 (by decide)), frame_entry (by decide), Mem.set_word_self]
      · rw [Mem.set_word, if_neg fun e => htp e.1, Mem.set_word, if_neg fun e => hne e.1.symm]
        have hk : page ≠ 1 + t / 1024 := by omega
        exact (if_neg htp).trans (if_neg fun e => hk e.1)

section Load

variable {I : Type*} [DecidableEq I] {ok : Nat → Bool} {d : Disk I} {i : I}

omit [DecidableEq I] in
theorem breadPage_fileByte (hok : ∀ b, ok b = true) (m : Mem) (page : Nat) {tmp : Nat} (htmp : tmp % 4096 = 0) {o : Nat}
    (ho : o < 4096) :
    kbyte (breadPage ok d page 0 ((List.range' (1 + tmp / 1024) 4).map (d.trees.bmap i)) (m.claim page)) page o =
      d.fileByte i (1024 + tmp + o) := by
  have hget : ((List.range' (1 + tmp / 1024) 4).map (d.trees.bmap i)).getD (o / 4 / 256) 0 =
      d.trees.bmap i ((1024 + tmp + o) / 1024) := by
    have hlt : o / 4 / 256 < 4 := by omega
    rw [List.getD_eq_getElem?_getD, List.getElem?_map, List.getElem?_range' hlt, Option.map_some, Option.getD_some,
      show 1 + tmp / 1024 + 1 * (o / 4 / 256) = (1024 + tmp + o) / 1024 by omega]
  have hclaim : (m.claim page).word page (o / 4) = 0 := if_pos rfl
  rw [kbyte, breadPage_word hok, Nat.sub_zero, hget, hclaim, Disk.fileByte]
  by_cases hz : d.trees.bmap i ((1024 + tmp + o) / 1024) = 0
  · rw [if_pos (Or.inr hz), if_pos hz]
    unfold State.getByte
    rw [Nat.zero_div, Nat.zero_mod]
  · rw [if_neg fun h => h.elim (Nat.not_lt_zero _) hz, if_neg hz, getByte_blockLong _ _ _ (by omega),
      show 4 * (o / 4 % 256) + o % 4 = (1024 + tmp + o) % 1024 by omega]

/-- At most one page is free. -/
def Scarce (m : Mem) : Prop :=
  ∀ n n', m.low ≤ n → n < 4096 → m.low ≤ n' → n' < 4096 → m.map n = 0 → m.map n' = 0 → n = n'

/-- How many bytes `do_no_page` clears. -/
def cleared (tmp endData : BitVec 32) : Nat := (tmp + 4096 - endData).toInt.toNat

/-- The memory before `put_page`. -/
def pageRead (ok : Nat → Bool) (d : Disk I) (i : I) (page : Nat) (tmp endData : BitVec 32) (m : Mem) : Mem :=
  clearBelow (cleared tmp endData) (BitVec.ofNat 32 (page * 4096) + 4096)
    (breadPage ok d page 0 ((List.range' (1 + tmp.toNat / 1024) 4).map (d.trees.bmap i)) (m.claim page))

/-- The address behind the page. -/
theorem pageEnd_toNat {page : Nat} (h : page < 4096) : (BitVec.ofNat 32 (page * 4096) + 4096).toNat = page * 4096 + 4096 := by
  have h2 : (4096 : BitVec 32).toNat = 4096 := rfl
  rw [BitVec.toNat_add, BitVec.toNat_ofNat, h2]
  omega

omit [DecidableEq I] in
/-- The page holds a part of the file, and zeros behind it. -/
theorem pageRead_kbyte (hok : ∀ b, ok b = true) (m : Mem) {page : Nat} (hpage : page < 4096) {tmp : BitVec 32}
    (htmp : tmp.toNat % 4096 = 0) {endData : BitVec 32} (hn : cleared tmp endData ≤ page * 4096 + 4096) {o : Nat}
    (ho : o < 4096) :
    kbyte (pageRead ok d i page tmp endData m) page o =
      if 4096 ≤ o + cleared tmp endData then 0 else d.fileByte i (1024 + tmp.toNat + o) := by
  have hend := pageEnd_toNat hpage
  rw [pageRead, ← pbyte_page _ _ ho, clearBelow_pbyte _ (by omega), pbyte_page _ _ ho, breadPage_fileByte hok m page htmp ho, hend]
  exact if_congr ⟨fun h => by omega, fun h => by omega⟩ rfl rfl

omit [DecidableEq I] in
/-- The rest of memory, from the page on. -/
theorem pageRead_other (ok : Nat → Bool) (d : Disk I) (i : I) (m : Mem) (page : Nat) (hpage : page < 4096)
    (tmp endData : BitVec 32) (hn : cleared tmp endData ≤ page * 4096 + 4096) :
    (pageRead ok d i page tmp endData m).low = m.low ∧ (pageRead ok d i page tmp endData m).high = m.high ∧
      (pageRead ok d i page tmp endData m).map = Function.update m.map page 1 ∧
      ∀ f k, f ≠ page → cleared tmp endData ≤ 4096 ∨ page < f →
        (pageRead ok d i page tmp endData m).word f k = (m.claim page).word f k := by
  have hend := pageEnd_toNat hpage
  unfold pageRead
  obtain ⟨hl, hh, hm, hw⟩ := breadPage_other ok d page 0 ((List.range' (1 + tmp.toNat / 1024) 4).map (d.trees.bmap i)) (m.claim page)
  obtain ⟨hl', hh', hm', hw'⟩ := clearBelow_other
    (breadPage ok d page 0 ((List.range' (1 + tmp.toNat / 1024) 4).map (d.trees.bmap i)) (m.claim page))
    (BitVec.ofNat 32 (page * 4096) + 4096) (n := cleared tmp endData) (by omega)
  exact ⟨hl'.trans hl, hh'.trans hh, hm'.trans hm, fun f k hf h => (hw' f k (by omega)).trans (hw f k hf)⟩

/-- A word of a frame above the kernel's own tables. -/
theorem claim_word_of_low {m : Mem} {page f : Nat} (hpage : page < 4096) (hf : f ≠ page) (h4 : 4 < f) (k : Nat) :
    (m.claim page).word f k = m.word f k := by
  have hk : f ≠ 1 + page / 1024 := by omega
  exact (if_neg hf).trans (if_neg fun e => hk e.1)

theorem slowPath_eq (hok : ∀ b, ok b = true) (tk : Current I) {m m₁ : Mem} {page : Nat}
    (hfree : m.getFreePage = some (page, m₁)) (address : BitVec 32) {tmp : BitVec 32}
    (hmax : 1 + tmp.toNat / 1024 + 4 ≤ maxBlock) :
    slowPath ok d i tk m address tmp =
      match (pageRead ok d i page tmp tk.endData m).putPage tk.cr3 page address.toNat with
      | some m => .ok (d, .done m)
      | none =>
        match (pageRead ok d i page tmp tk.endData m).freePage page with
        | .error p => .error (.mem p)
        | .ok m => .ok (d, .oom m) := by
  obtain ⟨-, rfl⟩ := Mem.getFreePage_some hfree
  have hread := bmaps_read (d := d) (i := i) hok 4 hmax
  rw [Int.natCast_add, Int.natCast_div] at hread
  rw [slowPath, hfree]
  simp only
  rw [show (1 : Int) + tmp.toNat / 1024 = ((1 : Nat) : Int) + (tmp.toNat : Int) / ((1024 : Nat) : Int) from rfl, hread]
  simp only [pageRead, cleared]

/-- The page is claimed, and the directory is what it was. -/
structure Claimed (m : Mem) (cr3 page : Nat) (m' : Mem) : Prop where
  low : m'.low = m.low
  high : m'.high = m.high
  map : m'.map = Function.update m.map page 1
  dir : ∀ k, m'.word cr3 k = m.word cr3 k

/-- The end of a fault: the page is mapped, or there was no page for a table. -/
theorem Claimed.putPage {m m₁ m' : Mem} {cr3 page : Nat} (h : Claimed m cr3 page m') (hsep : Separate m cr3)
    (hfree : m.getFreePage = some (page, m₁)) (address : BitVec 32) :
    (∃ m'', m'.putPage cr3 page address.toNat = some m'' ∧
      m''.walk cr3 (Mem.dirIx address.toNat) (Mem.tabIx address.toNat) = entry page 103 ∧
      ∀ k, m''.word page k = m'.word page k) ∨
    m'.putPage cr3 page address.toNat = none ∧ (∃ m'', m'.freePage page = .ok m'') ∧ Scarce m := by
  obtain ⟨hmap, -⟩ := Mem.getFreePage_some hfree
  obtain ⟨hlow, hlt⟩ := getFreePage_lt hfree
  have hne : cr3 ≠ page := fun e => hsep.dir.2 (e ▸ hmap)
  have hone : m'.map page = 1 := by rw [h.map, Function.update_self]
  cases hput : m'.putPage cr3 page address.toNat with
  | some m'' =>
    have hix : Mem.dirIx address.toNat < 1024 := by
      have := address.isLt
      unfold Mem.dirIx
      omega
    have htab (hp : Present (m.word cr3 (Mem.dirIx address.toNat))) :
        frame (m.word cr3 (Mem.dirIx address.toNat)) ≠ cr3 ∧ frame (m.word cr3 (Mem.dirIx address.toNat)) ≠ page :=
      ⟨(hsep.tables _ hix hp).1, fun e => (hsep.tables _ hix hp).2 (e ▸ hmap)⟩
    have hcr3 : m'.map cr3 ≠ 0 := by
      rw [h.map, Function.update_of_ne hne]
      exact hsep.dir.2
    have hlow' := hsep.low
    have hdir := hsep.dir.1
    rw [← h.low] at hlow' hlow hdir
    rw [← h.dir] at htab
    obtain ⟨hwalk, hsame⟩ := putPage_spec hlow' ⟨hlow, by rw [hone]; decide⟩ ⟨hdir, hcr3⟩ hne htab hput
    exact .inl ⟨m'', rfl, hwalk, hsame⟩
  | none =>
    refine .inr ⟨rfl, ?_, ?_⟩
    · have hhigh := (hsep.managed page hmap hlt).2
      rw [← h.high] at hhigh
      have hused : ¬m'.Used page := by
        unfold Mem.Used
        rw [hone]
        decide
      exact ⟨_, Mem.freePage_ok hhigh hused (by rw [hone]; decide)⟩
    · -- `put_page` found no page for a table, so every page but the one just claimed is in use
      have hused (x : Nat) (hx₀ : m.low ≤ x) (hx : x < 4096) (hx0 : m.map x = 0) : x = page := by
        by_contra hxp
        simp only [Mem.putPage] at hput
        split at hput
        · cases hput
        · split at hput
          · rename_i hnone
            rw [← h.low] at hx₀
            refine Mem.getFreePage_none hnone hx₀ hx ?_
            rw [h.map, Function.update_of_ne hxp, hx0]
          · cases hput
      intro n n' hn₀ hn hn₀' hn' h0 h0'
      rw [hused n hn₀ hn h0, hused n' hn₀' hn' h0']

/-- How a fault ends: a page with these bytes is mapped, or `oom` is called. -/
def Ends (r : Except Stop (Disk I × Mem.Outcome)) (d : Disk I) (m : Mem) (cr3 : Nat) (address : BitVec 32) (byte : Nat → Nat) :
    Prop :=
  (∃ m' page, r = .ok (d, .done m') ∧
      m'.walk cr3 (Mem.dirIx address.toNat) (Mem.tabIx address.toNat) = entry page 103 ∧ ∀ k < 4096, kbyte m' page k = byte k) ∨
    (∃ m', r = .ok (d, .oom m')) ∧ Scarce m

omit [DecidableEq I] in
theorem scarce_of_none {m : Mem} (hfree : m.getFreePage = none) : Scarce m :=
  fun _ _ hn hn' _ _ h0 => absurd h0 (Mem.getFreePage_none hfree hn hn')

theorem slowPath_ends (hok : ∀ b, ok b = true) {tk : Current I} {m : Mem} (hsep : Separate m tk.cr3) (address : BitVec 32)
    {tmp : BitVec 32} (htmp : tmp.toNat % 4096 = 0) (hmax : 1 + tmp.toNat / 1024 + 4 ≤ maxBlock)
    (hn : cleared tmp tk.endData ≤ 4096) :
    Ends (slowPath ok d i tk m address tmp) d m tk.cr3 address fun k =>
      if 4096 ≤ k + cleared tmp tk.endData then 0 else d.fileByte i (1024 + tmp.toNat + k) := by
  cases hfree : m.getFreePage with
  | none =>
    refine .inr ⟨⟨m, ?_⟩, scarce_of_none hfree⟩
    rw [slowPath, hfree]
  | some r =>
    obtain ⟨page, m₁⟩ := r
    obtain ⟨hmap, -⟩ := Mem.getFreePage_some hfree
    obtain ⟨-, hlt⟩ := getFreePage_lt hfree
    have hne : tk.cr3 ≠ page := fun e => hsep.dir.2 (e ▸ hmap)
    obtain ⟨hl, hh, hm, hw⟩ := pageRead_other ok d i m _ hlt tmp tk.endData (by omega)
    have hdir := Nat.lt_of_lt_of_le hsep.low hsep.dir.1
    have hclaimed : Claimed m tk.cr3 page (pageRead ok d i page tmp tk.endData m) :=
      ⟨hl, hh, hm, fun k => (hw _ k hne (.inl hn)).trans (claim_word_of_low hlt hne hdir k)⟩
    rw [slowPath_eq hok tk hfree address hmax]
    rcases hclaimed.putPage hsep hfree address with ⟨m', hput, hwalk, hsame⟩ | ⟨hput, ⟨m', hfreed⟩, hscarce⟩
    · refine .inl ⟨m', page, by rw [hput], hwalk, fun k hk => ?_⟩
      rw [kbyte, hsame]
      exact pageRead_kbyte hok m hlt htmp (by omega) hk
    · refine .inr ⟨⟨m', ?_⟩, hscarce⟩
      rw [hput, hfreed]

omit [DecidableEq I] in
theorem emptyPage_ends {tk : Current I} {m : Mem} (hsep : Separate m tk.cr3) (address : BitVec 32) :
    Ends (emptyPage d tk m address) d m tk.cr3 address fun _ => 0 := by
  rw [emptyPage, Mem.getEmptyPage]
  cases hfree : m.getFreePage with
  | none =>
    have hzero : m.freePage 0 = .ok m := by
      have hlow := hsep.low
      have hhigh := hsep.high
      rw [Mem.freePage, if_neg (by omega), if_pos hsep.first]
    refine .inr ⟨⟨m, ?_⟩, scarce_of_none hfree⟩
    rw [hzero]
    rfl
  | some r =>
    obtain ⟨page, m₁⟩ := r
    obtain ⟨hmap, rfl⟩ := Mem.getFreePage_some hfree
    obtain ⟨-, hlt⟩ := getFreePage_lt hfree
    have hne : tk.cr3 ≠ page := fun e => hsep.dir.2 (e ▸ hmap)
    have hdir := Nat.lt_of_lt_of_le hsep.low hsep.dir.1
    have hclaimed : Claimed m tk.cr3 page (m.claim page) := ⟨rfl, rfl, rfl, claim_word_of_low hlt hne hdir⟩
    simp only
    rcases hclaimed.putPage hsep hfree address with ⟨m', hput, hwalk, hsame⟩ | ⟨hput, ⟨m', hfreed⟩, hscarce⟩
    · refine .inl ⟨m', page, by rw [hput], hwalk, fun k _ => ?_⟩
      have hzero : (m.claim page).word page (k / 4) = 0 := if_pos rfl
      rw [kbyte, hsame, hzero]
      unfold State.getByte
      rw [Nat.zero_div, Nat.zero_mod]
    · refine .inr ⟨⟨m', ?_⟩, hscarce⟩
      rw [hput, hfreed]
      rfl

/-- The address of a page. -/
theorem mask_toNat (x : BitVec 32) : (x &&& 0xfffff000#32).toNat = x.toNat / 4096 * 4096 := by
  have h : x &&& 0xfffff000#32 = (x >>> 12) <<< 12 := by
    ext i hi
    simp only [BitVec.getElem_and, BitVec.getElem_shiftLeft]
    interval_cases i <;> simp
  rw [h, BitVec.toNat_shiftLeft, BitVec.toNat_ushiftRight, Nat.shiftLeft_eq, Nat.shiftRight_eq_div_pow]
  omega

/-- What is left of the page behind the data. -/
theorem cleared_eq {tmp endData : BitVec 32} (ht : tmp.toNat < 1073741824) (he : endData.toNat < 1073741824) :
    cleared tmp endData = tmp.toNat + 4096 - endData.toNat := by
  have h4 : (4096 : BitVec 32).toNat = 4096 := rfl
  rw [cleared, BitVec.toInt_eq_toNat_bmod, BitVec.toNat_sub, BitVec.toNat_add, h4, Int.bmod_eq_emod]
  split <;> omega

omit [DecidableEq I] in
theorem Ends.congr {r : Except Stop (Disk I × Mem.Outcome)} {m : Mem} {cr3 : Nat} {address : BitVec 32} {byte byte' : Nat → Nat}
    (h : Ends r d m cr3 address byte) (hb : ∀ k < 4096, byte k = byte' k) : Ends r d m cr3 address byte' := by
  rcases h with ⟨m', page, hr, hwalk, hk⟩ | h
  · exact .inl ⟨m', page, hr, hwalk, fun k hk' => (hk k hk').trans (hb k hk')⟩
  · exact .inr h

theorem doNoPage_slow {sharePage : BitVec 32 → Except Panic (Mem × Bool)} {tk : Current I} {m m₁ : Mem} {address : BitVec 32}
    (hstart : tk.startCode = 0) (hexe : tk.executable = some i) (hlt : ¬tk.endData ≤ address &&& 0xfffff000#32)
    (hshare : sharePage (address &&& 0xfffff000#32) = .ok (m₁, false)) :
    doNoPage sharePage ok d tk m address =
      slowPath ok d i tk m₁ (address &&& 0xfffff000#32) (address &&& 0xfffff000#32) := by
  have hsub : (address &&& 0xfffff000#32) - tk.startCode = address &&& 0xfffff000#32 := by
    rw [hstart]
    exact BitVec.sub_zero _
  simp only [doNoPage, hexe, hsub]
  rw [if_neg hlt, hshare]

/-- A fault of a task whose data ends within 16 MB. -/
theorem doNoPage_ends {sharePage : BitVec 32 → Except Panic (Mem × Bool)} {tk : Current I} {m : Mem} (hstart : tk.startCode = 0)
    (hexe : tk.executable = some i) (hend : tk.endData.toNat ≤ 16777216) (hok : ∀ b, ok b = true) (hsep : Separate m tk.cr3)
    (hshare : ∀ tmp, sharePage tmp = .ok (m, false)) (address : BitVec 32) :
    Ends (doNoPage sharePage ok d tk m address) d m tk.cr3 (address &&& 0xfffff000#32) fun k =>
      if address.toNat / 4096 * 4096 + k < tk.endData.toNat then d.fileByte i (1024 + address.toNat / 4096 * 4096 + k) else 0 := by
  have hmax : maxBlock = 262663 := rfl
  have hmask := mask_toNat address
  by_cases hle : tk.endData ≤ address &&& 0xfffff000#32
  · have hempty : doNoPage sharePage ok d tk m address = emptyPage d tk m (address &&& 0xfffff000#32) := by
      simp only [doNoPage, hexe, hstart]
      exact if_pos (BitVec.sub_zero _ ▸ hle)
    rw [BitVec.le_def] at hle
    rw [hempty]
    refine (emptyPage_ends hsep _).congr fun k _ => ?_
    rw [if_neg (by omega)]
  · rw [doNoPage_slow hstart hexe hle (hshare _)]
    rw [BitVec.not_le, BitVec.lt_def] at hle
    have hclear : cleared (address &&& 0xfffff000#32) tk.endData = (address &&& 0xfffff000#32).toNat + 4096 - tk.endData.toNat :=
      cleared_eq (by omega) (by omega)
    refine (slowPath_ends hok hsep _ (by omega) (by omega) (by omega)).congr fun k hk => ?_
    rw [hclear, hmask]
    by_cases hlast : address.toNat / 4096 * 4096 + k < tk.endData.toNat
    · rw [if_neg (by omega), if_pos hlast]
    · rw [if_pos (by omega), if_neg hlast]

end Load

/-- A file of two blocks, header and text, on a disk of 13 zones. -/
def oneFile : Disk Unit :=
  { emptyDisk with
    ino := fun _ => { DInode.blank with mode := 0o100755, nlinks := 1, size := 2048, zone := fun k => if k < 2 then 5 + k else 0 }
    blk := fun _ _ => 1 }

/-- A task with an empty directory in frame 300. -/
def blankMem : Mem where
  low := 256
  high := 4096
  map n := if n < 256 then 128 else if n = 300 then 1 else 0
  word _ _ := 0

theorem blankMem_separate : Separate blankMem 300 where
  low := by decide
  high := by decide
  first := by decide
  managed n h0 hn := by
    refine ⟨Nat.le_of_not_lt fun hlt => ?_, hn⟩
    have hused : blankMem.map n = 128 := if_pos hlt
    rw [hused] at h0
    cases h0
  dir := by decide
  tables _ _ hp := absurd hp not_present_zero

/-- There is more than one page left. -/
theorem blankMem_not_scarce : ¬Scarce blankMem := by
  intro h
  have := h 256 257 (by decide) (by decide) (by decide) (by decide) (by decide) (by decide)
  omega

/-- 1000 bytes of text. -/
def small : Header := { magic := Header.zmagic, text := 1000, data := 0, bss := 0, syms := 0, entry := 0, trsize := 0, drsize := 0 }

/-- 4 GB of text but for a byte, and a byte of bss. -/
def huge : Header :=
  { magic := Header.zmagic, text := 0xffffffff, data := 0, bss := 1, syms := 0, entry := 0, trsize := 0, drsize := 0 }

end Linux011.Kernel.Image
