/-
Regular files read and written: `sys_lseek`, `sys_read`, `sys_write`, and
`file_read` and `file_write`, over the zones of `Alloc`.

A position is an `off_t`, a signed number of 32 bits, and a size is unsigned;
what wraps in the source wraps here. Which blocks can be read may be different
at each turn of a loop. Pipes and devices have routines of their own and no
descriptor here; the times of an inode are left out.
-/
import Linux011.Fs.AllocSteps
import Linux011.Lib.Run

namespace Linux011.Fs

/-- An `int` or a `long`. -/
def int32 (x : Int) : Int := x.bmod 4294967296
/-- An `unsigned long`. -/
def uint32 (x : Int) : Int := x % 4294967296

theorem int32_eq {x : Int} (h0 : -2147483648 ≤ x) (h : x < 2147483648) : int32 x = x := by
  unfold int32
  rw [Int.bmod_def]
  omega

theorem uint32_eq {x : Int} (h0 : 0 ≤ x) (h : x < 4294967296) : uint32 x = x := by
  unfold uint32
  omega

/-- The block cannot be read, or it can: for each turn of a loop. -/
abbrev Io := Nat → Nat → Bool

namespace Disk

variable {I : Type*}

/-- A byte of a block, and a byte stored there. -/
def byte (d : Disk I) (z c : Nat) : Nat := d.blk z (c / 2) / 256 ^ (c % 2) % 256

def setByte (d : Disk I) (z c b : Nat) : Disk I :=
  d.setWord z (c / 2)
    (if c % 2 = 0 then d.blk z (c / 2) / 256 * 256 + b % 256 else b % 256 * 256 + d.blk z (c / 2) % 256)

/-- Bytes taken from the user, `n` of them to place `c` on. -/
def fill (d : Disk I) (z c : Nat) (f : Nat → Nat) : Nat → Disk I
  | 0 => d
  | n + 1 => (d.fill z c f n).setByte z (c + n) (f n)

/-- A byte of a file. A block that is not there reads as zeros. -/
def fileByte (d : Disk I) (i : I) (p : Nat) : Nat :=
  if d.trees.bmap i (p / 1024) = 0 then 0 else d.byte (d.trees.bmap i (p / 1024)) (p % 1024)

def setSize [DecidableEq I] (d : Disk I) (i : I) (size : Nat) : Disk I :=
  { d with ino := Function.update d.ino i { d.ino i with size := size } }

end Disk

/-- An entry of `file_table` in use (`struct file`). -/
structure File (I : Type*) where
  inode : I
  mode : Nat
  flags : Nat
  pos : Int

/-- `O_APPEND`. -/
def File.append {I : Type*} (f : File I) : Bool := f.flags / 1024 % 2 == 1

/-- A file system, `current->filp` of each task, and `file_table`. -/
structure Files (D F I : Type*) where
  disk : Disk I
  filp : D → Option F
  file : F → File I

section Code

variable {D F I : Type*} [DecidableEq F] [DecidableEq I]

def Files.setPos (s : Files D F I) (f : F) (pos : Int) : Files D F I :=
  { s with file := Function.update s.file f { s.file f with pos := pos } }

/-- `IS_SEEKABLE` of the device. -/
def isSeekable (dev : Nat) : Bool := 1 ≤ dev / 256 && dev / 256 ≤ 3

def ebadf : Int := 9
def einval : Int := 22
/-- `ERROR`. -/
def error99 : Int := 99

/-- The end of each case of `sys_lseek`. -/
def Files.seekTo (s : Files D F I) (f : F) (pos : Int) : Files D F I × Int :=
  if pos < 0 then (s, -einval) else (s.setPos f pos, pos)

/-- `sys_lseek`. -/
def sysLseek (s : Files D F I) (fd : D) (offset origin : Int) : Files D F I × Int :=
  match s.filp fd with
  | none => (s, -ebadf)
  | some f =>
    if !isSeekable s.disk.sb.dev then (s, -ebadf)
    else if origin = 0 then s.seekTo f offset
    else if origin = 1 then s.seekTo f (int32 ((s.file f).pos + offset))
    else if origin = 2 then s.seekTo f (int32 ((s.disk.ino (s.file f).inode).size + offset))
    else (s, -einval)

/-- `bmap` and `create_block` of an `int`, with the panics. -/
def mapBlock (ok : Nat → Bool) (create : Bool) (d : Disk I) (i : I) (block : Int) : Except String (Disk I × Nat) :=
  if block < 0 then .error "_bmap: block<0"
  else if maxBlock ≤ block then .error "_bmap: block>big"
  else
    match bmapCreateIo ok create d i block.toNat with
    | some r => .ok r
    | none => .error "new block: count is != 1"

/-- The loop of `file_read`, from turn `k` on: the position, what is left, and the bytes put to the user. -/
def fileReadLoop (io : Io) (i : I) : Nat → Nat → Disk I → Int → Int → List Nat →
    Except String (Disk I × Int × Int × List Nat)
  | 0, _, d, pos, left, out => .ok (d, pos, left, out)
  | fuel + 1, k, d, pos, left, out =>
    if left = 0 then .ok (d, pos, left, out)
    else
      match mapBlock (io k) false d i (pos.tdiv 1024) with
      | .error e => .error e
      | .ok (d, nr) =>
        -- `bread` fails: break
        if nr ≠ 0 ∧ io k nr = false then .ok (d, pos, left, out)
        else
          let c := pos.tmod 1024
          let chars := min (1024 - c) left
          let bytes := (List.range chars.toNat).map fun n => if nr = 0 then 0 else d.byte nr (c.toNat + n)
          fileReadLoop io i fuel (k + 1) d (int32 (pos + chars)) (left - chars) (out ++ bytes)

/-- `file_read`. Each turn of the loop reads a byte at least. -/
def fileRead (io : Io) (s : Files D F I) (f : F) (count : Int) : Except String (Files D F I × Int × List Nat) :=
  if count ≤ 0 then .ok (s, 0, [])
  else
    match fileReadLoop io (s.file f).inode count.toNat 0 s.disk (s.file f).pos count [] with
    | .error e => .error e
    | .ok (d, pos, left, out) =>
      .ok ({ s with disk := d }.setPos f pos, if count - left ≠ 0 then count - left else -error99, out)

/-- What `sys_read` leaves of the count, with the comparison unsigned. -/
def readCount (size : Nat) (pos count : Int) : Int :=
  if (size : Int) < uint32 (count + pos) then int32 (size - pos) else count

/-- `sys_read`: what it returns, and the bytes put to the user. -/
def sysRead (io : Io) (s : Files D F I) (fd : D) (count : Int) : Except String (Files D F I × Int × List Nat) :=
  if count < 0 then .ok (s, -einval, [])
  else
    match s.filp fd with
    | none => .ok (s, -einval, [])
    | some f =>
      if count = 0 then .ok (s, 0, [])
      else
        let inode := s.disk.ino (s.file f).inode
        if isDir inode.mode || isReg inode.mode then
          let count := readCount inode.size (s.file f).pos count
          if count ≤ 0 then .ok (s, 0, []) else fileRead io s f count
        else .ok (s, -einval, [])

/-- The loop of `file_write`, from turn `k` on, with `n` bytes written. -/
def fileWriteLoop (io : Io) (buf : Nat → Nat) (i : I) (count : Int) : Nat → Nat → Disk I → Int → Int →
    Except String (Disk I × Int × Int)
  | 0, _, d, pos, n => .ok (d, pos, n)
  | fuel + 1, k, d, pos, n =>
    if n < count then
      match mapBlock (io k) true d i (pos.tdiv 1024) with
      | .error e => .error e
      | .ok (d, block) =>
        -- `create_block` or `bread` fails: break
        if block = 0 ∨ io k block = false then .ok (d, pos, n)
        else
          let c := pos.tmod 1024
          let len := min (1024 - c) (count - n)
          let pos := int32 (pos + len)
          let d := if ((d.ino i).size : Int) < uint32 pos then d.setSize i (uint32 pos).toNat else d
          let d := d.fill block c.toNat (fun m => buf (n.toNat + m)) len.toNat
          fileWriteLoop io buf i count fuel (k + 1) d pos (n + len)
    else .ok (d, pos, n)

/-- `file_write`. -/
def fileWrite (io : Io) (buf : Nat → Nat) (s : Files D F I) (f : F) (count : Int) : Except String (Files D F I × Int) :=
  let i := (s.file f).inode
  let pos := if (s.file f).append then int32 (s.disk.ino i).size else (s.file f).pos
  match fileWriteLoop io buf i count count.toNat 0 s.disk pos 0 with
  | .error e => .error e
  | .ok (d, pos, n) =>
    let s := { s with disk := d }
    .ok (if (s.file f).append then s else s.setPos f pos, if n ≠ 0 then n else -1)

/-- `sys_write`. It does not look at `f_mode`. -/
def sysWrite (io : Io) (buf : Nat → Nat) (s : Files D F I) (fd : D) (count : Int) : Except String (Files D F I × Int) :=
  if count < 0 then .ok (s, -einval)
  else
    match s.filp fd with
    | none => .ok (s, -einval)
    | some f =>
      if count = 0 then .ok (s, 0)
      else if isReg (s.disk.ino (s.file f).inode).mode then fileWrite io buf s f count
      else .ok (s, -einval)

end Code

/-! ## What a write does to the file system -/

/-- The bytes a file can have. -/
def maxFile : Nat := maxBlock * 1024

theorem maxFile_eq : (maxFile : Int) = 1024 * maxBlock ∧ (maxBlock : Int) = 262663 := ⟨rfl, rfl⟩

theorem place_eq {pos : Int} (h : 0 ≤ pos) : pos.tdiv 1024 = pos / 1024 ∧ pos.tmod 1024 = pos % 1024 :=
  ⟨Int.tdiv_eq_ediv_of_nonneg h, Int.tmod_eq_emod_of_nonneg h⟩

/-- Of the files only `i` may have changed, in its blocks and its size. -/
structure Stored {I : Type*} (d : Disk I) (i : I) (d' : Disk I) : Prop where
  marked : Marked d'
  sb : d'.sb = d.sb
  ino : ∀ j, d'.ino j = { d.ino j with zone := (d'.ino j).zone, size := (d'.ino j).size }
  others : ∀ j, j ≠ i → d'.ino j = d.ino j
  bmap : ∀ j m, m < maxBlock → j ≠ i → d'.trees.bmap j m = d.trees.bmap j m
  leaf : ∀ j m, m < maxBlock → j ≠ i → d.trees.bmap j m ≠ 0 → d'.blk (d.trees.bmap j m) = d.blk (d.trees.bmap j m)

section Specs

variable {I : Type*} {d d' d'' : Disk I} {i : I}

theorem Stored.refl (hd : Marked d) : Stored d i d :=
  ⟨hd, rfl, fun _ => rfl, fun _ _ => rfl, fun _ _ _ _ => rfl, fun _ _ _ _ _ => rfl⟩

theorem Stored.trans (h : Stored d i d') (h' : Stored d' i d'') : Stored d i d'' where
  marked := h'.marked
  sb := h'.sb.trans h.sb
  ino j := by rw [h'.ino j, h.ino j]
  others j hj := (h'.others j hj).trans (h.others j hj)
  bmap j m hm hj := (h'.bmap j m hm hj).trans (h.bmap j m hm hj)
  leaf j m hm hj hz := by
    have hb := h.bmap j m hm hj
    rw [← hb] at hz
    have hl := h'.leaf j m hm hj hz
    rw [hb] at hl hz
    exact hl.trans (h.leaf j m hm hj hz)

theorem Mapped.stored {ok : Nat → Bool} {create : Bool} {n k z : Nat} (h : Mapped ok create d i n k d' z) : Stored d i d' where
  marked := h.marked
  sb := h.sb
  ino j := by rw [h.ino j]
  others := h.others
  bmap j m hm hj := h.other j m hm fun e => hj (congrArg Prod.fst e)
  leaf j m hm _ hz := h.leaf j m hm hz

theorem Disk.fill_eq (d : Disk I) (z c : Nat) (f : Nat → Nat) (n : Nat) :
    ∃ g, d.fill z c f n = { d with blk := Function.update d.blk z g } := by
  induction n with
  | zero => exact ⟨d.blk z, by simp [Disk.fill]⟩
  | succ n ih =>
    obtain ⟨g, hg⟩ := ih
    rw [Disk.fill, hg, Disk.setByte, Disk.setWord]
    exact ⟨_, by simp only [Function.update_idem]; rfl⟩

theorem Disk.fill_ino (d : Disk I) (z c : Nat) (f : Nat → Nat) (n : Nat) : (d.fill z c f n).ino = d.ino := by
  obtain ⟨g, hg⟩ := d.fill_eq z c f n
  rw [hg]

/-- Bytes stored in a block of the file. -/
theorem Stored.fill (hd : Marked d) {n : Nat} (hn : n < maxBlock) (hz : d.trees.bmap i n ≠ 0) (c : Nat) (f : Nat → Nat)
    (len : Nat) : Stored d i (d.fill (d.trees.bmap i n) c f len) := by
  obtain ⟨g, hg⟩ := d.fill_eq (d.trees.bmap i n) c f len
  have hsame := hd.sound.data hn hz g
  rw [hg]
  refine ⟨⟨⟨hd.map.first, hd.map.short, hd.map.covers, hd.map.reserved⟩, hsame.sound hd.sound,
    fun z h => hd.bits z (hsame.ref.1 h), hd.hold⟩, rfl, fun _ => rfl, fun _ _ => rfl, fun j m hm _ => hsame.bmap hm,
    fun j m hm hj hz' => ?_⟩
  have hne : d.trees.bmap j m ≠ d.trees.bmap i n := by
    intro e
    have hr := Trees.bmap_refBy hm hz'
    exact hj (hd.sound.refBy_unique hr (e ▸ Trees.bmap_refBy hn hz))
  exact Function.update_of_ne hne _ _

variable [DecidableEq I]

theorem Disk.setSize_trees (d : Disk I) (i : I) (size : Nat) : (d.setSize i size).trees = d.trees := by
  have h : (fun j => ((d.setSize i size).ino j).zone) = fun j => (d.ino j).zone := by
    ext j : 1
    simp only [Disk.setSize, Function.update_apply]
    split <;> simp_all
  simp only [Disk.trees, h]
  rfl

theorem Stored.setSize (hd : Marked d) (size : Nat) : Stored d i (d.setSize i size) := by
  have ht := d.setSize_trees i size
  refine ⟨⟨⟨hd.map.first, hd.map.short, hd.map.covers, hd.map.reserved⟩, ht ▸ hd.sound, fun z h => hd.bits z (ht ▸ h),
    hd.hold⟩, rfl, fun j => ?_, fun j hj => Function.update_of_ne hj _ _, fun j m _ _ => by rw [ht], fun _ _ _ _ _ => rfl⟩
  simp only [Disk.setSize, Function.update_apply]
  split <;> simp_all

theorem mapBlock_spec (ok : Nat → Bool) (create : Bool) (hd : Marked d) (i : I) (block : Int) (h0 : 0 ≤ block)
    (hb : block < maxBlock) :
    ∃ d' z, mapBlock ok create d i block = .ok (d', z) ∧
      Mapped ok create d i block.toNat ((path block.toNat).2.length + 1) d' z := by
  obtain ⟨d', z, hrun, hm⟩ := bmapCreateIo_spec ok hd (n := block.toNat) (by omega) create i
  refine ⟨d', z, ?_, hm⟩
  rw [mapBlock, if_neg (by omega), if_neg (by omega), hrun]

/-- The loop of `file_read` inside the file: it ends, and changes nothing. -/
theorem fileReadLoop_spec (io : Io) (hd : Marked d) (i : I) (fuel k : Nat) {pos left : Int} (out : List Nat) (h0 : 0 ≤ pos)
    (hl : 0 ≤ left) (hfit : pos + left ≤ maxFile) :
    ∃ pos' left' out', fileReadLoop io i fuel k d pos left out = .ok (d, pos', left', out') ∧ 0 ≤ pos' ∧ pos' ≤ maxFile := by
  obtain ⟨hfile, hblock⟩ := maxFile_eq
  induction fuel generalizing k pos left out with
  | zero => exact ⟨pos, left, out, rfl, h0, by omega⟩
  | succ fuel ih =>
    obtain ⟨hdiv, hmod⟩ := place_eq h0
    simp only [fileReadLoop, hdiv, hmod]
    split
    · exact ⟨pos, left, out, rfl, h0, by omega⟩
    · rename_i hne
      obtain ⟨d', nr, hmap, hm⟩ := mapBlock_spec (io k) false hd i (pos / 1024) (by omega) (by omega)
      obtain rfl := hm.same rfl
      rw [hmap]
      simp only
      split
      · exact ⟨pos, left, out, rfl, h0, by omega⟩
      · rw [int32_eq (by omega) (by omega)]
        exact ih (k + 1) _ (by omega) (by omega) (by omega)

/-- The size after a turn of `file_write`. -/
theorem Stored.grow (hd : Marked d) (pos : Int) :
    Stored d i (if ((d.ino i).size : Int) < pos then d.setSize i pos.toNat else d) := by
  split
  · exact .setSize hd _
  · exact .refl hd

/-- The loop of `file_write` below the largest size. -/
theorem fileWriteLoop_spec (io : Io) (buf : Nat → Nat) (hd : Marked d) (i : I) (fuel k : Nat) {count : Int} (pos : Int) {n : Int}
    (h0 : 0 ≤ pos) (hn : n ≤ count) (hfit : pos + (count - n) ≤ maxFile) (hsize : (d.ino i).size ≤ maxFile) :
    ∃ d' pos' n', fileWriteLoop io buf i count fuel k d pos n = .ok (d', pos', n') ∧ Stored d i d' ∧
      (d'.ino i).size ≤ maxFile ∧ 0 ≤ pos' ∧ pos' ≤ maxFile := by
  obtain ⟨hfile, hblock⟩ := maxFile_eq
  induction fuel generalizing k d pos n with
  | zero => exact ⟨d, pos, n, rfl, .refl hd, hsize, h0, by omega⟩
  | succ fuel ih =>
    obtain ⟨hdiv, hmod⟩ := place_eq h0
    simp only [fileWriteLoop, hdiv, hmod]
    split
    · rename_i hlt
      obtain ⟨d₁, z, hmap, hm⟩ := mapBlock_spec (io k) true hd i (pos / 1024) (by omega) (by omega)
      have hsize₁ : (d₁.ino i).size ≤ maxFile := by rw [hm.ino i]; exact hsize
      rw [hmap]
      simp only
      split
      · exact ⟨d₁, pos, n, rfl, hm.stored, hsize₁, h0, by omega⟩
      · rename_i hz
        rw [int32_eq (by omega) (by omega), uint32_eq (by omega) (by omega)]
        generalize hp : pos + min (1024 - pos % 1024) (count - n) = pos₁
        have hs₂ := Stored.grow (i := i) hm.marked pos₁
        generalize hd₂ : (if ((d₁.ino i).size : Int) < pos₁ then d₁.setSize i pos₁.toNat else d₁) = d₂ at hs₂ ⊢
        have hsize₂ : (d₂.ino i).size ≤ maxFile := by
          rw [← hd₂]
          split
          · simp only [Disk.setSize, Function.update_self]
            omega
          · exact hsize₁
        have hz₂ : d₂.trees.bmap i (pos / 1024).toNat = z := by
          have hself := hm.self fun h => hz (.inl h)
          rw [← hself, ← hd₂]
          split
          · rw [Disk.setSize_trees]
          · rfl
        have hs₃ := Stored.fill hs₂.marked (i := i) (n := (pos / 1024).toNat) (by omega) (fun h => hz (.inl (hz₂ ▸ h)))
          (pos % 1024).toNat (fun m => buf (n.toNat + m)) (min (1024 - pos % 1024) (count - n)).toNat
        rw [hz₂] at hs₃
        have hsize₃ : ((d₂.fill z (pos % 1024).toNat (fun m => buf (n.toNat + m))
            (min (1024 - pos % 1024) (count - n)).toNat).ino i).size ≤ maxFile := by rwa [Disk.fill_ino]
        obtain ⟨d', pos', n', hrun, hs', hrest⟩ := ih hs₃.marked (k + 1) pos₁
          (n := n + min (1024 - pos % 1024) (count - n)) (by omega) (by omega) (by omega) hsize₃
        exact ⟨d', pos', n', hrun, ((hm.stored.trans hs₂).trans hs₃).trans hs', hrest⟩
    · exact ⟨d, pos, n, rfl, .refl hd, hsize, h0, by omega⟩

end Specs

/-! ## Runs -/

/-- The calls, with the arguments a task gives them and what the disk and the task's memory have. -/
inductive FileOp (D : Type*)
  | lseek (fd : D) (offset origin : Int32)
  | read (io : Io) (fd : D) (count : Int32)
  | write (io : Io) (buf : Nat → Nat) (fd : D) (count : Int32)

section Runs

variable {D F I : Type*} [DecidableEq F] [DecidableEq I]

def FileOp.run (s : Files D F I) : FileOp D → Except String (Files D F I × Int)
  | .lseek fd offset origin => .ok (sysLseek s fd offset.toInt origin.toInt)
  | .read io fd count => (sysRead io s fd count.toInt).map fun r => (r.1, r.2.1)
  | .write io buf fd count => sysWrite io buf s fd count.toInt

def FileOp.Step (s : Files D F I) (o : FileOp D) (s' : Files D F I) : Prop := ∃ r, o.run s = .ok (s', r)

/-- A file can hold all that a write asks for, from where it begins. -/
def writesInside (s : Files D F I) : FileOp D → Prop
  | .write _ _ fd count => ∀ f, s.filp fd = some f →
    (if (s.file f).append then ((s.disk.ino (s.file f).inode).size : Int) else (s.file f).pos) + count.toInt ≤ maxFile
  | _ => True

/-- The descriptors are of regular files that are not too large, at positions an `off_t` can have. -/
structure Files.Ok (s : Files D F I) : Prop where
  marked : Marked s.disk
  reg : ∀ fd f, s.filp fd = some f → isReg (s.disk.ino (s.file f).inode).mode = true
  size : ∀ fd f, s.filp fd = some f → (s.disk.ino (s.file f).inode).size ≤ maxFile
  pos : ∀ fd f, s.filp fd = some f → 0 ≤ (s.file f).pos ∧ (s.file f).pos < 2147483648

variable {s s' : Files D F I}

omit [DecidableEq I] in
theorem Files.Ok.setPos (h : s.Ok) (f : F) {pos : Int} (h0 : 0 ≤ pos) (h1 : pos < 2147483648) : (s.setPos f pos).Ok := by
  have hino : ∀ g, ((s.setPos f pos).file g).inode = (s.file g).inode := by
    intro g
    simp only [Files.setPos, Function.update_apply]
    split <;> simp_all
  refine ⟨h.marked, fun fd g hg => ?_, fun fd g hg => ?_, fun fd g hg => ?_⟩
  · rw [hino]
    exact h.reg fd g hg
  · rw [hino]
    exact h.size fd g hg
  · simp only [Files.setPos, Function.update_apply]
    split
    · exact ⟨h0, h1⟩
    · exact h.pos fd g hg

theorem int32_lt (x : Int) : int32 x < 2147483648 := by
  unfold int32
  exact Int.lt_of_lt_of_le (Int.bmod_lt (by decide)) (by decide)

omit [DecidableEq I] in
theorem Files.Ok.seekTo (h : s.Ok) (f : F) {pos : Int} (h1 : pos < 2147483648) : (s.seekTo f pos).1.Ok := by
  unfold Files.seekTo
  split
  · exact h
  · exact h.setPos f (by omega) h1

omit [DecidableEq I] in
theorem Files.Ok.lseek (h : s.Ok) (fd : D) (offset origin : Int32) : (sysLseek s fd offset.toInt origin.toInt).1.Ok := by
  unfold sysLseek
  split
  · exact h
  · rename_i f hf
    split
    · exact h
    split
    · exact h.seekTo f offset.toInt_lt
    split
    · exact h.seekTo f (int32_lt _)
    split
    · exact h.seekTo f (int32_lt _)
    · exact h

/-- The count ends inside the file. -/
theorem readCount_le {size : Nat} {pos count : Int} (hsize : (size : Int) ≤ maxFile) (h0 : 0 ≤ pos) (h1 : pos < 2147483648)
    (hc : 0 ≤ count) (hc1 : count < 2147483648) : pos + readCount size pos count ≤ size := by
  rw [maxFile_eq.1, maxFile_eq.2] at hsize
  rw [readCount, uint32_eq (by omega) (by omega)]
  split
  · rw [int32_eq (by omega) (by omega)]
    omega
  · omega

theorem Files.Ok.fileRead (h : s.Ok) (io : Io) {fd : D} {f : F} (hf : s.filp fd = some f) {count : Int}
    (hfit : (s.file f).pos + count ≤ (s.disk.ino (s.file f).inode).size) :
    ∃ s' r, fileRead io s f count = .ok (s', r) ∧ s'.Ok := by
  obtain ⟨hfile, hblock⟩ := maxFile_eq
  have hsize := h.size fd f hf
  unfold Linux011.Fs.fileRead
  split
  · exact ⟨_, _, rfl, h⟩
  · obtain ⟨pos', left', out', hloop, h0, h1⟩ := fileReadLoop_spec io h.marked (s.file f).inode count.toNat 0 []
      (h.pos fd f hf).1 (show 0 ≤ count by omega) (by omega)
    rw [hloop]
    exact ⟨_, _, rfl, h.setPos f h0 (by omega)⟩

theorem Files.Ok.read (h : s.Ok) (io : Io) (fd : D) (count : Int32) :
    ∃ s' r, sysRead io s fd count.toInt = .ok (s', r) ∧ s'.Ok := by
  unfold sysRead
  split
  · exact ⟨_, _, rfl, h⟩
  split
  · exact ⟨_, _, rfl, h⟩
  rename_i hc f hf
  split
  · exact ⟨_, _, rfl, h⟩
  simp only [h.reg fd f hf, Bool.or_true, if_true]
  have hle := readCount_le (Int.ofNat_le.2 (h.size fd f hf)) (h.pos fd f hf).1 (h.pos fd f hf).2 (by omega) count.toInt_lt
  split
  · exact ⟨_, _, rfl, h⟩
  · exact h.fileRead io hf hle

omit [DecidableEq F] in
theorem Files.Ok.stored (h : s.Ok) {d : Disk I} {i : I} (hs : Stored s.disk i d) (hsize : (d.ino i).size ≤ maxFile) :
    { s with disk := d }.Ok := by
  refine ⟨hs.marked, fun fd f hf => ?_, fun fd f hf => ?_, h.pos⟩
  · have hr := h.reg fd f hf
    rwa [← congrArg DInode.mode (hs.ino (s.file f).inode)] at hr
  · by_cases hi : (s.file f).inode = i
    · simpa [hi] using hsize
    · simpa [hs.others _ hi] using h.size fd f hf

theorem Files.Ok.fileWrite (h : s.Ok) (io : Io) (buf : Nat → Nat) {fd : D} {f : F} (hf : s.filp fd = some f) {count : Int}
    (hc : 0 ≤ count) (hfit : (if (s.file f).append then ((s.disk.ino (s.file f).inode).size : Int) else (s.file f).pos) +
      count ≤ maxFile) :
    ∃ s' r, fileWrite io buf s f count = .ok (s', r) ∧ s'.Ok := by
  obtain ⟨hfile, hblock⟩ := maxFile_eq
  have hsize := h.size fd f hf
  have hpos := (h.pos fd f hf).1
  have hstart : (if (s.file f).append then int32 (s.disk.ino (s.file f).inode).size else (s.file f).pos) =
      if (s.file f).append then ((s.disk.ino (s.file f).inode).size : Int) else (s.file f).pos := by
    rw [int32_eq (by omega) (by omega)]
  obtain ⟨d', pos', n', hloop, hs, hsize', h0, h1⟩ := fileWriteLoop_spec io buf h.marked (s.file f).inode
    count.toNat 0 (if (s.file f).append then ((s.disk.ino (s.file f).inode).size : Int) else (s.file f).pos)
    (by split <;> omega) hc (by omega) hsize
  have hok := h.stored hs hsize'
  unfold Linux011.Fs.fileWrite
  simp only [hstart, hloop]
  refine ⟨_, _, rfl, ?_⟩
  split
  · exact hok
  · exact hok.setPos f h0 (by omega)

theorem Files.Ok.write (h : s.Ok) (io : Io) (buf : Nat → Nat) (fd : D) (count : Int32)
    (hin : writesInside s (.write io buf fd count)) :
    ∃ s' r, sysWrite io buf s fd count.toInt = .ok (s', r) ∧ s'.Ok := by
  unfold sysWrite
  split
  · exact ⟨_, _, rfl, h⟩
  split
  · exact ⟨_, _, rfl, h⟩
  rename_i hc f hf
  split
  · exact ⟨_, _, rfl, h⟩
  split
  · exact h.fileWrite io buf hf (by omega) (hin f hf)
  · exact ⟨_, _, rfl, h⟩

/-- One call. -/
theorem Files.Ok.run (h : s.Ok) {o : FileOp D} (ho : writesInside s o) : ∃ s' r, o.run s = .ok (s', r) ∧ s'.Ok := by
  cases o with
  | lseek fd offset origin => exact ⟨_, _, rfl, h.lseek fd offset origin⟩
  | read io fd count =>
    obtain ⟨s', r, hrun, hs'⟩ := h.read io fd count
    exact ⟨s', r.1, by simp only [FileOp.run, hrun, Except.map], hs'⟩
  | write io buf fd count => exact h.write io buf fd count ho

/-- **No call on a descriptor panics** in a run whose writes all fit a file. -/
theorem descriptors_safe {s₀ : Files D F I} (h₀ : s₀.Ok) (h : Run.Reaches (Run.Under writesInside FileOp.Step) s₀ s)
    {o : FileOp D} (ho : writesInside s o) : ∃ s' r, o.run s = .ok (s', r) := by
  have hok : s.Ok := by
    refine h.invariant (I := Files.Ok) (fun s o s' hs hst => ?_) h₀
    obtain ⟨s₁, r, hrun, hs₁⟩ := hs.run hst.1
    obtain ⟨r', hrun'⟩ := hst.2
    rw [hrun] at hrun'
    injection hrun' with he
    injection he with he
    exact he ▸ hs₁
  obtain ⟨s', r, hrun, -⟩ := hok.run ho
  exact ⟨s', r, hrun⟩

end Runs

/-- A disk of 13 zones with one empty regular file. -/
def emptyDisk : Disk Unit where
  sb := { ninodes := 32, nzones := 16, imapBlocks := 1, zmapBlocks := 1, firstdatazone := 4, dev := 0x301, imount := none, isup := none }
  zmap j := j == 0
  ino _ := { DInode.blank with mode := 0o100644, nlinks := 1 }
  blk _ _ := 0
  disk _ _ := 0
  hold _ := 0

theorem emptyDisk_marked : Marked emptyDisk := by
  have hzero : ∀ l, emptyDisk.trees.val l = 0 := by
    intro l
    cases l <;> rfl
  exact ⟨⟨by decide, by decide, by decide, rfl⟩, sound_of_zero hzero _ _, fun z h => absurd h (not_ref_of_zero hzero z),
    fun _ => rfl⟩

/-- The file open for reading and writing. -/
def emptyOpen : Files Unit Unit Unit where
  disk := emptyDisk
  filp _ := some ()
  file _ := { inode := (), mode := 0o100644, flags := 2, pos := 0 }

theorem emptyOpen_ok : emptyOpen.Ok where
  marked := emptyDisk_marked
  reg _ _ _ := show isReg 0o100644 = true by decide
  size _ _ _ := show 0 ≤ maxFile by decide
  pos _ _ _ := show (0 : Int) ≤ 0 ∧ (0 : Int) < 2147483648 by decide

theorem emptyOpen_lseek (offset : Int32) (h : 0 ≤ offset.toInt) :
    FileOp.Step emptyOpen (.lseek () offset 0) (emptyOpen.setPos () offset.toInt) := by
  refine ⟨offset.toInt, ?_⟩
  have hseek : sysLseek emptyOpen () offset.toInt 0 = emptyOpen.seekTo () offset.toInt := rfl
  rw [FileOp.run, show (0 : Int32).toInt = 0 from rfl, hseek, Files.seekTo, if_neg (by omega)]

theorem descriptors_safe_hole : ∃ s, Run.Reaches (Run.Under writesInside FileOp.Step) emptyOpen s ∧ (s.file ()).pos = 5000 ∧
    ∃ s' r, (FileOp.write (fun _ _ => true) (fun n => n) () 3000).run s = .ok (s', r) := by
  have hs : Run.Reaches (Run.Under writesInside FileOp.Step) emptyOpen (emptyOpen.setPos () (5000 : Int32).toInt) :=
    .snoc (o := .lseek () 5000 0) .refl ⟨trivial, emptyOpen_lseek 5000 (by decide)⟩
  refine ⟨_, hs, rfl, descriptors_safe emptyOpen_ok hs ?_⟩
  intro f hf
  cases f
  decide

/-- A position that `lseek` accepts is too far for a write of one byte. -/
theorem seek_then_write_panics : ∃ s, Run.Reaches FileOp.Step emptyOpen s ∧
    (FileOp.write (fun _ _ => true) (fun n => n) () 1).run s = .error "_bmap: block>big" := by
  refine ⟨_, .snoc .refl (emptyOpen_lseek 2147483647 (by decide)), ?_⟩
  rfl

end Linux011.Fs
