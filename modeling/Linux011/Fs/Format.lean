/-
The file system's data: inodes as they are on disk and in `inode_table`,
super blocks, the search for a free bit that `find_first_zero` makes in the
bitmaps, and directory entries with the test `match` makes on their names.
-/
import Mathlib.Data.List.GetD
import Mathlib.Tactic.TypeStar

namespace Linux011.Fs

/-! ## Inodes -/

/-- An inode on disk (`struct d_inode`), without its times: nothing modelled reads them. -/
structure DInode where
  mode : Nat
  uid : Nat
  size : Nat
  gid : Nat
  nlinks : Nat
  zone : Nat → Nat

/-- The file type in a mode, `mode & S_IFMT` in units of `S_IFIFO`. -/
def fileType (mode : Nat) : Nat := mode / 4096 % 16

/-- `S_ISREG`, `S_ISDIR`, `S_ISBLK`, `S_ISCHR`. -/
def isReg (mode : Nat) : Bool := fileType mode == 8
def isDir (mode : Nat) : Bool := fileType mode == 4
def isBlk (mode : Nat) : Bool := fileType mode == 6

def DInode.blank : DInode :=
  { mode := 0, uid := 0, size := 0, gid := 0, nlinks := 0, zone := fun _ => 0 }

/-- An entry of `inode_table` (`struct m_inode`). -/
structure MInode extends DInode where
  dev : Nat
  num : Nat
  count : Nat
  lock : Bool
  dirt : Bool
  pipe : Bool
  mount : Bool

/-- The entry after `memset(inode, 0, sizeof(*inode))`. -/
def MInode.blank : MInode :=
  { DInode.blank with
    dev := 0, num := 0, count := 0, lock := false, dirt := false, pipe := false, mount := false }

/-- An index of `inode_table`, which has `NR_INODE` entries. -/
abbrev Slot := Fin 32

instance neZeroInode : @NeZero Nat Zero.ofOfNat0 32 := ⟨by decide⟩

/-- `ROOT_INO`. -/
def rootIno : Nat := 1

/-! ## Super blocks -/

/-- A super block in memory (`struct super_block`): the sizes it is read with,
its device, and the inodes it refers to. -/
structure Super where
  ninodes : Nat
  nzones : Nat
  imapBlocks : Nat
  zmapBlocks : Nat
  firstdatazone : Nat
  dev : Nat
  imount : Option Slot
  isup : Option Slot
  deriving DecidableEq

/-- The block holding inode `num`. -/
def Super.inodeBlock (sb : Super) (num : Nat) : Nat :=
  2 + sb.imapBlocks + sb.zmapBlocks + (num - 1) / 32

/-! ## Bitmaps -/

/-- `find_first_zero`, over the bits from `start` on. -/
def firstZero (bits : Nat → Bool) (start : Nat) : Nat → Option Nat
  | 0 => none
  | n + 1 => if bits start then firstZero bits (start + 1) n else some start

variable {bits : Nat → Bool}

theorem firstZero_some {start n j : Nat} (h : firstZero bits start n = some j) :
    start ≤ j ∧ j < start + n ∧ bits j = false ∧ ∀ i, start ≤ i → i < j → bits i = true := by
  induction n generalizing start with
  | zero => simp [firstZero] at h
  | succ n ih =>
    simp only [firstZero] at h
    split at h
    · rename_i hb
      obtain ⟨h1, h2, h3, h4⟩ := ih h
      refine ⟨by omega, by omega, h3, fun i hi hij => ?_⟩
      rcases Nat.eq_or_lt_of_le hi with e | hlt
      · exact e ▸ hb
      · exact h4 i hlt hij
    · rename_i hb
      obtain rfl : start = j := by simpa using h
      exact ⟨Nat.le_refl _, by omega, by simpa using hb, fun i _ _ => by omega⟩

theorem firstZero_none {start n : Nat} (h : firstZero bits start n = none) :
    ∀ i, start ≤ i → i < start + n → bits i = true := by
  induction n generalizing start with
  | zero => intro i _ _; omega
  | succ n ih =>
    simp only [firstZero] at h
    split at h
    · rename_i hb
      intro i hi hin
      rcases Nat.eq_or_lt_of_le hi with e | hlt
      · exact e ▸ hb
      · exact ih h i hlt (by omega)
    · cases h

/-! ## Directory entries -/

/-- `NAME_LEN`, and `DIR_ENTRIES_PER_BLOCK`. -/
def nameLen : Nat := 14
def dirEntriesPerBlock : Nat := 64

/-- A component of a path name, cut to `NAME_LEN` bytes. It ended at a slash or
at the end of the string, so no byte of it is 0. -/
structure Name where
  bytes : List Nat
  nonempty : bytes ≠ []
  short : bytes.length ≤ nameLen
  nonzero : 0 ∉ bytes
  deriving DecidableEq

/-- `struct dir_entry`. -/
structure DirEntry where
  inode : Nat
  name : List Nat
  deriving DecidableEq

def DirEntry.free : DirEntry := { inode := 0, name := List.replicate 14 0 }

/-- The name as `add_entry` stores it. -/
def Name.stored (n : Name) : List Nat := n.bytes ++ List.replicate (nameLen - n.bytes.length) 0

/-- `match`. -/
def Name.matchEntry (n : Name) (de : DirEntry) : Bool :=
  de.inode != 0 && (n.bytes.length == nameLen || de.name.getD n.bytes.length 0 == 0) &&
    de.name.take n.bytes.length == n.bytes

/-- A stored name is matched by itself and by no other. -/
theorem Name.matchEntry_stored (n n' : Name) {nr : Nat} (h : nr ≠ 0) :
    n.matchEntry { inode := nr, name := n'.stored } = true ↔ n = n' := by
  have hs := n.short
  have hs' := n'.short
  simp only [Name.matchEntry, Name.stored, Bool.and_eq_true, bne_iff_ne, ne_eq, h, not_false_eq_true, true_and,
    Bool.or_eq_true, beq_iff_eq]
  constructor
  · intro ⟨hend, htake⟩
    have hbytes : n.bytes = n'.bytes := by
      rcases Nat.lt_trichotomy n.bytes.length n'.bytes.length with hlt | heq | hgt
      · -- the byte behind the shorter name would be the end of the longer one
        rcases hend with hend | hend
        · omega
        · rw [List.getD_append _ _ _ _ hlt, List.getD_eq_getElem _ _ hlt] at hend
          exact absurd (hend ▸ List.getElem_mem hlt) n'.nonzero
      · rw [heq, List.take_left] at htake
        exact htake.symm
      · rw [List.take_append, List.take_of_length_le (Nat.le_of_lt hgt)] at htake
        refine absurd ?_ n.nonzero
        rw [← htake]
        refine List.mem_append_right _ ?_
        rw [List.take_replicate, List.mem_replicate]
        omega
    cases n
    cases n'
    cases hbytes
    rfl
  · intro e
    subst e
    refine ⟨?_, List.take_left⟩
    rcases Nat.eq_or_lt_of_le hs with he | hlt
    · exact .inl he
    · right
      rw [List.getD_append_right _ _ _ _ (Nat.le_refl _)]
      simp

end Linux011.Fs
