/-
The checks of the mode of an inode: `permission` of the path walk, `sys_access`
and the test of the execute bits in `do_execve`.

Each shifts the mode by the class of the caller and looks at its lowest bits.
`sys_access` goes by the real ids, and shifts by 6 for the group as well.
-/
import Linux011.Fs.Execve
import Mathlib.Tactic.Common

namespace Linux011.Fs.Access

/-- What the checks read of `current`. -/
structure Ids where
  uid : Nat
  euid : Nat
  gid : Nat
  egid : Nat

/-- `MAY_EXEC`, `MAY_WRITE`, `MAY_READ`. -/
def mayExec : Nat := 1
def mayWrite : Nat := 2
def mayRead : Nat := 4

/-- `suser`. -/
def Ids.suser (cur : Ids) : Bool := cur.euid == 0

def permission (cur : Ids) (inode : MInode) (mask : Nat) : Bool :=
  -- not even root can read/write a deleted file
  if inode.dev ≠ 0 ∧ inode.nlinks = 0 then false
  else
    let mode :=
      if cur.euid = inode.uid then inode.mode >>> 6
      else if cur.egid = inode.gid then inode.mode >>> 3
      else inode.mode
    mode &&& mask &&& 7 == mask || cur.suser

def eacces : Int := -13

/-- `sys_access`, of the inode that `namei` finds. -/
def sysAccess (cur : Ids) (inode : Option MInode) (mode : Nat) : Int :=
  match inode with
  | none => eacces
  | some inode =>
    let mode := mode &&& 7
    let iMode := inode.mode &&& 511
    let res :=
      if cur.uid = inode.uid then iMode >>> 6
      else if cur.gid = inode.gid then iMode >>> 6
      else iMode
    if res &&& 7 &&& mode = mode then 0
    else if cur.uid = 0 ∧ (mode &&& 1 = 0 ∨ iMode &&& 73 ≠ 0) then 0
    else eacces

/-- The test in `do_execve`. -/
def execCheck (cur : Ids) (inode : MInode) : Bool :=
  let i :=
    if cur.euid = inode.uid then inode.mode >>> 6
    else if cur.egid = inode.gid then inode.mode >>> 3
    else inode.mode
  decide ¬(i &&& 1 = 0 ∧ ¬(inode.mode &&& 73 ≠ 0 ∧ cur.suser = true))

variable {cur : Ids} {inode : MInode} {mask : Nat}

/-! ## The test of do_execve -/

/-- One of the three execute bits. -/
theorem and_73_ne_zero (n : Nat) : n &&& 73 ≠ 0 ↔ n % 2 = 1 ∨ n / 8 % 2 = 1 ∨ n / 64 % 2 = 1 := by
  have hlow : n &&& 73 = n % 128 &&& 73 := by
    have hmod : (n &&& 73) % 2 ^ 7 = n % 2 ^ 7 &&& 73 % 2 ^ 7 := Nat.and_mod_two_pow
    rwa [Nat.mod_eq_of_lt (Nat.lt_of_le_of_lt Nat.and_le_right (by decide))] at hmod
  have hall : ∀ k < 128, k &&& 73 ≠ 0 ↔ k % 2 = 1 ∨ k / 8 % 2 = 1 ∨ k / 64 % 2 = 1 := by decide
  have hbits : n % 128 % 2 = n % 2 ∧ n % 128 / 8 % 2 = n / 8 % 2 ∧ n % 128 / 64 % 2 = n / 64 % 2 := by omega
  rw [hlow, hall _ (Nat.mod_lt _ (by decide)), hbits.1, hbits.2.1, hbits.2.2]

/-- The test is the one of the model of `do_execve`. -/
theorem execCheck_iff {tk : Execve.Task} {ino : Execve.Inode} (hu : cur.euid = tk.euid) (hg : cur.egid = tk.egid)
    (hm : inode.mode = ino.mode) (hiu : inode.uid = ino.uid) (hig : inode.gid = ino.gid) :
    execCheck cur inode = true ↔ Execve.mayExecute tk ino := by
  have hsix (n : Nat) : n >>> 6 = n / 64 := Nat.shiftRight_eq_div_pow n 6
  have hthree (n : Nat) : n >>> 3 = n / 8 := Nat.shiftRight_eq_div_pow n 3
  have hodd (n : Nat) : ¬n % 2 = 0 ↔ n % 2 = 1 := Nat.mod_two_ne_zero
  unfold execCheck Execve.mayExecute Execve.Task.suser Ids.suser
  dsimp only
  rw [hu, hg, hm, hiu, hig, decide_eq_true_iff, not_and_or, not_not, and_73_ne_zero, hsix, hthree, Nat.and_one_is_mod, hodd, beq_iff_eq]

/-- It is `permission`, unless the caller is root. -/
theorem execCheck_eq_permission (hlinks : 0 < inode.nlinks) (hroot : cur.euid ≠ 0) :
    execCheck cur inode = permission cur inode mayExec := by
  have hdel : ¬(inode.dev ≠ 0 ∧ inode.nlinks = 0) := fun h => absurd h.2 (Nat.ne_of_gt hlinks)
  have hsu : cur.suser = false := beq_eq_false_iff_ne.2 hroot
  unfold execCheck permission
  dsimp only
  rw [if_neg hdel, hsu, Bool.or_false]
  generalize (if cur.euid = inode.uid then inode.mode >>> 6 else if cur.egid = inode.gid then inode.mode >>> 3 else inode.mode) = i
  have hbit : i &&& mayExec &&& 7 = i % 2 := by
    rw [Nat.and_assoc, show mayExec &&& 7 = 1 from rfl, Nat.and_one_is_mod]
  rw [hbit, Nat.and_one_is_mod]
  rcases Nat.mod_two_eq_zero_or_one i with h | h
  · simp [h, mayExec]
  · simp [h, mayExec]

/-! ## sys_access -/

/-- The bits of a class in the mode, cut to nine bits before or after the shift. -/
theorem class_bits (mode : Nat) : (mode &&& 511) >>> 6 &&& 7 = mode >>> 6 &&& 7 ∧ mode &&& 511 &&& 7 = mode &&& 7 := by
  constructor
  · rw [Nat.shiftRight_and_distrib, Nat.and_assoc]
    rfl
  · rw [Nat.and_assoc]
    rfl

/-- The owner's and the group's bits are the same. -/
def SameBits (inode : MInode) : Prop := inode.mode >>> 6 &&& 7 = inode.mode >>> 3 &&& 7

/-- `sys_access` is `permission` where the class of the caller is the owner's or the others', or the bits of owner and group are the
same. -/
theorem sysAccess_eq_permission (hlinks : 0 < inode.nlinks) (hu : cur.uid = cur.euid) (hg : cur.gid = cur.egid) (hroot : cur.euid ≠ 0)
    (hmask : mask ≤ 7) (hclass : cur.uid = inode.uid ∨ cur.gid ≠ inode.gid ∨ SameBits inode) :
    sysAccess cur (some inode) mask = 0 ↔ permission cur inode mask = true := by
  have hdel : ¬(inode.dev ≠ 0 ∧ inode.nlinks = 0) := fun h => absurd h.2 (Nat.ne_of_gt hlinks)
  have hsu : cur.suser = false := beq_eq_false_iff_ne.2 hroot
  have hseven : mask &&& 7 = mask := by
    have := Nat.and_two_pow_sub_one_eq_mod mask 3
    rw [Nat.mod_eq_of_lt (by omega)] at this
    exact this
  have hne : eacces ≠ 0 := by decide
  have hsuper (c : Prop) : ¬(cur.uid = 0 ∧ c) := fun h => hroot (hu.symm.trans h.1)
  obtain ⟨hsix, hnine⟩ := class_bits inode.mode
  have hres : (if cur.uid = inode.uid then (inode.mode &&& 511) >>> 6 else if cur.gid = inode.gid then (inode.mode &&& 511) >>> 6
      else inode.mode &&& 511) &&& 7 = (if cur.euid = inode.uid then inode.mode >>> 6 else if cur.egid = inode.gid then inode.mode >>> 3
      else inode.mode) &&& 7 := by
    rw [← hu, ← hg]
    by_cases ho : cur.uid = inode.uid
    · rw [if_pos ho, if_pos ho, hsix]
    rw [if_neg ho, if_neg ho]
    by_cases hgr : cur.gid = inode.gid
    · rw [if_pos hgr, if_pos hgr, hsix]
      exact (hclass.resolve_left ho).resolve_left fun h => h hgr
    · rw [if_neg hgr, if_neg hgr, hnine]
  unfold sysAccess permission
  simp only [hseven, if_neg hdel, hsu, Bool.or_false, beq_iff_eq, hres, if_neg (hsuper _)]
  rw [Nat.and_assoc, Nat.and_comm 7 mask, ← Nat.and_assoc, ite_eq_left_iff]
  exact ⟨fun h => by_contra fun hn => hne (h hn), fun h hn => absurd h hn⟩

/-- A file of user 1 and group 1 that its owner alone may write. -/
def groupFile : MInode := { MInode.blank with mode := 33184, uid := 1, gid := 1, nlinks := 1, dev := 769, num := 2, count := 1 }

end Linux011.Fs.Access
