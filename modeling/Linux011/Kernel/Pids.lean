/-
Process identifiers: `find_empty_process` comes to an end, and no two tasks have the same pid.

The pids that are tried go up by one, from the largest `long` to 1, and 65 in a row
are different; a table of 64 tasks cannot have them all. A new task gets a pid that no
task in the table has, zombies included, and no call changes a pid.
-/
import Linux011.Kernel.Reaping
import Mathlib.Data.Fintype.Pigeonhole

namespace Linux011.Kernel.Process

/-! ## The search -/

theorem slt_zero_iff (x : Long) : x.slt 0 = true ↔ 2147483648 ≤ x.toNat := by
  have hx := x.isLt
  rw [BitVec.slt_iff_toInt_lt, BitVec.toInt_eq_toNat_cond]
  change (_ : Int) < 0 ↔ _
  split <;> omega

theorem nextPid_toNat_lt (x : Long) : (nextPid x).toNat < 2147483648 := by
  unfold nextPid
  split
  · decide
  · rename_i h
    rw [slt_zero_iff] at h
    omega

/-- From a pid on: the next number, or 1 after the largest. -/
theorem nextPid_toNat {x : Long} (hx : x.toNat < 2147483648) :
    (nextPid x).toNat = if x.toNat + 1 < 2147483648 then x.toNat + 1 else 1 := by
  have hadd : (x + 1).toNat = x.toNat + 1 := by
    rw [BitVec.toNat_add]
    exact Nat.mod_eq_of_lt (Nat.lt_of_le_of_lt (Nat.succ_le_of_lt hx) (by decide))
  unfold nextPid
  split
  · rename_i h
    rw [slt_zero_iff, hadd] at h
    rw [if_neg (by omega)]
    rfl
  · rename_i h
    rw [slt_zero_iff, hadd] at h
    rw [if_pos (by omega)]
    exact hadd

/-- The pids tried after `x`, as numbers. -/
theorem nextPid_iterate {x : Long} (hx : x.toNat < 2147483648) (k : Nat) (hk : k < 65) :
    (nextPid^[k] x).toNat = if x.toNat + k < 2147483648 then x.toNat + k else x.toNat + k - 2147483647 := by
  induction k with
  | zero => rw [if_pos (by omega)]; rfl
  | succ k ih =>
    have ih := ih (by omega)
    rw [Function.iterate_succ_apply', nextPid_toNat (by rw [ih]; split <;> omega), ih]
    by_cases h : x.toNat + k < 2147483648
    · rw [if_pos h]
      by_cases h' : x.toNat + k + 1 < 2147483648
      · rw [if_pos h', if_pos (by omega)]
        omega
      · rw [if_neg h', if_neg (by omega)]
        omega
    · rw [if_neg h, if_pos (by omega), if_neg (by omega)]
      omega

/-- 65 tries are at 65 pids. -/
theorem nextPid_inj (last : Long) {k k' : Nat} (hk : k < 65) (hk' : k' < 65)
    (h : nextPid^[k + 1] last = nextPid^[k' + 1] last) : k = k' := by
  rw [Function.iterate_succ_apply, Function.iterate_succ_apply] at h
  have hlt := nextPid_toNat_lt last
  have h := congrArg BitVec.toNat h
  rw [nextPid_iterate hlt k hk, nextPid_iterate hlt k' hk'] at h
  split at h <;> split at h <;> omega

/-- A search that has not ended has met a task at each try. -/
theorem findPid_none {task : Table} {n : Nat} {last : Long} (h : findPid task n last = none) :
    ∀ k < n, ∃ i p, task i = some p ∧ p.pid = nextPid^[k + 1] last := by
  induction n generalizing last with
  | zero => exact fun k hk => absurd hk (Nat.not_lt_zero k)
  | succ n ih =>
    rw [findPid] at h
    split at h
    · rename_i hused
      intro k hk
      cases k with
      | zero =>
        obtain ⟨i, hi⟩ := hused
        obtain ⟨p, hp, hpid⟩ := Option.any_eq_true _ _ |>.1 hi
        exact ⟨i, p, hp, of_decide_eq_true hpid⟩
      | succ k =>
        obtain ⟨i, p, hi, hp⟩ := ih h k (by omega)
        exact ⟨i, p, hi, hp⟩
    · cases h

/-- **`find_empty_process` finds a pid** among the first 65, from every `last_pid`. -/
theorem findPid_some (task : Table) (last : Long) : ∃ pid, findPid task 65 last = some pid := by
  cases h : findPid task 65 last with
  | some pid => exact ⟨pid, rfl⟩
  | none =>
    have hmet := findPid_none h
    choose slot p hslot hpid using fun k : Fin 65 => hmet k.val k.isLt
    obtain ⟨k, k', hne, heq⟩ := Fintype.exists_ne_map_eq_of_card_lt slot (by decide)
    refine absurd (Fin.ext (nextPid_inj last k.isLt k'.isLt ?_)) hne
    rw [← hpid k, ← hpid k']
    refine congrArg Proc.pid (Option.some.inj ?_)
    rw [← hslot k, ← hslot k', heq]

theorem findPid_mono {task : Table} {n : Nat} {last pid : Long} (h : findPid task n last = some pid) {m : Nat} (hm : n ≤ m) :
    findPid task m last = some pid := by
  induction n generalizing last m with
  | zero => cases h
  | succ n ih =>
    obtain ⟨m, rfl⟩ : ∃ m', m = m' + 1 := ⟨m - 1, by omega⟩
    rw [findPid] at h ⊢
    split at h
    · rw [if_pos ‹_›]
      exact ih h (by omega)
    · rw [if_neg ‹_›]
      exact h

/-! ## The table -/

/-- Task 0 has pid 0, the others have one from 1 on, and no two have the same. -/
structure Pids (task : Table) : Prop where
  zero : ∃ p, task 0 = some p ∧ p.pid = 0
  pos : ∀ i p, i ≠ 0 → task i = some p → 1 ≤ p.pid.toInt
  inj : ∀ i j p q, task i = some p → task j = some q → p.pid = q.pid → i = j

/-- A step; init may exit as well. Task 0 does not: it has no father, and `release` halts on it. -/
def stepAll (s : Sys) : Op → Option Sys
  | .exit i code =>
    (s.task i).bind fun p =>
      match p.phase with
      | .user | .reporting _ _ _ => if i = 0 then none else some (s.exitBegin i p code)
      | _ => none
  | .closed i => if i = 0 then none else step s (.closed i)
  | o => step s o

variable {s s' : Sys} {task task' : Table} {i : Slot} {p : Proc}

/-- Tasks that are in the table were there, under the same pid. -/
def Keeps (task task' : Table) : Prop := ∀ j q', task' j = some q' → ∃ q, task j = some q ∧ q.pid = q'.pid

theorem Pids.keeps (h : Pids task) (hk : Keeps task task') (h0 : (task' 0).isSome = true) : Pids task' where
  zero := by
    obtain ⟨p', hp'⟩ := Option.isSome_iff_exists.1 h0
    obtain ⟨p, hp, hpid⟩ := hk 0 p' hp'
    obtain ⟨z, hz, hz0⟩ := h.zero
    obtain rfl := Option.some.inj (hp.symm.trans hz)
    exact ⟨p', hp', hpid ▸ hz0⟩
  pos i p' hi hp' := by
    obtain ⟨p, hp, hpid⟩ := hk i p' hp'
    exact hpid ▸ h.pos i p hi hp
  inj i j p' q' hp' hq' he := by
    obtain ⟨p, hp, hpid⟩ := hk i p' hp'
    obtain ⟨q, hq, hqid⟩ := hk j q' hq'
    exact h.inj i j p q hp hq (hpid.trans (he.trans hqid.symm))

theorem Keeps.trans {task'' : Table} (h : Keeps task task') (h' : Keeps task' task'') : Keeps task task'' := by
  intro j q'' hq''
  obtain ⟨q', hq', hpid'⟩ := h' j q'' hq''
  obtain ⟨q, hq, hpid⟩ := h j q' hq'
  exact ⟨q, hq, hpid.trans hpid'⟩

theorem Keeps.update (hi : task i = some p) {p' : Proc} (hpid : p'.pid = p.pid) : Keeps task (Function.update task i (some p')) := by
  intro j q' hq'
  rcases update_some hq' with ⟨rfl, rfl⟩ | ⟨-, hq⟩
  · exact ⟨p, hi, hpid.symm⟩
  · exact ⟨q', hq, rfl⟩

theorem Keeps.remove (task : Table) (i : Slot) : Keeps task (Function.update task i none) := fun _ q' hq' =>
  ⟨q', (update_none hq').2, rfl⟩

theorem isSome_update (h0 : (task 0).isSome = true) (p' : Proc) : (Function.update task i (some p') 0).isSome = true := by
  rw [Function.update_apply]
  split
  · rfl
  · exact h0

theorem isSome_remove (h0 : (task 0).isSome = true) (hi : i ≠ 0) : (Function.update task i none 0).isSome = true := by
  rw [Function.update_of_ne hi.symm]
  exact h0

theorem Pids.isSome (h : Pids task) : (task 0).isSome = true := by
  obtain ⟨p, hp, -⟩ := h.zero
  rw [hp]
  rfl

theorem Pids.set (h : Pids s.task) (hi : s.task i = some p) {p' : Proc} (hpid : p'.pid = p.pid) : Pids (s.set i p').task :=
  h.keeps (.update hi hpid) (isSome_update h.isSome p')

/-- **A new task gets a pid of its own.** -/
theorem Pids.insert (h : Pids task) {nr : Slot} (hnr : nr ≠ 0) {last : Long} (hneg : last.slt 0 = false)
    (hfree : ∀ i p, task i = some p → p.pid ≠ last) {p' : Proc} (hp' : p'.pid = last) :
    Pids (Function.update task nr (some p')) where
  zero := by
    obtain ⟨z, hz, hz0⟩ := h.zero
    exact ⟨z, (Function.update_of_ne hnr.symm _ _).trans hz, hz0⟩
  pos i p hi hp := by
    rcases update_some hp with ⟨rfl, rfl⟩ | ⟨-, hp⟩
    · obtain ⟨z, hz, hz0⟩ := h.zero
      have hpos := slt_of_not_slt hneg fun e => hfree 0 z hz (hz0.trans e.symm)
      rw [hp']
      exact BitVec.slt_iff_toInt_lt.1 hpos
    · exact h.pos i p hi hp
  inj i j p q hp hq he := by
    rcases update_some hp with ⟨hi, hpp⟩ | ⟨-, hold⟩
    · rcases update_some hq with ⟨hj, -⟩ | ⟨-, hold'⟩
      · exact hi.trans hj.symm
      · exact absurd (he.symm.trans (hpp ▸ hp')) (hfree j q hold')
    · rcases update_some hq with ⟨-, hqp⟩ | ⟨-, hold'⟩
      · exact absurd (he.trans (hqp ▸ hp')) (hfree i p hold)
      · exact h.inj i j p q hold hold' he

theorem Pids.fork (h : Pids s.task) {copied : Bool} (hs : s.fork p copied = some s') : Pids s'.task := by
  obtain ⟨last, hlast, rfl⟩ := Option.map_eq_some_iff.1 hs
  obtain ⟨hneg, hfree⟩ := findPid_spec hlast
  split
  · rename_i nr hnr
    split
    · exact h.insert (findSlot_spec hnr).2 hneg hfree rfl
    · exact h
  · exact h

theorem Pids.exitBegin (h : Pids s.task) (i : Slot) (p : Proc) (code : Int) : Pids (s.exitBegin i p code).task := by
  refine h.keeps (fun j q' hq' => ?_) ?_
  · obtain ⟨r, hr, rfl⟩ := Option.map_eq_some_iff.1 hq'
    obtain ⟨q, hq, rfl⟩ := Option.map_eq_some_iff.1 hr
    refine ⟨q, hq, ?_⟩
    split <;> rfl
  · obtain ⟨z, hz, -⟩ := h.zero
    simp [Sys.exitBegin, reparent, hz]

theorem Pids.exitEnd (h : Pids s.task) (hi : s.task i = some p) (hi0 : i ≠ 0) (code : Int) : Pids (s.exitEnd i p code).task := by
  have hzombie : Keeps s.task (Function.update s.task i (some { p with state := .zombie, exitCode := code })) := .update hi rfl
  have hsome := isSome_update (i := i) h.isSome { p with state := .zombie, exitCode := code }
  rw [Sys.exitEnd]
  split
  · rename_i j hj
    obtain ⟨-, q, hq⟩ := findFather_spec hj
    rw [hq]
    exact h.keeps (hzombie.trans (.update hq rfl)) (isSome_update hsome _)
  · exact h.keeps (hzombie.trans (.remove _ i)) (isSome_remove hsome hi0)

/-- The loop of `sys_waitpid` does not come to task 0. -/
theorem scan_zombie_mem {me z : Proc} {pid : Long} {options : Options} {l : List Slot} {flag : Bool} {j : Slot}
    (h : scan task i me pid options l flag = .zombie j z) : j ∈ l := by
  induction l generalizing flag with
  | nil => cases h
  | cons k l ih =>
    rw [scan] at h
    split at h
    · exact List.mem_cons_of_mem _ (ih h)
    · split at h
      · exact List.mem_cons_of_mem _ (ih h)
      · split at h
        · split at h
          · cases h
          · exact List.mem_cons_of_mem _ (ih h)
        · rw [(Scan.zombie.inj h).1]
          exact List.mem_cons_self
        · exact List.mem_cons_of_mem _ (ih h)

theorem zero_notMem_order : (0 : Slot) ∉ order := by decide

theorem Pids.waitpid (h : Pids s.task) (hi : s.task i = some p) (pid : Long) (options : Options) :
    Pids (s.waitpid i p pid options).task := by
  rw [Sys.waitpid]
  split
  · exact h.set hi rfl
  · rename_i j z hscan
    have hj0 : j ≠ 0 := fun e => zero_notMem_order (e ▸ scan_zombie_mem hscan)
    have hi' : Function.update s.task j none i = some p := by
      rw [Function.update_of_ne (scan_zombie hscan).2.1.symm]
      exact hi
    exact h.keeps ((Keeps.remove s.task j).trans (.update hi' rfl)) (isSome_update (isSome_remove h.isSome hj0) _)
  · split
    · split
      · exact h.set hi rfl
      · exact h.set hi rfl
    · exact h.set hi rfl

/-- **Every call keeps the pids apart.** -/
theorem Pids.step {o : Op} (h : Pids s.task) (hs : stepAll s o = some s') : Pids s'.task := by
  cases o with
  | fork i copied =>
    obtain ⟨p, -, hf⟩ := Option.bind_eq_some_iff.1 hs
    split at hf
    · exact h.fork hf
    · cases hf
  | exit i code =>
    obtain ⟨p, hi, he⟩ := Option.bind_eq_some_iff.1 hs
    split at he
    · split at he
      · cases he
      · obtain rfl := Option.some.inj he
        exact h.exitBegin i p code
    · split at he
      · cases he
      · obtain rfl := Option.some.inj he
        exact h.exitBegin i p code
    · cases he
  | closed i =>
    simp only [stepAll] at hs
    split at hs
    · cases hs
    · rename_i hi0
      obtain ⟨p, hi, he⟩ := Option.bind_eq_some_iff.1 hs
      split at he
      · split at he
        · cases he
        · obtain rfl := Option.some.inj he
          exact h.exitEnd hi hi0 _
      · cases he
  | waitpid i pid options =>
    obtain ⟨p, hi, hw⟩ := Option.bind_eq_some_iff.1 hs
    split at hw
    · obtain rfl := Option.some.inj hw
      exact h.set hi rfl
    · cases hw
  | look i =>
    obtain ⟨p, hi, hw⟩ := Option.bind_eq_some_iff.1 hs
    split at hw
    · obtain rfl := Option.some.inj hw
      exact h.waitpid hi _ _
    · cases hw
  | wake i =>
    obtain ⟨p, hi, hw⟩ := Option.bind_eq_some_iff.1 hs
    dsimp only at hw
    split at hw
    · obtain rfl := Option.some.inj hw
      exact h.set hi rfl
    · cases hw
  | report i =>
    obtain ⟨p, hi, hw⟩ := Option.bind_eq_some_iff.1 hs
    dsimp only at hw
    split at hw
    · obtain rfl := Option.some.inj hw
      exact h.set hi rfl
    · cases hw
  | block i state =>
    obtain ⟨p, hi, hw⟩ := Option.bind_eq_some_iff.1 hs
    split at hw
    · cases hw
    · obtain rfl := Option.some.inj hw
      exact h.set hi rfl
  | kill i signal =>
    obtain ⟨p, hi, rfl⟩ := Option.map_eq_some_iff.1 hs
    exact h.set hi rfl

/-- **Process identifiers are unique**: from every table with distinct pids and every `last_pid`, through every sequence of
forks, exits and reaping. And the search for a pid ends, whatever `last_pid` is. -/
theorem pids_unique {s₀ : Sys} (h₀ : Pids s₀.task) (h : Run.Reaches (Run.Fires stepAll) s₀ s) :
    Pids s.task ∧ ∀ last, ∃ pid, ∀ n, 65 ≤ n → findPid s.task n last = some pid := by
  refine ⟨h.invariant (I := fun s => Pids s.task) (fun _ _ _ hs hst => hs.step hst) h₀, fun last => ?_⟩
  obtain ⟨pid, hpid⟩ := findPid_some s.task last
  exact ⟨pid, fun n hn => findPid_mono hpid hn⟩

theorem booted_task {i : Slot} {p : Proc} (h : booted.task i = some p) : i = 0 ∧ p.pid = 0 ∨ i = 1 ∧ p.pid = 1 := by
  simp only [booted] at h
  split at h
  · obtain rfl := Option.some.inj h
    exact .inl ⟨‹_›, rfl⟩
  · split at h
    · obtain rfl := Option.some.inj h
      exact .inr ⟨‹_›, rfl⟩
    · cases h

theorem booted_pids : Pids booted.task where
  zero := ⟨_, rfl, rfl⟩
  pos i p hi hp := by
    rcases booted_task hp with ⟨h0, -⟩ | ⟨-, h1⟩
    · exact absurd h0 hi
    · rw [h1]
      decide
  inj i j p q hp hq he := by
    rcases booted_task hp with ⟨hi, h0⟩ | ⟨hi, h0⟩ <;> rcases booted_task hq with ⟨hj, h1⟩ | ⟨hj, h1⟩
    · exact hi.trans hj.symm
    · exact absurd (h0.symm.trans (he.trans h1)) (by decide)
    · exact absurd (h0.symm.trans (he.trans h1)) (by decide)
    · exact hi.trans hj.symm

/-- Task 0 and init, and `last_pid` at its end. -/
def wrapping : Sys := { booted with lastPid := 2147483647 }

/-- From there the next pid is 1, which init has. -/
theorem pids_unique_wrap : ∃ s, Run.Reaches (Run.Fires stepAll) wrapping s ∧ (s.task 2).map Proc.pid = some 2 ∧ Pids s.task := by
  obtain ⟨s, hs, hp⟩ := Run.reaches_of_exec (fun _ _ => true) stepAll wrapping [.fork 1 true]
    (fun s => (s.task 2).map Proc.pid = some 2) (by decide +kernel)
  have hstart : Pids wrapping.task := booted_pids
  exact ⟨s, hs.of_under, of_decide_eq_true hp, (pids_unique hstart hs.of_under).1⟩

end Linux011.Kernel.Process
