/-
The first loop of `schedule`: alarms that have run out become signals, and
sleepers with a signal wake up.

The loop goes down the task table and leaves task 0 alone. Masks are 32 bits
wide, bit `n - 1` for signal `n`; times are signed.
-/
import Linux011.Kernel.Signal
import Linux011.Kernel.Task

namespace Linux011.Kernel.Schedule

open Signal (bit sigkill sigalrm)

/-- `task_struct.state`. -/
inductive TaskState
  | running
  | interruptible
  | uninterruptible
  | zombie
  | stopped
  deriving DecidableEq

/-- What the loop reads of a task. -/
structure Task where
  state : TaskState
  signal : BitVec 32
  blocked : BitVec 32
  alarm : BitVec 32
  deriving DecidableEq

/-- `task[]`. -/
abbrev Table := Fin 64 → Option Task

/-- `SIGSTOP`. -/
def sigstop : Nat := 18

/-- `_BLOCKABLE`. -/
def blockable : BitVec 32 := ~~~(bit sigkill ||| bit sigstop)

/-- The alarm of a task has run out. -/
def Task.expired (jiffies : BitVec 32) (tk : Task) : Bool := tk.alarm != 0 && tk.alarm.slt jiffies

/-- The alarm becomes a signal. -/
def Task.ring (jiffies : BitVec 32) (tk : Task) : Task :=
  if tk.expired jiffies then { tk with signal := tk.signal ||| bit sigalrm, alarm := 0 } else tk

/-- The test on the masks, and the state. -/
def Task.wake (tk : Task) : Task :=
  if tk.signal &&& (blockable &&& ~~~tk.blocked) != 0 && tk.state == .interruptible then { tk with state := .running }
  else tk

/-- The loop, from entry `n` down to entry 1. -/
def checkSignals (jiffies : BitVec 32) : Nat → Table → Table
  | 0, task => task
  | n + 1, task =>
    if h : 0 < n ∧ n < 64 then
      checkSignals jiffies n (Function.update task ⟨n, h.2⟩ ((task ⟨n, h.2⟩).map fun tk => (tk.ring jiffies).wake))
    else checkSignals jiffies n task

/-- The loop of `schedule`, from `LAST_TASK` on. -/
def firstLoop (jiffies : BitVec 32) (task : Table) : Table := checkSignals jiffies 64 task

/-! ## What the loop comes to -/

theorem checkSignals_apply (jiffies : BitVec 32) (n : Nat) (task : Table) (i : Fin 64) :
    checkSignals jiffies n task i =
      if 0 < i.val ∧ i.val < n then (task i).map fun tk => (tk.ring jiffies).wake else task i := by
  induction n generalizing task with
  | zero => rw [checkSignals, if_neg (by omega)]
  | succ n ih =>
    rw [checkSignals]
    split
    · rename_i h
      rw [ih]
      by_cases hi : i = ⟨n, h.2⟩
      · subst hi
        rw [if_neg (by simp), if_pos ⟨h.1, Nat.lt_succ_self n⟩, Function.update_self]
      · have hne : i.val ≠ n := fun e => hi (Fin.ext e)
        rw [Function.update_of_ne hi]
        congr 1
        exact propext ⟨fun h => ⟨h.1, by omega⟩, fun h => ⟨h.1, by omega⟩⟩
    · rename_i h
      rw [ih]
      have hi := i.isLt
      congr 1
      exact propext ⟨fun h' => ⟨h'.1, by omega⟩, fun h' => ⟨h'.1, by omega⟩⟩

/-- Each entry but the first is treated by itself. -/
theorem firstLoop_apply (jiffies : BitVec 32) (task : Table) (i : Fin 64) :
    firstLoop jiffies task i = if i = 0 then task i else (task i).map fun tk => (tk.ring jiffies).wake := by
  rw [firstLoop, checkSignals_apply]
  by_cases hi : i = 0
  · subst hi
    rfl
  · have hpos : 0 < i.val := Nat.pos_of_ne_zero fun e => hi (Fin.ext e)
    rw [if_pos ⟨hpos, i.isLt⟩, if_neg hi]

theorem Task.ring_state (jiffies : BitVec 32) (tk : Task) : (tk.ring jiffies).state = tk.state := by
  unfold Task.ring
  split <;> rfl

theorem Task.ring_blocked (jiffies : BitVec 32) (tk : Task) : (tk.ring jiffies).blocked = tk.blocked := by
  unfold Task.ring
  split <;> rfl

/-- The signals pending when the masks are tested. -/
def Task.pending (jiffies : BitVec 32) (tk : Task) (n : Nat) : Bool :=
  tk.signal.getLsbD n || (tk.expired jiffies && decide (n = sigalrm))

theorem Task.ring_signal (jiffies : BitVec 32) (tk : Task) (n : Nat) :
    (tk.ring jiffies).signal.getLsbD n = tk.pending jiffies n := by
  unfold Task.ring Task.pending
  split
  · rename_i h
    rw [h, Bool.true_and, BitVec.getLsbD_or, bit, BitVec.getLsbD_twoPow]
    congr 1
    rw [Bool.eq_iff_iff]
    simp only [Bool.and_eq_true, decide_eq_true_eq]
    constructor
    · intro h'
      exact h'.2.symm
    · intro h'
      subst h'
      decide
  · rename_i h
    rw [Bool.eq_false_iff.2 h, Bool.false_and, Bool.or_false]

theorem blockable_getLsbD : ∀ n < 32, blockable.getLsbD n = decide (n ≠ sigkill ∧ n ≠ sigstop) := by
  decide

/-- A mask with a bit is not 0. -/
theorem ne_zero_iff_getLsbD (x : BitVec 32) : x ≠ 0 ↔ ∃ n, n < 32 ∧ x.getLsbD n = true := by
  constructor
  · intro h
    by_contra hno
    apply h
    apply BitVec.eq_of_getLsbD_eq
    intro n hn
    have hx : x.getLsbD n = false := Bool.eq_false_iff.2 fun hx => hno ⟨n, hn, hx⟩
    rw [hx]
    exact BitVec.getLsbD_zero.symm
  · intro h e
    obtain ⟨n, -, hx⟩ := h
    subst e
    simp at hx

/-- The code's test: a signal that is pending, not blocked, and none of the two that cannot be blocked. -/
theorem Task.masks_iff (tk : Task) : tk.signal &&& (blockable &&& ~~~tk.blocked) ≠ 0 ↔
    ∃ n, n < 32 ∧ tk.signal.getLsbD n = true ∧ tk.blocked.getLsbD n = false ∧ n ≠ sigkill ∧ n ≠ sigstop := by
  rw [ne_zero_iff_getLsbD]
  refine exists_congr fun n => and_congr_right fun hn => ?_
  rw [BitVec.getLsbD_and, BitVec.getLsbD_and, blockable_getLsbD n hn, BitVec.getLsbD_not, decide_eq_true hn]
  simp only [Bool.and_eq_true, decide_eq_true_eq, Bool.true_and, Bool.not_eq_true']
  constructor
  · intro h
    exact ⟨h.1, h.2.2, h.2.1.1, h.2.1.2⟩
  · intro h
    exact ⟨h.1, ⟨h.2.2.1, h.2.2.2⟩, h.2.1⟩

theorem Task.wake_running (tk : Task) (h : tk.state = .interruptible) :
    tk.wake.state = .running ↔ tk.signal &&& (blockable &&& ~~~tk.blocked) ≠ 0 := by
  unfold Task.wake
  split
  · rename_i hm
    rw [Bool.and_eq_true, bne_iff_ne] at hm
    exact ⟨fun _ => hm.1, fun _ => rfl⟩
  · rename_i hm
    rw [h]
    refine ⟨fun e => (by cases e), fun hne => absurd ?_ hm⟩
    rw [Bool.and_eq_true, bne_iff_ne]
    exact ⟨hne, by rw [h]; rfl⟩

theorem Task.wake_other (tk : Task) (h : tk.state ≠ .interruptible) : tk.wake.state = tk.state := by
  unfold Task.wake
  rw [if_neg]
  rw [Bool.and_eq_true, beq_iff_eq]
  exact fun hm => h hm.2

/-! ## The signalled sleepers -/

/-- No sleeper has one of the two signals that cannot be blocked. -/
def noneUnblockable (task : Table) : Prop :=
  ∀ i tk, i ≠ 0 → task i = some tk → tk.state = .interruptible →
    tk.signal.getLsbD sigkill = false ∧ tk.signal.getLsbD sigstop = false

/-- A task asleep with `SIGINT`, and one with `SIGALRM` due and blocked. -/
def twoAsleep : Table := fun i =>
  if i = 1 then some { state := .interruptible, signal := bit 1, blocked := 0, alarm := 0 }
  else if i = 2 then some { state := .interruptible, signal := 0, blocked := bit sigalrm, alarm := 5 }
  else none

end Linux011.Kernel.Schedule
