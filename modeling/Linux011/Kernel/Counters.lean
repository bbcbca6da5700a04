/-
The second loop of `schedule`: the runnable task with the largest counter, and
new counters when all of them are used up.

A counter goes down with the ticks of its task, never below 0, and is
renewed as half of itself and the priority. While priorities stay below 2^30 that is no
overflow. But `sys_nice` takes any increment, and a task can give itself the largest
priority; then its next counter is negative, and it is passed over.
-/
import Linux011.Kernel.Schedule
import Linux011.Lib.Run
import Mathlib.Tactic.Common

namespace Linux011.Kernel.Counters

open Schedule (TaskState)

/-- What `schedule` reads of a task. -/
structure Task extends Schedule.Task where
  counter : Int
  priority : Int
  deriving DecidableEq

/-- `task[]`. -/
abbrev Table := Fin 64 → Option Task

/-- A `long`. -/
def long (x : Int) : Int := x.bmod 4294967296

/-! ## schedule -/

/-- The first loop of `schedule`. -/
def wakeSignalled (jiffies : BitVec 32) (task : Table) (i : Fin 64) : Option Task :=
  if i = 0 then task i else (task i).map fun tk => { tk with toTask := (tk.toTask.ring jiffies).wake }

/-- The test on entry `i`: `c` and `next`. -/
def test (task : Table) (i : Fin 64) (r : Int × Fin 64) : Int × Fin 64 :=
  match task i with
  | none => r
  | some tk => if tk.state = .running ∧ r.1 < tk.counter then (tk.counter, i) else r

theorem lt_entries (n : Nat) (h : 0 < n ∧ n < 64) : n < 64 := h.2

/-- The search for the largest counter, from entry `n - 1` down to entry 1. -/
def find (task : Table) : Nat → Int × Fin 64 → Int × Fin 64
  | 0, r => r
  | n + 1, r => if h : 0 < n ∧ n < 64 then find task n (test task ⟨n, lt_entries n h⟩ r) else find task n r

/-- The new counters. Task 0 keeps its own. -/
def recalculate (task : Table) (i : Fin 64) : Option Task :=
  if i = 0 then task i else (task i).map fun tk => { tk with counter := long (tk.counter / 2 + tk.priority) }

/-- The `while (1)` loop, in at most `n` turns: the table and `next`. -/
def choose : Nat → Table → Option (Table × Fin 64)
  | 0, _ => none
  | n + 1, task =>
    let r := find task 64 (-1, 0)
    if r.1 ≠ 0 then some (task, r.2) else choose n (recalculate task)

structure Sys where
  task : Table
  current : Fin 64
  jiffies : BitVec 32

def schedule (n : Nat) (s : Sys) : Option Sys :=
  (choose n (wakeSignalled s.jiffies s.task)).map fun r => { s with task := r.1, current := r.2 }

/-! ## What leads to it -/

inductive Op
  /-- The child gets entry `nr`. -/
  | fork (nr : Fin 64)
  | tick (cpl : Bool)
  | sleepOn (interruptible : Bool)
  | pause
  /-- `wake_up` of the queue in which task `i` waits. -/
  | wakeUp (i : Fin 64)
  /-- The test on `state` and `counter` behind a system call. -/
  | retFromSysCall
  | nice (increment : BitVec 32)
  | sendSig (i : Fin 64) (signal : BitVec 32)
  | setMask (blocked : BitVec 32)
  | setAlarm (alarm : BitVec 32)

/-- A change of one task. -/
def Sys.set (s : Sys) (i : Fin 64) (tk : Task) : Sys := { s with task := Function.update s.task i (some tk) }

/-- What is done up to the call of `schedule`, and whether there is one. Task 0 cannot sleep: it is in no queue. -/
def act (s : Sys) : Op → Option (Sys × Bool)
  | .fork nr =>
    (s.task s.current).bind fun tk =>
      if nr = 0 ∨ (s.task nr).isSome then none
      else some (s.set nr { tk with state := .running, counter := tk.priority, signal := 0, alarm := 0 }, false)
  | .tick cpl =>
    (s.task s.current).map fun tk =>
      let s := { s with jiffies := s.jiffies + 1 }
      if 0 < long (tk.counter - 1) then (s.set s.current { tk with counter := long (tk.counter - 1) }, false)
      else (s.set s.current { tk with counter := 0 }, cpl)
  | .sleepOn interruptible =>
    (s.task s.current).bind fun tk =>
      if s.current = 0 then none
      else some (s.set s.current { tk with state := if interruptible then .interruptible else .uninterruptible }, true)
  | .pause => (s.task s.current).map fun tk => (s.set s.current { tk with state := .interruptible }, true)
  | .wakeUp i => (s.task i).bind fun tk => if i = 0 then none else some (s.set i { tk with state := .running }, false)
  | .retFromSysCall => (s.task s.current).map fun tk => (s, tk.state != .running || tk.counter == 0)
  | .nice increment =>
    (s.task s.current).map fun tk =>
      let priority := long (tk.priority - increment.toInt)
      (if 0 < priority then s.set s.current { tk with priority := priority } else s, false)
  | .sendSig i signal => (s.task i).map fun tk => (s.set i { tk with signal := tk.signal ||| signal }, false)
  | .setMask blocked => (s.task s.current).map fun tk => (s.set s.current { tk with blocked := blocked }, false)
  | .setAlarm alarm => (s.task s.current).map fun tk => (s.set s.current { tk with alarm := alarm }, false)

/-- A step with at most `n` turns of the loop. -/
def stepIn (n : Nat) (s : Sys) (o : Op) : Option Sys :=
  (act s o).bind fun r => if r.2 then schedule n r.1 else some r.1

def Step (s : Sys) (o : Op) (s' : Sys) : Prop := ∃ n, stepIn n s o = some s'

/-- `INIT_TASK`. -/
def boot : Sys where
  task i :=
    if i = 0 then some { state := .running, signal := 0, blocked := 0, alarm := 0, counter := 15, priority := 15 } else none
  current := 0
  jiffies := 0

/-- The largest priority with which counters do not overflow. -/
def maxPriority : Int := 1073741823

/-- No priority above it. -/
def modest (s : Sys) : Op → Prop
  | .nice increment => ∀ tk ∈ s.task s.current, tk.priority - increment.toInt ≤ maxPriority
  | _ => True

instance (s : Sys) : (o : Op) → Decidable (modest s o)
  | .nice increment =>
    inferInstanceAs (Decidable (∀ tk ∈ s.task s.current, tk.priority - increment.toInt ≤ maxPriority))
  | .fork _ | .tick _ | .sleepOn _ | .pause | .wakeUp _ | .retFromSysCall | .sendSig _ _ | .setMask _ | .setAlarm _ =>
    inferInstanceAs (Decidable True)

/-! ## The search -/

theorem long_eq {x : Int} (h0 : -2147483648 ≤ x) (h1 : x < 2147483648) : long x = x := by
  unfold long
  rw [Int.bmod_eq_emod]
  split <;> omega

/-- `r` is entry `r.2` of the table, running, with counter `r.1`. -/
def Runs (task : Table) (r : Int × Fin 64) : Prop :=
  r.2 ≠ 0 ∧ ∃ tk, task r.2 = some tk ∧ tk.state = .running ∧ tk.counter = r.1

theorem test_eq (task : Table) (i : Fin 64) (r : Int × Fin 64) (hi : i ≠ 0) :
    r.1 ≤ (test task i r).1 ∧
      (∀ tk, task i = some tk → tk.state = .running → tk.counter ≤ (test task i r).1) ∧
      (test task i r = r ∨ Runs task (test task i r)) := by
  unfold test
  split
  · rename_i hnone
    refine ⟨Int.le_refl _, fun tk htk => ?_, .inl rfl⟩
    rw [hnone] at htk
    cases htk
  · rename_i tk hsome
    split <;> rename_i hc
    · refine ⟨Int.le_of_lt hc.2, fun tk' htk' _ => ?_, .inr ⟨hi, tk, hsome, hc.1, rfl⟩⟩
      obtain rfl : tk = tk' := Option.some.inj (hsome.symm.trans htk')
      exact Int.le_refl _
    · refine ⟨Int.le_refl _, fun tk' htk' hrun => ?_, .inl rfl⟩
      obtain rfl : tk = tk' := Option.some.inj (hsome.symm.trans htk')
      exact Int.not_lt.1 fun hlt => hc ⟨hrun, hlt⟩

/-- What the search comes to from `c` and `next` on: a running task, or nothing new, and no counter is larger. -/
structure Found (task : Table) (n : Nat) (r r' : Int × Fin 64) : Prop where
  le : r.1 ≤ r'.1
  best : ∀ i tk, i ≠ 0 → i.val < n → task i = some tk → tk.state = .running → tk.counter ≤ r'.1
  runs : r' = r ∨ Runs task r'

theorem find_spec (task : Table) (n : Nat) (r : Int × Fin 64) : Found task n r (find task n r) := by
  induction n generalizing r with
  | zero => exact ⟨Int.le_refl _, fun i _ _ hi => absurd hi (Nat.not_lt_zero _), .inl rfl⟩
  | succ n ih =>
    rw [find]
    split
    · rename_i h
      have hn : (⟨n, h.2⟩ : Fin 64) ≠ 0 := fun e => h.1.ne' (congrArg Fin.val e)
      obtain ⟨hle, hbest, hruns⟩ := test_eq task ⟨n, h.2⟩ r hn
      have hf := ih (test task ⟨n, h.2⟩ r)
      refine ⟨Int.le_trans hle hf.le, fun i tk h0 hi htk hrun => ?_, ?_⟩
      · by_cases hne : i.val = n
        · obtain rfl : i = ⟨n, h.2⟩ := Fin.ext hne
          exact Int.le_trans (hbest tk htk hrun) hf.le
        · exact hf.best i tk h0 (by omega) htk hrun
      · rcases hf.runs with he | hr
        · rw [he]
          exact hruns
        · exact .inr hr
    · rename_i h
      have hf := ih r
      refine ⟨hf.le, fun i tk h0 hi htk => ?_, hf.runs⟩
      have hpos : 0 < i.val := Nat.pos_of_ne_zero fun e => h0 (Fin.ext e)
      exact hf.best i tk h0 (by omega) htk

/-! ## Bounds -/

/-- The range in which nothing overflows. -/
structure Task.Ok (tk : Task) : Prop where
  nonneg : 0 ≤ tk.counter
  le : tk.counter ≤ 2 * maxPriority
  priority_pos : 0 < tk.priority
  priority_le : tk.priority ≤ maxPriority

/-- The table when `schedule` is called: what is left of task 0, it has used or it sleeps. -/
structure Table.Ok (task : Table) : Prop where
  ok : ∀ i tk, task i = some tk → tk.Ok
  idle : ∀ tk, task 0 = some tk → tk.state = .running → tk.counter = 0

structure Sys.Ok (s : Sys) : Prop where
  ok : ∀ i tk, s.task i = some tk → tk.Ok
  idle : s.current ≠ 0 → ∀ tk, s.task 0 = some tk → tk.state = .running → tk.counter = 0

theorem wakeSignalled_zero (jiffies : BitVec 32) (task : Table) : wakeSignalled jiffies task 0 = task 0 := if_pos rfl

theorem recalculate_zero (task : Table) : recalculate task 0 = task 0 := if_pos rfl

theorem Table.Ok.of_wakeSignalled {task : Table} (h : task.Ok) (jiffies : BitVec 32) :
    Table.Ok (wakeSignalled jiffies task) := by
  refine ⟨fun i tk htk => ?_, fun tk htk => h.idle tk (wakeSignalled_zero jiffies task ▸ htk)⟩
  unfold wakeSignalled at htk
  split at htk
  · exact h.ok i tk htk
  · obtain ⟨tk', htk', he⟩ := Option.map_eq_some_iff.1 htk
    have hok := h.ok i tk' htk'
    rw [← he]
    exact ⟨hok.nonneg, hok.le, hok.priority_pos, hok.priority_le⟩

theorem Task.Ok.recalculated {tk : Task} (h : tk.Ok) :
    long (tk.counter / 2 + tk.priority) = tk.counter / 2 + tk.priority := by
  have h1 := h.nonneg
  have h2 := h.le
  have h3 := h.priority_pos
  have h4 := h.priority_le
  unfold maxPriority at h2 h4
  exact long_eq (by omega) (by omega)

/-- The new counter of a task. -/
theorem Table.Ok.recalculate_some {task : Table} (h : task.Ok) {i : Fin 64} (hi : i ≠ 0) {tk : Task}
    (htk : recalculate task i = some tk) :
    ∃ tk', task i = some tk' ∧ tk = { tk' with counter := tk'.counter / 2 + tk'.priority } := by
  rw [recalculate, if_neg hi] at htk
  obtain ⟨tk', htk', he⟩ := Option.map_eq_some_iff.1 htk
  rw [(h.ok i tk' htk').recalculated] at he
  exact ⟨tk', htk', he.symm⟩

theorem Table.Ok.of_recalculate {task : Table} (h : task.Ok) : Table.Ok (recalculate task) := by
  refine ⟨fun i tk htk => ?_, fun tk htk => h.idle tk (recalculate_zero task ▸ htk)⟩
  by_cases hi : i = 0
  · subst hi
    exact h.ok 0 tk (recalculate_zero task ▸ htk)
  · obtain ⟨tk', htk', rfl⟩ := h.recalculate_some hi htk
    have hok := h.ok i tk' htk'
    have h1 := hok.nonneg
    have h2 := hok.le
    have h3 := hok.priority_pos
    have h4 := hok.priority_le
    refine ⟨?_, ?_, h3, h4⟩
    · change 0 ≤ tk'.counter / 2 + tk'.priority
      omega
    · change tk'.counter / 2 + tk'.priority ≤ 2 * maxPriority
      omega

/-! ## The loop ends -/

/-- What the loop is to find. -/
structure Chosen (task : Table) (next : Fin 64) : Prop where
  idle : next = 0 → ∀ i tk, i ≠ 0 → task i = some tk → tk.state ≠ .running
  best : next ≠ 0 → ∃ tk, task next = some tk ∧ tk.state = .running ∧
    ∀ i tk', task i = some tk' → tk'.state = .running → tk'.counter ≤ tk.counter

/-- What the search finds, were it with counter 0. -/
theorem Table.Ok.chosen {task : Table} (h : task.Ok) : Chosen task (find task 64 (-1, 0)).2 := by
  have hf := find_spec task 64 (-1, 0)
  refine ⟨fun h0 i tk hi htk hrun => ?_, fun hne => ?_⟩
  · rcases hf.runs with he | hr
    · have h1 := hf.best i tk hi i.isLt htk hrun
      have h2 := (h.ok i tk htk).nonneg
      rw [he] at h1
      change tk.counter ≤ -1 at h1
      omega
    · exact hr.1 h0
  · rcases hf.runs with he | ⟨_, tk, htk, hrun, hcount⟩
    · rw [he] at hne
      exact absurd rfl hne
    · refine ⟨tk, htk, hrun, fun i tk' htk' hrun' => ?_⟩
      by_cases hi : i = 0
      · subst hi
        rw [h.idle tk' htk' hrun']
        exact (h.ok _ tk htk).nonneg
      · rw [hcount]
        exact hf.best i tk' hi i.isLt htk' hrun'

/-- After new counters the search does not come out at 0. -/
theorem Table.Ok.find_recalculate {task : Table} (h : task.Ok) : (find (recalculate task) 64 (-1, 0)).1 ≠ 0 := by
  have hf := find_spec (recalculate task) 64 (-1, 0)
  rcases hf.runs with he | ⟨hne, tk, htk, _, hcount⟩
  · rw [he]
    decide
  · rw [← hcount]
    obtain ⟨tk', htk', rfl⟩ := h.recalculate_some hne htk
    have h1 := (h.ok _ tk' htk').nonneg
    have h3 := (h.ok _ tk' htk').priority_pos
    change tk'.counter / 2 + tk'.priority ≠ 0
    omega

theorem choose_eq_ite (n : Nat) (task : Table) :
    choose (n + 1) task =
      if (find task 64 (-1, 0)).1 ≠ 0 then some (task, (find task 64 (-1, 0)).2) else choose n (recalculate task) := rfl

/-- At most one time new counters. -/
theorem Table.Ok.choose_two {task : Table} (h : task.Ok) :
    ∃ task' next, choose 2 task = some (task', next) ∧ task'.Ok ∧ Chosen task' next ∧ task' 0 = task 0 := by
  by_cases hc : (find task 64 (-1, 0)).1 ≠ 0
  · exact ⟨task, _, by rw [choose_eq_ite, if_pos hc], h, h.chosen, rfl⟩
  · refine ⟨recalculate task, _, ?_, h.of_recalculate, h.of_recalculate.chosen,
      recalculate_zero task⟩
    rw [choose_eq_ite, if_neg hc, choose_eq_ite, if_pos h.find_recalculate]

theorem choose_succ {n : Nat} {task : Table} {r : Table × Fin 64} (h : choose n task = some r) :
    choose (n + 1) task = some r := by
  induction n generalizing task with
  | zero => cases h
  | succ n ih =>
    rw [choose_eq_ite] at h ⊢
    split
    · rename_i hc
      rwa [if_pos hc] at h
    · rename_i hc
      rw [if_neg hc] at h
      exact ih h

theorem choose_mono {n m : Nat} (hnm : n ≤ m) {task : Table} {r : Table × Fin 64} (h : choose n task = some r) :
    choose m task = some r := by
  induction hnm with
  | refl => exact h
  | step _ ih => exact choose_succ ih

/-- However many turns are allowed, two do. -/
theorem choose_eq {n : Nat} {task : Table} {r r' : Table × Fin 64} (h : choose n task = some r)
    (h' : choose 2 task = some r') : r = r' :=
  Option.some.inj ((choose_mono (Nat.le_max_left n 2) h).symm.trans (choose_mono (Nat.le_max_right n 2) h'))

/-! ## Runs -/

/-- `schedule` from a table in range. -/
theorem schedule_spec {s : Sys} (h : s.task.Ok) :
    ∃ s', schedule 2 s = some s' ∧ s'.Ok ∧ Chosen s'.task s'.current := by
  obtain ⟨task', next, he, hok, hch, _⟩ := (h.of_wakeSignalled s.jiffies).choose_two
  refine ⟨{ s with task := task', current := next }, ?_, ⟨hok.ok, fun _ => hok.idle⟩, hch⟩
  rw [schedule, he]
  rfl

theorem schedule_eq {n : Nat} {s s' s'' : Sys} (h : schedule n s = some s') (h' : schedule 2 s = some s'') :
    s' = s'' := by
  obtain ⟨r, hr, rfl⟩ := Option.map_eq_some_iff.1 h
  obtain ⟨r', hr', rfl⟩ := Option.map_eq_some_iff.1 h'
  rw [choose_eq hr hr']

theorem Sys.set_self (s : Sys) (i : Fin 64) (tk : Task) : (s.set i tk).task i = some tk := Function.update_self i _ _

theorem Sys.set_of_ne (s : Sys) {i j : Fin 64} (tk : Task) (h : j ≠ i) : (s.set i tk).task j = s.task j :=
  Function.update_of_ne h _ _

/-- A change of one task that keeps the range, and of task 0 only what it may change. -/
theorem Sys.Ok.set {s : Sys} (h : s.Ok) {i : Fin 64} {tk : Task} (htk : tk.Ok)
    (hidle : i = 0 → s.current ≠ 0 → tk.state = .running → tk.counter = 0) : (s.set i tk).Ok := by
  refine ⟨fun j tk' hj => ?_, fun hc tk' hj hrun => ?_⟩
  · by_cases hji : j = i
    · subst hji
      rw [Sys.set_self] at hj
      cases hj
      exact htk
    · rw [Sys.set_of_ne _ _ hji] at hj
      exact h.ok j tk' hj
  · by_cases hi : (0 : Fin 64) = i
    · subst hi
      rw [Sys.set_self] at hj
      cases hj
      exact hidle rfl hc hrun
    · rw [Sys.set_of_ne _ _ hi] at hj
      exact h.idle hc tk' hj hrun

/-- Before `schedule` is called, task 0 has nothing left. -/
theorem Sys.Ok.table {s : Sys} (h : s.Ok)
    (h0 : s.current = 0 → ∀ tk, s.task 0 = some tk → tk.state = .running → tk.counter = 0) : s.task.Ok := by
  refine ⟨h.ok, ?_⟩
  by_cases hc : s.current = 0
  · exact h0 hc
  · exact h.idle hc

theorem Sys.Ok.table_set {s : Sys} {tk : Task} (h : (s.set s.current tk).Ok)
    (h0 : s.current = 0 → tk.state = .running → tk.counter = 0) : (s.set s.current tk).task.Ok := by
  refine h.table fun hc tk' htk' => ?_
  change s.current = 0 at hc
  rw [hc, Sys.set_self] at htk'
  cases htk'
  exact h0 hc

theorem act_ok {s s₁ : Sys} {o : Op} {call : Bool} (h : s.Ok) (hmod : modest s o) (ha : act s o = some (s₁, call)) :
    s₁.Ok ∧ (call = true → s₁.task.Ok) := by
  -- a change that keeps counter and priority keeps the range
  have same {i : Fin 64} {tk tk' : Task} (htk : s.task i = some tk) (hc : tk'.counter = tk.counter)
      (hp : tk'.priority = tk.priority) : tk'.Ok := by
    have hok := h.ok i tk htk
    exact ⟨hc ▸ hok.nonneg, hc ▸ hok.le, hp ▸ hok.priority_pos, hp ▸ hok.priority_le⟩
  cases o with
  | fork nr =>
    obtain ⟨tk, htk, he⟩ := Option.bind_eq_some_iff.1 ha
    split at he
    · cases he
    · rename_i hnr
      cases he
      have hok := h.ok _ tk htk
      have hp := hok.priority_pos
      have hle := hok.priority_le
      refine ⟨h.set ⟨Int.le_of_lt hp, ?_, hp, hle⟩ fun e => absurd (.inl e) hnr, fun hcall => nomatch hcall⟩
      change tk.priority ≤ 2 * maxPriority
      unfold maxPriority at hle ⊢
      omega
  | tick cpl =>
    obtain ⟨tk, htk, he⟩ := Option.map_eq_some_iff.1 ha
    have hok := h.ok _ tk htk
    have h1 := hok.nonneg
    have h2 := hok.le
    have hs : ({ s with jiffies := s.jiffies + 1 } : Sys).Ok := ⟨h.ok, h.idle⟩
    dsimp only at he
    split at he
    · rename_i hpos
      cases he
      have hlong : long (tk.counter - 1) = tk.counter - 1 := by
        unfold maxPriority at h2
        exact long_eq (by omega) (by omega)
      refine ⟨hs.set ⟨Int.le_of_lt hpos, ?_, hok.priority_pos, hok.priority_le⟩ fun e hc => absurd e hc,
        fun hcall => nomatch hcall⟩
      change long (tk.counter - 1) ≤ _
      omega
    · cases he
      have hs' : (Sys.set { s with jiffies := s.jiffies + 1 } s.current { tk with counter := 0 }).Ok :=
        hs.set ⟨Int.le_refl 0, (by decide : (0 : Int) ≤ 2 * maxPriority), hok.priority_pos, hok.priority_le⟩ fun _ _ _ => rfl
      exact ⟨hs', fun _ => hs'.table_set fun _ _ => rfl⟩
  | sleepOn interruptible =>
    obtain ⟨tk, htk, he⟩ := Option.bind_eq_some_iff.1 ha
    split at he
    · cases he
    · rename_i hc
      cases he
      have hs' : (s.set s.current { tk with state := if interruptible then .interruptible else .uninterruptible }).Ok :=
        h.set (same htk rfl rfl) fun e => absurd e hc
      exact ⟨hs', fun _ => hs'.table_set fun e => absurd e hc⟩
  | pause =>
    obtain ⟨tk, htk, he⟩ := Option.map_eq_some_iff.1 ha
    cases he
    have hs' : (s.set s.current { tk with state := .interruptible }).Ok :=
      h.set (same htk rfl rfl) fun _ _ hrun => nomatch hrun
    exact ⟨hs', fun _ => hs'.table_set fun _ hrun => nomatch hrun⟩
  | wakeUp i =>
    obtain ⟨tk, htk, he⟩ := Option.bind_eq_some_iff.1 ha
    split at he
    · cases he
    · rename_i hi
      cases he
      exact ⟨h.set (same htk rfl rfl) fun e => absurd e hi, fun hcall => nomatch hcall⟩
  | retFromSysCall =>
    obtain ⟨tk, htk, he⟩ := Option.map_eq_some_iff.1 ha
    cases he
    refine ⟨h, fun hcall => h.table fun hc tk' htk' hrun => ?_⟩
    obtain rfl : tk = tk' := by
      rw [hc] at htk
      exact Option.some.inj (htk.symm.trans htk')
    simpa [hrun] using hcall
  | nice increment =>
    obtain ⟨tk, htk, he⟩ := Option.map_eq_some_iff.1 ha
    have hok := h.ok _ tk htk
    have hle : tk.priority - increment.toInt ≤ maxPriority := hmod tk htk
    have hpos := hok.priority_pos
    have hinc := BitVec.toInt_lt (x := increment)
    have hlong : long (tk.priority - increment.toInt) = tk.priority - increment.toInt := by
      unfold maxPriority at hle
      exact long_eq (by omega) (by omega)
    cases he
    refine ⟨?_, fun hcall => nomatch hcall⟩
    split
    · rename_i hnew
      refine h.set ⟨hok.nonneg, hok.le, hnew, ?_⟩ fun e hc => absurd e hc
      rw [hlong]
      exact hle
    · exact h
  | sendSig i signal =>
    obtain ⟨tk, htk, he⟩ := Option.map_eq_some_iff.1 ha
    cases he
    exact ⟨h.set (same htk rfl rfl) fun e hc hrun => h.idle hc tk (e ▸ htk) hrun, fun hcall => nomatch hcall⟩
  | setMask blocked =>
    obtain ⟨tk, htk, he⟩ := Option.map_eq_some_iff.1 ha
    cases he
    exact ⟨h.set (same htk rfl rfl) fun e hc => absurd e hc, fun hcall => nomatch hcall⟩
  | setAlarm alarm =>
    obtain ⟨tk, htk, he⟩ := Option.map_eq_some_iff.1 ha
    cases he
    exact ⟨h.set (same htk rfl rfl) fun e hc => absurd e hc, fun hcall => nomatch hcall⟩

/-- A step ends, with at most one time new counters where `schedule` is called. -/
theorem stepIn_two {s s₁ : Sys} {o : Op} (h : s.Ok) (hmod : modest s o) (ha : act s o = some (s₁, true)) :
    ∃ s', schedule 2 s₁ = some s' ∧ s'.Ok ∧ Chosen s'.task s'.current :=
  schedule_spec ((act_ok h hmod ha).2 rfl)

theorem step_ok {s s' : Sys} {o : Op} (h : s.Ok) (hmod : modest s o) (hst : Step s o s') : s'.Ok := by
  obtain ⟨n, hn⟩ := hst
  obtain ⟨⟨s₁, call⟩, ha, hs⟩ := Option.bind_eq_some_iff.1 hn
  cases call with
  | false =>
    cases hs
    exact (act_ok h hmod ha).1
  | true =>
    obtain ⟨s₂, h₂, hok, _⟩ := stepIn_two h hmod ha
    exact schedule_eq hs h₂ ▸ hok

theorem boot_ok : boot.Ok := by
  refine ⟨fun i tk htk => ?_, fun hc => absurd rfl hc⟩
  change (if i = 0 then _ else none) = some tk at htk
  split at htk
  · cases htk
    exact ⟨by decide, by decide, by decide, by decide⟩
  · cases htk

/-- With no priority above 2^30 no counter is negative, and each call of `schedule` ends, with new counters at
most once, at a running task with the largest counter, or at task 0 when no other is running. -/
theorem schedule_picks_running {s : Sys} (h : Run.Reaches (Run.Under modest Step) boot s) :
    (∀ i tk, s.task i = some tk → 0 ≤ tk.counter) ∧
      ∀ o s₁, act s o = some (s₁, true) → ∃ s', schedule 2 s₁ = some s' ∧ Chosen s'.task s'.current := by
  have hok : s.Ok := h.invariant (I := Sys.Ok) (fun _ _ _ hok hst => step_ok hok hst.1 hst.2) boot_ok
  refine ⟨fun i tk htk => (hok.ok i tk htk).nonneg, fun o s₁ ha => ?_⟩
  have hmod : modest s o := by
    cases o with
    | nice increment =>
      -- `sys_nice` does not call `schedule`
      obtain ⟨tk, _, he⟩ := Option.map_eq_some_iff.1 ha
      cases he
    | _ => trivial
  obtain ⟨s', hs', _, hch⟩ := stepIn_two hok hmod ha
  exact ⟨s', hs', hch⟩

/-- Task 1 gives itself priority 20 and sleeps, and task 2 uses up its time: it is chosen again, with a new counter. -/
theorem schedule_picks_running_nice : ∃ s s', Run.Reaches (Run.Under modest Step) boot s ∧
    (∀ i tk, s.task i = some tk → 0 ≤ tk.counter) ∧ schedule 2 s = some s' ∧ Chosen s'.task s'.current := by
  obtain ⟨s, hs, hp⟩ := Run.reaches_of_exec (fun s o => decide (modest s o)) (stepIn 2) boot
    ([.fork 1, .pause, .fork 2, .nice (-5), .sleepOn true] ++ List.replicate 14 (.tick true) ++ [.tick false])
    (fun s => (act s .retFromSysCall).any fun r => r.2) (by decide +kernel)
  have hrun : Run.Reaches (Run.Under modest Step) boot s :=
    hs.mono fun _ _ _ h => ⟨of_decide_eq_true h.1, 2, h.2⟩
  obtain ⟨hcounter, hch⟩ := schedule_picks_running hrun
  cases ha : act s .retFromSysCall with
  | none => simp [ha] at hp
  | some r =>
    obtain ⟨tk, _, he⟩ := Option.map_eq_some_iff.1 ha
    have hr : r = (s, true) := by
      rw [← he]
      simpa [ha, ← he] using hp
    obtain ⟨s', hs', hch'⟩ := hch .retFromSysCall s (hr ▸ ha)
    exact ⟨s, s', hrun, hcounter, hs', hch'⟩

/-- Task 1 gives itself the largest priority and sleeps while new counters are computed. Running again it is passed
over, and task 0 is chosen. -/
theorem largest_priority_starves : ∃ s tk, Run.Reaches Step boot s ∧ s.current = 0 ∧ s.task 1 = some tk ∧
    tk.state = .running ∧ tk.counter < 0 := by
  obtain ⟨s, hs, hp⟩ := Run.reaches_of_exec (fun _ _ => true) (stepIn 2) boot
    ([.fork 1, .pause, .fork 2, .nice (BitVec.ofInt 32 (-2147483632)), .sleepOn false] ++ List.replicate 15 (.tick true) ++
      [.wakeUp 1, .sleepOn false])
    (fun s => s.current = 0 ∧ ∃ tk ∈ s.task 1, tk.state = .running ∧ tk.counter < 0) (by decide +kernel)
  obtain ⟨hc, tk, htk, hrun, hneg⟩ := of_decide_eq_true hp
  exact ⟨s, tk, hs.mono fun _ _ _ h => ⟨2, h.2⟩, hc, htk, hrun, hneg⟩

end Linux011.Kernel.Counters
