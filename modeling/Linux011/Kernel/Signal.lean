/-
Signals: `signal.c`, and the part of `ret_from_sys_call` that delivers them.

A task's `blocked` is set by `sys_ssetmask`, which leaves SIGKILL out, and
added to by `do_signal`, which takes the mask of the action as the user gave
it to `sys_sigaction`. Signals are delivered on the way back to user mode, one
in each pass, the lowest number first. So what keeps SIGKILL deliverable is a
property of every mask ever installed, and how soon it ends a task depends on
the lower numbers posted meanwhile.
-/
import Linux011.Lib.Run
import Mathlib.Data.Finset.Card
import Mathlib.Data.Fintype.Basic
import Mathlib.Logic.Function.Basic

namespace Linux011.Kernel.Signal

/-- `struct sigaction`. -/
structure SigAction where
  handler : BitVec 32
  mask : BitVec 32
  flags : BitVec 32
  restorer : BitVec 32

/-- What `signal.c` uses of a task; `sigaction` has 32 entries, and a task that
went through `do_exit` has its code. -/
structure Task where
  signal : BitVec 32
  blocked : BitVec 32
  sigaction : Nat → SigAction
  exitCode : Option (BitVec 32)

/-- Bits and entries are numbered from 0: `SIGKILL-1`. -/
def sigkill : Nat := 8

/-- `SIGALRM-1`. -/
def sigalrm : Nat := 13

/-- `SIGCHLD-1`. -/
def sigchld : Nat := 16

/-- `SA_NOMASK`. -/
def saNomask : BitVec 32 := 0x40000000

/-- `SA_ONESHOT`. -/
def saOneshot : BitVec 32 := 0x80000000

/-- `1<<i`. -/
def bit (i : Nat) : BitVec 32 := BitVec.twoPow 32 i

@[simp] theorem getLsbD_bit (i j : Nat) : (bit i).getLsbD j = (decide (i < 32) && decide (i = j)) :=
  BitVec.getLsbD_twoPow i j

/-- Clearing one bit leaves the others. -/
theorem getLsbD_clear (x : BitVec 32) {i j : Nat} (hij : i ≠ j) : (x &&& ~~~bit i).getLsbD j = x.getLsbD j := by
  rw [BitVec.getLsbD_and, BitVec.getLsbD_not, getLsbD_bit]
  by_cases hj : j < 32
  · simp [hj, hij]
  · rw [BitVec.getLsbD_of_ge x j (Nat.le_of_not_lt hj), Bool.false_and]

/-- The entry a signal number names in `sys_signal` and `sys_sigaction`, which
refuse SIGKILL. -/
def entry (signum : Int) : Option Nat :=
  if signum < 1 ∨ signum > 32 ∨ signum = 9 then none else some (signum - 1).toNat

theorem entry_spec {signum : Int} {i : Nat} (h : entry signum = some i) : i < 32 ∧ i ≠ sigkill := by
  unfold entry at h
  split at h
  · cases h
  · obtain rfl := Option.some.inj h
    unfold sigkill
    omega

namespace Task

/-- `sys_ssetmask`; it returns the old mask. -/
def sysSsetmask (tk : Task) (newmask : BitVec 32) : Task × BitVec 32 :=
  ({ tk with blocked := newmask &&& ~~~bit sigkill }, tk.blocked)

def setAction (tk : Task) (i : Nat) (sa : SigAction) : Task :=
  { tk with sigaction := Function.update tk.sigaction i sa }

theorem setAction_apply (tk : Task) (i : Nat) (sa : SigAction) (j : Nat) :
    (tk.setAction i sa).sigaction j = if j = i then sa else tk.sigaction j :=
  Function.update_apply ..

/-- `sys_signal`: the old handler, or `none` for -1. -/
def sysSignal (tk : Task) (signum : Int) (handler restorer : BitVec 32) : Option (Task × BitVec 32) :=
  (entry signum).map fun i =>
    (tk.setAction i { handler := handler, mask := 0, flags := saOneshot ||| saNomask, restorer := restorer },
      (tk.sigaction i).handler)

/-- The mask `sys_sigaction` stores. -/
def actionMask (action : SigAction) (i : Nat) : BitVec 32 :=
  if action.flags &&& saNomask ≠ 0 then 0 else action.mask ||| bit i

/-- `sys_sigaction`: the old action, or `none` for -1. -/
def sysSigaction (tk : Task) (signum : Int) (action : SigAction) : Option (Task × SigAction) :=
  (entry signum).map fun i =>
    (tk.setAction i { action with mask := actionMask action i }, tk.sigaction i)

/-- What `do_execve` does to the actions: handlers other than SIG_IGN go. -/
def execve (tk : Task) : Task :=
  { tk with sigaction := fun i =>
      if (tk.sigaction i).handler ≠ 1 then { tk.sigaction i with handler := 0 } else tk.sigaction i }

/-- The child `copy_process` makes. -/
def fork (tk : Task) : Task := { tk with signal := 0 }

def doExit (tk : Task) (code : BitVec 32) : Task := { tk with exitCode := some code }

/-- `do_signal` of signal `i + 1`; the frame it puts on the user's stack is left out. -/
def doSignal (tk : Task) (i : Nat) : Task :=
  let sa := tk.sigaction i
  if sa.handler = 1 then tk
  else if sa.handler = 0 then
    if i = sigchld then tk else tk.doExit (bit i)
  else
    { tk.setAction i (if sa.flags &&& saOneshot ≠ 0 then { sa with handler := 0 } else sa) with
      blocked := tk.blocked ||| sa.mask }

/-- `bsfl`: the lowest bit set. -/
def bsf (x : BitVec 32) : Option Nat := (List.range 32).find? x.getLsbD

/-- `ret_from_sys_call` on the way to user mode. -/
def retFromSysCall (tk : Task) : Task :=
  match bsf (tk.signal &&& ~~~tk.blocked) with
  | none => tk
  | some i => { tk with signal := tk.signal &&& ~~~bit i }.doSignal i

end Task

/-! ## Runs -/

/-- `task[]`. -/
abbrev State := Fin 64 → Option Task

/-- `INIT_TASK`, and no other task. -/
def boot : State := fun t =>
  if t.val = 0 then some { signal := 0, blocked := 0, sigaction := fun _ => ⟨0, 0, 0, 0⟩, exitCode := none } else none

/-- What a task, or the kernel to a task, may do. -/
inductive Op
  | ssetmask (t : Fin 64) (newmask : BitVec 32)
  | signal (t : Fin 64) (signum : Int) (handler restorer : BitVec 32)
  | sigaction (t : Fin 64) (signum : Int) (action : SigAction)
  | execve (t : Fin 64)
  | fork (t nr : Fin 64)
  /-- `send_sig`, and the other places that set a bit of `signal`. -/
  | sendSig (t : Fin 64) (i : Nat)
  /-- `sys_waitpid` takes SIGCHLD back. -/
  | takeChild (t : Fin 64)
  /-- `tty_read` takes SIGALRM back. -/
  | takeAlarm (t : Fin 64)
  | ret (t : Fin 64)
  | exit (t : Fin 64) (code : BitVec 32)
  | release (t : Fin 64)

/-- A stretch of a task that has not exited. -/
def State.live (s : State) (t : Fin 64) (f : Task → Task) : Option State :=
  match s t with
  | some tk => if tk.exitCode.isSome then none else some (Function.update s t (some (f tk)))
  | none => none

def step (s : State) : Op → Option State
  | .ssetmask t newmask => s.live t fun tk => (tk.sysSsetmask newmask).1
  | .signal t signum handler restorer => s.live t fun tk => ((tk.sysSignal signum handler restorer).map Prod.fst).getD tk
  | .sigaction t signum action => s.live t fun tk => ((tk.sysSigaction signum action).map Prod.fst).getD tk
  | .execve t => s.live t Task.execve
  | .fork t nr =>
    match s t, s nr with
    | some tk, none => if tk.exitCode.isSome then none else some (Function.update s nr (some tk.fork))
    | _, _ => none
  | .sendSig t i => (s t).map fun tk => Function.update s t (some { tk with signal := tk.signal ||| bit i })
  | .takeChild t => s.live t fun tk => { tk with signal := tk.signal &&& ~~~bit sigchld }
  | .takeAlarm t => s.live t fun tk => { tk with signal := tk.signal &&& ~~~bit sigalrm }
  -- task[0] cannot have signals
  | .ret t => if t.val = 0 then some s else s.live t Task.retFromSysCall
  | .exit t code => s.live t fun tk => tk.doExit code
  | .release t =>
    match s t with
    | some tk => if tk.exitCode.isSome then some (Function.update s t none) else none
    | none => none

/-- An action that `sys_sigaction` accepts has no SIGKILL in its mask, or SA_NOMASK. -/
def sparesKill (_ : State) : Op → Bool
  | .sigaction _ signum action =>
    (entry signum).isNone || !action.mask.getLsbD sigkill || action.flags &&& saNomask != 0
  | _ => true

/-! ## SIGKILL stays deliverable -/

/-- SIGKILL is not blocked, no mask that may come to be added has it, and its action is the default. -/
structure Task.Killable (tk : Task) : Prop where
  blocked : tk.blocked.getLsbD sigkill = false
  handler : (tk.sigaction sigkill).handler = 0
  masks : ∀ i, (tk.sigaction i).mask.getLsbD sigkill = false

def State.Good (s : State) : Prop := ∀ t tk, s t = some tk → tk.Killable

theorem boot_good : boot.Good := by
  intro t tk h
  unfold boot at h
  split at h
  · obtain rfl := Option.some.inj h
    exact ⟨rfl, rfl, fun i => by simp⟩
  · cases h

namespace Task.Killable

variable {tk : Task}

/-- An entry other than SIGKILL's may hold any action whose mask spares SIGKILL. -/
theorem setAction (h : tk.Killable) {i : Nat} (hi : i ≠ sigkill) {sa : SigAction}
    (hsa : sa.mask.getLsbD sigkill = false) :
    (tk.setAction i sa).Killable where
  blocked := h.blocked
  handler := by
    rw [setAction_apply, if_neg hi.symm]
    exact h.handler
  masks j := by
    rw [setAction_apply]
    split
    · exact hsa
    · exact h.masks j

theorem setSignal (h : tk.Killable) (x : BitVec 32) : ({ tk with signal := x } : Task).Killable :=
  ⟨h.blocked, h.handler, h.masks⟩

theorem doExit (h : tk.Killable) (code : BitVec 32) : (tk.doExit code).Killable :=
  ⟨h.blocked, h.handler, h.masks⟩

theorem sysSsetmask (h : tk.Killable) (newmask : BitVec 32) : (tk.sysSsetmask newmask).1.Killable where
  blocked := by simp [Task.sysSsetmask, sigkill]
  handler := h.handler
  masks := h.masks

theorem sysSignal (h : tk.Killable) (signum : Int) (handler restorer : BitVec 32) :
    (((tk.sysSignal signum handler restorer).map Prod.fst).getD tk).Killable := by
  unfold Task.sysSignal
  cases he : entry signum with
  | none => exact h
  | some i => exact h.setAction (entry_spec he).2 (by simp)

theorem actionMask_sigkill {action : SigAction} {i : Nat} (hi : i ≠ sigkill)
    (hsa : action.mask.getLsbD sigkill = false ∨ action.flags &&& saNomask ≠ 0) :
    (actionMask action i).getLsbD sigkill = false := by
  unfold actionMask
  split
  · rfl
  · rename_i hm
    have hmask : action.mask.getLsbD sigkill = false := hsa.resolve_right hm
    simp [hmask, hi]

theorem sysSigaction (h : tk.Killable) {signum : Int} {action : SigAction} {s : State} {t : Fin 64}
    (hok : sparesKill s (.sigaction t signum action) = true) :
    (((tk.sysSigaction signum action).map Prod.fst).getD tk).Killable := by
  unfold Task.sysSigaction
  cases he : entry signum with
  | none => exact h
  | some i =>
    simp only [sparesKill, he, Option.isNone_some, Bool.false_or, Bool.or_eq_true, Bool.not_eq_true', bne_iff_ne] at hok
    exact h.setAction (entry_spec he).2 (actionMask_sigkill (entry_spec he).2 hok)

theorem execve (h : tk.Killable) : tk.execve.Killable where
  blocked := h.blocked
  handler := by
    simp only [Task.execve]
    split
    · rfl
    · exact h.handler
  masks i := by
    simp only [Task.execve]
    split <;> exact h.masks i

theorem fork (h : tk.Killable) : tk.fork.Killable := h.setSignal 0

theorem doSignal (h : tk.Killable) (i : Nat) : (tk.doSignal i).Killable := by
  simp only [Task.doSignal]
  split
  · exact h
  · split
    · split
      · exact h
      · exact h.doExit _
    · rename_i h0
      -- a handler that is not the default belongs to another signal
      have hi : i ≠ sigkill := fun he => h0 (he ▸ h.handler)
      refine ⟨by simp [h.blocked, h.masks i], (h.setAction hi ?_).handler, (h.setAction hi ?_).masks⟩
      all_goals split <;> exact h.masks i

theorem retFromSysCall (h : tk.Killable) : tk.retFromSysCall.Killable := by
  unfold Task.retFromSysCall
  split
  · exact h
  · exact (h.setSignal _).doSignal _

end Task.Killable

theorem State.Good.update {s : State} (hs : s.Good) {t : Fin 64} {tk : Task} (h : tk.Killable) :
    State.Good (Function.update s t (some tk)) := by
  intro u tu hu
  by_cases he : u = t
  · rw [he, Function.update_self] at hu
    obtain rfl := Option.some.inj hu
    exact h
  · rw [Function.update_of_ne he] at hu
    exact hs u tu hu

/-- What a stretch of a live task did. -/
theorem State.live_spec {s s' : State} {t : Fin 64} {f : Task → Task} (h : s.live t f = some s') :
    ∃ tk, s t = some tk ∧ tk.exitCode = none ∧ s' = Function.update s t (some (f tk)) := by
  unfold State.live at h
  split at h
  · rename_i tk ht
    split at h
    · cases h
    · rename_i hc
      exact ⟨tk, ht, by simpa using hc, (Option.some.inj h).symm⟩
  · cases h

theorem State.Good.live {s s' : State} (hs : s.Good) {t : Fin 64} {f : Task → Task} (h : s.live t f = some s')
    (hf : ∀ tk, tk.Killable → (f tk).Killable) : s'.Good := by
  obtain ⟨tk, ht, -, rfl⟩ := State.live_spec h
  exact hs.update (hf tk (hs t tk ht))

/-- One step. -/
theorem State.Good.step {s s' : State} {o : Op} (hs : s.Good) (hok : sparesKill s o = true)
    (h : step s o = some s') : s'.Good := by
  cases o with
  | ssetmask t m => exact hs.live h fun tk hk => hk.sysSsetmask m
  | signal t n hd r => exact hs.live h fun tk hk => hk.sysSignal n hd r
  | sigaction t n a => exact hs.live h fun tk hk => hk.sysSigaction hok
  | execve t => exact hs.live h fun tk hk => hk.execve
  | fork t nr =>
    simp only [Signal.step] at h
    split at h
    · rename_i tk ht _
      split at h
      · cases h
      · obtain rfl := Option.some.inj h
        exact hs.update (hs t tk ht).fork
    · cases h
  | sendSig t i =>
    obtain ⟨tk, ht, rfl⟩ := Option.map_eq_some_iff.1 h
    exact hs.update ((hs t tk ht).setSignal _)
  | takeChild t => exact hs.live h fun tk hk => hk.setSignal _
  | takeAlarm t => exact hs.live h fun tk hk => hk.setSignal _
  | ret t =>
    simp only [Signal.step] at h
    split at h
    · obtain rfl := Option.some.inj h
      exact hs
    · exact hs.live h fun tk hk => hk.retFromSysCall
  | exit t code => exact hs.live h fun tk hk => hk.doExit code
  | release t =>
    simp only [Signal.step] at h
    split at h
    · split at h
      · obtain rfl := Option.some.inj h
        intro u tu hu
        by_cases he : u = t
        · rw [he, Function.update_self] at hu
          cases hu
        · rw [Function.update_of_ne he] at hu
          exact hs u tu hu
      · cases h
    · cases h

/-! ## Delivery -/

/-- How many of the signals below SIGKILL are set. -/
def lower (x : BitVec 32) : Nat := ((Finset.range sigkill).filter fun i => x.getLsbD i = true).card

/-- A bit set is found, unless a lower one is. -/
theorem bsf_le {x : BitVec 32} {k : Nat} (hk : x.getLsbD k = true) :
    ∃ i, Task.bsf x = some i ∧ i ≤ k ∧ x.getLsbD i = true := by
  have hlt : k < 32 := BitVec.lt_of_getLsbD hk
  cases hb : Task.bsf x with
  | none =>
    have := List.find?_eq_none.1 hb k (List.mem_range.2 hlt)
    exact absurd hk this
  | some i =>
    obtain ⟨hi, -, hmin⟩ := List.find?_range_eq_some.1 hb
    refine ⟨i, rfl, ?_, hi⟩
    by_contra hki
    have := hmin k (by omega)
    simp [hk] at this

theorem lower_set (x : BitVec 32) (i : Nat) : lower (x ||| bit i) ≤ lower x + 1 := by
  refine (Finset.card_le_card ?_).trans (Finset.card_insert_le i _)
  intro j hj
  simp only [Finset.mem_filter, Finset.mem_insert, BitVec.getLsbD_or, Bool.or_eq_true, getLsbD_bit,
    Bool.and_eq_true, decide_eq_true_eq] at hj ⊢
  rcases hj.2 with h | h
  · exact .inr ⟨hj.1, h⟩
  · exact .inl h.2.symm

theorem lower_clear {x : BitVec 32} {i : Nat} (hi : i < sigkill) (hx : x.getLsbD i = true) :
    lower (x &&& ~~~bit i) + 1 ≤ lower x := by
  refine Finset.card_lt_card ((Finset.ssubset_iff_of_subset ?_).2 ⟨i, ?_, ?_⟩)
  · intro j hj
    simp only [Finset.mem_filter, BitVec.getLsbD_and, Bool.and_eq_true] at hj ⊢
    exact ⟨hj.1, hj.2.1⟩
  · simpa [hx] using hi
  · have : i < 32 := BitVec.lt_of_getLsbD hx
    simp [this]

theorem lower_and_le (x y : BitVec 32) : lower (x &&& y) ≤ lower x := by
  refine Finset.card_le_card fun j hj => ?_
  simp only [Finset.mem_filter, BitVec.getLsbD_and, Bool.and_eq_true] at hj ⊢
  exact ⟨hj.1, hj.2.1⟩

theorem Task.doSignal_signal (tk : Task) (i : Nat) : (tk.doSignal i).signal = tk.signal := by
  simp only [Task.doSignal]
  split
  · rfl
  · split
    · split <;> rfl
    · rfl

theorem Task.Killable.doSignal_sigkill {tk : Task} (h : tk.Killable) :
    tk.doSignal sigkill = tk.doExit (bit sigkill) := by
  simp only [Task.doSignal, h.handler]
  rfl

/-- A pass with SIGKILL pending: it is the signal taken, or a lower one is. -/
theorem Task.Killable.pass {tk : Task} (h : tk.Killable) (hp : tk.signal.getLsbD sigkill = true) :
    tk.retFromSysCall.exitCode = some (bit sigkill) ∨
      ∃ i, i < sigkill ∧ (tk.signal &&& ~~~tk.blocked).getLsbD i = true ∧
        tk.retFromSysCall.signal = tk.signal &&& ~~~bit i := by
  have hd : (tk.signal &&& ~~~tk.blocked).getLsbD sigkill = true := by
    rw [BitVec.getLsbD_and, BitVec.getLsbD_not, hp, h.blocked]
    rfl
  obtain ⟨i, hb, hi, hx⟩ := bsf_le hd
  have hret : tk.retFromSysCall = ({ tk with signal := tk.signal &&& ~~~bit i } : Task).doSignal i := by
    simp only [Task.retFromSysCall, hb]
  rw [hret]
  rcases Nat.lt_or_eq_of_le hi with hlt | rfl
  · exact .inr ⟨i, hlt, hx, Task.doSignal_signal _ i⟩
  · left
    rw [(h.setSignal _).doSignal_sigkill]
    rfl

/-! ## A task with SIGKILL pending -/

/-- Task `t` has SIGKILL pending, with at most `m` signals below it. -/
def Awaits (t : Fin 64) (m : Nat) (s : State) : Prop :=
  ∃ tk, s t = some tk ∧ tk.exitCode = none ∧ tk.signal.getLsbD sigkill = true ∧ lower tk.signal ≤ m

/-- Task `t` went through `do_exit`. -/
def Exited (t : Fin 64) (s : State) : Prop := ∃ tk, s t = some tk ∧ tk.exitCode.isSome = true

/-- A pass of `t` through `ret_from_sys_call`. -/
def Op.passes (t : Fin 64) : Op → Bool
  | .ret u => decide (u = t)
  | _ => false

/-- A signal posted to `t`. -/
def Op.posts (t : Fin 64) : Op → Bool
  | .sendSig u _ => decide (u = t)
  | _ => false

/-- A step that leaves the task's pending signals and its exit alone. -/
theorem Awaits.of_same {t : Fin 64} {m : Nat} {s s' : State} (h : Awaits t m s)
    (hs : ∀ tk, s t = some tk → ∃ tk', s' t = some tk' ∧ tk'.exitCode = tk.exitCode ∧ tk'.signal = tk.signal) :
    Awaits t m s' := by
  obtain ⟨tk, ht, hc, hp, hm⟩ := h
  obtain ⟨tk', ht', hc', hs'⟩ := hs tk ht
  exact ⟨tk', ht', by rw [hc', hc], by rw [hs', hp], by rw [hs']; exact hm⟩

/-- A stretch of some task that keeps pending signals. -/
theorem Awaits.live {t u : Fin 64} {m : Nat} {s s' : State} {f : Task → Task} (h : Awaits t m s)
    (hs : s.live u f = some s') (hf : ∀ tk, (f tk).exitCode = tk.exitCode ∧ (f tk).signal = tk.signal) :
    Awaits t m s' := by
  refine h.of_same fun tk ht => ?_
  obtain ⟨tu, hu, -, rfl⟩ := State.live_spec hs
  by_cases he : t = u
  · subst he
    obtain rfl := Option.some.inj (ht.symm.trans hu)
    exact ⟨_, Function.update_self .., hf tk⟩
  · exact ⟨tk, by rw [Function.update_of_ne he, ht], rfl, rfl⟩

/-- A stretch that takes signals other than SIGKILL back. -/
theorem Awaits.take {t u : Fin 64} {m : Nat} {s s' : State} {i : Nat} (h : Awaits t m s) (hi : i ≠ sigkill)
    (hs : s.live u (fun tk => { tk with signal := tk.signal &&& ~~~bit i }) = some s') : Awaits t m s' := by
  obtain ⟨tu, hu, -, rfl⟩ := State.live_spec hs
  obtain ⟨tk, ht, hc, hp, hm⟩ := h
  by_cases he : t = u
  · subst he
    obtain rfl := Option.some.inj (ht.symm.trans hu)
    exact ⟨_, Function.update_self .., hc, (getLsbD_clear _ hi).trans hp, (lower_and_le _ _).trans hm⟩
  · exact ⟨tk, by rw [Function.update_of_ne he, ht], hc, hp, hm⟩

/-- One step: the task exits, or it has one signal fewer in front of SIGKILL after
a pass, and at most one more after a signal was posted. -/
theorem Awaits.step {t : Fin 64} {m : Nat} {s s' : State} {o : Op} (hs : s.Good) (ht0 : t.val ≠ 0) (h : Awaits t m s)
    (ho : step s o = some s') :
    Exited t s' ∨ ∃ m', Awaits t m' s' ∧
      m' + (if o.passes t = true then 1 else 0) ≤ m + (if o.posts t = true then 1 else 0) := by
  cases o with
  | ssetmask u newmask => exact .inr ⟨m, h.live ho fun tk => ⟨rfl, rfl⟩, le_rfl⟩
  | signal u n hd r =>
    refine .inr ⟨m, h.live ho fun tk => ?_, le_rfl⟩
    unfold Task.sysSignal
    cases entry n <;> exact ⟨rfl, rfl⟩
  | sigaction u n a =>
    refine .inr ⟨m, h.live ho fun tk => ?_, le_rfl⟩
    unfold Task.sysSigaction
    cases entry n <;> exact ⟨rfl, rfl⟩
  | execve u => exact .inr ⟨m, h.live ho fun tk => ⟨rfl, rfl⟩, le_rfl⟩
  | fork u nr =>
    simp only [Signal.step] at ho
    split at ho
    · rename_i hn
      split at ho
      · cases ho
      · obtain rfl := Option.some.inj ho
        refine .inr ⟨m, h.of_same fun tk ht => ⟨tk, ?_, rfl, rfl⟩, le_rfl⟩
        have he : t ≠ nr := fun he => by rw [he, hn] at ht; cases ht
        rw [Function.update_of_ne he, ht]
    · cases ho
  | sendSig u i =>
    obtain ⟨tu, hu, rfl⟩ := Option.map_eq_some_iff.1 ho
    obtain ⟨tk, ht, hc, hp, hm⟩ := h
    by_cases he : t = u
    · subst he
      obtain rfl := Option.some.inj (ht.symm.trans hu)
      refine .inr ⟨lower tk.signal + 1, ⟨_, Function.update_self .., hc, ?_, lower_set _ i⟩, ?_⟩
      · simp [hp]
      · simpa [Op.passes, Op.posts] using hm
    · have hpost : (Op.sendSig u i).posts t = false := by simpa [Op.posts] using fun h => he h.symm
      rw [hpost]
      exact .inr ⟨m, ⟨tk, by rw [Function.update_of_ne he, ht], hc, hp, hm⟩, le_rfl⟩
  | takeChild u => exact .inr ⟨m, h.take (by decide) ho, le_rfl⟩
  | takeAlarm u => exact .inr ⟨m, h.take (by decide) ho, le_rfl⟩
  | ret u =>
    simp only [Signal.step] at ho
    split at ho
    · rename_i hu0
      obtain rfl := Option.some.inj ho
      have hpass : (Op.ret u).passes t = false := by
        have he : u ≠ t := fun he => ht0 (by rw [← he]; exact hu0)
        simpa [Op.passes] using he
      rw [hpass]
      exact .inr ⟨m, h, le_rfl⟩
    · obtain ⟨tu, hu, -, rfl⟩ := State.live_spec ho
      obtain ⟨tk, ht, hc, hp, hm⟩ := h
      by_cases he : t = u
      · subst he
        obtain rfl := Option.some.inj (ht.symm.trans hu)
        rcases (hs t tk ht).pass hp with hx | ⟨i, hi, hd, hsig⟩
        · exact .inl ⟨_, Function.update_self .., by rw [hx]; rfl⟩
        · have hti : tk.signal.getLsbD i = true := by
            rw [BitVec.getLsbD_and, Bool.and_eq_true] at hd
            exact hd.1
          have hlow := lower_clear hi hti
          cases hcode : tk.retFromSysCall.exitCode with
          | some code => exact .inl ⟨_, Function.update_self .., by rw [hcode]; rfl⟩
          | none =>
            refine .inr ⟨lower tk.retFromSysCall.signal, ⟨_, Function.update_self .., hcode, ?_, le_rfl⟩, ?_⟩
            · rw [hsig, getLsbD_clear _ (Nat.ne_of_lt hi), hp]
            · rw [hsig]
              simp only [Op.passes, Op.posts, decide_true, if_true, Bool.false_eq_true, if_false]
              omega
      · have hpass : (Op.ret u).passes t = false := by simpa [Op.passes] using fun h => he h.symm
        rw [hpass]
        exact .inr ⟨m, ⟨tk, by rw [Function.update_of_ne he, ht], hc, hp, hm⟩, le_rfl⟩
  | exit u code =>
    obtain ⟨tu, hu, -, rfl⟩ := State.live_spec ho
    by_cases he : t = u
    · subst he
      exact .inl ⟨_, Function.update_self .., rfl⟩
    · exact .inr ⟨m, h.of_same fun tk ht => ⟨tk, by rw [Function.update_of_ne he, ht], rfl, rfl⟩, le_rfl⟩
  | release u =>
    simp only [Signal.step] at ho
    split at ho
    · rename_i tu hu
      split at ho
      · rename_i hcode
        obtain rfl := Option.some.inj ho
        obtain ⟨tk, ht, hc, hp, hm⟩ := h
        have he : t ≠ u := by
          intro he
          subst he
          obtain rfl := Option.some.inj (ht.symm.trans hu)
          rw [hc] at hcode
          cases hcode
        exact .inr ⟨m, ⟨tk, by rw [Function.update_of_ne he, ht], hc, hp, hm⟩, le_rfl⟩
      · cases ho
    · cases ho

/-- The steps of runs in which every action installed spares SIGKILL. -/
abbrev Step : State → Op → State → Prop := Run.Under (fun s o => sparesKill s o = true) (Run.Fires step)

/-- Some state of the run with the labels `os` has `t` exited. -/
def ExitsIn (t : Fin 64) (s : State) (os : List Op) : Prop :=
  ∃ os₁ os₂ s₁, os = os₁ ++ os₂ ∧ Run.Steps Step s os₁ s₁ ∧ Exited t s₁

theorem Awaits.run {t : Fin 64} {s s' : State} {os : List Op} (hs : s.Good) (ht0 : t.val ≠ 0)
    (h : Run.Steps Step s os s') {m : Nat} (ha : Awaits t m s) :
    ExitsIn t s os ∨ ∃ m', Awaits t m' s' ∧ m' + os.countP (Op.passes t) ≤ m + os.countP (Op.posts t) := by
  induction h generalizing m with
  | nil => exact .inr ⟨m, ha, le_rfl⟩
  | @cons s o s₁ os s' hst _ ih =>
    rcases ha.step hs ht0 hst.2 with hx | ⟨m₁, ha₁, hle⟩
    · exact .inl ⟨[o], os, s₁, rfl, .one hst, hx⟩
    · rcases ih (hs.step hst.1 hst.2) ha₁ with hx | ⟨m', ha', hle'⟩
      · obtain ⟨os₁, os₂, s₂, rfl, hrun, hx⟩ := hx
        exact .inl ⟨o :: os₁, os₂, s₂, rfl, .cons hst hrun, hx⟩
      · refine .inr ⟨m', ha', ?_⟩
        rw [List.countP_cons, List.countP_cons]
        omega

/-- **SIGKILL works**, in every run whose actions all spare it. No task blocks it or has a handler for it. When it
is pending and no lower signal is deliverable, the next pass ends in `do_exit`;
and whatever is posted, the task exits once its passes outnumber the signals
that stood in front of SIGKILL or were posted since. -/
theorem sigkill_works {s : State} (h : Run.Reaches Step boot s) {t : Fin 64} {tk : Task} (ht : s t = some tk) :
    tk.blocked.getLsbD sigkill = false ∧ (tk.sigaction sigkill).handler = 0 ∧
      (tk.signal.getLsbD sigkill = true →
        (lower (tk.signal &&& ~~~tk.blocked) = 0 → tk.retFromSysCall.exitCode = some (bit sigkill)) ∧
        (tk.exitCode = none → t.val ≠ 0 → ∀ os s', Run.Steps Step s os s' →
          lower tk.signal + os.countP (Op.posts t) < os.countP (Op.passes t) → ExitsIn t s os)) := by
  have hgood : s.Good := h.invariant (I := State.Good) (fun s o s' hs hst => State.Good.step hs hst.1 hst.2) boot_good
  have hk := hgood t tk ht
  refine ⟨hk.blocked, hk.handler, fun hp => ⟨fun hlow => ?_, fun hc ht0 os s' hrun hlt => ?_⟩⟩
  · rcases hk.pass hp with hx | ⟨i, hi, hd, -⟩
    · exact hx
    · have hmem : i ∈ (Finset.range sigkill).filter fun i => (tk.signal &&& ~~~tk.blocked).getLsbD i = true :=
        Finset.mem_filter.2 ⟨Finset.mem_range.2 hi, hd⟩
      rw [lower, Finset.card_eq_zero] at hlow
      rw [hlow] at hmem
      cases hmem
  · rcases Awaits.run hgood ht0 hrun ⟨tk, ht, hc, hp, le_rfl⟩ with hx | ⟨m', -, hle⟩
    · exact hx
    · omega

/-- A run with a signal handled, and SIGKILL then pending. -/
def smallRun : List Op :=
  [.fork 0 1, .sigaction 1 10 ⟨4096, 1, 0, 0⟩, .sendSig 1 9, .ret 1, .sendSig 1 8]

theorem sigkill_works_small : ∃ s tk, Run.Reaches Step boot s ∧ s 1 = some tk ∧
    tk.signal.getLsbD sigkill = true ∧ tk.blocked.getLsbD sigkill = false ∧
      tk.retFromSysCall.exitCode = some (bit sigkill) := by
  obtain ⟨s, hs, hp⟩ := Run.reaches_of_exec sparesKill step boot smallRun
    (fun s => (s 1).any fun tk => tk.signal.getLsbD sigkill && lower (tk.signal &&& ~~~tk.blocked) == 0) (by decide +kernel)
  obtain ⟨tk, ht, hp⟩ := (Option.any_eq_true _ _).1 hp
  simp only [Bool.and_eq_true, beq_iff_eq] at hp
  obtain ⟨hb, -, hk⟩ := sigkill_works hs ht
  exact ⟨s, tk, hs, ht, hp.1, hb, (hk hp.1).1 hp.2⟩

/-- A handler installed with SIGKILL in its mask blocks it: the task then has
SIGKILL pending, and a pass does nothing. -/
theorem sigkill_blocked : ∃ s tk, Run.Reaches (Run.Fires step) boot s ∧ s 1 = some tk ∧
    tk.signal.getLsbD sigkill = true ∧ tk.blocked.getLsbD sigkill = true ∧ tk.retFromSysCall.exitCode = none := by
  obtain ⟨s, hs, hp⟩ := Run.reaches_of_exec (fun _ _ => true) step boot
    [.fork 0 1, .sigaction 1 10 ⟨4096, 256, 0, 0⟩, .sendSig 1 9, .ret 1, .sendSig 1 8]
    (fun s => (s 1).any fun tk => tk.signal.getLsbD sigkill && tk.blocked.getLsbD sigkill &&
      tk.retFromSysCall.exitCode.isNone) (by decide +kernel)
  obtain ⟨tk, ht, hp⟩ := (Option.any_eq_true _ _).1 hp
  simp only [Bool.and_eq_true, Option.isNone_iff_eq_none] at hp
  exact ⟨s, tk, hs.of_under, ht, hp.1.1, hp.1.2, hp.2⟩

end Linux011.Kernel.Signal
