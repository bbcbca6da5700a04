/-
The system as a whole. `Happens` is the inversion of `State.exec`: what each
operation asks of the state it starts in. From it, every operation that can
happen keeps the invariant of the kernel, and no run reaches a panic.
-/
import Linux011.Kernel.Fork
import Linux011.Kernel.Exec

namespace Linux011.Kernel

open Mm RefCount

/-- The operations a state allows, with what they come to. -/
inductive Happens (k : State) : Op → Except Panic State → Prop
  | fork {t tk} (hk : k.task t = some tk) (hu : tk.phase.isUser) (hl : tk.load = none) :
      Happens k (.fork t) (k.fork t tk)
  | fault {t a tk} (ht : t ≠ 0) (hk : k.task t = some tk) (hp : tk.phase.touches) (hl : tk.load = none)
      (ha : a < tk.limit) (hq : ¬ Present (State.entryAt k.mem tk.cr3 a)) :
      Happens k (.fault t a) (k.doNoPage t tk a)
  | loaded {t tk page a ino} (ht : t ≠ 0) (hk : k.task t = some tk) (hl : tk.load = some (page, a))
      (he : tk.executable = some ino) : Happens k (.loaded t) (k.loaded t tk ino page a)
  | wpFault {t a tk} (ht : t ≠ 0) (hk : k.task t = some tk) (hu : tk.phase.isUser) (hl : tk.load = none)
      (ha : a < tk.limit) (hq : Present (State.entryAt k.mem tk.cr3 a))
      (hw : ¬ Rw (State.entryAt k.mem tk.cr3 a)) : Happens k (.wpFault t a) (k.wpFault t tk a)
  | write {t a b tk} (ht : t ≠ 0) (hk : k.task t = some tk) (hu : tk.phase.isUser) (hl : tk.load = none)
      (ha : a < tk.limit) (hq : Present (State.entryAt k.mem tk.cr3 a)) (hw : Rw (State.entryAt k.mem tk.cr3 a)) :
      Happens k (.write t a b) (.ok { k with mem := State.storeByte k.mem tk.cr3 a b })
  | sysRead {t addr size tk} (ht : t ≠ 0) (hk : k.task t = some tk) (hu : tk.phase.isUser) (hl : tk.load = none)
      (ha : addr + size ≤ taskSize) (hs : size < 2147483648) :
      Happens k (.sysRead t addr size) (k.sysRead t tk addr size)
  | readDone {t tk addr size} (ht : t ≠ 0) (hk : k.task t = some tk) (hp : tk.phase = .reading addr size)
      (hl : tk.load = none) : Happens k (.readDone t) (.ok (k.setTask t (some { tk with phase := .user })))
  | execBegin {t ino tk} (ht : t ≠ 0) (hk : k.task t = some tk) (hu : tk.phase.isUser) (hl : tk.load = none)
      (hh : State.headerOk (k.file ino)) : Happens k (.execBegin t ino) (.ok (k.setTask t (some
        { tk with phase := .copying ino (State.headerEnd (k.file ino)) (fun _ => none) 131068 })))
  | argByte {t b tk ino e page p} (ht : t ≠ 0) (hk : k.task t = some tk) (hp : tk.phase = .copying ino e page p)
      (hl : tk.load = none) (hb : 0 < p ∧ p ≤ 131072) :
      Happens k (.argByte t b) (.ok (k.argByte t tk ino e page p b (State.argRoom hb)))
  | execFail {t tk ino e page p} (ht : t ≠ 0) (hk : k.task t = some tk) (hp : tk.phase = .copying ino e page p)
      (hl : tk.load = none) : Happens k (.execFail t) (k.execFail t tk page)
  | execCommit {t tk ino e page p} (ht : t ≠ 0) (hk : k.task t = some tk) (hp : tk.phase = .copying ino e page p)
      (hl : tk.load = none) (h0 : 0 < p) : Happens k (.execCommit t)
        (.ok (k.setTask t (some { tk with executable := some ino, phase := .closing e page p })))
  | execClear {t tk e page p} (ht : t ≠ 0) (hk : k.task t = some tk) (hp : tk.phase = .closing e page p)
      (hl : tk.load = none) : Happens k (.execClear t) (k.execClear t tk e page p)
  | execData {t tk e p} (ht : t ≠ 0) (hk : k.task t = some tk) (hp : tk.phase = .building e p) (hl : tk.load = none)
      (ha : State.stackTop p < tk.limit) (hq : Present (State.entryAt k.mem tk.cr3 (State.stackTop p))) :
      Happens k (.execData t) (.ok (k.setTask t (some { tk with endData := e, phase := .filling })))
  | execDone {t tk} (ht : t ≠ 0) (hk : k.task t = some tk) (hp : tk.phase = .filling) (hl : tk.load = none) :
      Happens k (.execDone t) (.ok (k.setTask t (some { tk with phase := .user })))
  | exit {t tk} (ht : t ≠ 0) (hk : k.task t = some tk) (hp : tk.phase.touches) (hl : tk.load = none) :
      Happens k (.exit t) (k.doExit t tk)
  | exitDone {t tk} (ht : t ≠ 0) (hk : k.task t = some tk) (hp : tk.phase = .exiting) :
      Happens k (.exitDone t) (.ok (k.exitDone t tk))
  | release {t tk} (ht : t ≠ 0) (hk : k.task t = some tk) (hp : tk.phase = .zombie) :
      Happens k (.release t) (k.release t tk)
  | files {t filp pwd root tk} (ht : t ≠ 0) (hk : k.task t = some tk) (hp : tk.phase.live) (hl : tk.load = none) :
      Happens k (.files t filp pwd root)
        (.ok (k.setTask t (some { tk with filp := filp, pwd := pwd, root := root })))
  | counts {fc ic} : Happens k (.counts fc ic) (.ok { k with fCount := fc, iCount := ic })
  | fileWrite {ino o b} : Happens k (.fileWrite ino o b)
      (.ok { k with file := Function.update k.file ino (Function.update (k.file ino) o b) })

variable {s : Prop} {lost : Fin 4096 → Bool} {k k' : State} {t : Fin 64} {tk : Task} {op : Op}
  {r : Except Panic State}

theorem current_some (h : k.current t = some tk) : t ≠ 0 ∧ k.task t = some tk := by
  unfold State.current at h
  split at h
  · cases h
  · exact ⟨‹_›, h⟩

theorem happens_of_exec (h : k.exec op = some r) : Happens k op r := by
  cases op <;> simp only [State.exec, bind, Option.bind_eq_some_iff, Option.ite_none_right_eq_some, Option.some.injEq] at h
  case fork t =>
    obtain ⟨tk, hk, ⟨hu, hl⟩, rfl⟩ := h
    exact .fork hk hu hl
  case fault t a =>
    obtain ⟨tk, hc, ⟨hp, hl, ha, hq⟩, rfl⟩ := h
    obtain ⟨ht, hk⟩ := current_some hc
    exact .fault ht hk hp hl ha hq
  case loaded t =>
    obtain ⟨tk, hc, ⟨page, a⟩, hl, ino, he, rfl⟩ := h
    obtain ⟨ht, hk⟩ := current_some hc
    exact .loaded ht hk hl he
  case wpFault t a =>
    obtain ⟨tk, hc, ⟨hu, hl, ha, hq, hw⟩, rfl⟩ := h
    obtain ⟨ht, hk⟩ := current_some hc
    exact .wpFault ht hk hu hl ha hq hw
  case write t a b =>
    obtain ⟨tk, hc, ⟨hu, hl, ha, hq, hw⟩, rfl⟩ := h
    obtain ⟨ht, hk⟩ := current_some hc
    exact .write ht hk hu hl ha hq hw
  case sysRead t addr size =>
    obtain ⟨tk, hc, ⟨hu, hl, ha, hs⟩, rfl⟩ := h
    obtain ⟨ht, hk⟩ := current_some hc
    exact .sysRead ht hk hu hl ha hs
  case readDone t =>
    obtain ⟨tk, hc, h⟩ := h
    obtain ⟨ht, hk⟩ := current_some hc
    split at h
    · cases h; exact .readDone ht hk ‹_› ‹_›
    · cases h
  case execBegin t ino =>
    obtain ⟨tk, hc, ⟨hu, hl, hh⟩, rfl⟩ := h
    obtain ⟨ht, hk⟩ := current_some hc
    exact .execBegin ht hk hu hl hh
  case argByte t b =>
    obtain ⟨tk, hc, h⟩ := h
    obtain ⟨ht, hk⟩ := current_some hc
    split at h
    · split at h
      · cases h; exact .argByte ht hk ‹_› ‹_› ‹_›
      · cases h
    · cases h
  case execFail t =>
    obtain ⟨tk, hc, h⟩ := h
    obtain ⟨ht, hk⟩ := current_some hc
    split at h
    · cases h; exact .execFail ht hk ‹_› ‹_›
    · cases h
  case execCommit t =>
    obtain ⟨tk, hc, h⟩ := h
    obtain ⟨ht, hk⟩ := current_some hc
    split at h
    · split at h
      · cases h; exact .execCommit ht hk ‹_› ‹_› ‹_›
      · cases h
    · cases h
  case execClear t =>
    obtain ⟨tk, hc, h⟩ := h
    obtain ⟨ht, hk⟩ := current_some hc
    split at h
    · cases h; exact .execClear ht hk ‹_› ‹_›
    · cases h
  case execData t =>
    obtain ⟨tk, hc, h⟩ := h
    obtain ⟨ht, hk⟩ := current_some hc
    split at h
    · split at h
      · rename_i hq
        cases h; exact .execData ht hk ‹_› ‹_› hq.1 hq.2
      · cases h
    · cases h
  case execDone t =>
    obtain ⟨tk, hc, h⟩ := h
    obtain ⟨ht, hk⟩ := current_some hc
    split at h
    · cases h; exact .execDone ht hk ‹_› ‹_›
    · cases h
  case exit t =>
    obtain ⟨tk, hc, ⟨hp, hl⟩, rfl⟩ := h
    obtain ⟨ht, hk⟩ := current_some hc
    exact .exit ht hk hp hl
  case exitDone t =>
    obtain ⟨tk, hc, h⟩ := h
    obtain ⟨ht, hk⟩ := current_some hc
    split at h
    · cases h; exact .exitDone ht hk ‹_›
    · cases h
  case release t =>
    obtain ⟨tk, hc, h⟩ := h
    obtain ⟨ht, hk⟩ := current_some hc
    split at h
    · cases h; exact .release ht hk ‹_›
    · cases h
  case files t filp pwd root =>
    obtain ⟨tk, hc, ⟨hp, hl⟩, rfl⟩ := h
    obtain ⟨ht, hk⟩ := current_some hc
    exact .files ht hk hp hl
  case counts => subst h; exact .counts
  case fileWrite => subst h; exact .fileWrite

theorem current_of (ht : t ≠ 0) (hk : k.task t = some tk) : k.current t = some tk := by
  rw [State.current, if_neg ht, hk]

theorem exec_of_happens (h : Happens k op r) : k.exec op = some r := by
  cases h with
  | fork hk hu hl => simp [State.exec, hk, hu, hl]
  | fault ht hk hp hl ha hq => simp [State.exec, current_of ht hk, hp, hl, ha, hq]
  | loaded ht hk hl he => simp [State.exec, current_of ht hk, hl, he]
  | wpFault ht hk hu hl ha hq hw => simp [State.exec, current_of ht hk, hu, hl, ha, hq, hw]
  | write ht hk hu hl ha hq hw => simp [State.exec, current_of ht hk, hu, hl, ha, hq, hw]
  | sysRead ht hk hu hl ha hs => simp [State.exec, current_of ht hk, hu, hl, ha, hs]
  | readDone ht hk hp hl => simp [State.exec, current_of ht hk, hp, hl]
  | execBegin ht hk hu hl hh => simp [State.exec, current_of ht hk, hu, hl, hh]
  | argByte ht hk hp hl hb => simp [State.exec, current_of ht hk, hp, hl, hb]
  | execFail ht hk hp hl => simp [State.exec, current_of ht hk, hp, hl]
  | execCommit ht hk hp hl h0 => simp [State.exec, current_of ht hk, hp, hl, h0]
  | execClear ht hk hp hl => simp [State.exec, current_of ht hk, hp, hl]
  | execData ht hk hp hl ha hq => simp [State.exec, current_of ht hk, hp, hl, ha, hq]
  | execDone ht hk hp hl => simp [State.exec, current_of ht hk, hp, hl]
  | exit ht hk hp hl => simp [State.exec, current_of ht hk, hp, hl]
  | exitDone ht hk hp => simp [State.exec, current_of ht hk, hp]
  | release ht hk hp => simp [State.exec, current_of ht hk, hp]
  | files ht hk hp hl => simp [State.exec, current_of ht hk, hp, hl]
  | counts => rfl
  | fileWrite => rfl

/-! ## One step -/

/-- The operation shares no page out of `pg0`. -/
def Op.NoSwapShare (k : State) : Op → Prop
  | .fault t a => ∀ tk, k.task t = some tk → Kernel.NoSwapShare k t tk a
  | _ => True

/-- If the operation is the end of an `execve`, there is room for the stack's table. -/
def Op.StackRoom (k : State) : Op → Prop
  | .execClear t => ∀ tk, k.task t = some tk → Kernel.StackRoom k tk
  | _ => True

/-- A task died between `k` and `k'` with `page[]` of an `execve` in hand. -/
def DiesHolding (k k' : State) : Prop :=
  ∃ t tk tk' i n, k.task t = some tk ∧ tk.phase.pages i = some n ∧ k'.task t = some tk' ∧ tk'.phase = .exiting

theorem Loses.none {lost' : Fin 4096 → Bool} (h : Loses lost t tk k' lost') (hk : k.task t = some tk)
    (hd : ¬ DiesHolding k k') : lost' = lost := by
  rcases h with h | ⟨rfl, hdead⟩
  · exact h
  · refine addLost_none fun i => ?_
    cases hi : tk.phase.pages i with
    | none => rfl
    | some n => exact absurd ⟨t, tk, _, i, n, hk, hi, hdead, rfl⟩ hd

theorem After.refl_of (h : KInv s lost k) (hmem : k'.mem = k.mem) (htask : k'.task = k.task) (t : Fin 64) :
    After s lost t k k' lost :=
  ⟨h.congr hmem htask, by rw [hmem, htask]; exact Others.refl fun _ _ => rfl, fun u _ => by rw [htask]⟩

/-- A step that changes the record of `t` only. -/
theorem After.record {tk' : Task} (h : KInv s lost k) (ht : t ≠ 0) (hk : k.task t = some tk) (hc : tk'.cr3 = tk.cr3)
    (hp : tk'.page = tk.page) (ha : tk'.phase.pages = tk.phase.pages) (hl : tk'.load = none) (hl' : tk.load = none)
    (hlive : tk'.phase.live = tk.phase.live) (hlim : tk'.limit = tk.limit)
    (htab : (∀ e p, tk'.phase ≠ .building e p) → (∀ e p, tk.phase ≠ .building e p) ∨
      ∃ i, i < 768 ∧ Present (pde k.mem (roots k.task lost) t i)) :
    After s lost t k (k.setTask t (some tk')) lost := by
  refine ⟨h.record ht hk rfl rfl hc hp ha hl hl' hlive (by rw [hlim]; exact h.limit t tk hk) htab, ?_,
    fun u hu => Function.update_of_ne hu _ _⟩
  exact Others.refl fun u hu => dir_setTask hu _

/-- **Every operation that can happen returns, without a panic, and keeps the
invariant**. Pages are lost only by a task that dies inside `copy_strings`, or
that finds no room for its stack. -/
theorem Happens.spec (hh : Happens k op r) (h : KInv s lost k) (hns : s → op.NoSwapShare k) :
    ∃ k' t lost', r = .ok k' ∧ After s lost t k k' lost' ∧ (s ∨ op.StackRoom k → ¬ DiesHolding k k' → lost' = lost) := by
  cases hh with
  | fork hk hu hl =>
    obtain ⟨k', hk', ⟨hmem, htask, -⟩ | ⟨nr, pid, r, -, -, hafter, -⟩⟩ := fork_spec h hk hu
    · exact ⟨k', 0, lost, hk', After.refl_of h hmem htask 0, fun _ _ => rfl⟩
    · exact ⟨k', nr, lost, hk', hafter, fun _ _ => rfl⟩
  | @fault t a tk ht hk hp hl ha hq =>
    obtain ⟨k', hk', lost', hafter, hlost, -⟩ := doNoPage_spec h ht hk hp hl ha hq fun hs => hns hs tk hk
    exact ⟨k', t, lost', hk', hafter, fun _ hd => hlost.none hk hd⟩
  | @loaded t tk page a ino ht hk hl he =>
    obtain ⟨k', hk', lost', hafter, hlost, -⟩ := loaded_spec h ht hk hl ino
    exact ⟨k', t, lost', hk', hafter, fun _ hd => hlost.none hk hd⟩
  | @wpFault t a tk ht hk hu hl ha hq hw =>
    obtain ⟨k', hk', hafter, -⟩ := wpFault_spec h ht hk hu hl ha hq
    exact ⟨k', t, lost, hk', hafter, fun _ _ => rfl⟩
  | @write t a b tk ht hk hu hl ha hq hw =>
    exact ⟨_, t, lost, rfl, (write_spec h ht hk hu hl ha hq hw).1, fun _ _ => rfl⟩
  | @sysRead t addr size tk ht hk hu hl ha hs =>
    obtain ⟨k', hk', hafter, -⟩ := sysRead_spec h ht hk hu hl ha
    exact ⟨k', t, lost, hk', hafter, fun _ _ => rfl⟩
  | @readDone t tk addr size ht hk hp hl =>
    refine ⟨_, t, lost, rfl, After.record h ht hk rfl rfl ?_ hl hl ?_ rfl ?_, fun _ _ => rfl⟩ <;> simp [hp, Phase.pages, Phase.live]
  | @execBegin t ino tk ht hk hu hl hh =>
    refine ⟨_, t, lost, rfl, After.record h ht hk rfl rfl ?_ hl hl ?_ rfl ?_, fun _ _ => rfl⟩
    · funext i; rw [Phase.isUser_pages hu]; rfl
    · rw [Phase.touches_live (Phase.isUser_touches hu)]; rfl
    · refine fun _ => .inl fun e p he => ?_
      rw [he] at hu; cases hu
  | @argByte t b tk ino e page p ht hk hp hl hb =>
    exact ⟨_, t, lost, rfl, (argByte_spec h ht hk hl hp _).1, fun _ _ => rfl⟩
  | @execFail t tk ino e page p ht hk hp hl =>
    obtain ⟨k', hk', hafter, -⟩ := execFail_spec h ht hk hl hp
    exact ⟨k', t, lost, hk', hafter, fun _ _ => rfl⟩
  | @execCommit t tk ino e page p ht hk hp hl h0 =>
    refine ⟨_, t, lost, rfl, After.record h ht hk rfl rfl ?_ hl hl ?_ rfl ?_, fun _ _ => rfl⟩ <;> simp [hp, Phase.pages, Phase.live]
  | @execClear t tk e page p ht hk hp hl =>
    obtain ⟨k', hk', lost', hafter, hlost, -⟩ := execClear_spec h ht hk hl hp
    exact ⟨k', t, lost', hk', hafter, fun hs _ => hlost (hs.imp_right fun hr => hr tk hk)⟩
  | @execData t tk e p ht hk hp hl ha hq =>
    refine ⟨_, t, lost, rfl, After.record h ht hk rfl rfl ?_ hl hl ?_ rfl ?_, fun _ _ => rfl⟩
    · simp [hp, Phase.pages]
    · simp [hp, Phase.live]
    · -- The stack page is there, so its table is.
      rw [h.entryAt ht hk (by rw [hp]; rfl)] at hq
      exact fun _ => .inr ⟨_, Inv.dirIx_lt (lt_of_lt_of_le ha (h.limit t tk hk)), present_pde hq⟩
  | @execDone t tk ht hk hp hl =>
    refine ⟨_, t, lost, rfl, After.record h ht hk rfl rfl ?_ hl hl ?_ rfl ?_, fun _ _ => rfl⟩ <;> simp [hp, Phase.pages, Phase.live]
  | @exit t tk ht hk hp hl =>
    obtain ⟨k', hk', hafter, hdead⟩ := doExit_spec h ht hk (Phase.touches_live hp) hl
    exact ⟨k', t, _, hk', hafter, fun _ hd => Loses.none (.inr ⟨rfl, hdead⟩) hk hd⟩
  | @exitDone t tk ht hk hp =>
    have hl := h.load_none hk (by simp [hp, Phase.touches])
    refine ⟨_, t, lost, rfl, After.record h ht hk rfl rfl ?_ hl hl ?_ rfl ?_, fun _ _ => rfl⟩ <;> simp [hp, Phase.pages, Phase.live]
  | @release t tk ht hk hp =>
    obtain ⟨k', hk', hafter, -⟩ := release_spec h ht hk hp
    exact ⟨k', t, lost, hk', hafter, fun _ _ => rfl⟩
  | @files t filp pwd root tk ht hk hp hl =>
    exact ⟨_, t, lost, rfl, After.record h ht hk rfl rfl rfl hl hl rfl rfl fun hb => .inl hb, fun _ _ => rfl⟩
  | counts =>
    exact ⟨_, 0, lost, rfl, After.refl_of h (by rfl) (by rfl) 0, fun _ _ => rfl⟩
  | fileWrite =>
    exact ⟨_, 0, lost, rfl, After.refl_of h (by rfl) (by rfl) 0, fun _ _ => rfl⟩

/-! ## Runs -/

/-- The kernel starts with no page in use. -/
theorem boot_inv (b : Boot) (file : Nat → Nat → Fin 256) : KInv s (fun _ => false) (State.boot b file) := by
  have hlook : ∀ {t tk}, (State.boot b file).task t = some tk → t = 0 ∧ tk = State.initTask := by
    intro t tk hk
    by_cases ht : t = 0
    · subst ht
      exact ⟨rfl, by simpa [State.boot] using hk.symm⟩
    · simp [State.boot, ht] at hk
  have hdir : ∀ t, (roots (State.boot b file).task fun _ => false).dir t = none := by
    intro t
    by_cases ht : t = 0 <;> simp [roots, State.boot, ht]
  have hmisc : ∀ x, (roots (State.boot b file).task fun _ => false).misc x = none := by
    intro x
    cases x with
    | task t => by_cases ht : t = 0 <;> simp [roots, State.boot, ht]
    | arg t i => by_cases ht : t = 0 <;> simp [roots, State.boot, ht, State.initTask, Phase.pages]
    | load t => by_cases ht : t = 0 <;> simp [roots, State.boot, ht, State.initTask]
    | _ => simp [roots]
  constructor
  case mem => exact memInit_inv b hdir hmisc
  case own => exact fun t tk ht hk => absurd (hlook hk).1 ht
  case init => exact ⟨State.initTask, by simp [State.boot], rfl, rfl, rfl⟩
  case limit =>
    intro t tk hk
    rw [(hlook hk).2]
    decide
  case load =>
    intro t tk n a hk hl
    rw [(hlook hk).2] at hl
    cases hl
  case table => exact fun t tk ht hk => absurd (hlook hk).1 ht

/-- The invariant of every run: the counts are exact once the lost pages are counted. -/
theorem reachable_inv {b : Boot} {file : Nat → Nat → Fin 256} (hr : Run.Reaches State.Step (State.boot b file) k) :
    ∃ lost, KInv False lost k := by
  refine hr.invariant (I := fun k => ∃ lost, KInv False lost k) ?_ ⟨_, boot_inv b file⟩
  rintro k op k' ⟨lost, h⟩ hs
  obtain ⟨k₁, t, lost', hk₁, hafter, -⟩ := (happens_of_exec hs).spec h False.elim
  cases hk₁
  exact ⟨lost', hafter.inv⟩

end Linux011.Kernel
