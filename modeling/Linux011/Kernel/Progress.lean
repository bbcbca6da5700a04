/-
Operations that succeed while there are pages to spare. The specifications
say what an operation leaves if it returns; the lemmas here say that it gets
its pages, and how many are left for the next.
-/
import Linux011.Kernel.Private

namespace Linux011.Kernel

open Mm RefCount

variable {s : Prop} {lost : Fin 4096 → Bool} {k k' : State} {t : Fin 64} {tk : Task}

/-- A directory with one table. -/
theorem tableCount_le_one {m : Mem} {d c : Nat} (h : ∀ i, i ≠ c → i < 768 → m.word d i = 0) (n : Nat) :
    Inv.tableCount m d n ≤ 1 := by
  have : Inv.tableCount m d n ≤ if c < n then 1 else 0 := by
    induction n with
    | zero => simp [Inv.tableCount]
    | succ n ih =>
      rw [Inv.tableCount_succ]
      by_cases hn : n = c
      · subst hn
        rw [if_neg (lt_irrefl n)] at ih
        rw [if_pos (Nat.lt_succ_self n)]
        split <;> omega
      · rw [if_neg fun e => e.2 (h n hn e.1)]
        split at ih <;> split <;> omega
  split at this <;> omega

theorem Spare.memInit (b : Boot) : Spare (memInit b) b.low := by
  refine ⟨le_rfl, fun n h₁ h₂ => if_pos ⟨h₁, h₂⟩, fun n _ _ => ?_⟩
  simp only [Mm.memInit, bootWord]
  rw [if_neg (by omega), if_pos (by omega), dirty_entry]
  decide

/-- A fork, with pages to spare. -/
theorem fork_succeeds (h : KInv s lost k) (hk : k.task t = some tk) (hu : tk.phase.isUser) (hl : tk.load = none)
    {nr₀ : Fin 64} (hslot : nr₀ ≠ 0) (hfree : k.task nr₀ = none) {b : Nat} (hb : Spare k.mem b)
    (hroom : b + 2 + Inv.tableCount k.mem tk.cr3 1024 < k.mem.high) :
    ∃ k' nr p pid dir, State.Step k (.fork t) k' ∧ nr ≠ 0 ∧ k.task nr = none ∧
      k'.task = Function.update k.task nr (some { tk with page := p, pid := pid, cr3 := dir, load := none, phase := .user }) ∧
      k'.file = k.file ∧ Spare k'.mem (b + 2 + Inv.tableCount k.mem tk.cr3 1024) ∧
      After s lost nr k k' lost ∧ Inv.ForkKeeps s k.mem (roots k.task lost) t k'.mem ∧
      ∀ i j, i < 768 → j < 1024 → pte k'.mem (roots k'.task lost) nr i j =
        if j < State.pageCount t then clearRw (k.mem.walk tk.cr3 i j) else 0 := by
  obtain ⟨k', hk', ⟨-, -, hfull⟩ | ⟨nr, pid, r, hnr, hnone, hafter, hkeeps, hsp, hends⟩⟩ := fork_spec h hk hu
  · exact absurd hfree (hfull nr₀ hslot)
  · obtain ⟨hr, hsp'⟩ := hsp b hb hroom
    cases hends with
    | failed => exact absurd rfl hr
    | forked p dir hfile htask hchild =>
      refine ⟨k', nr, p, pid, dir, ?_, hnr, hnone, htask, hfile, hsp', hafter, hkeeps, hchild⟩
      simp only [State.Step, State.exec, hk, bind, Option.bind]
      rw [if_pos ⟨hu, hl⟩, hk']

/-- The first fork, of task 0. -/
theorem boot_fork (b : Boot) (file : Nat → Nat → Fin 256) (hroom : b.low + 3 < b.high) :
    ∃ k nr p pid dir, State.Step (State.boot b file) (.fork 0) k ∧ nr ≠ 0 ∧
      k.task = Function.update (State.boot b file).task nr (some
        { State.initTask with page := p, pid := pid, cr3 := dir, load := none, phase := .user }) ∧
      k.file = file ∧ k.mem.high = b.high ∧ Spare k.mem (b.low + 3) ∧
      ∀ i j, i < 768 → j < 1024 → k.tabEntry nr i j = if j < 160 then clearRw ((memInit b).walk 0 i j) else 0 := by
  have hone : Inv.tableCount (memInit b) 0 1024 ≤ 1 := by
    refine tableCount_le_one (c := 0) (fun i h₀ h₁ => ?_) 1024
    simp only [memInit, bootWord, if_true]
    rw [if_neg h₀, if_neg (by omega)]
  have h0 : (State.boot b file).task 0 = some State.initTask := by simp [State.boot]
  have h1 : (State.boot b file).task 1 = none := by simp [State.boot]
  obtain ⟨k, nr, p, pid, dir, hs, hnr, -, htask, hfile, hsp, hafter, -, hchild⟩ :=
    fork_succeeds (boot_inv (s := False) b file) h0 rfl rfl (by decide) h1 (Spare.memInit b)
      (by simp only [State.boot, State.initTask, memInit] at hone ⊢; omega)
  refine ⟨k, nr, p, pid, dir, hs, hnr, htask, hfile, hafter.others.high, hsp.mono ?_, hchild⟩
  simp only [State.boot, State.initTask]
  omega

/-! ## Memory given back -/

/-- An operation that makes no reference leaves the spare pages spare. -/
theorem Spare.of_refs {m m' : Mem} {R R' : Roots} {b : Nat} (h : Inv s m R) (h' : Inv s m' R') (hl : m'.low = m.low)
    (hh : m'.high = m.high) (hsub : ∀ r n, target m' R' r = some n → ∃ r', target m R r' = some n)
    (hw : ∀ n, m'.word 1 n = m.word 1 n) (hb : Spare m b) : Spare m' b := by
  refine hb.of_map hl hh (fun n _ h0 => ?_) hw
  have hM : m.Managed n := h.managed_of_map_lt (by omega)
  rw [h'.exact n ((Inv.managed_congr hl hh n).2 hM), count_eq_zero]
  intro r hr
  obtain ⟨r', hr'⟩ := hsub r n hr
  exact h.no_ref h0 r' hr'

theorem not_tableOf_one {m : Mem} {R : Roots} (h : Inv s m R) : ¬ TableOf m R t 1 := by
  rintro (hd | ⟨i, hi, hd⟩)
  · exact h.not_managed_lt (by omega) (h.sound.managed (.cr3 t) 1 (by simp) hd)
  · exact h.not_managed_lt (by omega) (h.sound.managed (.pde t ⟨i, hi⟩) 1 (by simp) hd)

/-- `do_exit`, with the pages that were spare. -/
theorem exit_succeeds (h : KInv s lost k) (ht : t ≠ 0) (hk : k.task t = some tk) (hp : tk.phase.touches)
    (hl : tk.load = none) {b : Nat} (hb : Spare k.mem b) :
    ∃ k', State.Step k (.exit t) k' ∧
      k'.task = Function.update k.task t (some { tk with cr3 := 0, load := none, phase := .exiting }) ∧
      k'.file = k.file ∧ Spare k'.mem b ∧ ∃ lost', After s lost t k k' lost' := by
  have hlive := Phase.touches_live hp
  have hd := h.dir ht hk hlive
  obtain ⟨m', hm', hI', hlow, hhigh, hpde, hpte, hword⟩ := h.mem.freePageTables_spec hd
  obtain ⟨k', hk', hafter, -⟩ := doExit_spec h ht hk hlive hl
  have hmem : k' = ({ k with mem := m' } : State).setTask t
      (some { tk with cr3 := 0, load := none, phase := .exiting }) := by
    simp only [State.doExit, hm', bind, Except.bind, Except.ok.injEq] at hk'
    exact hk'.symm
  refine ⟨k', by rw [State.Step, exec_of_happens (.exit ht hk hp hl), hk'], by rw [hmem]; rfl, by rw [hmem]; rfl, ?_,
    _, hafter⟩
  rw [hmem]
  show Spare m' b
  have hR : ∀ u i, pde m' ((roots k.task lost).setDir t none) u i = if u = t then 0 else pde k.mem (roots k.task lost) u i := by
    intro u i
    by_cases hu : u = t
    · simp [pde, hu]
    · rw [if_neg hu, ← hpde u hu]
      simp [pde, hu]
  refine Spare.of_refs h.mem hI' hlow hhigh (fun r n hr => ⟨r, ?_⟩) (fun n => hword 1 n (not_tableOf_one h.mem)) hb
  cases r with
  | misc x => exact hr
  | cr3 u =>
    by_cases hu : u = t
    · subst hu; simp [target] at hr
    · simpa [target, hu] using hr
  | pde u i =>
    by_cases hu : u = t
    · simp [target, hR, hu] at hr
    · rwa [target, hR, if_neg hu] at hr
  | pte u i j =>
    by_cases hu : u = t
    · simp [target, pte, hR, hu] at hr
    · rw [target, ← hpte u hu i j i.2]
      rwa [target, pte, hR, if_neg hu, ← hpde u hu] at hr

/-- The end of an `execve` without arguments: no page of the old image is left. -/
theorem execClear_bare (h : KInv s lost k) (ht : t ≠ 0) (hk : k.task t = some tk) (hl : tk.load = none) {e p : Nat}
    (hp : tk.phase = .closing e (fun _ => none) p) {b : Nat} (hb : Spare k.mem b) :
    ∃ k', State.Step k (.execClear t) k' ∧
      k'.task = Function.update k.task t (some { tk with limit := taskSize, phase := .building e p }) ∧
      k'.file = k.file ∧ Spare k'.mem b ∧ k'.mem.high = k.mem.high ∧ (∃ lost', After s lost t k k' lost') ∧
      ∀ i, i < 768 → k'.dirEntry t i = 0 := by
  have hlive : tk.phase.live = true := by rw [hp]; rfl
  have hd := h.dir ht hk hlive
  obtain ⟨m', hm', hc⟩ := h.mem.clearPageTables_spec hd
  obtain ⟨k', hk', lost', hafter, -, htask, -⟩ := execClear_spec h ht hk hl hp
  have hput : State.putArgs m' tk.cr3 (fun _ => none) = m' := by
    simp [State.putArgs]
  have hmem : k' = ({ k with mem := m' } : State).setTask t (some { tk with limit := taskSize, phase := .building e p }) := by
    simp only [State.execClear, hm', bind, Except.bind, hput, Except.ok.injEq] at hk'
    exact hk'.symm
  refine ⟨k', by rw [State.Step, exec_of_happens (.execClear ht hk hp hl), hk'], htask, by rw [hmem]; rfl, ?_, ?_,
    ⟨lost', hafter⟩, fun i hi => ?_⟩
  · rw [hmem]
    show Spare m' b
    refine Spare.of_refs h.mem hc.inv hc.low hc.high (fun r n hr => ⟨r, ?_⟩)
      (fun n => hc.word 1 n (not_tableOf_one h.mem)) hb
    cases r with
    | misc x => exact hr
    | cr3 u => exact hr
    | pde u i =>
      by_cases hu : u = t
      · subst hu; simp [target, hc.done i i.2 i.2] at hr
      · rwa [target, hc.pde u hu] at hr
    | pte u i j =>
      by_cases hu : u = t
      · subst hu; simp [target, pte, hc.done i i.2 i.2] at hr
      · rwa [target, hc.pte u hu i j i.2] at hr
  · rw [hmem]
    exact hc.high
  · rw [← hc.done i hi hi, State.dirEntry, htask]
    have : k'.mem = m' := by rw [hmem]; rfl
    rw [this]
    exact pde_congr_dir (by simp [roots, hk, Task.dir]) i

/-! ## Pages brought in -/

/-- A page of zeros, where the task has no file behind the address. -/
theorem fault_empty (h : KInv s lost k) (ht : t ≠ 0) (hk : k.task t = some tk) (hp : tk.phase.touches)
    (hl : tk.load = none) {a b : Nat} (ha : a < tk.limit) (hq : ¬ Present (k.tabEntry t (Mem.dirIx a) (Mem.tabIx a)))
    (hexe : tk.executable = none ∨ tk.endData ≤ a / 4096 * 4096) (hb : Spare k.mem b) (hroom : b + 1 < k.mem.high) :
    ∃ k' n, State.Step k (.fault t a) k' ∧ k'.task = k.task ∧ k'.file = k.file ∧ Spare k'.mem (b + 2) ∧
      Inv.Placed k.mem (roots k.task lost) t (Mem.dirIx a) (Mem.tabIx a) (entry n 103) k'.mem := by
  have hlive := Phase.touches_live hp
  have hd := h.dir ht hk hlive
  have hi : Mem.dirIx a < 768 := Inv.dirIx_lt (lt_of_lt_of_le ha (h.limit t tk hk))
  have hw : k.mem.word tk.cr3 (Mem.dirIx a) = pde k.mem (roots k.task lost) t (Mem.dirIx a) := by simp [pde, hd]
  have hone : ∀ n, k.mem.Managed n → n ≠ 1 := by
    rintro n hn rfl
    exact h.mem.not_managed_lt (by omega) hn
  have hMd := h.mem.dir_managed hd
  obtain ⟨m', hm', hsp⟩ := hb.getEmptyPage (d := tk.cr3) (a := a / 4096 * 4096) hroom h.mem.high_le
    (by rw [h.mem.map_used 1 (h.mem.not_managed_lt (by omega))]; omega) (hone _ hMd)
    (by have := h.mem.map_pos hMd (r := .cr3 t) hd; omega)
    (by rw [dirIx_page, hw]; exact fun hpr => hone _ (h.mem.table_managed hi hpr))
  obtain ⟨o, ho, hend⟩ := h.mem.getEmptyPage_spec (a := a / 4096 * 4096) roots_hand roots_page hd
    (by rw [dirIx_page]; exact hi) (by rw [dirIx_page, tabIx_page]; exact hq)
  rw [hm', Except.ok.injEq] at ho
  subst ho
  obtain ⟨-, n, -, hpl, -⟩ := hend
  rw [dirIx_page, tabIx_page] at hpl
  refine ⟨{ k with mem := m' }, n, ?_, rfl, rfl, hsp, hpl⟩
  rw [State.Step, exec_of_happens (.fault ht hk hp hl ha (by rw [h.entryAt ht hk hlive]; exact hq))]
  simp only [State.doNoPage]
  rw [if_pos hexe]
  simp [hm', bind, Except.bind]

/-- `share_page` when the only tasks with a page to share are those inside
`do_exit`, which run on `swapper_pg_dir`. -/
theorem shareLoop_swapper {task : Fin 64 → Option Task} {m m' : Mem} {cr3 ino a : Nat}
    (hok : m.tryToShare cr3 0 a = .ok (m', true)) (l : List (Fin 64))
    (hoth : ∀ p tp, task p = some tp → p ≠ t → tp.executable = some ino →
      tp.cr3 = 0 ∨ m.tryToShare cr3 tp.cr3 a = .ok (m, false))
    {v : Fin 64} {tv : Task} (hv : v ∈ l) (htv : task v = some tv) (hvt : v ≠ t) (hexe : tv.executable = some ino)
    (hcr : tv.cr3 = 0) : State.shareLoop task t cr3 ino a l m = .ok (m', true) := by
  induction l with
  | nil => cases hv
  | cons p ps ih =>
    have ih := fun hne : p ≠ v => ih ((List.mem_cons.1 hv).resolve_left hne.symm)
    simp only [State.shareLoop]
    cases hp : task p with
    | none => exact ih (by rintro rfl; rw [htv] at hp; cases hp)
    | some tp =>
      simp only
      by_cases hpt : p = t
      · rw [if_pos hpt]
        exact ih (by rintro rfl; exact hvt hpt)
      rw [if_neg hpt]
      by_cases hex : tp.executable = some ino
      swap
      · rw [if_pos hex]
        refine ih ?_
        rintro rfl
        rw [htv, Option.some.injEq] at hp
        exact hex (hp ▸ hexe)
      rw [if_neg (not_not.2 hex)]
      by_cases hc : tp.cr3 = 0
      · simp [hc, hok, bind, Except.bind]
      · have hfalse := (hoth p tp hp hpt hex).resolve_left hc
        simp only [hfalse, bind, Except.bind]
        refine ih ?_
        rintro rfl
        rw [htv, Option.some.injEq] at hp
        exact hc (hp ▸ hcr)

/-- **A fault served from `pg0`**: some task of the same executable is inside
`do_exit`, and no live one has a clean page there. -/
theorem fault_swapper (h : KInv s lost k) (hns : ¬ s) (ht : t ≠ 0) (hk : k.task t = some tk) (hp : tk.phase.touches)
    (hl : tk.load = none) {a b n ino : Nat} (ha : a < tk.limit) (hi : Mem.dirIx a = 0) (hj : Mem.tabIx a = n)
    (hq : ¬ Present (k.tabEntry t 0 n)) (hexe : tk.executable = some ino) (hend : a / 4096 * 4096 < tk.endData)
    (hcount : 2 ≤ k.iCount ino) (hM : k.mem.Managed n) (hcl : ¬ Dirty (k.mem.word 1 n)) (hb : Spare k.mem b)
    (hroom : b < k.mem.high) (hbn : b < n ∨ k.mem.map n ≠ 0)
    (hoth : ∀ p tp, k.task p = some tp → p ≠ t → tp.executable = some ino → tp.cr3 = 0 ∨
      ¬ (Present (k.tabEntry p 0 n) ∧ ¬ Dirty (k.tabEntry p 0 n)))
    {v : Fin 64} {tv : Task} (hv : v ≠ 0) (htv : k.task v = some tv) (hvt : v ≠ t) (hexv : tv.executable = some ino)
    (hcr : tv.cr3 = 0) :
    ∃ k', State.Step k (.fault t a) k' ∧ k'.task = k.task ∧ k'.file = k.file ∧ k'.iCount = k.iCount ∧
      Inv.Shared k.mem (roots k.task lost) t none 0 0 n k'.mem ∧ k'.mem.map n = k.mem.map n + 1 ∧
      ¬ Dirty (k'.mem.word 1 n) ∧ Spare k'.mem (max (b + 1) (n + 1)) := by
  have hlive := Phase.touches_live hp
  have hd := h.dir ht hk hlive
  have hn : n < 1024 := hj ▸ Inv.tabIx_lt a
  obtain ⟨m', hm', hsh, hmap, hdirty, hsp⟩ := h.mem.tryToShare_swapper (a := a / 4096 * 4096) hns roots_hand hd
    (by rw [dirIx_page]; exact hi) (by rw [tabIx_page]; exact hj) hn hq hM hcl hb hroom hbn
  have hloop := shareLoop_swapper hm' State.shareOrder
    (fun p tp (hp' : k.task p = some tp) (hpt : p ≠ t) (hex : tp.executable = some ino) => by
      by_cases hc : tp.cr3 = 0
      · exact .inl hc
      have hp0 : p ≠ 0 := by
        rintro rfl
        obtain ⟨tk₀, h₀, hc₀, -⟩ := h.init
        rw [h₀, Option.some.injEq] at hp'
        exact hc (hp' ▸ hc₀)
      have hno := (hoth p tp hp' hpt hex).resolve_left hc
      rw [State.tabEntry, pte_walk (roots_dir hp0 hp' hc)] at hno
      exact .inr (Inv.tryToShare_of_not (by rw [dirIx_page, tabIx_page, hi, hj]; exact hno)))
    (by simp [State.shareOrder, hv]) htv hvt hexv hcr
  refine ⟨{ k with mem := m' }, ?_, rfl, rfl, rfl, hsh, hmap, hdirty, hsp⟩
  rw [State.Step, exec_of_happens (.fault ht hk hp hl ha (by rw [h.entryAt ht hk hlive, hi, hj]; exact hq))]
  simp only [State.doNoPage]
  rw [if_neg (by rw [hexe]; simp [hend])]
  simp only [State.sharePage, hexe]
  rw [if_neg (by omega), hloop]
  simp [bind, Except.bind]

/-! ## A whole `execve` -/

/-- Task `t` runs executable `ino`, in user mode. -/
structure Runs (k : State) (t : Fin 64) (ino : Nat) (tk : Task) : Prop where
  slot : t ≠ 0
  task : k.task t = some tk
  user : tk.phase = .user
  load : tk.load = none
  limit : tk.limit = taskSize
  executable : tk.executable = some ino
  endData : tk.endData = State.headerEnd (k.file ino)

/-- Task `t` has its stack, and nothing else. -/
def Bare (k : State) (t : Fin 64) : Prop := ∀ i, i ≠ 767 → i < 768 → k.dirEntry t i = 0

/-- No page is mapped for task `t` at directory entry `i`. -/
def Unmapped (k : State) (t : Fin 64) (i : Nat) : Prop := ∀ j, j < 1024 → k.tabEntry t i j = 0

theorem Bare.unmapped (h : Bare k t) {i : Nat} (h₁ : i ≠ 767) (h₂ : i < 768) : Unmapped k t i := by
  intro j _
  have := h i h₁ h₂
  rw [State.dirEntry] at this
  simp [State.tabEntry, pte, this]

theorem Runs.congr {ino : Nat} (h : Runs k t ino tk) (htask : k'.task t = k.task t) (hfile : k'.file = k.file) :
    Runs k' t ino tk :=
  { h with task := htask ▸ h.task, endData := hfile ▸ h.endData }

/-- **An `execve` without arguments**, with two pages to spare. -/
theorem exec_bare {b : Boot} {file : Nat → Nat → Fin 256} (hr : Run.Reaches State.Step (State.boot b file) k)
    (ht : t ≠ 0) (hk : k.task t = some tk) (hu : tk.phase = .user) (hl : tk.load = none)
    (hend : tk.endData ≤ 16777216) {ino c : Nat} (hok : State.headerOk (k.file ino)) (hc : Spare k.mem c)
    (hroom : c + 1 < k.mem.high) :
    ∃ k' tk', Run.Reaches State.Step (State.boot b file) k' ∧ Runs k' t ino tk' ∧ Bare k' t ∧ k'.file = k.file ∧
      k'.mem.high = k.mem.high ∧ Spare k'.mem (c + 2) ∧ ∀ u, u ≠ t → k'.task u = k.task u := by
  let e := State.headerEnd (k.file ino)
  let tk₁ : Task := { tk with phase := .copying ino e (fun _ => none) 131068 }
  let tk₂ : Task := { tk₁ with executable := some ino, phase := .closing e (fun _ => none) 131068 }
  let tk₃ : Task := { tk₂ with limit := taskSize, phase := .building e 131068 }
  let tk₄ : Task := { tk₃ with endData := e, phase := .filling }
  -- The strings, none, and the new executable.
  have hs₁ : State.Step k (.execBegin t ino) (k.setTask t (some tk₁)) :=
    exec_of_happens (.execBegin ht hk (by rw [hu]; rfl) hl hok)
  have hs₂ : State.Step (k.setTask t (some tk₁)) (.execCommit t) ((k.setTask t (some tk₁)).setTask t (some tk₂)) :=
    exec_of_happens (.execCommit ht (show _ = some tk₁ by simp [State.setTask]) rfl hl (by omega))
  have hr₂ := (hr.snoc hs₁).snoc hs₂
  obtain ⟨lost₂, hI₂⟩ := reachable_inv hr₂
  -- The old image goes.
  obtain ⟨k₃, hs₃, htask₃, hfile₃, hsp₃, hhigh₃, -, hdir₃⟩ :=
    execClear_bare hI₂ ht (show _ = some tk₂ by simp [State.setTask]) hl rfl hc
  have hk₃ : k₃.task t = some tk₃ := by rw [htask₃, Function.update_self]
  have hr₃ := hr₂.snoc hs₃
  obtain ⟨lost₃, hI₃⟩ := reachable_inv hr₃
  -- `create_tables` faults its page in.
  have ha : State.stackTop 131068 = 3221225464 := rfl
  have hlim : State.stackTop 131068 < taskSize := by decide
  have hq₃ : ¬ Present (k₃.tabEntry t (Mem.dirIx (State.stackTop 131068)) (Mem.tabIx (State.stackTop 131068))) := by
    have h0 := hdir₃ 767 (by omega)
    rw [State.dirEntry] at h0
    rw [State.tabEntry, ha, show Mem.dirIx 3221225464 = 767 from rfl, pte, h0]
    simp
  obtain ⟨k₄, n, hs₄, htask₄, hfile₄, hsp₄, hpl⟩ := fault_empty hI₃ ht hk₃ rfl hl
    (a := State.stackTop 131068) hlim hq₃
    (.inr (show tk.endData ≤ _ by rw [ha]; omega)) hsp₃ (by rw [hhigh₃]; exact hroom)
  have hk₄ : k₄.task t = some tk₃ := by rw [htask₄]; exact hk₃
  have hr₄ := hr₃.snoc hs₄
  obtain ⟨lost₄, hI₄⟩ := reachable_inv hr₄
  have hq₄ : Present (State.entryAt k₄.mem tk₃.cr3 (State.stackTop 131068)) := by
    rw [hI₄.entryAt ht hk₄ rfl, htask₄]
    have := hpl.pte t _ (Mem.tabIx (State.stackTop 131068)) (show Mem.dirIx (State.stackTop 131068) < 768 by decide)
    rw [if_pos ⟨rfl, rfl, rfl⟩] at this
    exact this ▸ present_entry.2 rfl
  have hs₅ : State.Step k₄ (.execData t) (k₄.setTask t (some tk₄)) :=
    exec_of_happens (.execData ht hk₄ rfl hl hlim hq₄)
  have hs₆ : State.Step (k₄.setTask t (some tk₄)) (.execDone t)
      ((k₄.setTask t (some tk₄)).setTask t (some { tk₄ with phase := .user })) :=
    exec_of_happens (.execDone ht (show _ = some tk₄ by simp [State.setTask]) rfl hl)
  have hfile : k₄.file = k.file := hfile₄.trans hfile₃
  refine ⟨_, { tk₄ with phase := .user }, (hr₄.snoc hs₅).snoc hs₆, ⟨ht, by simp [State.setTask], rfl, hl, rfl, rfl, ?_⟩,
    fun i h₁ h₂ => ?_, hfile, hpl.high.trans hhigh₃, hsp₄, fun u hu => ?_⟩
  · show e = State.headerEnd (k₄.file ino)
    rw [hfile]
  · rw [← hdir₃ i h₂]
    have hdir : (roots ((k₄.setTask t (some tk₄)).setTask t (some { tk₄ with phase := .user })).task fun _ => false).dir t =
        (roots k₃.task lost₃).dir t := by simp [roots, State.setTask, hk₃, Task.dir, tk₄]
    exact (pde_congr_dir hdir i).trans (hpl.pde t i fun e => h₁ e.2)
  · simp [State.setTask, hu, htask₄, htask₃]

/-- A fork of such a task: the child is like it. -/
theorem fork_bare {b : Boot} {file : Nat → Nat → Fin 256} (hr : Run.Reaches State.Step (State.boot b file) k)
    {ino : Nat} (hrun : Runs k t ino tk) (hbare : Bare k t) {nr : Fin 64} (hnr : nr ≠ 0) (hfree : k.task nr = none)
    {c : Nat} (hc : Spare k.mem c) (hroom : c + 3 < k.mem.high) :
    ∃ k' u tu, Run.Reaches State.Step (State.boot b file) k' ∧ k.task u = none ∧ Runs k' t ino tk ∧ Bare k' t ∧
      Runs k' u ino tu ∧ (∀ i, i ≠ 767 → i < 768 → Unmapped k' u i) ∧
      (∀ v i, v ≠ u → i < 768 → Unmapped k v i → Unmapped k' v i) ∧ k'.file = k.file ∧ k'.mem.high = k.mem.high ∧
      Spare k'.mem (c + 3) ∧ ∀ v, v ≠ u → k'.task v = k.task v := by
  obtain ⟨ht, hk, hu, hl, hlim, hexe, hend⟩ := id hrun
  obtain ⟨lost, hI⟩ := reachable_inv hr
  have hd := hI.dir ht hk (by rw [hu]; rfl)
  have hcount : Inv.tableCount k.mem tk.cr3 1024 ≤ 1 := by
    refine tableCount_le_one (c := 767) (fun i h₁ h₂ => ?_) 1024
    have h0 : pde k.mem (roots k.task lost) t i = 0 := hbare i h₁ h₂
    simpa [pde, hd] using h0
  obtain ⟨k', u, p, pid, dir, hs, hu0, hun, htask, hfile, hsp, hafter, hkeeps, hchild⟩ :=
    fork_succeeds hI hk (by rw [hu]; rfl) hl hnr hfree hc (by omega)
  have htu : t ≠ u := by rintro rfl; rw [hk] at hun; cases hun
  have hother : ∀ v, v ≠ u → k'.task v = k.task v := fun v hv => by rw [htask, Function.update_of_ne hv]
  have hdir : ∀ v, v ≠ u → (roots k'.task fun _ => false).dir v = (roots k.task lost).dir v := fun v hv => by
    simp [roots, hother v hv]
  refine ⟨k', u, { tk with page := p, pid := pid, cr3 := dir, load := none, phase := .user }, hr.snoc hs, hun,
    hrun.congr (hother t htu) hfile, fun i h₁ h₂ => ?_, ⟨hu0, by rw [htask, Function.update_self], rfl, rfl, hlim, hexe, by rw [hfile]; exact hend⟩, fun i h₁ h₂ j hj => ?_,
    fun v i hv hi h0 j hj => ?_, hfile, hkeeps.high, hsp.mono (by omega), hother⟩
  · rw [← hbare i h₁ h₂]
    exact (pde_congr_dir (hdir t htu) i).trans (hkeeps.pde t i)
  · have := hchild i j h₂ hj
    have h0 : k.mem.walk tk.cr3 i j = 0 := (pte_walk hd i j).symm.trans (hbare.unmapped h₁ h₂ j hj)
    rw [h0, clearRw_zero, ite_self] at this
    exact this
  · have h0' : pte k.mem (roots k.task lost) v i j = 0 := h0 j hj
    refine (pte_congr_dir (hdir v hv) i j).trans ?_
    rcases hkeeps.pte v i j hi hj with e | ⟨-, -, e⟩ <;> rw [e, h0']
    exact clearRw_zero

/-- **Three tasks of one executable, one of them inside `do_exit`**: `t` and `u`
run, with no page of the executable, and `v` has freed its tables. -/
theorem siblings_reachable (b : Boot) (file : Nat → Nat → Fin 256) (hroom : b.low + 11 < b.high)
    (hok : State.headerOk (file 0)) :
    ∃ k t u v tk tu tv, Run.Reaches State.Step (State.boot b file) k ∧ t ≠ u ∧ Runs k t 0 tk ∧ Runs k u 0 tu ∧
      (v ≠ 0 ∧ v ≠ t ∧ v ≠ u ∧ k.task v = some tv ∧ tv.executable = some 0 ∧ tv.cr3 = 0) ∧
      (∀ p tp, k.task p = some tp → p ≠ t → p ≠ u → tp.executable = some 0 → tp.cr3 = 0) ∧
      Unmapped k t 0 ∧ Unmapped k u 0 ∧ k.file = file ∧ k.mem.high = b.high ∧ Spare k.mem (b.low + 11) := by
  obtain ⟨k₁, t, p, pid, dir, hs₁, ht, htask₁, hfile₁, hhigh₁, hsp₁, -⟩ := boot_fork b file (by omega)
  have hr₁ : Run.Reaches State.Step (State.boot b file) k₁ := ⟨_, .one hs₁⟩
  obtain ⟨k₂, tk, hr₂, hrun₂, hbare₂, hfile₂, hhigh₂, hsp₂, hother₂⟩ := exec_bare hr₁ ht
    (by rw [htask₁, Function.update_self]) rfl rfl (Nat.zero_le _)
    (show State.headerOk (k₁.file 0) by rw [hfile₁]; exact hok) hsp₁ (by omega)
  have hnone₂ : ∀ x, x ≠ 0 → x ≠ t → k₂.task x = none := fun x h0 hx => by
    rw [hother₂ x hx, htask₁, Function.update_of_ne hx]
    simp [State.boot, h0]
  obtain ⟨nr, hnr, hnrt⟩ : ∃ nr : Fin 64, nr ≠ 0 ∧ nr ≠ t := by
    by_cases h1 : t = 1
    · exact ⟨2, by decide, by rw [h1]; decide⟩
    · exact ⟨1, by decide, fun e => h1 e.symm⟩
  obtain ⟨k₃, u, tu, hr₃, hun, hrun₃, hbare₃, hrunu, hunm₃, -, hfile₃, hhigh₃, hsp₃, hother₃⟩ :=
    fork_bare hr₂ hrun₂ hbare₂ hnr (hnone₂ nr hnr hnrt) hsp₂ (by omega)
  have hut : u ≠ t := by rintro rfl; rw [hrun₂.task] at hun; cases hun
  obtain ⟨nr', hnr', hnrt', hnru'⟩ : ∃ nr : Fin 64, nr ≠ 0 ∧ nr ≠ t ∧ nr ≠ u := by
    have : ({0, t, u} : Finset (Fin 64)).card < (Finset.univ : Finset (Fin 64)).card :=
      lt_of_le_of_lt (Finset.card_le_three) (by simp)
    obtain ⟨nr, -, h⟩ := Finset.exists_mem_notMem_of_card_lt_card this
    simp only [Finset.mem_insert, Finset.mem_singleton, not_or] at h
    exact ⟨nr, h⟩
  obtain ⟨k₄, v, tv, hr₄, hvn, hrun₄, hbare₄, hrunv, -, hunm₄, hfile₄, hhigh₄, hsp₄, hother₄⟩ :=
    fork_bare hr₃ hrun₃ hbare₃ hnr' (by rw [hother₃ nr' hnru']; exact hnone₂ nr' hnr' hnrt') hsp₃ (by omega)
  have hvt : v ≠ t := by rintro rfl; rw [hrun₃.task] at hvn; cases hvn
  have hvu : v ≠ u := by rintro rfl; rw [hrunu.task] at hvn; cases hvn
  obtain ⟨lost₄, hI₄⟩ := reachable_inv hr₄
  obtain ⟨k₅, hs₅, htask₅, hfile₅, hsp₅, lost₅, hafter⟩ := exit_succeeds hI₄ hrunv.slot hrunv.task
    (by rw [hrunv.user]; rfl) hrunv.load hsp₄
  have hother₅ : ∀ x, x ≠ v → k₅.task x = k₄.task x := fun x hx => by rw [htask₅, Function.update_of_ne hx]
  have hunm₅ : ∀ x, x ≠ v → Unmapped k₄ x 0 → Unmapped k₅ x 0 := fun x hx h0 j hj => by
    have h0' : pte k₄.mem (roots k₄.task lost₄) x 0 j = 0 := h0 j hj
    have : pte k₅.mem (roots k₅.task lost₅) x 0 j = 0 := by
      rcases hafter.others.entries x 0 j hx (by omega) hj with e | e <;> rw [e, h0']
      exact clearRw_zero
    exact this
  refine ⟨k₅, t, u, v, tk, tu, { tv with cr3 := 0, load := none, phase := .exiting }, hr₄.snoc hs₅, hut.symm, hrun₄.congr (hother₅ t hvt.symm) hfile₅,
    hrunu.congr ((hother₅ u hvu.symm).trans (hother₄ u hvu.symm)) (hfile₅.trans hfile₄),
    ⟨hrunv.slot, hvt, hvu, by rw [htask₅, Function.update_self], hrunv.executable, rfl⟩, fun x tx hx hxt hxu hex => ?_,
    hunm₅ t hvt.symm (hbare₄.unmapped (by omega) (by omega)),
    hunm₅ u hvu.symm (hunm₄ u 0 hvu.symm (by omega) (hunm₃ 0 (by omega) (by omega))),
    hfile₅.trans (hfile₄.trans (hfile₃.trans (hfile₂.trans hfile₁))),
    hafter.others.high.trans (hhigh₄.trans (hhigh₃.trans (hhigh₂.trans hhigh₁))), hsp₅⟩
  by_cases hxv : x = v
  · subst hxv
    rw [htask₅, Function.update_self, Option.some.injEq] at hx
    rw [← hx]
  rw [hother₅ x hxv, hother₄ x hxv, hother₃ x hxu] at hx
  by_cases hx0 : x = 0
  · subst hx0
    rw [hother₂ 0 hxt, htask₁, Function.update_of_ne hxt] at hx
    simp only [State.boot, Function.update_self, Option.some.injEq] at hx
    rw [← hx]
    rfl
  · rw [hnone₂ x hx0 hxt] at hx
    cases hx

/-! ## A page of `pg0` mapped by two tasks -/

/-- A write to a page that is read-only and has one reference: the fault sets
PAGE_RW on the page itself, and the store goes through. -/
theorem write_alone {b : Boot} {file : Nat → Nat → Fin 256} (hr : Run.Reaches State.Step (State.boot b file) k)
    (ht : t ≠ 0) (hk : k.task t = some tk) (hu : tk.phase.isUser) (hl : tk.load = none) {a n : Nat} (c : Nat)
    (ha : a < tk.limit) (hq : ent (k.tabEntry t (Mem.dirIx a) (Mem.tabIx a)) = some n)
    (hw : ¬ Rw (k.tabEntry t (Mem.dirIx a) (Mem.tabIx a))) (hM : k.mem.Managed n) (hmap : k.mem.map n = 1) :
    ∃ k', Run.Reaches State.Step (State.boot b file) k' ∧ k'.task = k.task ∧ k'.file = k.file ∧ k'.iCount = k.iCount ∧
      k'.mem.low = k.mem.low ∧ k'.mem.high = k.mem.high ∧ k'.mem.map = k.mem.map ∧
      (∀ w, k'.mem.word 1 w = k.mem.word 1 w) ∧
      (∀ u i j, i < 768 → k'.tabEntry u i j =
        if u = t ∧ i = Mem.dirIx a ∧ j = Mem.tabIx a then setDirty (setRw (k.tabEntry u i j)) else k.tabEntry u i j) ∧
      State.getByte (k'.mem.word n (a % 4096 / 4)) (a % 4) = c % 256 := by
  obtain ⟨lost, h⟩ := reachable_inv hr
  obtain ⟨hp, hf⟩ := ent_eq_some.1 hq
  have hlive := Phase.touches_live (Phase.isUser_touches hu)
  have hd := h.dir ht hk hlive
  have hi : Mem.dirIx a < 768 := Inv.dirIx_lt (lt_of_lt_of_le ha (h.limit t tk hk))
  have hpt : Present (pde k.mem (roots k.task lost) t (Mem.dirIx a)) := present_pde hp
  have hword : k.mem.word (frame (pde k.mem (roots k.task lost) t (Mem.dirIx a))) (Mem.tabIx a) =
      k.tabEntry t (Mem.dirIx a) (Mem.tabIx a) := (Inv.pte_eq hpt _).symm
  have hT := h.mem.table_managed hi hpt
  have hpte₁ := fun u {i : Nat} (hi' : i < 768) j => h.mem.pte_setTable hi hpt (Mem.tabIx a)
    (setRw (k.tabEntry t (Mem.dirIx a) (Mem.tabIx a))) u hi' j
  generalize hm₁ : k.mem.set (frame (pde k.mem (roots k.task lost) t (Mem.dirIx a))) (Mem.tabIx a)
    (setRw (k.tabEntry t (Mem.dirIx a) (Mem.tabIx a))) = m₁ at hpte₁
  -- The fault.
  have hs₁ : State.Step k (.wpFault t a) { k with mem := m₁ } := by
    have he := h.entryAt ht hk hlive a
    have hpd : k.mem.word tk.cr3 (Mem.dirIx a) = pde k.mem (roots k.task lost) t (Mem.dirIx a) := by simp [pde, hd]
    rw [State.Step, exec_of_happens (.wpFault ht hk hu hl ha (by rw [he]; exact hp) (by rw [he]; exact hw))]
    simp only [State.wpFault, Mem.doWpPage, hpd, Mem.unWpPage, hword]
    rw [if_pos ⟨by rw [hf, h.mem.used_iff]; exact not_not.2 hM, by rw [hf]; exact hmap⟩, hm₁]
  have hr₁ := hr.snoc hs₁
  obtain ⟨lost₁, h₁⟩ := reachable_inv hr₁
  have he₁ : pte m₁ (roots k.task lost₁) t (Mem.dirIx a) (Mem.tabIx a) =
      setRw (k.tabEntry t (Mem.dirIx a) (Mem.tabIx a)) := by
    have := hpte₁ t hi (Mem.tabIx a)
    rwa [if_pos ⟨rfl, rfl, rfl⟩] at this
  -- The store.
  obtain ⟨hq₁, hw₁⟩ : Present (State.entryAt m₁ tk.cr3 a) ∧ Rw (State.entryAt m₁ tk.cr3 a) := by
    have := h₁.entryAt ht hk hlive a
    simp only at this
    rw [this, he₁]
    exact ⟨by simpa using hp, by simp⟩
  obtain ⟨hafter, hst⟩ := write_spec (b := c) h₁ ht hk hu hl ha hq₁ hw₁
  have hs₂ := exec_of_happens (k := { k with mem := m₁ }) (.write (b := c) ht hk hu hl ha hq₁ hw₁)
  simp only at hst
  have hfr : frame (pte m₁ (roots k.task lost₁) t (Mem.dirIx a) (Mem.tabIx a)) = n := by rw [he₁, frame_setRw, hf]
  have hnt : ∀ f, ¬ m₁.Managed f → ¬ IsTable m₁ (roots k.task lost₁) f := fun f => h₁.mem.not_isTable_of_unmanaged
  have h1 : ¬ m₁.Managed 1 := h₁.mem.not_managed_lt (by omega)
  have hT1 : frame (pde k.mem (roots k.task lost) t (Mem.dirIx a)) ≠ 1 := by
    intro e
    rw [e] at hT
    exact h.mem.not_managed_lt (by omega) hT
  have hnm : m₁.Managed n := by rw [← hm₁]; exact hM
  refine ⟨_, hr₁.snoc hs₂, rfl, rfl, rfl, hst.low.trans (by rw [← hm₁]; rfl), hst.high.trans (by rw [← hm₁]; rfl),
    hst.map.trans (by rw [← hm₁]; rfl), fun w => ?_, fun u i j hi' => ?_, ?_⟩
  · show (State.storeByte m₁ tk.cr3 a c).word 1 w = _
    rw [hst.data 1 w (hnt 1 h1), if_neg (by rw [hfr]; rintro ⟨rfl, -⟩; exact h1 hnm), ← hm₁, Mem.set_word,
      if_neg (fun e => hT1 e.1.symm)]
  · show pte (State.storeByte m₁ tk.cr3 a c) (roots k.task lost₁) u i j = _
    rw [hst.entries u i j hi', show pte m₁ (roots k.task lost₁) u i j = pte m₁ (roots k.task lost) u i j from rfl,
      hpte₁ u hi' j]
    by_cases e : u = t ∧ i = Mem.dirIx a ∧ j = Mem.tabIx a
    · rw [if_pos e, if_pos e, if_pos e, e.1, e.2.1, e.2.2]
    · rw [if_neg e, if_neg e, if_neg e]
      rfl
  · show State.getByte ((State.storeByte m₁ tk.cr3 a c).word n (a % 4096 / 4)) (a % 4) = _
    have hdata : ¬ IsTable m₁ (roots k.task lost₁) n :=
      h₁.mem.not_isTable_of_rw hi (Inv.tabIx_lt a) (by rw [he₁]; simpa using hp) (by rw [he₁]; simp) hfr
    rw [hst.data n _ hdata, if_pos ⟨hfr.symm, rfl⟩, State.getByte_setByte _ _ (by omega) (by omega), if_pos rfl]

/-- **A page of `pg0` with two users**: `t` can write the page and has stored `c`
at its start, and the next fault of `u` maps it as well. -/
theorem swapper_page_twice (b : Boot) (file : Nat → Nat → Fin 256) (n c : Nat) (hn : b.low + 11 < n)
    (hlt : n + 1 < b.high) (hn' : n < 1024) (hok : State.headerOk (file 0)) (hend : n * 4096 < State.headerEnd (file 0)) :
    ∃ k k' t u tk tu, Run.Reaches State.Step (State.boot b file) k ∧ State.Step k (.fault u (n * 4096)) k' ∧
      t ≠ u ∧ Runs k' t 0 tk ∧ Runs k' u 0 tu ∧ k'.mem.Managed n ∧
      (ent (k'.tabEntry t 0 n) = some n ∧ Rw (k'.tabEntry t 0 n)) ∧ ent (k'.tabEntry u 0 n) = some n ∧
      k'.file = file ∧ k'.task = k.task ∧ State.getByte (k'.mem.word n 0) 0 = c % 256 := by
  obtain ⟨k₁, t, u, v, tk, tu, tv, hr₁, htu, hrt, hru, ⟨hv0, hvt, hvu, hv, hexv, hcrv⟩, hrest, hunt, hunu, hfile₁,
    hhigh₁, hsp₁⟩ := siblings_reachable b file (by omega) hok
  have hi : Mem.dirIx (n * 4096) = 0 := by unfold Mem.dirIx; omega
  have hj : Mem.tabIx (n * 4096) = n := by unfold Mem.tabIx; omega
  have hlim : n * 4096 < taskSize := by unfold taskSize; omega
  have hin : ∀ {x : Task}, x.endData = State.headerEnd (file 0) → n * 4096 / 4096 * 4096 < x.endData := fun e => by
    rw [e, show n * 4096 / 4096 * 4096 = n * 4096 by omega]
    exact hend
  have hwalk : ∀ {k lost}, KInv False lost k → frame (k.mem.walk 0 0 n) = n := fun h => by
    unfold Mem.walk
    rw [if_pos h.mem.swap.dir0.1, h.mem.swap.dir0.2]
    exact (h.mem.swap.pg0 n hn').2
  -- The inode is open more than once.
  let k₂ : State := { k₁ with iCount := fun _ => 2 }
  have hr₂ : Run.Reaches State.Step (State.boot b file) k₂ := hr₁.snoc (exec_of_happens .counts : k₁.exec (.counts k₁.fCount fun _ => 2) = _)
  obtain ⟨lost₂, hI₂⟩ := reachable_inv hr₂
  have hM₂ : k₂.mem.Managed n := ⟨by have := hsp₁.low; show k₁.mem.low ≤ n; omega, by show n < k₁.mem.high; omega⟩
  -- The first share, by `t`.
  obtain ⟨k₃, hs₃, htask₃, hfile₃, hic₃, hsh₃, hmap₃, hcl₃, hsp₃⟩ := fault_swapper hI₂ id hrt.slot hrt.task
    (by rw [hrt.user]; rfl) hrt.load (a := n * 4096) (by rw [hrt.limit]; exact hlim) hi hj
    (by rw [show k₂.tabEntry t 0 n = 0 from hunt n hn']; exact not_present_zero) hrt.executable
    (hin (by rw [hrt.endData, hfile₁])) le_rfl hM₂ (hsp₁.clean n (by omega) hn') hsp₁
    (by show b.low + 11 < k₁.mem.high; omega) (.inl hn)
    (fun p tp hp hpt hex => by
      by_cases hpu : p = u
      · subst hpu
        right
        rw [show k₂.tabEntry p 0 n = 0 from hunu n hn']
        simp
      · exact .inl (hrest p tp hp hpt hpu hex)) hv0 hv hvt hexv hcrv
  have hent₃ : ent (k₃.tabEntry t 0 n) = some n ∧ ¬ Rw (k₃.tabEntry t 0 n) := by
    rw [State.tabEntry, htask₃]
    have hnew := hsh₃.new
    rw [hwalk hI₂] at hnew
    exact hnew
  have hu₃ : k₃.tabEntry u 0 n = 0 := by
    have := hsh₃.pte u 0 n (by omega) (fun e => htu e.1.symm)
    rw [if_neg (by simp)] at this
    rw [State.tabEntry, htask₃]
    exact this.trans (hunu n hn')
  have hM₃ : k₃.mem.Managed n := (Inv.managed_congr hsh₃.low hsh₃.high n).2 hM₂
  -- `t` writes to it; its entry is dirty from now on.
  obtain ⟨k₄, hr₄, htask₄, hfile₄, hic₄, hlow₄, hhigh₄, hmap₄, hone₄, hpte₄, hbyte₄⟩ := write_alone (hr₂.snoc hs₃)
    hrt.slot (by rw [htask₃]; exact hrt.task) (by rw [hrt.user]; rfl) hrt.load (a := n * 4096) c
    (by rw [hrt.limit]; exact hlim) (by rw [hi, hj]; exact hent₃.1) (by rw [hi, hj]; exact hent₃.2) hM₃
    (by rw [hmap₃, show k₂.mem.map n = 0 from hsp₁.free n (by omega) (by omega)])
  rw [hi, hj] at hpte₄
  rw [show n * 4096 % 4096 / 4 = 0 by omega, show n * 4096 % 4 = 0 by omega] at hbyte₄
  obtain ⟨lost₄, hI₄⟩ := reachable_inv hr₄
  have hM₄ : k₄.mem.Managed n := (Inv.managed_congr hlow₄ hhigh₄ n).2 hM₃
  have het₄ : k₄.tabEntry t 0 n = setDirty (setRw (k₃.tabEntry t 0 n)) := by
    rw [hpte₄ t 0 n (by omega), if_pos ⟨rfl, rfl, rfl⟩]
  have htask : k₄.task = k₁.task := htask₄.trans htask₃
  have hfile : k₄.file = file := hfile₄.trans (hfile₃.trans hfile₁)
  -- The second share, by `u`.
  obtain ⟨k₅, hs₅, htask₅, hfile₅, -, hsh₅, -⟩ := fault_swapper hI₄ id hru.slot (by rw [htask]; exact hru.task)
    (by rw [hru.user]; rfl) hru.load (a := n * 4096) (b := max (b.low + 11 + 1) (n + 1)) (by rw [hru.limit]; exact hlim)
    hi hj (by rw [hpte₄ u 0 n (by omega), if_neg (fun e => htu e.1.symm), hu₃]; exact not_present_zero) hru.executable
    (hin (by rw [hru.endData, hfile₁])) (by rw [hic₄, hic₃]) hM₄ (by rw [hone₄]; exact hcl₃)
    (hsp₃.of_map hlow₄ hhigh₄ (fun x _ h0 => by rw [hmap₄]; exact h0) hone₄)
    (by rw [hhigh₄, hsh₃.high, show k₂.mem.high = b.high from hhigh₁]; omega) (.inr (by rw [hmap₄, hmap₃]; omega))
    (fun p tp hp hpu hex => by
      rw [htask] at hp
      by_cases hpt : p = t
      · subst hpt
        right
        rw [het₄]
        simp
      · exact .inl (hrest p tp hp hpt hpu hex)) hv0 (by rw [htask]; exact hv) hvu hexv hcrv
  have hroots : roots k₅.task (fun _ => false) = roots k₄.task fun _ => false := by rw [htask₅]
  have het₅ : k₅.tabEntry t 0 n = k₄.tabEntry t 0 n := by
    have := hsh₅.pte t 0 n (by omega) (fun e => htu e.1)
    rw [if_neg (by simp)] at this
    rw [State.tabEntry, hroots]
    exact this
  have heu₅ : ent (k₅.tabEntry u 0 n) = some n := by
    rw [State.tabEntry, hroots]
    have hnew := hsh₅.new.1
    rw [hwalk hI₄] at hnew
    exact hnew
  refine ⟨k₄, k₅, t, u, tk, tu, hr₄, hs₅, htu, hrt.congr (by rw [htask₅, htask]) (by rw [hfile₅, hfile, hfile₁]),
    hru.congr (by rw [htask₅, htask]) (by rw [hfile₅, hfile, hfile₁]), (Inv.managed_congr hsh₅.low hsh₅.high n).2 hM₄,
    ⟨by rw [het₅, het₄]; simpa using hent₃.1, by rw [het₅, het₄]; simp⟩, heu₅, by rw [hfile₅, hfile], htask₅, ?_⟩
  -- The page is data, and keeps its bytes.
  have hp₄ : Present (k₄.tabEntry t 0 n) ∧ frame (k₄.tabEntry t 0 n) = n := by
    rw [het₄]
    simpa using ent_eq_some.1 hent₃.1
  have hw₄ : Rw (k₄.tabEntry t 0 n) := by rw [het₄]; simp
  have hdata : ¬ IsTable k₄.mem (roots k₄.task lost₄) n :=
    hI₄.mem.not_isTable_of_rw (by omega) hn' hp₄.1 hw₄ hp₄.2
  rw [hsh₅.data n 0 hM₄ (by rw [hmap₄, hmap₃]; omega) hdata]
  exact hbyte₄

end Linux011.Kernel
