/-
Faults and accesses: `do_no_page` up to and after its sleep, `do_wp_page`,
stores in user mode, and `verify_area` at the start of `sys_read`.
-/
import Linux011.Kernel.Steps

namespace Linux011.Kernel

open Mm RefCount

variable {s : Prop} {lost lost' : Fin 4096 → Bool} {k k' : State} {t : Fin 64} {tk tk' : Task} {m m' : Mem}
  {R R' : Roots}

/-! ## `share_page` -/

/-- No page of `pg0` would be shared with task `t` at `a`: no other task in
`do_exit` still has the same executable, or `pg0` has no clean managed frame
there. -/
def NoSwapShare (k : State) (t : Fin 64) (tk : Task) (a : Nat) : Prop :=
  ∀ p tp, k.task p = some tp → p ≠ 0 → p ≠ t → tp.executable = tk.executable → tp.cr3 = 0 →
    ∀ m', k.mem.tryToShare tk.cr3 0 (a / 4096 * 4096) ≠ .ok (m', true)

/-- Entry `(i, j)` was shared from task `p`, which runs the same executable. -/
def SharedBy (k : State) (lost : Fin 4096 → Bool) (t : Fin 64) (tk : Task) (a : Nat) (m' : Mem) : Prop :=
  ∃ p tp, p ≠ 0 ∧ p ≠ t ∧ k.task p = some tp ∧ tp.executable = tk.executable ∧
    k.mem.tryToShare tk.cr3 tp.cr3 (a / 4096 * 4096) = .ok (m', true) ∧
    Inv.Shared k.mem (roots k.task lost) t (if tp.cr3 = 0 then none else some p) tp.cr3 (Mem.dirIx a) (Mem.tabIx a) m'

theorem dirIx_page (a : Nat) : Mem.dirIx (a / 4096 * 4096) = Mem.dirIx a := by unfold Mem.dirIx; omega

theorem tabIx_page (a : Nat) : Mem.tabIx (a / 4096 * 4096) = Mem.tabIx a := by unfold Mem.tabIx; omega

theorem shareLoop_spec (h : KInv s lost k) (ht : t ≠ 0) (hk : k.task t = some tk) (hlive : tk.phase.live) {a ino : Nat}
    (hino : tk.executable = some ino) (ha : Mem.dirIx a < 768)
    (hq : ¬ Present (pte k.mem (roots k.task lost) t (Mem.dirIx a) (Mem.tabIx a)))
    (hns : s → NoSwapShare k t tk a) (l : List (Fin 64)) (hl : ∀ p ∈ l, p ≠ 0) :
    State.shareLoop k.task t tk.cr3 ino (a / 4096 * 4096) l k.mem = .ok (k.mem, false) ∨
      ∃ m', State.shareLoop k.task t tk.cr3 ino (a / 4096 * 4096) l k.mem = .ok (m', true) ∧
        Inv s m' (roots k.task lost) ∧ SharedBy k lost t tk a m' := by
  induction l with
  | nil => exact .inl rfl
  | cons p ps ih =>
    have ih := ih fun q hq => hl q (List.mem_cons_of_mem _ hq)
    have hp0 := hl p List.mem_cons_self
    simp only [State.shareLoop]
    cases hp : k.task p with
    | none => exact ih
    | some tp =>
      simp only
      by_cases hpt : p = t
      · rw [if_pos hpt]; exact ih
      rw [if_neg hpt]
      by_cases hex : tp.executable = some ino
      swap
      · rw [if_pos hex]; exact ih
      rw [if_neg (not_not.2 hex)]
      have hd := h.dir ht hk hlive
      -- Where the other task's tables are.
      have hfrom : Inv.SharedFrom (roots k.task lost) t (if tp.cr3 = 0 then none else some p) tp.cr3 := by
        split
        · assumption
        · exact ⟨hpt, roots_dir hp0 hp ‹_›⟩
      rw [← dirIx_page, ← tabIx_page] at hq
      rw [← dirIx_page] at ha
      have hshare := h.mem.tryToShare_spec roots_hand hd hfrom ha hq (fun hs hv m' => by
        have hc : tp.cr3 = 0 := by
          by_contra hc
          rw [if_neg hc] at hv
          cases hv
        rw [hc]
        exact hns hs p tp hp hp0 hpt (hex.trans hino.symm) hc m')
      rcases hshare with hf | ⟨m', hm', hI', hsh⟩
      · simp only [hf, bind, Except.bind]
        exact ih
      · simp only [hm', bind, Except.bind]
        rw [dirIx_page, tabIx_page] at hsh
        exact .inr ⟨m', rfl, hI', p, tp, hp0, hpt, hp, hex.trans hino.symm, hm', hsh⟩

theorem sharePage_spec (h : KInv s lost k) (ht : t ≠ 0) (hk : k.task t = some tk) (hlive : tk.phase.live) {a : Nat}
    (ha : Mem.dirIx a < 768) (hq : ¬ Present (pte k.mem (roots k.task lost) t (Mem.dirIx a) (Mem.tabIx a)))
    (hns : s → NoSwapShare k t tk a) :
    k.sharePage t tk (a / 4096 * 4096) = .ok (k.mem, false) ∨
      ∃ m', k.sharePage t tk (a / 4096 * 4096) = .ok (m', true) ∧ Inv s m' (roots k.task lost) ∧
        SharedBy k lost t tk a m' := by
  unfold State.sharePage
  cases he : tk.executable with
  | none => exact .inl rfl
  | some ino =>
    simp only
    split
    · exact .inl rfl
    · exact shareLoop_spec h ht hk hlive he ha hq hns _ (fun p hp => by
        simp only [State.shareOrder, List.mem_filter, bne_iff_ne] at hp
        exact hp.2)

/-! ## `do_no_page` -/

/-- `do_exit` does not look at the task's record for the page being read. -/
theorem doExit_load (k : State) (t : Fin 64) (tk : Task) (x : Option Task) :
    (k.setTask t x).doExit t { tk with load := none } = k.doExit t tk := by
  simp only [State.doExit, State.setTask, bind, Except.bind]
  cases k.mem.freePageTables tk.cr3 with
  | error e => rfl
  | ok m => simp

theorem doExit_task {k k' : State} (h : k.doExit t tk = .ok k') :
    k'.task = Function.update k.task t (some { tk with cr3 := 0, load := none, phase := .exiting }) := by
  simp only [State.doExit, bind, Except.bind] at h
  split at h
  · cases h
  · cases h; rfl

/-- How `do_no_page` ends for the task itself. -/
inductive FaultEnds (k : State) (lost : Fin 4096 → Bool) (t : Fin 64) (tk : Task) (a : Nat) (k' : State) : Prop
  /-- A cleared page. -/
  | empty (n : Nat) (hexe : tk.executable = none ∨ tk.endData ≤ a / 4096 * 4096) (htask : k'.task = k.task)
      (hfree : k.mem.map n = 0)
      (hput : Inv.Placed k.mem (roots k.task lost) t (Mem.dirIx a) (Mem.tabIx a) (entry n 103) k'.mem)
      (hzero : ∀ w, k'.mem.word n w = 0)
  /-- A page of another task. -/
  | shared (hexe : tk.executable ≠ none) (hend : a / 4096 * 4096 < tk.endData) (htask : k'.task = k.task)
      (hby : SharedBy k lost t tk a k'.mem)
  /-- Asleep, with a page to read into. -/
  | asleep (n : Nat) (hexe : tk.executable ≠ none) (hend : a / 4096 * 4096 < tk.endData) (hfree : k.mem.map n = 0)
      (hmem : k'.mem = k.mem.claim n)
      (htask : k'.task = Function.update k.task t (some { tk with load := some (n, a / 4096 * 4096) }))
  /-- Out of memory. -/
  | dead (htask : k'.task = Function.update k.task t (some { tk with cr3 := 0, load := none, phase := .exiting }))

/-- **`do_no_page`** up to its sleep does not panic. -/
theorem doNoPage_spec (h : KInv s lost k) (ht : t ≠ 0) (hk : k.task t = some tk) (hph : tk.phase.touches)
    (hload : tk.load = none) {a : Nat} (ha : a < tk.limit) (hq : ¬ Present (State.entryAt k.mem tk.cr3 a))
    (hns : s → NoSwapShare k t tk a) :
    ∃ k', k.doNoPage t tk a = .ok k' ∧ ∃ lost', After s lost t k k' lost' ∧
      Loses lost t tk k' lost' ∧ FaultEnds k lost t tk a k' := by
  have hlive := Phase.touches_live hph
  have hd := h.dir ht hk hlive
  have hi : Mem.dirIx a < 768 := Inv.dirIx_lt (lt_of_lt_of_le ha (h.limit t tk hk))
  rw [h.entryAt ht hk hlive] at hq
  unfold State.doNoPage
  simp only
  by_cases hexe : tk.executable = none ∨ tk.endData ≤ a / 4096 * 4096
  · rw [if_pos hexe]
    obtain ⟨o, ho, hend⟩ := h.mem.getEmptyPage_spec (a := a / 4096 * 4096) roots_hand roots_page hd
      (by rw [dirIx_page]; exact hi) (by rw [dirIx_page, tabIx_page]; exact hq)
    simp only [ho, bind, Except.bind]
    cases o with
    | done m =>
      obtain ⟨hI, n, h0, hpl, hz⟩ := hend
      rw [dirIx_page, tabIx_page] at hpl
      have hoth : Others s t k.mem (roots k.task lost) m (roots k.task lost) :=
        Others.of_placed h.mem hpl fun _ _ => rfl
      refine ⟨_, rfl, lost, ⟨?_, hoth, fun _ _ => rfl⟩, .inl rfl, .empty n hexe rfl h0 hpl hz⟩
      refine h.memory ht hk rfl rfl hI hoth hload fun i _ hp => ?_
      by_cases he : i = Mem.dirIx a
      · rw [he]; exact hpl.present
      · rw [hpl.pde t i (fun e => he e.2)]; exact hp
    | oom m =>
      obtain ⟨hI, hint⟩ := hend
      have hoth : Others s t k.mem (roots k.task lost) m (roots k.task lost) :=
        Others.of_intact h.mem hint fun _ _ => rfl
      have hm : KInv s lost { k with mem := m } :=
        h.memory ht hk rfl rfl hI hoth hload fun i _ hp => by rw [hint.pde]; exact hp
      obtain ⟨k', hk', hafter, -⟩ := doExit_spec (k := { k with mem := m }) hm ht hk hlive hload
      have htask := doExit_task hk'
      exact ⟨k', hk', _, After.trans ⟨hm, hoth, fun _ _ => rfl⟩ hafter, .inr ⟨rfl, by simp [htask]⟩, .dead htask⟩
  · rw [if_neg hexe]
    have hexe' : tk.executable ≠ none := fun e => hexe (.inl e)
    have hend : a / 4096 * 4096 < tk.endData := not_le.1 fun e => hexe (.inr e)
    rcases sharePage_spec h ht hk hlive hi hq hns with hf | ⟨m', hm', hI', hby⟩
    · simp only [hf, bind, Except.bind]
      rw [if_neg (by simp)]
      cases hg : k.mem.getFreePage with
      | none =>
        obtain ⟨k', hk', hafter, hdead⟩ := doExit_spec h ht hk hlive hload
        refine ⟨k', hk', _, hafter, .inr ⟨rfl, hdead⟩, .dead ?_⟩
        exact doExit_task hk'
      | some x =>
        obtain ⟨n, m₁⟩ := x
        obtain ⟨h0, rfl⟩ := Mem.getFreePage_some hg
        have hl0 : (roots k.task lost).misc (.load t) = none := by simp [roots, hk, hload]
        have hI := h.mem.claim h0 hl0
        have hR : roots (Function.update k.task t (some { tk with load := some (n, a / 4096 * 4096) })) lost =
            (roots k.task lost).setMisc (.load t) (some n) := roots_setLoad hk rfl rfl rfl
        have hoth : Others s t k.mem (roots k.task lost) (k.mem.claim n)
            (roots (Function.update k.task t (some { tk with load := some (n, a / 4096 * 4096) })) lost) :=
          Others.of_still (.of_claim h.mem h0) fun u hu => dir_setTask hu _
        have hkeep := h.mem.claim_keep h0
        refine ⟨_, rfl, lost, ⟨?_, hoth, fun u hu => by simp [State.setTask, hu]⟩, .inl rfl,
          .asleep n hexe' hend h0 rfl rfl⟩
        refine h.update ht _ (k.mem.claim n) rfl rfl (by rw [hR]; exact hI) hoth (h.own t tk ht hk) (h.limit t tk hk) ?_ ?_
        · intro n' a' e
          simp only [Option.some.injEq, Prod.mk.injEq] at e
          obtain ⟨-, rfl⟩ := e
          rw [dirIx_page, tabIx_page, hR, pte_setMisc, Inv.pte_keep rfl hkeep t hi]
          exact ⟨⟨hph, Nat.mul_mod_left _ _⟩, hi, hq⟩
        · intro hl hb
          obtain ⟨i, hi', hp⟩ := h.table t tk ht hk hl hb
          exact ⟨i, hi', by rw [hR, pde_setMisc, Inv.pde_keep rfl hkeep]; exact hp⟩
    · simp only [hm', bind, Except.bind, if_true]
      obtain ⟨p, tp, hp0, hpt, hp, hex, -, hsh⟩ := id hby
      have hoth : Others s t k.mem (roots k.task lost) m' (roots k.task lost) :=
        Others.of_shared h.mem hsh fun _ _ => rfl
      refine ⟨_, rfl, lost, ⟨?_, hoth, fun _ _ => rfl⟩, .inl rfl, .shared hexe' hend rfl hby⟩
      refine h.memory ht hk rfl rfl hI' hoth hload fun i hi' hp => ?_
      by_cases he : i = Mem.dirIx a
      · rw [he]; exact hsh.present
      · rw [hsh.pde t i (fun e => he e.2)]; exact hp

/-- How the rest of `do_no_page` ends for the task itself. -/
inductive LoadEnds (k : State) (lost : Fin 4096 → Bool) (t : Fin 64) (tk : Task) (ino page a : Nat) (k' : State) :
    Prop
  /-- The page is mapped, with the bytes of the file. -/
  | mapped (htask : k'.task = Function.update k.task t (some { tk with load := none }))
      (hpte : ∀ u i j, i < 768 → pte k'.mem (roots k.task lost) u i j =
        if u = t ∧ i = Mem.dirIx a ∧ j = Mem.tabIx a then entry page 103 else pte k.mem (roots k.task lost) u i j)
      (hword : ∀ w, k'.mem.word page w = State.imageWord (k.file ino) tk.endData (a + 4 * w))
      (hdata : ∀ n w, n ≠ page → k.mem.Managed n → k.mem.map n ≠ 0 → ¬ IsTable k.mem (roots k.task lost) n →
        k'.mem.word n w = k.mem.word n w)
  /-- Out of memory. -/
  | dead (htask : k'.task = Function.update k.task t (some { tk with cr3 := 0, load := none, phase := .exiting }))

/-- **`do_no_page`** after its sleep does not panic. -/
theorem loaded_spec (h : KInv s lost k) (ht : t ≠ 0) (hk : k.task t = some tk) {n a : Nat}
    (hload : tk.load = some (n, a)) (ino : Nat) :
    ∃ k', k.loaded t tk ino n a = .ok k' ∧ ∃ lost', After s lost t k k' lost' ∧
      Loses lost t tk k' lost' ∧ LoadEnds k lost t tk ino n a k' := by
  obtain ⟨⟨hph, -⟩, hi, hq⟩ := h.load t tk n a hk hload
  have hlive := Phase.touches_live hph
  have hd := h.dir ht hk hlive
  have hx : (roots k.task lost).misc (.load t) = some n := roots_load hk hload
  have hM := h.mem.sound.managed (.misc (.load t)) n (by simp) hx
  have hge : 256 ≤ n := le_trans h.mem.low_ge hM.1
  have hnt := h.mem.not_isTable_of_misc hx
  unfold State.loaded
  simp only
  -- The page filled: it is held, so nothing else sees it.
  generalize hfill : State.fillPage k.mem n (fun w => State.imageWord (k.file ino) tk.endData (a + 4 * w)) = m₁
  have hw₁ : ∀ f w, f ≠ n → m₁.word f w = k.mem.word f w := fun f w hf => by
    rw [← hfill]; simp [State.fillPage, hf]
  have hn₁ : ∀ w, m₁.word n w = State.imageWord (k.file ino) tk.endData (a + 4 * w) := fun w => by
    rw [← hfill]; simp [State.fillPage]
  have hl₁ : m₁.low = k.mem.low := by rw [← hfill]; rfl
  have hh₁ : m₁.high = k.mem.high := by rw [← hfill]; rfl
  have hmap₁ : m₁.map = k.mem.map := by rw [← hfill]; rfl
  have hkeep : ∀ f w, IsTable k.mem (roots k.task lost) f → m₁.word f w = k.mem.word f w := fun f w hf =>
    hw₁ f w (fun e => hnt (e ▸ hf))
  have hI₁ : Inv s m₁ (roots k.task lost) := h.mem.storeData hl₁ hh₁ hmap₁ hnt (by omega) fun g w hg => hw₁ g w hg
  have hP₁ : ∀ u i, pde m₁ (roots k.task lost) u i = pde k.mem (roots k.task lost) u i := Inv.pde_keep rfl hkeep
  have hQ₁ : ∀ u i j, i < 768 → pte m₁ (roots k.task lost) u i j = pte k.mem (roots k.task lost) u i j :=
    fun u i j hi => Inv.pte_keep rfl hkeep u hi j
  have hT₁ := Inv.isTable_congr hP₁
  have hoth₁ : Others s t k.mem (roots k.task lost) m₁ (roots k.task lost) := by
    refine Others.of (fun _ _ => rfl) hl₁ hh₁ (fun u i _ _ => hP₁ u i) (fun u i j _ hi _ => .inl (hQ₁ u i j hi))
      fun _ n' w _ ⟨r, hr, hn'⟩ => hw₁ n' w ?_
    rintro rfl
    exact h.mem.held r (.load t) n' hr hn' hx
  have hR : roots (Function.update k.task t (some { tk with load := none })) lost =
      (roots k.task lost).setMisc (.load t) none := roots_setLoad hk rfl rfl rfl
  have hdir : ∀ u, u ≠ t → (roots (Function.update k.task t (some { tk with load := none })) lost).dir u =
      (roots k.task lost).dir u := fun u hu => dir_setTask hu _
  rcases hI₁.putPage_spec roots_hand hx hd hi (by rw [hQ₁ t _ _ hi]; exact hq) with hnone | ⟨m₂, hm₂, hI₂, hpl⟩
  · -- No page for a table: the page is given back, and the task dies.
    rw [hnone]
    have hMn : m₁.Managed n := (Inv.managed_congr hl₁ hh₁ n).2 hM
    have hfree := hI₁.freePage_managed hMn (by rw [hI₁.held_map hx]; omega)
    have hrel := hI₁.release hx
    simp only [hfree, bind, Except.bind]
    have hoth₂ : Others s t k.mem (roots k.task lost) (m₁.setMap n (m₁.map n - 1))
        (roots (Function.update k.task t (some { tk with load := none })) lost) :=
      hoth₁.trans (Others.of hdir rfl rfl (fun _ _ _ _ => rfl) (fun _ _ _ _ _ _ => .inl rfl) fun _ _ _ _ _ => rfl)
    have hk₂ : KInv s lost ({ k with mem := m₁.setMap n (m₁.map n - 1) }.setTask t (some { tk with load := none })) := by
      refine h.update ht _ (m₁.setMap n (m₁.map n - 1)) rfl rfl (by rw [hR]; exact hrel) hoth₂ (h.own t tk ht hk)
        (h.limit t tk hk) (by simp) fun hl hb => ?_
      obtain ⟨i, hi', hp⟩ := h.table t tk ht hk hl hb
      exact ⟨i, hi', by rw [hR, pde_setMisc, pde_setMap, hP₁]; exact hp⟩
    have htk₂ : ({ k with mem := m₁.setMap n (m₁.map n - 1) }.setTask t (some { tk with load := none })).task t =
        some { tk with load := none } := by simp [State.setTask]
    obtain ⟨k', hk', hafter, -⟩ := doExit_spec hk₂ ht htk₂ hlive rfl
    rw [doExit_load] at hk'
    have htask := doExit_task hk'
    exact ⟨k', hk', _, After.trans ⟨hk₂, hoth₂, fun u hu => by simp [State.setTask, hu]⟩ hafter,
      .inr ⟨rfl, by simp [htask]⟩, .dead htask⟩
  · rw [hm₂]
    have hoth₂ : Others s t k.mem (roots k.task lost) m₂
        (roots (Function.update k.task t (some { tk with load := none })) lost) :=
      hoth₁.trans (Others.of_placed hI₁ hpl hdir)
    refine ⟨_, rfl, lost, ⟨?_, hoth₂, fun u hu => by simp [State.setTask, hu]⟩, .inl rfl, ?_⟩
    · refine h.update ht _ m₂ rfl rfl (by rw [hR]; exact hI₂) hoth₂ (h.own t tk ht hk) (h.limit t tk hk) (by simp)
        fun hl hb => ?_
      rw [hR]
      exact ⟨Mem.dirIx a, hi, hpl.present⟩
    · refine .mapped rfl (fun u i j hi' => ?_) (fun w => ?_) (fun n' w hne hMn hmap hnt' => ?_)
      · change pte m₂ (roots k.task lost) u i j = _
        rw [hpl.pte u i j hi', hQ₁ u i j hi']
      · change m₂.word n w = _
        rw [hpl.data n w ((Inv.managed_congr hl₁ hh₁ n).2 hM) (by rw [hmap₁, h.mem.held_map hx]; omega)
          (by rw [hT₁]; exact hnt), hn₁]
      · change m₂.word n' w = _
        rw [hpl.data n' w ((Inv.managed_congr hl₁ hh₁ n').2 hMn) (by rw [hmap₁]; exact hmap)
          (by rw [hT₁]; exact hnt'), hw₁ n' w hne]

/-! ## Write faults, writes and `verify_area` -/

/-- **`do_wp_page`** does not panic: the entry is writable, or the task dies. -/
theorem wpFault_spec (h : KInv s lost k) (ht : t ≠ 0) (hk : k.task t = some tk) (hph : tk.phase.isUser)
    (hload : tk.load = none) {a : Nat} (ha : a < tk.limit) (hq : Present (State.entryAt k.mem tk.cr3 a)) :
    ∃ k', k.wpFault t tk a = .ok k' ∧ After s lost t k k' lost ∧
      ((k'.task = k.task ∧ Inv.Unshared k.mem (roots k.task lost) t (Mem.dirIx a) (Mem.tabIx a) k'.mem) ∨
        k'.task = Function.update k.task t (some { tk with cr3 := 0, load := none, phase := .exiting })) := by
  have hlive := Phase.touches_live (Phase.isUser_touches hph)
  have hd := h.dir ht hk hlive
  have hi : Mem.dirIx a < 768 := Inv.dirIx_lt (lt_of_lt_of_le ha (h.limit t tk hk))
  rw [h.entryAt ht hk hlive] at hq
  have hw : k.mem.word tk.cr3 (Mem.dirIx a) = pde k.mem (roots k.task lost) t (Mem.dirIx a) := by simp [pde, hd]
  unfold State.wpFault Mem.doWpPage
  rw [hw]
  rcases h.mem.unWpPage_spec roots_hand hi (Inv.tabIx_lt a) hq with hnone | ⟨m', hm', hI', hu⟩
  · rw [hnone]
    obtain ⟨k', hk', hafter, -⟩ := doExit_spec h ht hk hlive hload
    rw [addLost_none (Phase.isUser_pages hph)] at hafter
    exact ⟨k', hk', hafter, .inr (doExit_task hk')⟩
  · rw [hm']
    have hoth : Others s t k.mem (roots k.task lost) m' (roots k.task lost) := Others.of_unshared h.mem hu fun _ _ => rfl
    exact ⟨_, rfl, ⟨h.memory ht hk rfl rfl hI' hoth hload fun i _ hp => by rw [hu.pde]; exact hp, hoth,
      fun _ _ => rfl⟩, .inl ⟨rfl, hu⟩⟩

/-- **`verify_area`** does not panic; it may run out of pages. -/
theorem sysRead_spec (h : KInv s lost k) (ht : t ≠ 0) (hk : k.task t = some tk) (hph : tk.phase.isUser)
    (hload : tk.load = none) {addr size : Nat} (ha : addr + size ≤ taskSize) :
    ∃ k', k.sysRead t tk addr size = .ok k' ∧ After s lost t k k' lost ∧
      ((k'.task = Function.update k.task t (some { tk with phase := .reading addr size }) ∧
        Inv.Verified k.mem (roots k.task lost) t k'.mem ∧
        (size + addr % 4096 < 2147483648 → ∀ a, addr ≤ a → a < addr + size →
          Present (pte k'.mem (roots k.task lost) t (Mem.dirIx a) (Mem.tabIx a)) →
            Rw (pte k'.mem (roots k.task lost) t (Mem.dirIx a) (Mem.tabIx a)))) ∨
        k'.task = Function.update k.task t (some { tk with cr3 := 0, load := none, phase := .exiting })) := by
  have hlive := Phase.touches_live (Phase.isUser_touches hph)
  have hd := h.dir ht hk hlive
  unfold State.sysRead
  rcases h.mem.verifyArea_spec roots_hand hd ha with ⟨m', hm', hI', hv, hrw⟩ | ⟨m', hm', hI', hv⟩
  · rw [hm']
    have hR : roots (Function.update k.task t (some { tk with phase := .reading addr size })) lost = roots k.task lost :=
      roots_congr hk rfl rfl (by funext i; rw [Phase.isUser_pages hph]; rfl) rfl
    have hoth : Others s t k.mem (roots k.task lost) m'
        (roots (Function.update k.task t (some { tk with phase := .reading addr size })) lost) :=
      Others.of_verified h.mem hv fun u hu => dir_setTask hu _
    refine ⟨_, rfl, ⟨?_, hoth, fun u hu => by simp [State.setTask, hu]⟩, .inl ⟨rfl, hv, hrw⟩⟩
    refine h.update ht _ m' rfl rfl (by rw [hR]; exact hI') hoth ?_ (h.limit t tk hk) (by simp [hload]) fun _ _ => ?_
    · exact ⟨fun _ => rfl, fun _ => (h.own t tk ht hk).2 hlive⟩
    · obtain ⟨i, hi, hp⟩ := h.table t tk ht hk hlive (fun e p he => by rw [he] at hph; cases hph)
      exact ⟨i, hi, by rw [hR, hv.pde]; exact hp⟩
  · rw [hm']
    have hoth : Others s t k.mem (roots k.task lost) m' (roots k.task lost) := Others.of_verified h.mem hv fun _ _ => rfl
    have hm : KInv s lost { k with mem := m' } :=
      h.memory ht hk rfl rfl hI' hoth hload fun i _ hp => by rw [hv.pde]; exact hp
    obtain ⟨k', hk', hafter, -⟩ := doExit_spec (k := { k with mem := m' }) hm ht hk hlive hload
    rw [addLost_none (Phase.isUser_pages hph)] at hafter
    have htask := doExit_task hk'
    exact ⟨k', hk', After.trans ⟨hm, hoth, fun _ _ => rfl⟩ hafter, .inr htask⟩

/-- What a store of a byte at `a` by task `t` does: its entry is dirty, one
word of the frame has changed. -/
structure Stored (m : Mem) (R : Roots) (t : Fin 64) (a b : Nat) (m' : Mem) : Prop where
  low : m'.low = m.low
  high : m'.high = m.high
  map : m'.map = m.map
  tables : ∀ u i, pde m' R u i = pde m R u i
  entries : ∀ u i j, i < 768 → pte m' R u i j =
    if u = t ∧ i = Mem.dirIx a ∧ j = Mem.tabIx a then setDirty (pte m R u i j) else pte m R u i j
  data : ∀ n w, ¬ IsTable m R n → m'.word n w =
    if n = frame (pte m R t (Mem.dirIx a) (Mem.tabIx a)) ∧ w = a % 4096 / 4 then
      State.setByte (m.word n w) (a % 4) b
    else m.word n w

theorem storeByte_spec (h : Inv s m R) {d a b : Nat} (hd : R.dir t = some d) (hi : Mem.dirIx a < 768)
    (hq : Present (pte m R t (Mem.dirIx a) (Mem.tabIx a)))
    (hM : m.Managed (frame (pte m R t (Mem.dirIx a) (Mem.tabIx a))))
    (hnt : ¬ IsTable m R (frame (pte m R t (Mem.dirIx a) (Mem.tabIx a)))) :
    Inv s (State.storeByte m d a b) R ∧ Stored m R t a b (State.storeByte m d a b) := by
  have hj := Inv.tabIx_lt a
  have he : State.entryAt m d a = pte m R t (Mem.dirIx a) (Mem.tabIx a) := (pte_walk hd _ _).symm
  have hw : m.word d (Mem.dirIx a) = pde m R t (Mem.dirIx a) := by simp [pde, hd]
  have hp := present_pde hq
  have hge : 256 ≤ frame (pte m R t (Mem.dirIx a) (Mem.tabIx a)) := le_trans h.low_ge hM.1
  unfold State.storeByte
  simp only [he, hw]
  generalize hei : pte m R t (Mem.dirIx a) (Mem.tabIx a) = e at *
  have h₁ := h.flagPte (w := setDirty e) hi hj (by rw [hei]; exact hq) (by rw [hei]; simp)
    (fun hr => .inl (by rw [hei]; simpa using hr))
  have hP₁ := h.pde_setTable hi hp (Mem.tabIx a) (setDirty e)
  have hT₁ := Inv.isTable_congr (R := R) hP₁
  have hnt₁ : ¬ IsTable (m.set (frame (pde m R t (Mem.dirIx a))) (Mem.tabIx a) (setDirty e)) R (frame e) := by
    rw [hT₁]; exact hnt
  have hkeep : ∀ f w, IsTable (m.set (frame (pde m R t (Mem.dirIx a))) (Mem.tabIx a) (setDirty e)) R f →
      ((m.set (frame (pde m R t (Mem.dirIx a))) (Mem.tabIx a) (setDirty e)).set (frame e) (a % 4096 / 4)
        (State.setByte (m.word (frame e) (a % 4096 / 4)) (a % 4) b)).word f w =
      (m.set (frame (pde m R t (Mem.dirIx a))) (Mem.tabIx a) (setDirty e)).word f w := by
    intro f w hf
    rw [Mem.set_word, if_neg]
    rintro ⟨rfl, -⟩
    exact hnt₁ hf
  refine ⟨h₁.storeData rfl rfl rfl hnt₁ (by omega) fun g w hg => by rw [Mem.set_word, if_neg (fun e => hg e.1)],
    rfl, rfl, rfl, fun u i => ?_, fun u i j hi' => ?_, fun n w hn => ?_⟩
  · rw [Inv.pde_keep rfl hkeep, hP₁]
  · rw [Inv.pte_keep rfl hkeep u hi', h.pte_setTable hi hp _ _ u hi']
    split
    · rename_i hu
      obtain ⟨rfl, rfl, rfl⟩ := hu
      rw [hei]
    · rfl
  · have hnT : n ≠ frame (pde m R t (Mem.dirIx a)) := by
      rintro rfl
      exact hn (Inv.isTable_pde hi hp)
    rw [Mem.set_word]
    split
    · rename_i hnw
      rw [if_pos (by rw [hei]; exact hnw), hnw.1, hnw.2]
    · rename_i hnw
      rw [if_neg (by rw [hei]; exact hnw), Mem.set_word, if_neg (fun e => hnT e.1)]

/-- **A write in user mode** keeps the invariant. -/
theorem write_spec (h : KInv s lost k) (ht : t ≠ 0) (hk : k.task t = some tk) (hph : tk.phase.isUser)
    (hload : tk.load = none) {a b : Nat} (ha : a < tk.limit) (hq : Present (State.entryAt k.mem tk.cr3 a))
    (hrw : Rw (State.entryAt k.mem tk.cr3 a)) :
    After s lost t k { k with mem := State.storeByte k.mem tk.cr3 a b } lost ∧
      Stored k.mem (roots k.task lost) t a b (State.storeByte k.mem tk.cr3 a b) := by
  have hlive := Phase.touches_live (Phase.isUser_touches hph)
  have hd := h.dir ht hk hlive
  have hi : Mem.dirIx a < 768 := Inv.dirIx_lt (lt_of_lt_of_le ha (h.limit t tk hk))
  have hj := Inv.tabIx_lt a
  rw [h.entryAt ht hk hlive] at hq hrw
  -- A writable entry maps a managed frame that is no table.
  obtain ⟨hM, -⟩ := h.mem.rwData t _ _ hi hj hq hrw
  have hnt := h.mem.not_isTable_of_rw hi hj hq hrw rfl
  obtain ⟨hI', hst⟩ := storeByte_spec (b := b) h.mem hd hi hq hM hnt
  have hoth : Others s t k.mem (roots k.task lost) (State.storeByte k.mem tk.cr3 a b) (roots k.task lost) := by
    refine ⟨hst.low, hst.high, fun u i _ _ => hst.tables u i, fun u i j hu hi' _ => .inl ?_, ?_⟩
    · rw [hst.entries u i j hi', if_neg (fun e => hu e.1)]
    · intro hs u i j hu hi' hj' hq' _ w
      have hmap : Mapped k.mem (roots k.task lost) (frame (pte k.mem (roots k.task lost) u i j)) :=
        ⟨.pte u ⟨i, hi'⟩ ⟨j, hj'⟩, by simp, ent_of_present hq'⟩
      rw [hst.data _ w (h.mem.not_isTable_of_mapped hs hmap), if_neg]
      rintro ⟨e, -⟩
      have := h.mem.rwOne hs t ⟨_, hi⟩ ⟨_, hj⟩ hrw _ (ent_of_present hq) (.pte u ⟨i, hi'⟩ ⟨j, hj'⟩)
        (ent_eq_some.2 ⟨hq', e⟩)
      injection this with hut
      exact hu hut
  exact ⟨⟨h.memory ht hk rfl rfl hI' hoth hload fun i _ hp => by rw [hst.tables]; exact hp, hoth, fun _ _ => rfl⟩, hst⟩

end Linux011.Kernel
