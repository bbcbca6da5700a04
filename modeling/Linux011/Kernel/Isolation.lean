/-
Copy-on-write keeps the tasks apart.

As long as no page is shared out of `pg0`, the page tables refine private
memories: every operation does to the memories the tables give (`view`) what
`PrivateStep` says, and a page mapped writable is mapped once. The exception
is `share_page` from a task in `do_exit`: such a task runs on
`swapper_pg_dir`, whose first 4 MB map physical memory, and a page of `pg0`
that the kernel has not touched looks like a clean page of the executable.
-/
import Linux011.Kernel.Counts
import Linux011.Kernel.Progress

namespace Linux011.Kernel

open Mm RefCount

variable {s : Prop} {lost lost' : Fin 4096 → Bool} {k k' : State} {t u : Fin 64} {tk : Task} {op : Op}

/-! ## Views -/

theorem page_iff {x a : Nat} : (Mem.dirIx x = Mem.dirIx a ∧ Mem.tabIx x = Mem.tabIx a) ↔ x / 4096 = a / 4096 := by
  unfold Mem.dirIx Mem.tabIx
  omega

theorem tabEntry_eq (k : State) (lost : Fin 4096 → Bool) (u : Fin 64) (i j : Nat) :
    k.tabEntry u i j = pte k.mem (roots k.task lost) u i j := rfl

/-- A frame some entry maps, in terms of the references. -/
theorem mapped_of (lost : Fin 4096 → Bool) {i j : Nat} (hi : i < 768) (hj : j < 1024) (hq : Present (k.tabEntry u i j)) :
    Mapped k.mem (roots k.task lost) (frame (k.tabEntry u i j)) :=
  ⟨.pte u ⟨i, hi⟩ ⟨j, hj⟩, by simp, ent_of_present hq⟩

/-- The memory of a task none of whose entries changed but for PAGE_RW. -/
theorem view_of_entries (hl : k'.mem.low = k.mem.low) (hh : k'.mem.high = k.mem.high)
    (he : ∀ i j, i < 768 → j < 1024 → k'.tabEntry u i j = k.tabEntry u i j ∨
      k'.tabEntry u i j = clearRw (k.tabEntry u i j))
    (hw : ∀ i j, i < 768 → j < 1024 → Present (k.tabEntry u i j) → k.mem.Managed (frame (k.tabEntry u i j)) →
      ∀ w, k'.mem.word (frame (k.tabEntry u i j)) w = k.mem.word (frame (k.tabEntry u i j)) w) :
    view k' u = view k u := by
  funext x
  by_cases hx : x < taskSize
  · have hi := Inv.dirIx_lt hx
    have hj := Inv.tabIx_lt x
    rw [view_of_lt hx, view_of_lt hx]
    refine cell_congr hl hh ?_ ?_ (hw _ _ hi hj) <;> rcases he _ _ hi hj with e | e <;> rw [e] <;> simp
  · rw [view_of_ge hx, view_of_ge hx]

theorem view_others (h : Others True t k.mem (roots k.task lost) k'.mem (roots k'.task lost')) (hu : u ≠ t) :
    view k' u = view k u :=
  view_of_entries h.low h.high (fun i j hi hj => h.entries u i j hu hi hj)
    (fun i j hi hj hq hM => h.data trivial u i j hu hi hj hq hM)

/-- The memories after an operation of task `t`. -/
theorem view_update {M : Nat → Cell} (h : Others True t k.mem (roots k.task lost) k'.mem (roots k'.task lost'))
    (hself : view k' t = M) : view k' = Function.update (view k) t M := by
  funext u
  by_cases hu : u = t
  · subst hu; rw [Function.update_self, hself]
  · rw [Function.update_of_ne hu, view_others h hu]

theorem view_still (lost : Fin 4096 → Bool) (h : Still True k.mem (roots k.task lost) k'.mem)
    (hdir : ∀ u, (roots k'.task lost).dir u = (roots k.task lost).dir u) : view k' = view k := by
  funext u
  refine view_of_entries h.low h.high (fun i j hi _ => .inl ?_) (fun i j hi hj hq hM w => ?_)
  · rw [tabEntry_eq k' lost, tabEntry_eq k lost, pte_congr_dir (hdir u), h.entries u i j hi]
  · exact h.data trivial _ w hM (mapped_of lost hi hj hq)

/-- A change of records that keeps every `cr3`. -/
theorem view_record {tk' : Task} (hk : k.task t = some tk) (hc : tk'.cr3 = tk.cr3) :
    view (k.setTask t (some tk')) = view k := by
  refine view_still (fun _ => false) .refl fun u => ?_
  by_cases hu : u = t
  · subst hu; simp [roots, State.setTask, hk, Task.dir, hc]
  · simp [roots, State.setTask, hu]

theorem view_gone (lost : Fin 4096 → Bool) (h : (roots k.task lost).dir t = none) : view k t = gone := by
  funext x
  by_cases hx : x < taskSize
  · rw [view_of_lt hx]
    apply cell_of_not
    rw [tabEntry_eq k lost, Inv.ForkKeeps.pte_none h]
    simp
  · exact view_of_ge hx

theorem view_dead {tk' : Task} (hk : k.task t = some tk') (hc : tk'.cr3 = 0) : view k t = gone :=
  view_gone (fun _ => false) (by simp [roots, hk, Task.dir, hc])

/-- The memory of a task one of whose entries changed. -/
theorem view_onPage {a : Nat} (ha : a < taskSize) (hl : k'.mem.low = k.mem.low) (hh : k'.mem.high = k.mem.high)
    (he : ∀ i j, i < 768 → j < 1024 → ¬ (i = Mem.dirIx a ∧ j = Mem.tabIx a) → k'.tabEntry t i j = k.tabEntry t i j)
    (hw : ∀ i j, i < 768 → j < 1024 → ¬ (i = Mem.dirIx a ∧ j = Mem.tabIx a) → Present (k.tabEntry t i j) →
      k.mem.Managed (frame (k.tabEntry t i j)) →
      ∀ w, k'.mem.word (frame (k.tabEntry t i j)) w = k.mem.word (frame (k.tabEntry t i j)) w)
    {P : Nat → Cell}
    (hP : ∀ x, x / 4096 = a / 4096 → cell k'.mem (k'.tabEntry t (Mem.dirIx a) (Mem.tabIx a)) x = P x) :
    view k' t = onPage (view k t) a P := by
  funext x
  unfold onPage
  by_cases hx : x < taskSize
  · have hi := Inv.dirIx_lt hx
    have hj := Inv.tabIx_lt x
    by_cases hp : x / 4096 = a / 4096
    · obtain ⟨e₁, e₂⟩ := page_iff.2 hp
      rw [if_pos hp, view_of_lt hx, e₁, e₂, hP x hp]
    · have hne : ¬ (Mem.dirIx x = Mem.dirIx a ∧ Mem.tabIx x = Mem.tabIx a) := fun e => hp (page_iff.1 e)
      rw [if_neg hp, view_of_lt hx, view_of_lt hx, he _ _ hi hj hne]
      exact cell_congr hl hh Iff.rfl rfl (hw _ _ hi hj hne)
  · rw [if_neg (by unfold taskSize at *; omega), view_of_ge hx, view_of_ge hx]

/-! ## One operation -/

/-- The memory of the child of a fork. -/
theorem view_child (h : KInv True lost k) (ht : k.task t = some tk) (hu : tk.phase.isUser) {nr : Fin 64}
    (hk : Inv.ForkKeeps True k.mem (roots k.task lost) t k'.mem)
    (hchild : ∀ i j, i < 768 → j < 1024 → pte k'.mem (roots k'.task lost') nr i j =
      if j < State.pageCount t then clearRw (k.mem.walk tk.cr3 i j) else 0) :
    view k' nr = if t = 0 then kernelMap else view k t := by
  funext x
  by_cases hx : x < taskSize
  swap
  · rw [view_of_ge hx]
    split
    · rw [kernelMap, if_neg (by unfold taskSize at hx; omega)]
    · rw [view_of_ge hx]
  have hi := Inv.dirIx_lt hx
  have hj := Inv.tabIx_lt x
  rw [view_of_lt hx, tabEntry_eq k' lost', hchild _ _ hi hj]
  by_cases h0 : t = 0
  · subst h0
    obtain ⟨tk₀, hk₀, hz, -⟩ := h.init
    rw [ht] at hk₀
    cases hk₀
    rw [if_pos rfl, hz, kernelMap, State.pageCount, if_pos rfl]
    have hpage : (Mem.dirIx x = 0 ∧ Mem.tabIx x < 160) ↔ x < 655360 := by
      unfold Mem.dirIx Mem.tabIx
      omega
    by_cases hlow : x < 655360
    · obtain ⟨e, hlt⟩ := hpage.2 hlow
      have hpg := h.mem.swap.pg0 (Mem.tabIx x) hj
      rw [if_pos hlt, if_pos hlow, e, h.mem.walk_swapper, cell_of_kernel (by simpa using hpg.1), frame_clearRw, hpg.2]
      · have : Mem.tabIx x = x / 4096 := by
          unfold Mem.tabIx; omega
        rw [this]
      · rw [frame_clearRw, hpg.2, Inv.managed_congr hk.low hk.high]
        exact h.mem.not_managed_lt (by omega)
    · rw [if_neg hlow]
      apply cell_of_not
      split
      · rename_i hlt
        have hne : Mem.dirIx x ≠ 0 := fun e => hlow (hpage.1 ⟨e, hlt⟩)
        rw [h.mem.walk_swapper_user (by omega) hi]
        simp
      · simp
  · rw [if_neg h0, State.pageCount, if_neg h0, if_pos hj, view_of_lt hx,
      ← pte_walk (h.dir h0 ht (Phase.touches_live (Phase.isUser_touches hu)))]
    refine cell_congr hk.low hk.high (by simp [tabEntry_eq k lost]) (by simp [tabEntry_eq k lost]) fun hq hM w => ?_
    exact hk.word trivial _ hM (mapped_of lost hi hj hq) w

theorem fork_view (h : KInv True lost k) (hk : k.task t = some tk) (hu : tk.phase.isUser)
    (hf : k.fork t tk = .ok k') :
    (k'.task = k.task ∧ view k' = view k) ∨ ∃ nr tk', k.task nr = none ∧ k'.task = Function.update k.task nr (some tk') ∧
      view k' = Function.update (view k) nr (if t = 0 then kernelMap else view k t) := by
  obtain ⟨k₁, hk₁, hends⟩ := fork_spec h hk hu
  rw [hf] at hk₁
  cases hk₁
  rcases hends with ⟨hmem, htask, -⟩ | ⟨nr, pid, r, hnr, hfree, hafter, hkeeps, -, hends⟩
  · refine .inl ⟨htask, view_still lost ?_ fun u => by rw [htask]⟩
    rw [hmem]
    exact .refl
  cases hends with
  | failed hfile htask =>
    refine .inl ⟨htask, ?_⟩
    funext u
    refine view_of_entries hkeeps.low hkeeps.high (fun i j hi hj => ?_) fun i j hi hj hq hM w => ?_
    · rw [tabEntry_eq k' lost, htask]
      exact (hkeeps.pte u i j hi hj).imp_right fun e => e.2.2
    · exact hkeeps.word trivial _ hM (mapped_of lost hi hj hq) w
  | forked p dir hfile htask hchild =>
    exact .inr ⟨nr, _, hfree, htask, view_update hafter.others (view_child h hk hu hkeeps hchild)⟩

/-- A page put where there was none. -/
theorem view_placed {a n : Nat} {P : Nat → Cell} (h : KInv True lost k) (ha : a < taskSize)
    (hpl : Inv.Placed k.mem (roots k.task lost) t (Mem.dirIx a) (Mem.tabIx a) (entry n 103) k'.mem)
    (htask : k'.task = k.task) (hM : k.mem.Managed n) (hP : ∀ o, o < 4096 → .byte (kbyte k'.mem n o) = P (a / 4096 * 4096 + o)) :
    view k' t = onPage (view k t) a P := by
  have he : ∀ i j, i < 768 → k'.tabEntry t i j =
      if t = t ∧ i = Mem.dirIx a ∧ j = Mem.tabIx a then entry n 103 else k.tabEntry t i j := fun i j hi => by
    rw [tabEntry_eq k' lost, htask]
    exact hpl.pte t i j hi
  have hfr : frame (entry n 103) = n := frame_entry (by omega)
  refine view_onPage ha hpl.low hpl.high (fun i j hi hj hne => ?_) (fun i j hi hj hne hq hM w => ?_) fun x hx => ?_
  · rw [he i j hi, if_neg fun e => hne e.2]
  · exact KeepData.mapped hpl.data h.mem trivial _ w hM (mapped_of lost hi hj hq)
  · rw [he _ _ (Inv.dirIx_lt ha), if_pos ⟨rfl, rfl, rfl⟩, cell_of_managed (present_entry.2 rfl), hfr, hP _ (Nat.mod_lt _ (by omega))]
    · rw [← hx]
      congr 1
      omega
    · rw [hfr]
      exact (Inv.managed_congr hpl.low hpl.high n).2 hM

theorem fault_view (h : KInv True lost k) (ht : t ≠ 0) (hk : k.task t = some tk) (hp : tk.phase.touches)
    (hl : tk.load = none) {a : Nat} (ha : a < tk.limit) (hq : ¬ Present (State.entryAt k.mem tk.cr3 a))
    (hns : NoSwapShare k t tk a) :
    ∃ k', k.doNoPage t tk a = .ok k' ∧ PrivateStep k k' (view k) (.fault t a) (view k') := by
  obtain ⟨k', hk', lost', hafter, -, hends⟩ := doNoPage_spec h ht hk hp hl ha hq fun _ => hns
  refine ⟨k', hk', ?_⟩
  have ha' : a < taskSize := lt_of_lt_of_le ha (h.limit t tk hk)
  have hi := Inv.dirIx_lt ha'
  have hj := Inv.tabIx_lt a
  cases hends with
  | empty n hexe htask hfree hput hzero =>
    refine .inr (.inr (.inl (view_update hafter.others (view_placed h ha' hput htask ?_ fun o _ => ?_))))
    · exact h.mem.managed_of_map_lt (by omega)
    · simp [kbyte, hzero, State.getByte]
  | shared hexe hend htask hby =>
    obtain ⟨p, tp, hp0, hpt, hkp, hex, htry, hsh⟩ := hby
    -- A task with tables of its own: nothing is shared out of `pg0`.
    have hc : tp.cr3 ≠ 0 := by
      intro hc
      rw [hc] at htry
      exact hns p tp hkp hp0 hpt hex hc _ htry
    have hd : (roots k.task lost).dir p = some tp.cr3 := roots_dir hp0 hkp hc
    have hwalk : ∀ i j, k.mem.walk tp.cr3 i j = k.tabEntry p i j := fun i j => (pte_walk hd i j).symm
    obtain ⟨hpr, hcl, hM⟩ := hsh.clean
    have hnew := ent_eq_some.1 hsh.new.1
    rw [hwalk] at hpr hM hnew
    refine .inr (.inr (.inr ⟨p, hpt, view_update hafter.others ?_⟩))
    refine view_onPage ha' hsh.low hsh.high (fun i j hi hj hne => ?_) (fun i j hi hj hne hq' hM' w => ?_) fun x hx => ?_
    · have hnp : some t ≠ if tp.cr3 = 0 then none else some p := by
        rw [if_neg hc]
        exact fun e => hpt (Option.some.inj e).symm
      rw [tabEntry_eq k' lost, htask, hsh.pte t i j hi (fun e => hne e.2), if_neg fun e => hnp e.1]
      rfl
    · exact KeepData.mapped hsh.data h.mem trivial _ w hM' (mapped_of lost hi hj hq')
    · obtain ⟨e₁, e₂⟩ := page_iff.2 hx
      have hxlt : x < taskSize := by unfold taskSize at *; omega
      rw [view_of_lt hxlt, e₁, e₂, tabEntry_eq k' lost, htask]
      refine cell_congr hsh.low hsh.high ⟨fun _ => hpr, fun _ => hnew.1⟩ hnew.2 fun _ _ w => ?_
      exact KeepData.mapped hsh.data h.mem trivial _ w hM (mapped_of lost hi hj hpr)
  | asleep n hexe hend hfree hmem htask =>
    refine .inl (view_still lost ?_ fun u => ?_)
    · rw [hmem]
      exact .of_claim h.mem hfree
    · rw [htask]
      by_cases hu : u = t
      · subst hu; simp [roots, hk, Task.dir]
      · simp [roots, hu]
  | dead htask =>
    exact .inr (.inl (view_update hafter.others (view_dead (by rw [htask, Function.update_self]) rfl)))

theorem loaded_view (h : KInv True lost k) (ht : t ≠ 0) (hk : k.task t = some tk) {n a ino : Nat}
    (hl : tk.load = some (n, a)) (he : tk.executable = some ino) :
    ∃ k', k.loaded t tk ino n a = .ok k' ∧ PrivateStep k k' (view k) (.loaded t) (view k') := by
  obtain ⟨k', hk', lost', hafter, -, hends⟩ := loaded_spec h ht hk hl ino
  refine ⟨k', hk', ?_⟩
  cases hends with
  | dead htask => exact .inl (view_update hafter.others (view_dead (by rw [htask, Function.update_self]) rfl))
  | mapped htask hpte hword hdata =>
    obtain ⟨⟨-, hpage⟩, hi, hq⟩ := h.load t tk n a hk hl
    have hx : (roots k.task lost).misc (.load t) = some n := roots_load hk hl
    have hM := h.mem.sound.managed (.misc (.load t)) n (by simp) hx
    have ha : a < taskSize := by
      unfold Mem.dirIx at hi
      unfold taskSize
      omega
    have hfr : frame (entry n 103) = n := frame_entry (by omega)
    have hent : ∀ i j, i < 768 → k'.tabEntry t i j =
        if t = t ∧ i = Mem.dirIx a ∧ j = Mem.tabIx a then entry n 103 else k.tabEntry t i j := fun i j hi => by
      rw [tabEntry_eq k' lost, htask, pte_congr_dir (R := roots k.task lost)]
      · exact hpte t i j hi
      · simp [roots, hk, Task.dir]
    refine .inr ⟨tk, n, a, ino, hk, hl, he, view_update hafter.others ?_⟩
    refine view_onPage ha hafter.others.low hafter.others.high (fun i j hi hj hne => ?_)
      (fun i j hi hj hne hq' hM' w => ?_) fun x hx' => ?_
    · rw [hent i j hi, if_neg fun e => hne e.2]
    · have hm := mapped_of lost hi hj hq'
      refine hdata _ w ?_ hM' (h.mem.map_ne_zero_of_mapped hm) (h.mem.not_isTable_of_mapped trivial hm)
      rintro e
      obtain ⟨r, hr, hn⟩ := hm
      rw [e] at hn
      exact h.mem.held r (.load t) n hr hn hx
    · rw [hent _ _ hi, if_pos ⟨rfl, rfl, rfl⟩, cell_of_managed (present_entry.2 rfl), hfr]
      · unfold kbyte
        rw [hword, State.getByte_imageWord _ _ _ (by omega)]
        congr 2
        omega
      · rw [hfr]
        exact (Inv.managed_congr hafter.others.low hafter.others.high n).2 hM

theorem wpFault_view (h : KInv True lost k) (ht : t ≠ 0) (hk : k.task t = some tk) (hu : tk.phase.isUser)
    (hl : tk.load = none) {a : Nat} (ha : a < tk.limit) (hq : Present (State.entryAt k.mem tk.cr3 a)) :
    ∃ k', k.wpFault t tk a = .ok k' ∧ PrivateStep k k' (view k) (.wpFault t a) (view k') := by
  obtain ⟨k', hk', hafter, hends⟩ := wpFault_spec h ht hk hu hl ha hq
  refine ⟨k', hk', ?_⟩
  have ha' : a < taskSize := lt_of_lt_of_le ha (h.limit t tk hk)
  have hi := Inv.dirIx_lt ha'
  have hj := Inv.tabIx_lt a
  rw [h.entryAt ht hk (Phase.touches_live (Phase.isUser_touches hu))] at hq
  rcases hends with ⟨htask, hun⟩ | htask
  swap
  · exact .inl (view_update hafter.others (view_dead (by rw [htask, Function.update_self]) rfl))
  refine .inr (view_update hafter.others ?_)
  have hent : ∀ i j, i < 768 → ¬ (i = Mem.dirIx a ∧ j = Mem.tabIx a) → k'.tabEntry t i j = k.tabEntry t i j :=
    fun i j hi hne => by
      rw [tabEntry_eq k' lost, htask]
      exact hun.pte t i j hi fun e => hne e.2
  refine view_onPage ha' hun.low hun.high (fun i j hi _ hne => hent i j hi hne) (fun i j hi hj hne hq' hM' w => ?_)
    fun x hx => ?_
  · exact KeepData.mapped hun.data h.mem trivial _ w hM' (mapped_of lost hi hj hq')
  · obtain ⟨e₁, e₂⟩ := page_iff.2 hx
    have hxlt : x < taskSize := by unfold taskSize at *; omega
    rw [view_of_lt hxlt, e₁, e₂, tabEntry_eq k' lost, htask, tabEntry_eq k lost]
    have hMc := Inv.managed_congr hun.low hun.high
    rcases hun.self with ⟨hM, -, he, -⟩ | ⟨new, h0, he, -, hcopy⟩
    · -- The page was the task's own: its entry is writable again.
      rw [he, cell_of_managed hq hM, Cell.own_byte, cell_of_managed (by simpa using hq) (by rw [frame_setRw]; exact (hMc _).2 hM),
        frame_setRw]
      unfold kbyte
      rw [KeepData.mapped hun.data h.mem trivial _ _ hM (mapped_of lost hi hj hq)]
    · have hfr : frame (entry new 7) = new := frame_entry (by omega)
      have hMn : k.mem.Managed new := h.mem.managed_of_map_lt (by omega)
      rw [he, cell_of_managed (present_entry.2 rfl) (by rw [hfr]; exact (hMc _).2 hMn), hfr]
      by_cases hM : k.mem.Managed (frame (pte k.mem (roots k.task lost) t (Mem.dirIx a) (Mem.tabIx a)))
      · rw [cell_of_managed hq hM, Cell.own_byte]
        unfold kbyte
        rw [hcopy, KeepData.mapped hun.data h.mem trivial _ _ hM (mapped_of lost hi hj hq)]
      · rw [cell_of_kernel hq hM, Cell.own_kernel]
        unfold kbyte
        rw [hcopy]

theorem sysRead_view (h : KInv True lost k) (ht : t ≠ 0) (hk : k.task t = some tk) (hu : tk.phase.isUser)
    (hl : tk.load = none) {addr size : Nat} (ha : addr + size ≤ taskSize) :
    ∃ k', k.sysRead t tk addr size = .ok k' ∧ PrivateStep k k' (view k) (.sysRead t addr size) (view k') := by
  obtain ⟨k', hk', hafter, hends⟩ := sysRead_spec h ht hk hu hl ha
  refine ⟨k', hk', ?_⟩
  rcases hends with ⟨htask, hv, -⟩ | htask
  swap
  · exact .inl (view_update hafter.others (view_dead (by rw [htask, Function.update_self]) rfl))
  refine .inr ⟨_, view_update hafter.others rfl, fun x => ?_⟩
  by_cases hx : x < taskSize
  swap
  · exact .inl (by rw [view_of_ge hx, view_of_ge hx])
  have hi := Inv.dirIx_lt hx
  have hj := Inv.tabIx_lt x
  have hMc := Inv.managed_congr hv.low hv.high
  have hent : k'.tabEntry t (Mem.dirIx x) (Mem.tabIx x) = pte k'.mem (roots k.task lost) t (Mem.dirIx x) (Mem.tabIx x) := by
    rw [tabEntry_eq k' lost, htask]
    exact pte_congr_dir (by simp [roots, hk, Task.dir]) _ _
  rw [view_of_lt hx, view_of_lt hx, hent, tabEntry_eq k lost]
  -- A page that stays where it is keeps its bytes.
  have stay : ∀ e, (Present e ↔ Present (pte k.mem (roots k.task lost) t (Mem.dirIx x) (Mem.tabIx x))) →
      frame e = frame (pte k.mem (roots k.task lost) t (Mem.dirIx x) (Mem.tabIx x)) →
      cell k'.mem e x = cell k.mem (pte k.mem (roots k.task lost) t (Mem.dirIx x) (Mem.tabIx x)) x :=
    fun e hp hf => cell_congr hv.low hv.high hp hf fun hq hM w =>
      KeepData.mapped hv.data h.mem trivial _ w hM (mapped_of lost hi hj hq)
  rcases hv.own _ _ hi hj with e | ⟨hq, -, e | ⟨new, e, h0, hcopy⟩⟩
  · exact .inl (stay _ (by rw [e]) (by rw [e]))
  · exact .inl (stay _ (by rw [e]; simp) (by rw [e]; simp))
  · have hfr : frame (entry new 7) = new := frame_entry (by omega)
    have hMn : k.mem.Managed new := h.mem.managed_of_map_lt (by omega)
    have hnew : cell k'.mem (entry new 7) x = .byte (kbyte k'.mem new (x % 4096)) := by
      rw [cell_of_managed (present_entry.2 rfl) (by rw [hfr]; exact (hMc _).2 hMn), hfr]
    rw [e, hnew]
    by_cases hM : k.mem.Managed (frame (pte k.mem (roots k.task lost) t (Mem.dirIx x) (Mem.tabIx x)))
    · refine .inl ?_
      rw [cell_of_managed hq hM]
      unfold kbyte
      rw [hcopy hM (h.mem.not_isTable_of_mapped trivial (mapped_of lost hi hj hq))]
    · exact .inr ⟨_, _, _, cell_of_kernel hq hM x, rfl⟩

theorem write_view (h : KInv True lost k) (ht : t ≠ 0) (hk : k.task t = some tk) (hu : tk.phase.isUser)
    (hl : tk.load = none) {a b : Nat} (ha : a < tk.limit) (hq : Present (State.entryAt k.mem tk.cr3 a))
    (hrw : Rw (State.entryAt k.mem tk.cr3 a)) :
    view { k with mem := State.storeByte k.mem tk.cr3 a b } =
      Function.update (view k) t (Function.update (view k t) a (.byte (b % 256))) := by
  obtain ⟨hafter, hst⟩ := write_spec (b := b) h ht hk hu hl ha hq hrw
  refine view_update hafter.others ?_
  generalize hk' : ({ k with mem := State.storeByte k.mem tk.cr3 a b } : State) = k' at hafter ⊢
  have hmem : k'.mem = State.storeByte k.mem tk.cr3 a b := by rw [← hk']
  have htask : k'.task = k.task := by rw [← hk']
  rw [← hmem] at hst
  have ha' : a < taskSize := lt_of_lt_of_le ha (h.limit t tk hk)
  have hi := Inv.dirIx_lt ha'
  have hj := Inv.tabIx_lt a
  rw [h.entryAt ht hk (Phase.touches_live (Phase.isUser_touches hu))] at hq hrw
  obtain ⟨hM, -⟩ := h.mem.rwData t _ _ hi hj hq hrw
  have hent : ∀ i j, i < 768 → k'.tabEntry t i j = if t = t ∧ i = Mem.dirIx a ∧ j = Mem.tabIx a then
      setDirty (k.tabEntry t i j) else k.tabEntry t i j := fun i j hi => by
    rw [tabEntry_eq k' lost, htask]
    exact hst.entries t i j hi
  -- The bytes of a page some entry of the task maps.
  have hbyte : ∀ i j, (hi' : i < 768) → (hj' : j < 1024) → Present (k.tabEntry t i j) → ∀ o, o < 4096 →
      kbyte k'.mem (frame (k.tabEntry t i j)) o =
        if i = Mem.dirIx a ∧ j = Mem.tabIx a ∧ o = a % 4096 then b % 256
        else kbyte k.mem (frame (k.tabEntry t i j)) o := by
    intro i j hi' hj' hq' o ho
    have hnt := h.mem.not_isTable_of_mapped trivial (mapped_of lost hi' hj' hq')
    unfold kbyte
    rw [hst.data _ _ hnt]
    by_cases hsame : i = Mem.dirIx a ∧ j = Mem.tabIx a
    · obtain ⟨rfl, rfl⟩ := hsame
      by_cases hw : o / 4 = a % 4096 / 4
      · rw [if_pos ⟨rfl, hw⟩, State.getByte_setByte _ _ (by omega) (by omega)]
        by_cases ho' : o = a % 4096
        · rw [if_pos (by omega), if_pos ⟨rfl, rfl, ho'⟩]
        · rw [if_neg (by omega), if_neg fun e => ho' e.2.2]
      · rw [if_neg fun e => hw e.2, if_neg fun e => hw (by rw [e.2.2])]
    · -- A writable page is mapped once.
      rw [if_neg, if_neg fun e => hsame ⟨e.1, e.2.1⟩]
      rintro ⟨e, -⟩
      have := h.mem.rwOne trivial t ⟨_, hi⟩ ⟨_, hj⟩ hrw _ (ent_of_present hq) (.pte t ⟨i, hi'⟩ ⟨j, hj'⟩)
        (ent_eq_some.2 ⟨hq', e⟩)
      injection this with _ e₁ e₂
      exact hsame ⟨congrArg Fin.val e₁, congrArg Fin.val e₂⟩
  funext x
  by_cases hx : x < taskSize
  swap
  · rw [Function.update_of_ne (by rintro rfl; exact hx ha'), view_of_ge hx, view_of_ge hx]
  have hi' := Inv.dirIx_lt hx
  have hj' := Inv.tabIx_lt x
  have hMc := Inv.managed_congr hst.low hst.high
  rw [view_of_lt hx]
  have hpf : (Present (k'.tabEntry t (Mem.dirIx x) (Mem.tabIx x)) ↔ Present (k.tabEntry t (Mem.dirIx x) (Mem.tabIx x))) ∧
      frame (k'.tabEntry t (Mem.dirIx x) (Mem.tabIx x)) = frame (k.tabEntry t (Mem.dirIx x) (Mem.tabIx x)) := by
    rw [hent _ _ hi']
    split <;> simp
  by_cases hxa : x = a
  · subst hxa
    rw [Function.update_self, cell_of_managed (hpf.1.2 hq) (by rw [hpf.2]; exact (hMc _).2 hM), hpf.2,
      hbyte _ _ hi' hj' hq _ (Nat.mod_lt _ (by omega)), if_pos ⟨rfl, rfl, rfl⟩]
  · rw [Function.update_of_ne hxa, view_of_lt hx]
    by_cases hq' : Present (k.tabEntry t (Mem.dirIx x) (Mem.tabIx x))
    swap
    · rw [cell_of_not hq', cell_of_not fun e => hq' (hpf.1.1 e)]
    by_cases hM' : k.mem.Managed (frame (k.tabEntry t (Mem.dirIx x) (Mem.tabIx x)))
    · rw [cell_of_managed hq' hM', cell_of_managed (hpf.1.2 hq') (by rw [hpf.2]; exact (hMc _).2 hM'), hpf.2,
        hbyte _ _ hi' hj' hq' _ (Nat.mod_lt _ (by omega)), if_neg]
      rintro ⟨e₁, e₂, e₃⟩
      have := page_iff.1 ⟨e₁, e₂⟩
      omega
    · rw [cell_of_kernel hq' hM', cell_of_kernel (hpf.1.2 hq') (by rw [hpf.2]; exact fun e => hM' ((hMc _).1 e)), hpf.2]

theorem execClear_view (h : KInv True lost k) (ht : t ≠ 0) (hk : k.task t = some tk) (hl : tk.load = none)
    {e p : Nat} {page : Fin 32 → Option Nat} (hp : tk.phase = .closing e page p) :
    ∃ k', k.execClear t tk e page p = .ok k' ∧ PrivateStep k k' (view k) (.execClear t) (view k') := by
  obtain ⟨k', hk', lost', hafter, -, -, hown⟩ := execClear_spec h ht hk hl hp
  refine ⟨k', hk', _, view_update hafter.others rfl, fun x hx => ?_⟩
  have hx' : x < taskSize := by unfold taskSize at *; omega
  rw [view_of_lt hx']
  apply cell_of_not
  rw [tabEntry_eq k' lost']
  rcases hown _ _ (Inv.dirIx_lt hx') (Inv.tabIx_lt x) with e | ⟨e₁, e₂, -⟩
  · rw [e]; simp
  · unfold Mem.dirIx Mem.tabIx taskSize at *
    omega

theorem exit_view (h : KInv True lost k) (ht : t ≠ 0) (hk : k.task t = some tk) (hlive : tk.phase.live)
    (hl : tk.load = none) :
    ∃ k', k.doExit t tk = .ok k' ∧ view k' = Function.update (view k) t gone := by
  obtain ⟨k', hk', hafter, hdead⟩ := doExit_spec h ht hk hlive hl
  exact ⟨k', hk', view_update hafter.others (view_dead hdead rfl)⟩

/-- **The page tables refine private memories**, one operation at a time. -/
theorem Happens.view {r : Except Panic State} (hh : Happens k op r) (h : KInv True lost k) (hns : op.NoSwapShare k) :
    ∃ k', r = .ok k' ∧ PrivateStep k k' (Kernel.view k) op (Kernel.view k') := by
  cases hh with
  | fork hk hu hl =>
    obtain ⟨k', hk', -⟩ := fork_spec h hk hu
    refine ⟨k', hk', ?_⟩
    rcases fork_view h hk hu hk' with ⟨-, e⟩ | ⟨nr, tk', hfree, -, e⟩
    · exact .inl e
    · exact .inr ⟨nr, view_gone lost (roots_dir_none hfree), e⟩
  | fault ht hk hp hl ha hq => exact fault_view h ht hk hp hl ha hq (hns _ hk)
  | loaded ht hk hl he => exact loaded_view h ht hk hl he
  | wpFault ht hk hu hl ha hq hw => exact wpFault_view h ht hk hu hl ha hq
  | write ht hk hu hl ha hq hw => exact ⟨_, rfl, write_view h ht hk hu hl ha hq hw⟩
  | sysRead ht hk hu hl ha hs => exact sysRead_view h ht hk hu hl ha
  | readDone ht hk hp hl => exact ⟨_, rfl, view_record hk rfl⟩
  | execBegin ht hk hu hl hh => exact ⟨_, rfl, view_record hk rfl⟩
  | @argByte t b tk ino e page p ht hk hp hl hb =>
    refine ⟨_, rfl, view_still lost (argByte_spec h ht hk hl hp _).2 fun u => ?_⟩
    by_cases hu : u = t
    · subst hu
      simp only [State.argByte]
      split
      · simp [roots, State.setTask, hk, Task.dir]
      · split <;> simp [roots, State.setTask, hk, Task.dir]
    · have := (argByte_spec (b := b) h ht hk hl hp (by omega)).1.task u hu
      simp only [roots, this]
  | @execFail t tk ino e page p ht hk hp hl =>
    obtain ⟨k', hk', -, htask, hst⟩ := execFail_spec h ht hk hl hp
    refine ⟨k', hk', view_still lost hst fun u => ?_⟩
    rw [htask]
    by_cases hu : u = t
    · subst hu; simp [roots, hk, Task.dir]
    · simp [roots, hu]
  | execCommit ht hk hp hl h0 => exact ⟨_, rfl, view_record hk rfl⟩
  | execClear ht hk hp hl => exact execClear_view h ht hk hl hp
  | execData ht hk hp hl ha hq => exact ⟨_, rfl, view_record hk rfl⟩
  | execDone ht hk hp hl => exact ⟨_, rfl, view_record hk rfl⟩
  | exit ht hk hp hl => exact exit_view h ht hk (Phase.touches_live hp) hl
  | exitDone ht hk hp => exact ⟨_, rfl, view_record hk rfl⟩
  | @release t tk ht hk hp =>
    obtain ⟨k', hk', hafter, hnone⟩ := release_spec h ht hk hp
    refine ⟨k', hk', ?_⟩
    -- A zombie has no memory to lose.
    have hz : Kernel.view k t = gone := view_dead hk (by
      by_contra hc
      have := (h.own t tk ht hk).1 hc
      simp [hp, Phase.live] at this)
    have e := view_update hafter.others (view_gone lost (roots_dir_none hnone))
    rwa [← hz, Function.update_eq_self] at e
  | files ht hk hp hl => exact ⟨_, rfl, view_record hk rfl⟩
  | counts => exact ⟨_, rfl, rfl⟩
  | fileWrite => exact ⟨_, rfl, rfl⟩

/-! ## Runs -/

/-- The invariant of the runs that share no page out of `pg0`. -/
theorem noSwapShare_inv {b : Boot} {file : Nat → Nat → Fin 256}
    (hr : Run.Reaches (Run.Under (fun k op => op.NoSwapShare k) State.Step) (State.boot b file) k) :
    ∃ lost, KInv True lost k := by
  refine hr.invariant (I := fun k => ∃ lost, KInv True lost k) ?_ ⟨_, boot_inv b file⟩
  rintro k op k' ⟨lost, h⟩ ⟨hns, hs⟩
  obtain ⟨k₁, t, lost', hk₁, hafter, -⟩ := (happens_of_exec hs).spec h fun _ => hns
  cases hk₁
  exact ⟨lost', hafter.inv⟩

/-- A page mapped writable belongs to the allocator, and is mapped once. -/
def RwPrivate (k : State) : Prop :=
  ∀ t i j, i < 768 → j < 1024 → Present (k.tabEntry t i j) → Rw (k.tabEntry t i j) →
    ¬ k.mem.Used (frame (k.tabEntry t i j)) ∧
    ∀ u i' j', i' < 768 → j' < 1024 → Present (k.tabEntry u i' j') →
      frame (k.tabEntry u i' j') = frame (k.tabEntry t i j) → u = t ∧ i' = i ∧ j' = j

theorem rwPrivate_of_inv (h : KInv True lost k) : RwPrivate k := by
  intro t i j hi hj hq hrw
  refine ⟨?_, fun u i' j' hi' hj' hq' e => ?_⟩
  · rw [h.mem.used_iff]
    exact not_not.2 (h.mem.rwData t i j hi hj hq hrw).1
  · have := h.mem.rwOne trivial t ⟨i, hi⟩ ⟨j, hj⟩ hrw _ (ent_of_present hq) (.pte u ⟨i', hi'⟩ ⟨j', hj'⟩)
      (ent_eq_some.2 ⟨hq', e⟩)
    injection this with e₀ e₁ e₂
    exact ⟨e₀, congrArg Fin.val e₁, congrArg Fin.val e₂⟩

/-- A write leaves the kernel's own bytes alone. -/
theorem write_kbyte (h : KInv True lost k) (ht : t ≠ 0) (hk : k.task t = some tk) (hu : tk.phase.isUser)
    (hl : tk.load = none) {a b f o : Nat} (ha : a < tk.limit) (hq : Present (State.entryAt k.mem tk.cr3 a))
    (hrw : Rw (State.entryAt k.mem tk.cr3 a)) (hf : ¬ k.mem.Managed f) :
    kbyte (State.storeByte k.mem tk.cr3 a b) f o = kbyte k.mem f o := by
  have hst := (write_spec (b := b) h ht hk hu hl ha hq hrw).2
  rw [h.entryAt ht hk (Phase.touches_live (Phase.isUser_touches hu))] at hq hrw
  have hi := Inv.dirIx_lt (lt_of_lt_of_le ha (h.limit t tk hk))
  obtain ⟨hM, -⟩ := h.mem.rwData t _ _ hi (Inv.tabIx_lt a) hq hrw
  unfold kbyte
  rw [hst.data f _ (h.mem.not_isTable_of_unmanaged hf), if_neg]
  rintro ⟨rfl, -⟩
  exact hf hM

theorem view_kernel {x f o : Nat} (h : view k u x = .kernel f o) : ¬ k.mem.Managed f := by
  unfold view cell at h
  split at h
  · split at h
    · cases h
    · split at h
      · cases h
      · cases h; assumption
  · cases h

theorem step_fork (hs : State.Step k (.fork t) k') :
    ∃ tk, k.task t = some tk ∧ tk.phase.isUser ∧ k.fork t tk = .ok k' := by
  have hh := happens_of_exec hs
  generalize hr : (Except.ok k' : Except Panic State) = r at hh
  cases hh with
  | fork hk hu hl => exact ⟨_, hk, hu, rfl⟩

theorem step_write {a b : Nat} (hs : State.Step k (.write t a b) k') :
    ∃ tk, t ≠ 0 ∧ k.task t = some tk ∧ tk.phase.isUser ∧ tk.load = none ∧ a < tk.limit ∧
      Present (State.entryAt k.mem tk.cr3 a) ∧ Rw (State.entryAt k.mem tk.cr3 a) ∧
      k' = { k with mem := State.storeByte k.mem tk.cr3 a b } := by
  have hh := happens_of_exec hs
  generalize hr : (Except.ok k' : Except Panic State) = r at hh
  cases hh with
  | write ht hk hu hl ha hq hw => exact ⟨_, ht, hk, hu, hl, ha, hq, hw, Except.ok.inj hr⟩

/-- 1 MB of memory for tasks, below 4 MB, and a file whose header says 4 MB of text. -/
def State.boot4 : State :=
  State.boot ⟨768, 1024, fun _ _ => 0, by decide, by decide, by decide⟩ fun _ o => if o = 6 then 64 else 0

end Linux011.Kernel
