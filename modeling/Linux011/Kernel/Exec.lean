/-
The pages of `do_execve`: strings copied into `page[]`, the pages freed on
an error, and on success the old tables cleared and `page[]` mapped under
3 GB. `change_ldt` ignores a `put_page` that fails. It cannot fail while no
page is shared out of `pg0`: the tables just cleared left a free page, and
the argument pages need one table.
-/
import Linux011.Kernel.PageFault

namespace Linux011.Kernel

open Mm RefCount

variable {s : Prop} {lost lost' : Fin 4096 → Bool} {k k' : State} {t : Fin 64} {tk tk' : Task} {m m' : Mem}
  {R R' : Roots}

/-! ## `copy_strings` -/

/-- A store into a held page. -/
theorem storeHeld (h : Inv s m R) {x : Misc} {n : Nat} (hx : R.misc x = some n) (w v : Nat) :
    Inv s (m.set n w v) R ∧ Still s m R (m.set n w v) := by
  have hM := h.sound.managed (.misc x) n (by simp) hx
  have hge : 256 ≤ n := le_trans h.low_ge hM.1
  have hnt := h.not_isTable_of_misc hx
  have hw : ∀ f w', f ≠ n → (m.set n w v).word f w' = m.word f w' := fun f w' hf => by
    rw [Mem.set_word, if_neg (fun e => hf e.1)]
  have hkeep : ∀ f w', IsTable m R f → (m.set n w v).word f w' = m.word f w' := fun f w' hf =>
    hw f w' (fun e => hnt (e ▸ hf))
  refine ⟨h.storeData rfl rfl rfl hnt (by omega) fun g w' hg => hw g w' hg, rfl, rfl, Inv.pde_keep rfl hkeep,
    fun u _ j hi => Inv.pte_keep rfl hkeep u hi j, fun _ n' w' _ ⟨r, hr, hn'⟩ => hw n' w' ?_⟩
  rintro rfl
  exact h.held r x n' hr hn' hx

theorem argByte_spec (h : KInv s lost k) (ht : t ≠ 0) (hk : k.task t = some tk) (hload : tk.load = none)
    {ino e p b : Nat} {page : Fin 32 → Option Nat} (hph : tk.phase = .copying ino e page p) (hp : p - 1 < 131072) :
    After s lost t k (k.argByte t tk ino e page p b hp) lost ∧
      Still s k.mem (roots k.task lost) (k.argByte t tk ino e page p b hp).mem := by
  have hlive : tk.phase.live = true := by rw [hph]; rfl
  have hpages : ∀ i, (roots k.task lost).misc (.arg t i) = page i := fun i => by rw [roots_arg hk, hph]; rfl
  have htab := h.table t tk ht hk hlive (by rw [hph]; simp)
  -- In each case the task goes on copying, with the same record otherwise.
  have next : ∀ (m' : Mem) (page' : Fin 32 → Option Nat) (p' : Nat),
      Inv s m' (roots (Function.update k.task t (some { tk with phase := .copying ino e page' p' })) lost) →
      Still s k.mem (roots k.task lost) m' →
      After s lost t k ({ k with mem := m' }.setTask t (some { tk with phase := .copying ino e page' p' })) lost ∧
        Still s k.mem (roots k.task lost) m' := by
    intro m' page' p' hI hst
    have hdir : ∀ u, u ≠ t → (roots (Function.update k.task t (some
        { tk with phase := .copying ino e page' p' })) lost).dir u = (roots k.task lost).dir u :=
      fun u hu => dir_setTask hu _
    have hoth := Others.of_still hst hdir
    refine ⟨⟨h.update ht _ m' rfl rfl hI hoth ?_ (h.limit t tk hk) (by simp [hload]) fun _ _ => ?_, hoth,
      fun u hu => by simp [State.setTask, hu]⟩, hst⟩
    · exact ⟨fun _ => rfl, fun _ => (h.own t tk ht hk).2 hlive⟩
    · obtain ⟨i, hi, hpr⟩ := htab
      refine ⟨i, hi, ?_⟩
      rw [pde_congr_dir (R := roots k.task lost)]
      · rw [hst.tables]; exact hpr
      · simp [roots, hk, Task.dir]
  unfold State.argByte
  simp only
  generalize hi : (⟨(p - 1) / 4096, by omega⟩ : Fin 32) = i
  cases hpg : page i with
  | some pag =>
    have hx : (roots k.task lost).misc (.arg t i) = some pag := (hpages i).trans hpg
    have hR : roots (Function.update k.task t (some { tk with phase := .copying ino e page (p - 1) })) lost =
        roots k.task lost := roots_congr hk rfl rfl (by rw [hph]; rfl) rfl
    obtain ⟨hI, hst⟩ := storeHeld h.mem hx ((p - 1) % 4096 / 4)
      (State.setByte (k.mem.word pag ((p - 1) % 4096 / 4)) ((p - 1) % 4) b)
    exact next _ page (p - 1) (by rw [hR]; exact hI) hst
  | none =>
    cases hg : k.mem.getFreePage with
    | none =>
      have hR : roots (Function.update k.task t (some { tk with phase := .copying ino e page 0 })) lost =
          roots k.task lost := roots_congr hk rfl rfl (by rw [hph]; rfl) rfl
      exact next k.mem page 0 (by rw [hR]; exact h.mem) .refl
    | some y =>
      obtain ⟨pag, m₁⟩ := y
      obtain ⟨h0, rfl⟩ := Mem.getFreePage_some hg
      have hI₁ := h.mem.claim h0 ((hpages i).trans hpg)
      have hR : roots (Function.update k.task t
          (some { tk with phase := .copying ino e (Function.update page i (some pag)) (p - 1) })) lost =
          (roots k.task lost).setMisc (.arg t i) (some pag) := by
        apply roots_setArg hk
        · rfl
        · rfl
        · rw [hph]; rfl
        · rfl
      obtain ⟨hI, hst⟩ := storeHeld hI₁ (x := .arg t i) (n := pag) (by simp) ((p - 1) % 4096 / 4)
        (State.setByte ((k.mem.claim pag).word pag ((p - 1) % 4096 / 4)) ((p - 1) % 4) b)
      -- The tables do not depend on what else is held.
      have hst' : Still s (k.mem.claim pag) (roots k.task lost) _ :=
        ⟨hst.low, hst.high, hst.tables, hst.entries, fun hs n w hM hn => hst.data hs n w hM (mapped_setMisc.2 hn)⟩
      exact next _ _ (p - 1) (by rw [hR]; exact hI) ((Still.of_claim h.mem h0).trans hst')

/-! ## The failing exit -/

theorem dropMisc_cons (R : Roots) (t : Fin 64) (i : Fin 32) (l : List (Fin 32)) :
    dropMisc (R.setMisc (.arg t i) none) t l = dropMisc R t (i :: l) := by
  funext x
  cases x with
  | arg u i' =>
    by_cases he : u = t ∧ i' = i
    · obtain ⟨rfl, rfl⟩ := he
      simp [dropMisc]
    · have hne : Misc.arg u i' ≠ Misc.arg t i := by
        intro e
        injection e with e₁ e₂
        exact he ⟨e₁, e₂⟩
      by_cases hm : u = t ∧ i' ∈ l
      · simp [dropMisc, hm]
      · have : ¬ (u = t ∧ (i' = i ∨ i' ∈ l)) := by
          rintro ⟨h₁, h₂ | h₂⟩
          · exact he ⟨h₁, h₂⟩
          · exact hm ⟨h₁, h₂⟩
        simp [dropMisc, hm, this, hne]
  | _ => simp [dropMisc]

theorem freeArgs_spec {page : Fin 32 → Option Nat} (l : List (Fin 32)) (hl : l.Nodup) (h : Inv s m R)
    (harg : ∀ i ∈ l, R.misc (.arg t i) = page i) :
    ∃ m', l.foldlM (fun m i => m.freePage ((page i).getD 0)) m = .ok m' ∧ Inv s m' ⟨R.dir, dropMisc R t l⟩ ∧
      m'.word = m.word ∧ m'.low = m.low ∧ m'.high = m.high := by
  induction l generalizing m R with
  | nil =>
    have : (⟨R.dir, dropMisc R t []⟩ : Roots) = R := by
      ext1
      · rfl
      · funext x
        cases x <;> simp [dropMisc]
    exact ⟨m, rfl, by rw [this]; exact h, rfl, rfl, rfl⟩
  | cons i l ih =>
    obtain ⟨hi, hl⟩ := List.nodup_cons.1 hl
    have hpi := harg i List.mem_cons_self
    simp only [List.foldlM_cons, bind, Except.bind]
    have hrest : ∀ i' ∈ l, (R.setMisc (.arg t i) none).misc (.arg t i') = page i' := by
      intro i' hi'
      have : i' ≠ i := fun e => hi (e ▸ hi')
      simpa [this] using harg i' (List.mem_cons_of_mem _ hi')
    rw [← dropMisc_cons]
    cases hp : page i with
    | none =>
      have hsame : R.setMisc (.arg t i) none = R := by
        have e := R.setMisc_none (hpi.trans hp) none
        simpa [Roots.setMisc] using e
      rw [hsame] at hrest ⊢
      simp only [Option.getD_none, h.freePage_zero]
      exact ih hl h hrest
    | some n =>
      have hx : R.misc (.arg t i) = some n := hpi.trans hp
      have hM := h.sound.managed (.misc (.arg t i)) n (by simp) hx
      simp only [Option.getD_some, h.freePage_managed hM (by rw [h.held_map hx]; omega)]
      obtain ⟨m', hm', hI', hw', hl', hh'⟩ := ih hl (h.release hx) hrest
      exact ⟨m', hm', hI', hw', hl', hh'⟩

/-- **The failing exits of `do_execve`** give every page back. -/
theorem execFail_spec (h : KInv s lost k) (ht : t ≠ 0) (hk : k.task t = some tk) (hload : tk.load = none)
    {ino e p : Nat} {page : Fin 32 → Option Nat} (hph : tk.phase = .copying ino e page p) :
    ∃ k', k.execFail t tk page = .ok k' ∧ After s lost t k k' lost ∧
      k'.task = Function.update k.task t (some { tk with phase := .user }) ∧
      Still s k.mem (roots k.task lost) k'.mem := by
  have hlive : tk.phase.live = true := by rw [hph]; rfl
  have harg : ∀ i, (roots k.task lost).misc (.arg t i) = page i := fun i => by rw [roots_arg hk, hph]; rfl
  obtain ⟨m', hm', hI', hw', hl', hh'⟩ := freeArgs_spec (List.finRange 32) (List.nodup_finRange 32) h.mem
    fun i _ => harg i
  have hR : (⟨(roots k.task lost).dir, dropMisc (roots k.task lost) t (List.finRange 32)⟩ : Roots) =
      roots (Function.update k.task t (some { tk with phase := .user })) lost := by
    ext1
    · funext u
      by_cases hu : u = t
      · subst hu; simp [roots, hk, Task.dir]
      · simp [roots, hu]
    · funext x
      cases x with
      | task u => by_cases hu : u = t <;> simp_all [roots, dropMisc]
      | arg u i => by_cases hu : u = t <;> simp_all [roots, dropMisc, Phase.pages]
      | load u => by_cases hu : u = t <;> simp_all [roots, dropMisc]
      | _ => rfl
  rw [hR] at hI'
  have hst : Still s k.mem (roots k.task lost) m' :=
    ⟨hl', hh', fun u i => by rw [pde_ext hw' rfl], fun u i j _ => by rw [pte_ext hw' rfl], fun _ n w _ _ => by rw [hw']⟩
  have hdir : ∀ u, u ≠ t → (roots (Function.update k.task t (some { tk with phase := .user })) lost).dir u =
      (roots k.task lost).dir u := fun u hu => dir_setTask hu _
  have hoth := Others.of_still hst hdir
  refine ⟨_, by simp only [State.execFail, State.freeArgs, hm', bind, Except.bind]; rfl, ⟨?_, hoth, ?_⟩, rfl, hst⟩
  · refine h.update ht _ m' rfl rfl hI' hoth ⟨fun _ => rfl, fun _ => (h.own t tk ht hk).2 hlive⟩ (h.limit t tk hk)
      (by simp [hload]) fun _ _ => ?_
    obtain ⟨i, hi, hp⟩ := h.table t tk ht hk hlive (by rw [hph]; simp)
    refine ⟨i, hi, ?_⟩
    rw [pde_congr_dir (R := roots k.task lost)]
    · rw [hst.tables]; exact hp
    · simp [roots, hk, Task.dir]
  · intro u hu
    simp [State.setTask, hu]

/-! ## The new image -/

/-- Where `change_ldt` maps `page[i]`. -/
theorem dirIx_arg (i : Fin 32) : Mem.dirIx (taskSize - 131072 + i.val * 4096) = 767 := by
  unfold Mem.dirIx taskSize; omega

theorem tabIx_arg (i : Fin 32) : Mem.tabIx (taskSize - 131072 + i.val * 4096) = 992 + i.val := by
  unfold Mem.tabIx taskSize; omega

/-- What mapping the pages `page[i]`, `i` in `l`, has done to the references:
they are gone from `page[]`, and where `put_page` failed they are lost. `q` says
that there is room for a table. -/
structure ArgsPut (s q : Prop) (t : Fin 64) (l : List (Fin 32)) (m : Mem) (R : Roots) (m' : Mem) (R' : Roots) : Prop where
  inv : Inv s m' R'
  dir : R'.dir = R.dir
  gone : ∀ i ∈ l, R'.misc (.arg t i) = none
  rest : ∀ x, (∀ i ∈ l, x ≠ .arg t i) → (∀ n, x ≠ .lost n) → R'.misc x = R.misc x
  lost : ∀ n, R'.misc (.lost n) = R.misc (.lost n) ∨ R'.misc (.lost n) = some n.val
  none_lost : q → ∀ n, R'.misc (.lost n) = R.misc (.lost n)
  others : Others s t m R m' R'
  own : ∀ i j, i < 768 → j < 1024 → pte m' R' t i j = pte m R t i j ∨
    i = 767 ∧ 992 ≤ j ∧ Dirty (pte m' R' t i j)

theorem putArgs_spec {q : Prop} {page : Fin 32 → Option Nat} {d : Nat} (l : List (Fin 32)) (hl : l.Nodup) (h : Inv s m R)
    (hhand : R.misc .hand = none) (hlost : ∀ n v, R.misc (.lost n) = some v → v = n.val) (hd : R.dir t = some d)
    (harg : ∀ i ∈ l, R.misc (.arg t i) = page i) (hq : ∀ i ∈ l, ¬ Present (pte m R t 767 (992 + i.val)))
    (hfree : q → Present (pde m R t 767) ∨ ∃ n, m.Managed n ∧ m.map n = 0) :
    ∃ R', ArgsPut s q t l m R (l.foldl (fun m i => match page i with
      | none => m
      | some n => (m.putPage d n (taskSize - 131072 + i.val * 4096)).getD m) m) R' := by
  induction l generalizing m R with
  | nil =>
    exact ⟨R, h, rfl, by simp, fun _ _ _ => rfl, fun _ => .inl rfl, fun _ _ => rfl, Others.refl fun _ _ => rfl,
      fun _ _ _ _ => .inl rfl⟩
  | cons i l ih =>
    obtain ⟨hi, hl⟩ := List.nodup_cons.1 hl
    have hpi := harg i List.mem_cons_self
    simp only [List.foldl_cons]
    -- One page done, in memory `m₁` with references `R₁`, and the rest of the loop.
    have step : ∀ m₁ R₁, Inv s m₁ R₁ → R₁.dir = R.dir → R₁.misc (.arg t i) = none →
        (∀ x, x ≠ .arg t i → (∀ n, x ≠ .lost n) → R₁.misc x = R.misc x) →
        (∀ n, R₁.misc (.lost n) = R.misc (.lost n) ∨ R₁.misc (.lost n) = some n.val) →
        (q → ∀ n, R₁.misc (.lost n) = R.misc (.lost n)) → Others s t m R m₁ R₁ →
        (∀ i' j', i' < 768 → j' < 1024 → ¬ (i' = 767 ∧ j' = 992 + i.val) → pte m₁ R₁ t i' j' = pte m R t i' j') →
        (pte m₁ R₁ t 767 (992 + i.val) = pte m R t 767 (992 + i.val) ∨ Dirty (pte m₁ R₁ t 767 (992 + i.val))) →
        (q → Present (pde m₁ R₁ t 767) ∨ ∃ n, m₁.Managed n ∧ m₁.map n = 0) →
        ∃ R', ArgsPut s q t (i :: l) m R (l.foldl (fun m i => match page i with
          | none => m
          | some n => (m.putPage d n (taskSize - 131072 + i.val * 4096)).getD m) m₁) R' := by
      intro m₁ R₁ hI₁ hdir hgone hrest hlost₁ hnl hoth hpte hself hfree₁
      obtain ⟨R', hput⟩ := ih hl hI₁ (by rw [hrest _ (by simp) (by simp)]; exact hhand)
        (fun n v hv => by
          rcases hlost₁ n with e | e <;> rw [e] at hv
          · exact hlost n v hv
          · exact (Option.some.inj hv).symm)
        (by rw [hdir]; exact hd)
        (fun i' hi' => by
          have hne : i' ≠ i := fun e => hi (e ▸ hi')
          rw [hrest _ (by simpa using hne) (by simp)]
          exact harg i' (List.mem_cons_of_mem _ hi'))
        (fun i' hi' => by
          have hne : i' ≠ i := fun e => hi (e ▸ hi')
          rw [hpte _ _ (by omega) (by omega) (fun e => hne (Fin.ext (by omega)))]
          exact hq i' (List.mem_cons_of_mem _ hi'))
        hfree₁
      refine ⟨R', hput.inv, hput.dir.trans hdir, fun i' hi' => ?_, fun x hx hx' => ?_, fun n => ?_, fun hs n => ?_,
        hoth.trans hput.others, fun i' j' h₁ h₂ => ?_⟩
      · rcases List.mem_cons.1 hi' with rfl | hi'
        · rw [hput.rest _ (fun i'' hi'' e => ?_) (by simp)]
          · exact hgone
          · injection e with _ e
            exact hi (e ▸ hi'')
        · exact hput.gone i' hi'
      · rw [hput.rest x (fun i' hi' => hx i' (List.mem_cons_of_mem _ hi')) hx', hrest x (hx i List.mem_cons_self) hx']
      · rcases hput.lost n with e | e
        · rw [e]; exact hlost₁ n
        · exact .inr e
      · rw [hput.none_lost hs n, hnl hs n]
      · rcases hput.own i' j' h₁ h₂ with e | e
        · rw [e]
          by_cases hij : i' = 767 ∧ j' = 992 + i.val
          · obtain ⟨rfl, rfl⟩ := hij
            exact hself.imp_right fun hd => ⟨rfl, by omega, hd⟩
          · exact .inl (hpte i' j' h₁ h₂ hij)
        · exact .inr e
    cases hp : page i with
    | none =>
      exact step m R h rfl (hpi.trans hp) (fun _ _ _ => rfl) (fun _ => .inl rfl) (fun _ _ => rfl)
        (Others.refl fun _ _ => rfl) (fun _ _ _ _ _ => rfl) (.inl rfl) hfree
    | some n =>
      have hx : R.misc (.arg t i) = some n := hpi.trans hp
      simp only
      have hput := h.putPage_spec (a := taskSize - 131072 + i.val * 4096) hhand hx hd (by rw [dirIx_arg]; omega)
        (by rw [dirIx_arg, tabIx_arg]; exact hq i List.mem_cons_self)
      rw [dirIx_arg, tabIx_arg] at hput
      rcases hput with hnone | ⟨m', hm', hI', hpl⟩
      · -- `put_page` failed: only where no page is free.
        rw [hnone, Option.getD_none]
        have hs : ¬ q := by
          intro hs
          have hw : m.word d 767 = pde m R t 767 := by simp [pde, hd]
          rcases hfree hs with hp' | ⟨n', hM', h0'⟩
          · simp only [Mem.putPage, dirIx_arg, tabIx_arg, hw, if_pos hp', reduceCtorEq] at hnone
          · simp only [Mem.putPage, dirIx_arg, tabIx_arg, hw] at hnone
            split at hnone
            · cases hnone
            · cases hg : m.getFreePage with
              | none => exact Mem.getFreePage_none hg hM'.1 (lt_of_lt_of_le hM'.2 h.high_le) h0'
              | some y => rw [hg] at hnone; cases hnone
        have hM := h.sound.managed (.misc (.arg t i)) n (by simp) hx
        have hlt : n < 4096 := lt_of_lt_of_le hM.2 h.high_le
        have hl0 : R.misc (.lost ⟨n, hlt⟩) = none := by
          cases hv : R.misc (.lost ⟨n, hlt⟩) with
          | none => rfl
          | some v =>
            obtain rfl : v = n := hlost _ _ hv
            have := h.held_only hx (r := .misc (.lost ⟨v, hlt⟩)) hv
            simp at this
        refine step m _ (h.handOver hx hl0) rfl (by simp) (fun x hx₁ hx₂ => ?_) (fun n' => ?_)
          (fun hs' => absurd hs' hs) (Others.refl fun _ _ => rfl) (fun _ _ _ _ _ => rfl) (.inl rfl)
          (fun hs' => absurd hs' hs)
        · simp [hx₁, hx₂]
        · by_cases hn' : n' = ⟨n, hlt⟩
          · subst hn'; simp
          · simp [hn']
      · rw [hm', Option.getD_some]
        refine step m' _ hI' rfl (by simp) (fun x hx₁ _ => by simp [hx₁]) (fun _ => .inl (by simp)) (fun _ _ => by simp)
          (Others.of_placed h hpl fun _ _ => rfl) (fun i' j' h₁ _ hne => ?_) (.inr ?_) (fun _ => .inl hpl.present)
        · rw [pte_setMisc, hpl.pte t i' j' h₁, if_neg (fun e => hne e.2)]
        · rw [pte_setMisc, hpl.pte t 767 _ (by omega), if_pos ⟨rfl, rfl, rfl⟩, dirty_entry]

/-- A table that is taken out leaves a free page, while no page is shared out of `pg0`. -/
theorem cleared_free (h : Inv s m R) (hs : s) (hc : Inv.Cleared s m R t 768 m') {i : Nat} (hi : i < 768)
    (hp : Present (pde m R t i)) : m'.Managed (frame (pde m R t i)) ∧ m'.map (frame (pde m R t i)) = 0 := by
  have hM := h.table_managed hi hp
  have hM' := (Inv.managed_congr hc.low hc.high _).2 hM
  refine ⟨hM', ?_⟩
  rw [hc.inv.exact _ hM', count_eq_zero]
  have hpd : target m R (.pde t ⟨i, hi⟩) = some (frame (pde m R t i)) := ent_of_present hp
  intro r hr
  -- A reference left would have been there before, beside the directory entry.
  have hold : target m R r = some (frame (pde m R t i)) ∧ r ≠ .pde t ⟨i, hi⟩ := by
    cases r with
    | cr3 u => exact ⟨hr, by simp⟩
    | misc x => exact ⟨hr, by simp⟩
    | pde u i' =>
      by_cases hu : u = t
      · subst hu
        simp [target, hc.done i' (by omega) i'.2] at hr
      · rw [target, hc.pde u hu] at hr
        exact ⟨hr, fun e => hu (by injection e)⟩
    | pte u i' j' =>
      by_cases hu : u = t
      · subst hu
        simp [target, pte, hc.done i' (by omega) i'.2] at hr
      · rw [target, hc.pte u hu i' j' i'.2] at hr
        exact ⟨hr, by simp⟩
  by_cases hpt : r.IsPte
  · exact h.sep hs r (.pde t ⟨i, hi⟩) _ hpt (by simp) hold.1 hpd
  · exact hold.2 (h.sound.uniq r (.pde t ⟨i, hi⟩) _ hpt (by simp) hold.1 hpd)

/-- `clear_page_tables` leaves a page free, for the table `change_ldt` needs. -/
def StackRoom (k : State) (tk : Task) : Prop :=
  ∀ m, k.mem.clearPageTables tk.cr3 = .ok m → m.getFreePage ≠ none

/-- **`clear_page_tables` and `change_ldt`** do not panic. The pages of
`page[]` are mapped if there is room for a table, which there is while no page
is shared out of `pg0`; all entries of the new image are dirty. -/
theorem execClear_spec (h : KInv s lost k) (ht : t ≠ 0) (hk : k.task t = some tk) (hload : tk.load = none)
    {e p : Nat} {page : Fin 32 → Option Nat} (hph : tk.phase = .closing e page p) :
    ∃ k', k.execClear t tk e page p = .ok k' ∧ ∃ lost', After s lost t k k' lost' ∧
      (s ∨ StackRoom k tk → lost' = lost) ∧
      k'.task = Function.update k.task t (some { tk with limit := taskSize, phase := .building e p }) ∧
      ∀ i j, i < 768 → j < 1024 → pte k'.mem (roots k'.task lost') t i j = 0 ∨
        i = 767 ∧ 992 ≤ j ∧ Dirty (pte k'.mem (roots k'.task lost') t i j) := by
  have hlive : tk.phase.live = true := by rw [hph]; rfl
  have hd := h.dir ht hk hlive
  obtain ⟨m₁, hm₁, hc⟩ := h.mem.clearPageTables_spec hd
  have hz : ∀ i j, i < 768 → pte m₁ (roots k.task lost) t i j = 0 := fun i j hi => by
    simp [pte, hc.done i hi hi]
  have harg : ∀ i, (roots k.task lost).misc (.arg t i) = page i := fun i => by rw [roots_arg hk, hph]; rfl
  obtain ⟨R', hput⟩ := putArgs_spec (q := s ∨ StackRoom k tk) (List.finRange 32).reverse
    (List.nodup_reverse.2 (List.nodup_finRange 32)) hc.inv roots_hand (fun n v hv => roots_lost k.task n v hv) hd
    (fun i _ => harg i) (fun i _ => by rw [hz 767 _ (by omega)]; simp)
    (fun hroom => .inr (by
      rcases hroom with hs | hroom
      · obtain ⟨i, hi, hp⟩ := h.table t tk ht hk hlive (by rw [hph]; simp)
        exact ⟨_, cleared_free h.mem hs hc hi hp⟩
      · obtain ⟨⟨n, m₂⟩, hx⟩ := Option.ne_none_iff_exists'.1 (hroom m₁ hm₁)
        obtain ⟨h0, -⟩ := Mem.getFreePage_some hx
        exact ⟨n, hc.inv.managed_of_map_lt (by omega), h0⟩))
  have hoth₁ : Others s t k.mem (roots k.task lost) m₁ (roots k.task lost) := by
    refine Others.of (fun _ _ => rfl) hc.low hc.high (fun u i hu _ => hc.pde u hu i)
      (fun u i j hu hi _ => .inl (hc.pte u hu i j hi))
      (fun hs n w _ hn => hc.word n w fun hT => h.mem.not_isTable_of_mapped hs hn ?_)
    rcases hT with hT | ⟨i, hi, hT⟩
    · exact .inl ⟨t, hT⟩
    · exact .inr ⟨t, i, hi, hT⟩
  -- The references after the loop, read off the task's new record.
  have hR : R' = roots (Function.update k.task t (some { tk with limit := taskSize, phase := .building e p }))
      (fun n => (R'.misc (.lost n)).isSome) := by
    ext1
    · rw [hput.dir]
      funext u
      by_cases hu : u = t
      · subst hu; simp [roots, hk, Task.dir]
      · simp [roots, hu]
    · funext x
      cases x with
      | lost n =>
        rcases hput.lost n with e | e
        · by_cases hn : lost n <;> simp [roots, e, hn]
        · simp [roots, e]
      | arg u i =>
        by_cases hu : u = t
        · subst hu
          rw [hput.gone i (by simp)]
          simp [roots, Phase.pages]
        · rw [hput.rest _ (fun i' _ he => hu (by injection he)) (by simp)]
          simp [roots, hu]
      | task u =>
        rw [hput.rest _ (by simp) (by simp)]
        by_cases hu : u = t
        · subst hu; simp [roots, hk]
        · simp [roots, hu]
      | load u =>
        rw [hput.rest _ (by simp) (by simp)]
        by_cases hu : u = t
        · subst hu; simp [roots, hk]
        · simp [roots, hu]
      | hand => rw [hput.rest _ (by simp) (by simp)]; rfl
      | page => rw [hput.rest _ (by simp) (by simp)]; rfl
  have hoth := hoth₁.trans hput.others
  rw [hR] at hoth
  refine ⟨_, by simp only [State.execClear, hm₁, bind, Except.bind]; rfl, fun n => (R'.misc (.lost n)).isSome,
    ⟨?_, hoth, fun u hu => by simp [State.setTask, hu]⟩, fun hs => ?_, rfl, fun i j hi hj => ?_⟩
  · refine h.update ht _ _ rfl rfl (by rw [← hR]; exact hput.inv) hoth
      ⟨fun _ => rfl, fun _ => (h.own t tk ht hk).2 hlive⟩ le_rfl (by simp [hload]) fun _ hb => absurd rfl (hb e p)
  · funext n
    rw [hput.none_lost hs n]
    by_cases hn : lost n <;> simp [roots, hn]
  · change pte _ (roots (Function.update k.task t _) _) t i j = 0 ∨
      i = 767 ∧ 992 ≤ j ∧ Dirty (pte _ (roots (Function.update k.task t _) _) t i j)
    rw [← hR]
    rcases hput.own i j hi hj with e | e
    · exact .inl (e.trans (hz i j hi))
    · exact .inr e

end Linux011.Kernel
