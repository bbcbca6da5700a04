/-
The changes the memory manager makes, one rule each: an entry's flags, a
page mapped, shared or unmapped, a page taken from the free ones, held,
handed on and given back, a table or a directory put in place and taken out.
Each rule keeps the invariant; the functions of `memory.c` are sequences of
these changes.
-/
import Linux011.Mm.Store

namespace Linux011.Mm

open RefCount

theorem present_pde {m : Mem} {R : Roots} {t i j} (h : Present (pte m R t i j)) : Present (pde m R t i) := by
  unfold pte at h
  split at h
  · assumption
  · simp at h

namespace Inv

variable {s : Prop} {m : Mem} {R : Roots} {t : Fin 64} {i j : Nat}

/-! ## Entries -/

/-- An entry that keeps its frame; it may become writable if the frame is
mapped nowhere else. -/
theorem flagPte (h : Inv s m R) (hi : i < 768) (hj : j < 1024) (hq : Present (pte m R t i j)) {w : Nat}
    (hw : ent w = ent (pte m R t i j))
    (hrw : Rw w → Rw (pte m R t i j) ∨
      m.Managed (frame (pte m R t i j)) ∧ m.map (frame (pte m R t i j)) = 1) :
    Inv s (m.set (frame (pde m R t i)) j w) R := by
  have hT : target m R (.pte t ⟨i, hi⟩ ⟨j, hj⟩) = some (frame (pte m R t i j)) := ent_of_present hq
  have hw' : ent w = some (frame (pte m R t i j)) := hw.trans hT
  obtain ⟨hpw, hfw⟩ := ent_eq_some.1 hw'
  have hsame : Function.update (target m R) (.pte t ⟨i, hi⟩ ⟨j, hj⟩) (ent w) = target m R := by
    rw [hw', ← hT, Function.update_eq_self]
  -- With a count of one, this entry is the only reference.
  have hone : m.Managed (frame (pte m R t i j)) → m.map (frame (pte m R t i j)) = 1 →
      ∀ r, target m R r = some (frame (pte m R t i j)) → r = .pte t ⟨i, hi⟩ ⟨j, hj⟩ := by
    intro hM h1 r hr
    rw [h.exact _ hM] at h1
    exact eq_of_count_le_one h1.le hT hr
  refine h.storePte hi hj (present_pde hq) (.inr hpw) rfl rfl rfl rfl (fun _ _ h => h) h.map_used
    (by rw [hsame]; exact h.sound) (fun n hn => by rw [hsame]; exact h.exact n hn) ?clean ?rw ?held ?sep ?one
  case clean =>
    intro n hn hn' hd e
    exact h.clean n hn hn' hd (.pte t ⟨i, hi⟩ ⟨j, hj⟩) (hw.symm.trans e)
  case rw =>
    intro _ hr
    rw [hfw]
    rcases hrw hr with hr | ⟨hM, h1⟩
    · exact h.rwData t i j hi hj hq hr
    · exact ⟨hM, fun r hr => by rw [hone hM h1 r hr]; simp⟩
  case held =>
    intro n x e
    exact h.held (.pte t ⟨i, hi⟩ ⟨j, hj⟩) x n (by simp) (hw.symm.trans e)
  case sep =>
    intro hs n e r hr
    exact h.sep hs (.pte t ⟨i, hi⟩ ⟨j, hj⟩) r n (by simp) hr (hw.symm.trans e)
  case one =>
    intro hs n e r hr e'
    refine ⟨fun hrw' => ?_, ?_⟩
    · rcases hrw hrw' with hrw' | ⟨hM, h1⟩
      · exact hr (h.rwOne hs t ⟨i, hi⟩ ⟨j, hj⟩ hrw' n (hw.symm.trans e) r e')
      · rw [hw', Option.some.injEq] at e
        exact hr (hone hM h1 r (e ▸ e'))
    · rintro u i' j' rfl hrw'
      exact hr (h.rwOne hs u i' j' hrw' n e' (.pte t ⟨i, hi⟩ ⟨j, hj⟩) (hw.symm.trans e)).symm

/-- A held page put into an empty entry. -/
theorem movePte (h : Inv s m R) (hi : i < 768) (hj : j < 1024) (hp : Present (pde m R t i))
    (hq : ¬ Present (pte m R t i j)) {x : Misc} {n w : Nat} (hx : R.misc x = some n) (hw : ent w = some n) :
    Inv s (m.set (frame (pde m R t i)) j w) (R.setMisc x none) := by
  have hX : target m R (.misc x) = some n := hx
  have hM : m.Managed n := h.sound.managed (.misc x) n (by simp) hx
  obtain ⟨hpw, hfw⟩ := ent_eq_some.1 hw
  have hT : target m R (.pte t ⟨i, hi⟩ ⟨j, hj⟩) = none := if_neg hq
  -- The holder was the only reference.
  have hno : ∀ r, Function.update (target m R) (.misc x) none r ≠ some n := by
    intro r hr
    by_cases hrx : r = .misc x
    · rw [hrx, Function.update_self] at hr; cases hr
    · rw [Function.update_of_ne hrx] at hr
      by_cases hpt : r.IsPte
      · exact h.held r x n hpt hr hx
      · exact hrx (h.sound.uniq r (.misc x) n hpt (by simp) hr hx)
  refine h.storePte hi hj hp (.inr hpw) rfl rfl rfl rfl ?misc h.map_used ?sound ?exact ?clean ?rw ?held ?sep ?one
  case misc =>
    intro y n' hy
    by_cases hyx : y = x
    · subst hyx; simp at hy
    · simpa [hyx] using hy
  case sound =>
    rw [target_setMisc, hw]
    exact (h.sound.clear _).fill_pte (by have := h.high_le; have := hM.2; omega)
      fun _ u i' j' e => absurd e (hno _)
  case exact =>
    intro n' hn'
    rw [target_setMisc, hw, count_move hX hT, Mem.set_map]
    exact h.exact n' hn'
  case clean =>
    intro n' hn hn' hd e
    rw [hw, Option.some.injEq] at e
    subst e
    exact (h.clean n hn hn' hd (.misc x) hx).elim
  case rw =>
    rw [hfw, target_setMisc]
    exact fun _ _ => ⟨hM, fun r hr => absurd hr (hno r)⟩
  case held =>
    intro n' y e hy
    rw [hw, Option.some.injEq] at e
    subst e
    exact hno (.misc y) (by rw [← target_setMisc]; exact hy)
  case sep =>
    intro _ n' e r _
    rw [hw, Option.some.injEq] at e
    rw [target_setMisc, ← e]
    exact hno r
  case one =>
    intro _ n' e r _ e'
    rw [hw, Option.some.injEq] at e
    rw [target_setMisc, ← e] at e'
    exact absurd e' (hno r)

/-- One more read-only entry for a managed frame, at the address the others
map it at. -/
theorem sharePte (h : Inv s m R) (hi : i < 768) (hj : j < 1024) (hp : Present (pde m R t i))
    (hq : ¬ Present (pte m R t i j)) {n w : Nat} (hM : m.Managed n) (hw : ent w = some n) (hro : ¬ Rw w)
    (haddr : ∀ u i' j', target m R (.pte u i' j') = some n → i'.val = i ∧ j'.val = j)
    (hheld : ∀ x, R.misc x ≠ some n) (hclean : n < 1024 → ¬ Dirty (m.word 1 n) → i * 1024 + j = n)
    (hs : s → ∀ r, target m R r = some n → ∃ u i' j', r = .pte u i' j' ∧ ¬ Rw (pte m R u i' j')) :
    Inv s ((m.set (frame (pde m R t i)) j w).setMap n (m.map n + 1)) R := by
  obtain ⟨hpw, hfw⟩ := ent_eq_some.1 hw
  have hT : target m R (.pte t ⟨i, hi⟩ ⟨j, hj⟩) = none := if_neg hq
  refine h.storePte hi hj hp (.inr hpw) rfl rfl rfl rfl (fun _ _ h => h) ?used ?sound ?exact ?clean
    (fun _ hr => absurd hr hro) ?held ?sep ?one
  case used =>
    intro n' hn'
    have : n' ≠ n := fun e => hn' (e ▸ hM)
    simp only [Mem.setMap_map, Function.update_of_ne this]
    exact h.map_used n' hn'
  case sound =>
    rw [hw]
    refine h.sound.fill_pte (by have := h.high_le; have := hM.2; omega) fun _ u i' j' e => ?_
    obtain ⟨e₁, e₂⟩ := haddr u i' j' e
    exact ⟨Fin.ext e₁, Fin.ext e₂⟩
  case exact =>
    intro n' hn'
    rw [hw, count_fill hT]
    by_cases he : n' = n
    · subst he; simp [h.exact n' hn']
    · simp [he, h.exact n' hn']
  case clean =>
    intro n' hn hn' hd e
    rw [hw, Option.some.injEq] at e
    subst e
    exact hclean hn' hd
  case held =>
    intro n' x e
    rw [hw, Option.some.injEq] at e
    exact e ▸ hheld x
  case sep =>
    intro hs' n' e r hr e'
    rw [hw, Option.some.injEq] at e
    obtain ⟨u, i', j', rfl, _⟩ := hs hs' r (e ▸ e')
    simp at hr
  case one =>
    intro hs' n' e r _ e'
    rw [hw, Option.some.injEq] at e
    obtain ⟨u, i', j', rfl, hro'⟩ := hs hs' r (e ▸ e')
    refine ⟨hro, fun u' i'' j'' e => ?_⟩
    cases e
    exact hro'

/-- A read-only entry for a frame outside the managed ones. -/
theorem usedPte (h : Inv s m R) (hi : i < 768) (hj : j < 1024) (hp : Present (pde m R t i))
    (hq : ¬ Present (pte m R t i j)) {n w : Nat} (hM : ¬ m.Managed n) (hn : n < 4096) (hw : ent w = some n)
    (hro : ¬ Rw w) : Inv s (m.set (frame (pde m R t i)) j w) R := by
  obtain ⟨hpw, hfw⟩ := ent_eq_some.1 hw
  have hT : target m R (.pte t ⟨i, hi⟩ ⟨j, hj⟩) = none := if_neg hq
  refine h.storePte hi hj hp (.inr hpw) rfl rfl rfl rfl (fun _ _ h => h) h.map_used ?sound ?exact ?clean
    (fun _ hr => absurd hr hro) ?held ?sep ?one
  case sound =>
    rw [hw]
    exact h.sound.fill_pte hn fun hM' => absurd hM' hM
  case exact =>
    intro n' hn'
    have hne : some n ≠ some n' := fun e => hM (Option.some.inj e ▸ hn')
    rw [hw, count_update_ne (by rw [hT]; simp) hne]
    exact h.exact n' hn'
  case clean =>
    intro n' hn' _ _ e
    rw [hw, Option.some.injEq] at e
    exact absurd (e ▸ hn') hM
  case held =>
    intro n' x e hx
    rw [hw, Option.some.injEq] at e
    exact hM (e ▸ h.sound.managed (.misc x) n' (by simp) hx)
  case sep =>
    intro _ n' e r hr e'
    rw [hw, Option.some.injEq] at e
    exact hM (e ▸ h.sound.managed r n' hr e')
  case one =>
    intro _ n' e r _ e'
    rw [hw, Option.some.injEq] at e
    refine ⟨hro, fun u i' j' hr hrw => hM ?_⟩
    subst hr
    obtain ⟨hp', hf⟩ := ent_eq_some.1 e'
    rw [e, ← hf]
    exact (h.rwData u i' j' i'.2 j'.2 hp' hrw).1

/-- An entry for a managed frame emptied, and the frame's count with it. -/
theorem dropPte (h : Inv s m R) (hi : i < 768) (hj : j < 1024) (hq : Present (pte m R t i j)) {n : Nat}
    (hn : frame (pte m R t i j) = n) (hM : m.Managed n) :
    Inv s ((m.set (frame (pde m R t i)) j 0).setMap n (m.map n - 1)) R := by
  have hT : target m R (.pte t ⟨i, hi⟩ ⟨j, hj⟩) = some n := ent_eq_some.2 ⟨hq, hn⟩
  refine h.storePte hi hj (present_pde hq) (.inl rfl) rfl rfl rfl rfl (fun _ _ h => h) ?used ?sound ?exact
    (by simp) (by simp) (by simp) (by simp) (by simp)
  case used =>
    intro n' hn'
    have : n' ≠ n := fun e => hn' (e ▸ hM)
    simp only [Mem.setMap_map, Function.update_of_ne this]
    exact h.map_used n' hn'
  case sound =>
    rw [ent_zero]
    exact h.sound.clear _
  case exact =>
    intro n' hn'
    have := count_clear hT n'
    rw [ent_zero, ← h.exact n' hn'] at *
    by_cases he : n' = n
    · subst he; simp at this ⊢; omega
    · simp [he] at this ⊢; omega

/-- An entry for a frame outside the managed ones emptied. -/
theorem clearUsedPte (h : Inv s m R) (hi : i < 768) (hj : j < 1024) (hq : Present (pte m R t i j))
    (hM : ¬ m.Managed (frame (pte m R t i j))) : Inv s (m.set (frame (pde m R t i)) j 0) R := by
  have hT : target m R (.pte t ⟨i, hi⟩ ⟨j, hj⟩) = some (frame (pte m R t i j)) := ent_of_present hq
  refine h.storePte hi hj (present_pde hq) (.inl rfl) rfl rfl rfl rfl (fun _ _ h => h) h.map_used ?sound ?exact
    (by simp) (by simp) (by simp) (by simp) (by simp)
  case sound =>
    rw [ent_zero]
    exact h.sound.clear _
  case exact =>
    intro n hn
    have hne : target m R (.pte t ⟨i, hi⟩ ⟨j, hj⟩) ≠ some n := by
      rw [hT]
      exact fun e => hM (Option.some.inj e ▸ hn)
    rw [ent_zero, count_update_ne hne (by simp)]
    exact h.exact n hn

/-! ## Held pages -/

theorem claim_word_of_ne {n f : Nat} (hf : f ≠ n) (hf' : f ≠ 1 + n / 1024) (k : Nat) :
    (m.claim n).word f k = m.word f k := by
  simp [Mem.claim, hf, hf']

@[simp] theorem claim_word_self (n k : Nat) : (m.claim n).word n k = 0 := by simp [Mem.claim]

theorem managed_of_map_lt (h : Inv s m R) {n : Nat} (hn : m.map n < 128) : m.Managed n := by
  by_contra hM
  rw [h.map_used n hM] at hn
  omega

theorem no_ref (h : Inv s m R) {n : Nat} (h0 : m.map n = 0) (r : Ref) : target m R r ≠ some n := by
  have hM := h.managed_of_map_lt (n := n) (by omega)
  rw [h.exact n hM, count_eq_zero] at h0
  exact h0 r

/-- The kernel's own table entry for a managed frame is in no task's table. -/
theorem claim_keep (h : Inv s m R) {n : Nat} (h0 : m.map n = 0) (f k : Nat) (hf : IsTable m R f) :
    (m.claim n).word f k = m.word f k := by
  have hM := h.managed_of_map_lt (n := n) (by omega)
  apply claim_word_of_ne
  · rintro rfl
    exact h.not_isTable_of_free hM h0 hf
  · rintro rfl
    have := h.high_le
    have := hM.2
    exact h.not_isTable_of_unmanaged (h.not_managed_lt (by omega)) hf

theorem target_claim (h : Inv s m R) {n : Nat} (h0 : m.map n = 0) : target (m.claim n) R = target m R := by
  funext r
  rw [target_keep rfl (h.claim_keep h0) r]
  cases r <;> rfl

/-- A free page taken up, into an empty slot. -/
theorem claim (h : Inv s m R) {n : Nat} (h0 : m.map n = 0) {x : Misc} (hx : R.misc x = none) :
    Inv s (m.claim n) (R.setMisc x (some n)) := by
  have hM := h.managed_of_map_lt (n := n) (by omega)
  have hge : 256 ≤ n := le_trans h.low_ge hM.1
  have hlt : n < 4096 := lt_of_lt_of_le hM.2 h.high_le
  have hT : target (m.claim n) (R.setMisc x (some n)) = Function.update (target m R) (.misc x) (some n) := by
    rw [target_setMisc, h.target_claim h0]
  refine h.reroot rfl rfl rfl (h.claim_keep h0) ?zero ?one ?misc ?used ?sound ?exact
  case zero => exact fun k => claim_word_of_ne (by omega) (by omega) k
  case one =>
    intro j _
    simp only [Mem.claim]
    rw [if_neg (by omega)]
    split
    · simp
    · exact ⟨rfl, id⟩
  case misc =>
    intro y n' hy
    by_cases hyx : y = x
    · subst hyx
      simp only [Roots.setMisc_misc, Function.update_self, Option.some.injEq] at hy
      subst hy
      refine .inr ⟨h.no_ref h0, fun hn => ?_⟩
      simp only [Mem.claim]
      rw [if_neg (by omega), if_pos ⟨by omega, by omega⟩]
      exact dirty_setDirty _
    · exact .inl ⟨y, by simpa [hyx] using hy⟩
  case used =>
    intro n' hn'
    have : n' ≠ n := fun e => hn' (e ▸ hM)
    simp only [Mem.claim, Function.update_of_ne this]
    exact h.map_used n' hn'
  case sound =>
    rw [hT]
    exact h.sound.fill (by simp) hM fun r _ => h.no_ref h0 r
  case exact =>
    intro n' hn'
    rw [hT, count_fill (show target m R (.misc x) = none from hx), ← h.exact n' hn']
    by_cases he : n' = n
    · subst he; simp [Mem.claim, h0]
    · simp [Mem.claim, he]

theorem held_only (h : Inv s m R) {x : Misc} {n : Nat} (hx : R.misc x = some n) {r : Ref}
    (hr : target m R r = some n) : r = .misc x := by
  by_cases hp : r.IsPte
  · exact absurd hx (h.held r x n hp hr)
  · exact h.sound.uniq r (.misc x) n hp (by simp) hr hx

theorem held_map (h : Inv s m R) {x : Misc} {n : Nat} (hx : R.misc x = some n) : m.map n = 1 := by
  rw [h.exact n (h.sound.managed (.misc x) n (by simp) hx)]
  exact count_eq_one (show target m R (.misc x) = some n from hx) fun r hr => h.held_only hx hr

/-- A held page given back. -/
theorem release (h : Inv s m R) {x : Misc} {n : Nat} (hx : R.misc x = some n) :
    Inv s (m.setMap n (m.map n - 1)) (R.setMisc x none) := by
  have hM := h.sound.managed (.misc x) n (by simp) hx
  refine h.reroot rfl rfl rfl (fun _ _ _ => rfl) (fun _ => rfl) (fun _ _ => ⟨rfl, id⟩) ?misc ?used ?sound ?exact
  case misc =>
    intro y n' hy
    by_cases hyx : y = x
    · subst hyx; simp at hy
    · exact .inl ⟨y, by simpa [hyx] using hy⟩
  case used =>
    intro n' hn'
    have : n' ≠ n := fun e => hn' (e ▸ hM)
    simp only [Mem.setMap_map, Function.update_of_ne this]
    exact h.map_used n' hn'
  case sound =>
    rw [target_setMisc]
    exact h.sound.clear _
  case exact =>
    intro n' hn'
    have := count_clear (show target m R (.misc x) = some n from hx) n'
    rw [target_setMisc]
    change _ = count (Function.update (target m R) _ _) _
    rw [← h.exact n' hn'] at this
    by_cases he : n' = n
    · subst he; simp at this ⊢; omega
    · simp [he] at this ⊢; omega

/-- A held page passed to another holder. -/
theorem handOver (h : Inv s m R) {x y : Misc} {n : Nat} (hx : R.misc x = some n) (hy : R.misc y = none) :
    Inv s m ((R.setMisc x none).setMisc y (some n)) := by
  have hX : target m R (.misc x) = some n := hx
  refine h.reroot rfl rfl rfl (fun _ _ _ => rfl) (fun _ => rfl) (fun _ _ => ⟨rfl, id⟩) ?misc h.map_used ?sound ?exact
  case misc =>
    intro z n' hz
    refine .inl ?_
    by_cases hzy : z = y
    · subst hzy
      simp only [Roots.setMisc_misc, Function.update_self, Option.some.injEq] at hz
      exact ⟨x, hz ▸ hx⟩
    · by_cases hzx : z = x
      · subst hzx; simp [hzy] at hz
      · exact ⟨z, by simpa [hzy, hzx] using hz⟩
  case sound =>
    rw [target_setMisc, target_setMisc]
    refine (h.sound.clear _).fill (by simp) (h.sound.managed _ n (by simp) hX) fun r _ hr => ?_
    by_cases hrx : r = .misc x
    · subst hrx; simp at hr
    · rw [Function.update_of_ne hrx] at hr
      exact hrx (h.held_only hx hr)
  case exact =>
    intro n' hn'
    rw [target_setMisc, target_setMisc, count_move hX (show target m R (.misc y) = none from hy)]
    exact h.exact n' hn'

/-! ## Tables and directories -/

theorem low_keep (h : Inv s m R) {d : Nat} (hd : m.Managed d) (k w f k' : Nat) (hf : f < 256) :
    (m.set d k w).word f k' = m.word f k' := by
  rw [Mem.set_word, if_neg]
  rintro ⟨rfl, -⟩
  exact h.not_managed_lt hf hd

theorem pde_setDir (h : Inv s m R) {d : Nat} (hd : R.dir t = some d) (k w : Nat) (u : Fin 64) (i' : Nat) :
    pde (m.set d k w) R u i' = if u = t ∧ i' = k then w else pde m R u i' := by
  rw [pde_set]
  by_cases hu : u = t
  · subst hu; simp [hd]
  · rw [if_neg (fun e => hu (h.dir_inj hd e.1)), if_neg (fun e => hu e.1)]

/-- A store into a directory leaves the tables' words alone. -/
theorem pte_setDir (h : Inv s m R) {d : Nat} (hd : R.dir t = some d) (k w : Nat) (u : Fin 64) {i' : Nat}
    (hi' : i' < 768) (hne : ¬ (u = t ∧ i' = k)) (j' : Nat) :
    pte (m.set d k w) R u i' j' = pte m R u i' j' := by
  unfold pte
  rw [h.pde_setDir hd, if_neg hne]
  split
  · rw [Mem.set_word, if_neg]
    rintro ⟨e, -⟩
    exact h.table_ne_dir hi' ‹_› t (e ▸ hd)
  · rfl

theorem pte_clearPde (h : Inv s m R) {d : Nat} (hd : R.dir t = some d) (i : Nat) (u : Fin 64) {i' : Nat}
    (hi' : i' < 768) (j' : Nat) :
    pte (m.set d i 0) R u i' j' = if u = t ∧ i' = i then 0 else pte m R u i' j' := by
  split
  · rename_i he
    obtain ⟨rfl, rfl⟩ := he
    unfold pte
    rw [h.pde_setDir hd]
    simp
  · exact h.pte_setDir hd i 0 u hi' ‹_› j'

theorem kern_setDir (h : Inv s m R) {d : Nat} (hd : R.dir t = some d) {k w : Nat}
    (hk : 768 ≤ k → w = m.word 0 k ∨ w = 0) (u : Fin 64) (e : Nat) (he : R.dir u = some e) (i' : Nat)
    (h₁ : 768 ≤ i') (h₂ : i' < 1024) :
    (m.set d k w).word e i' = (m.set d k w).word 0 i' ∨ (m.set d k w).word e i' = 0 := by
  rw [h.low_keep (h.dir_managed hd) k w 0 i' (by omega), Mem.set_word]
  split
  · rename_i hh
    obtain ⟨-, rfl⟩ := hh
    exact hk h₁
  · exact h.kern u e he i' h₁ h₂

/-- An entry of the kernel half, copied from `swapper_pg_dir`. -/
theorem copyKern (h : Inv s m R) {d : Nat} (hd : R.dir t = some d) {k : Nat} (hk : 768 ≤ k) :
    Inv s (m.set d k (m.word 0 k)) R := by
  have hM := h.dir_managed hd
  have hP : ∀ u i', i' < 768 → pde (m.set d k (m.word 0 k)) R u i' = pde m R u i' := fun u i' hi' => by
    rw [h.pde_setDir hd, if_neg (by omega)]
  have hQ : ∀ u i' j', i' < 768 → pte (m.set d k (m.word 0 k)) R u i' j' = pte m R u i' j' :=
    fun u i' j' hi' => h.pte_setDir hd k _ u hi' (by omega) j'
  have hT : target (m.set d k (m.word 0 k)) R = target m R := by
    funext r
    cases r with
    | pde u i' => simp only [target, hP u i' i'.2]
    | pte u i' j' => simp only [target, hQ u i' j' i'.2]
    | _ => rfl
  refine h.change rfl rfl ?_ ?_ ?_ ?_ (fun k' => h.low_keep hM _ _ _ _ (by omega))
    (fun j' _ => by rw [h.low_keep hM _ _ _ _ (by omega)]; exact ⟨rfl, id⟩) h.map_used
    (by rw [hT]; exact h.sound) (by rw [hT]; exact h.exact)
  · intro u i' hi'
    rw [hP u i' hi']
    exact h.pde_wf u i' hi'
  · exact fun u i' j' hi' _ => .inl (hQ u i' j' hi')
  · exact fun r n e => .inl (by rwa [hT] at e)
  · exact fun u e he => h.kern_setDir hd (fun _ => .inl rfl) u e he

/-- A held, cleared page put in place as a table. -/
theorem newTable (h : Inv s m R) {d : Nat} (hd : R.dir t = some d) (hi : i < 768)
    (hp : ¬ Present (pde m R t i)) {x : Misc} {n w : Nat} (hx : R.misc x = some n)
    (h0 : ∀ k, m.word n k = 0) (hw : ent w = some n) :
    Inv s (m.set d i w) (R.setMisc x none) ∧
      (∀ u i' j', i' < 768 → pte (m.set d i w) R u i' j' = pte m R u i' j') := by
  have hM := h.dir_managed hd
  have hX : target m R (.misc x) = some n := hx
  obtain ⟨hpw, hfw⟩ := ent_eq_some.1 hw
  have hnd : n ≠ d := by
    rintro rfl
    have := h.sound.uniq (.cr3 t) (.misc x) n (by simp) (by simp) hd hx
    cases this
  have hP : ∀ u i', pde (m.set d i w) R u i' = if u = t ∧ i' = i then w else pde m R u i' :=
    h.pde_setDir hd i w
  have hQ : ∀ u i' j', i' < 768 → pte (m.set d i w) R u i' j' = pte m R u i' j' := by
    intro u i' j' hi'
    by_cases he : u = t ∧ i' = i
    · obtain ⟨rfl, rfl⟩ := he
      have hPu : pde (m.set d i' w) R u i' = w := by simp [hP]
      unfold pte
      rw [hPu, if_pos hpw, if_neg hp, hfw, Mem.set_word, if_neg (fun e => hnd e.1), h0]
    · exact h.pte_setDir hd i w u hi' he j'
  have hT : target (m.set d i w) (R.setMisc x none) =
      Function.update (Function.update (target m R) (.misc x) none) (.pde t ⟨i, hi⟩) (some n) := by
    rw [target_setMisc]
    funext r
    cases r with
    | cr3 u => simp [target]
    | misc y => simp [Function.update_apply, target]
    | pte u i' j' => simp [target, hQ u i' j' i'.2]
    | pde u i' =>
      by_cases he : u = t ∧ i'.val = i
      · obtain ⟨rfl, rfl⟩ := he
        simp [target, hP, hw]
      · rw [Function.update_of_ne (by simp), Function.update_of_ne, Function.update_of_ne (by simp)]
        · simp [target, hP, he]
        · intro e
          injection e with e₁ e₂
          exact he ⟨e₁, congrArg Fin.val e₂⟩
  have hTp : target m R (.pde t ⟨i, hi⟩) = none := if_neg hp
  refine ⟨h.change rfl rfl ?_ ?_ ?_ ?_ (fun k' => h.low_keep hM _ _ _ _ (by omega))
    (fun j' _ => by rw [h.low_keep hM _ _ _ _ (by omega)]; exact ⟨rfl, id⟩) h.map_used ?_ ?_, hQ⟩
  · intro u i' hi'
    rw [pde_setMisc, hP]
    split
    · exact .inr hpw
    · exact h.pde_wf u i' hi'
  · exact fun u i' j' hi' _ => .inl (hQ u i' j' hi')
  · intro r n' e
    rw [hT] at e
    by_cases hr : r = .pde t ⟨i, hi⟩
    · rw [hr, Function.update_self, Option.some.injEq] at e
      exact .inr ⟨by simp [hr], .inl ⟨x, e ▸ hx⟩⟩
    · rw [Function.update_of_ne hr] at e
      by_cases hr' : r = .misc x
      · rw [hr', Function.update_self] at e; cases e
      · rw [Function.update_of_ne hr'] at e
        exact .inl e
  · exact fun u e he => h.kern_setDir hd (by omega) u e he
  · rw [hT]
    refine (h.sound.clear _).fill (by simp) (h.sound.managed _ n (by simp) hX) fun r _ hr => ?_
    by_cases hrx : r = .misc x
    · subst hrx; simp at hr
    · rw [Function.update_of_ne hrx] at hr
      exact hrx (h.held_only hx hr)
  · intro n' hn'
    rw [hT, count_move hX hTp]
    exact h.exact n' hn'

/-- A table without managed frames taken out, and its page given back. -/
theorem dropTable (h : Inv s m R) {d : Nat} (hd : R.dir t = some d) (hi : i < 768) (hp : Present (pde m R t i))
    (hempty : ∀ j, j < 1024 → pte m R t i j = 0 ∨ ¬ m.Managed (frame (pte m R t i j))) :
    Inv s ((m.set d i 0).setMap (frame (pde m R t i)) (m.map (frame (pde m R t i)) - 1)) R := by
  have hM := h.dir_managed hd
  have hMt := h.table_managed hi hp
  have hP : ∀ u i', pde (m.set d i 0) R u i' = if u = t ∧ i' = i then 0 else pde m R u i' :=
    h.pde_setDir hd i 0
  have hQ := fun u i' j' (hi' : i' < 768) => h.pte_clearPde hd i u hi' j'
  have hsub : ∀ r n, target (m.set d i 0) R r = some n → target m R r = some n := by
    intro r n e
    cases r with
    | cr3 u => exact e
    | misc x => exact e
    | pde u i' =>
      simp only [target, hP] at e ⊢
      split at e
      · simp at e
      · exact e
    | pte u i' j' =>
      simp only [target, hQ u i' j' i'.2] at e ⊢
      split at e
      · simp at e
      · exact e
  have hTp : target m R (.pde t ⟨i, hi⟩) = some (frame (pde m R t i)) := ent_of_present hp
  -- On managed frames only the directory entry's reference is gone.
  have hcount : ∀ n, m.Managed n →
      count (target (m.set d i 0) R) n = count (Function.update (target m R) (.pde t ⟨i, hi⟩) none) n := by
    intro n hn
    apply count_congr
    intro r
    by_cases hr : r = .pde t ⟨i, hi⟩
    · subst hr
      simp [target, hP]
    · rw [Function.update_of_ne hr]
      refine ⟨hsub r n, fun e => ?_⟩
      cases r with
      | cr3 u => exact e
      | misc x => exact e
      | pde u i' =>
        simp only [target, hP] at e ⊢
        rw [if_neg]
        · exact e
        · rintro ⟨rfl, rfl⟩
          exact hr rfl
      | pte u i' j' =>
        simp only [target, hQ u i' j' i'.2] at e ⊢
        rw [if_neg]
        · exact e
        · rintro ⟨rfl, rfl⟩
          rcases hempty j' j'.2 with e0 | hnm
          · rw [e0] at e; simp at e
          · rw [(ent_eq_some.1 e).2] at hnm
            exact hnm hn
  refine h.change rfl rfl ?_ ?_ ?_ ?_ (fun k' => h.low_keep hM _ _ _ _ (by omega))
    (fun j' _ => ?_) ?_ ?_ ?_
  · intro u i' hi'
    change pde (m.set d i 0) R u i' = 0 ∨ Present (pde (m.set d i 0) R u i')
    rw [hP]
    split
    · exact .inl rfl
    · exact h.pde_wf u i' hi'
  · intro u i' j' hi' _
    change pte (m.set d i 0) R u i' j' = _ ∨ pte (m.set d i 0) R u i' j' = 0
    rw [hQ u i' j' hi']
    split
    · exact .inr rfl
    · exact .inl rfl
  · exact fun r n e => .inl (hsub r n e)
  · exact fun u e he => h.kern_setDir hd (fun _ => .inr rfl) u e he
  · change ent ((m.set d i 0).word 1 j') = _ ∧ (_ → Dirty ((m.set d i 0).word 1 j'))
    rw [h.low_keep hM _ _ _ _ (by omega)]
    exact ⟨rfl, id⟩
  · intro n hn
    have : n ≠ frame (pde m R t i) := fun e => hn (e ▸ hMt)
    simp only [Mem.setMap_map, Mem.set_map, Function.update_of_ne this]
    exact h.map_used n hn
  · exact h.sound.mono hsub
  · intro n hn
    have := count_clear hTp n
    change _ = count (target (m.set d i 0) R) n
    rw [hcount n hn]
    rw [← h.exact n hn] at this
    by_cases he : n = frame (pde m R t i)
    · subst he; simp at this ⊢; omega
    · simp [he] at this ⊢; omega

theorem pde_newDir {d : Nat} (hd : R.dir t = none) (h0 : ∀ k, m.word d k = 0) :
    pde m (R.setDir t (some d)) = pde m R := by
  funext u i
  by_cases hu : u = t
  · subst hu; simp [pde, hd, h0]
  · simp [pde, hu]

theorem pte_newDir {d : Nat} (hd : R.dir t = none) (h0 : ∀ k, m.word d k = 0) :
    pte m (R.setDir t (some d)) = pte m R := by
  funext u i j
  simp only [pte, pde_newDir hd h0]

/-- A held, cleared page put in place as a directory. -/
theorem newDir (h : Inv s m R) {d : Nat} (hd : R.dir t = none) {x : Misc} (hx : R.misc x = some d)
    (h0 : ∀ k, m.word d k = 0) : Inv s m ((R.setMisc x none).setDir t (some d)) := by
  have hX : target m R (.misc x) = some d := hx
  have hd' : (R.setMisc x none).dir t = none := hd
  have hC : target m R (.cr3 t) = none := hd
  have hT : target m ((R.setMisc x none).setDir t (some d)) =
      Function.update (Function.update (target m R) (.misc x) none) (.cr3 t) (some d) := by
    funext r
    cases r with
    | cr3 u => by_cases hu : u = t <;> simp [target, hu]
    | misc y => simp [target, Function.update_apply]
    | pde u i' => simp [target, pde_newDir hd' h0]
    | pte u i' j' => simp [target, pte_newDir hd' h0]
  refine h.change rfl rfl ?_ ?_ ?_ ?_ (fun _ => rfl) (fun _ _ => ⟨rfl, id⟩) h.map_used ?_ ?_
  · intro u i' hi'
    rw [pde_newDir hd' h0]
    exact h.pde_wf u i' hi'
  · intro u i' j' _ _
    rw [pte_newDir hd' h0]
    exact .inl rfl
  · intro r n e
    rw [hT] at e
    by_cases hr : r = .cr3 t
    · rw [hr, Function.update_self, Option.some.injEq] at e
      exact .inr ⟨by simp [hr], .inl ⟨x, e ▸ hx⟩⟩
    · rw [Function.update_of_ne hr] at e
      by_cases hr' : r = .misc x
      · rw [hr', Function.update_self] at e; cases e
      · rw [Function.update_of_ne hr'] at e
        exact .inl e
  · intro u e he i' h₁ h₂
    by_cases hu : u = t
    · subst hu
      simp only [Roots.setDir_dir, Function.update_self, Option.some.injEq] at he
      exact .inr (he ▸ h0 i')
    · exact h.kern u e (by simpa [hu] using he) i' h₁ h₂
  · rw [hT]
    refine (h.sound.clear _).fill (by simp) (h.sound.managed _ d (by simp) hX) fun r _ hr => ?_
    by_cases hrx : r = .misc x
    · subst hrx; simp at hr
    · rw [Function.update_of_ne hrx] at hr
      exact hrx (h.held_only hx hr)
  · intro n hn
    rw [hT, count_move hX hC]
    exact h.exact n hn

theorem pde_dropDir (u : Fin 64) (i' : Nat) :
    pde m (R.setDir t none) u i' = if u = t then 0 else pde m R u i' := by
  by_cases hu : u = t
  · subst hu; simp [pde]
  · simp [pde, hu]

/-- A directory without user tables given back. -/
theorem dropDir (h : Inv s m R) {d : Nat} (hd : R.dir t = some d) (h0 : ∀ i, i < 768 → pde m R t i = 0) :
    Inv s (m.setMap d (m.map d - 1)) (R.setDir t none) := by
  have hM := h.dir_managed hd
  have hC : target m R (.cr3 t) = some d := hd
  have hP : ∀ u i', i' < 768 → pde m (R.setDir t none) u i' = pde m R u i' := by
    intro u i' hi'
    rw [pde_dropDir]
    split
    · subst u; exact (h0 i' hi').symm
    · rfl
  have hQ : ∀ u i' j', i' < 768 → pte m (R.setDir t none) u i' j' = pte m R u i' j' := by
    intro u i' j' hi'
    unfold pte
    rw [hP u i' hi']
  have hT : target m (R.setDir t none) = Function.update (target m R) (.cr3 t) none := by
    funext r
    cases r with
    | cr3 u => by_cases hu : u = t <;> simp [target, hu]
    | misc y => simp [target]
    | pde u i' => simp [target, hP u i' i'.2]
    | pte u i' j' => simp [target, hQ u i' j' i'.2]
  refine h.change rfl rfl ?_ ?_ ?_ ?_ (fun _ => rfl) (fun _ _ => ⟨rfl, id⟩) ?_ ?_ ?_
  · intro u i' hi'
    change pde m (R.setDir t none) u i' = 0 ∨ Present (pde m (R.setDir t none) u i')
    rw [hP u i' hi']
    exact h.pde_wf u i' hi'
  · exact fun u i' j' hi' _ => .inl (hQ u i' j' hi')
  · intro r n e
    change target m (R.setDir t none) r = some n at e
    rw [hT] at e
    by_cases hr : r = .cr3 t
    · rw [hr, Function.update_self] at e; cases e
    · rw [Function.update_of_ne hr] at e
      exact .inl e
  · intro u e he i' h₁ h₂
    by_cases hu : u = t
    · subst hu; simp at he
    · exact h.kern u e (by simpa [hu] using he) i' h₁ h₂
  · intro n hn
    have : n ≠ d := fun e => hn (e ▸ hM)
    simp only [Mem.setMap_map, Function.update_of_ne this]
    exact h.map_used n hn
  · change Sound m.Managed 4096 (target m (R.setDir t none))
    rw [hT]
    exact h.sound.clear _
  · intro n hn
    change _ = count (target m (R.setDir t none)) n
    have := count_clear hC n
    rw [hT]
    rw [← h.exact n hn] at this
    by_cases he : n = d
    · subst he; simp at this ⊢; omega
    · simp [he] at this ⊢; omega

end Inv

end Linux011.Mm
