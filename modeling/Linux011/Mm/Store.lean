/-
What one store into physical memory does to the references: a store into a
table changes that entry's reference and no other, a store into a directory
changes one table, a store into any other frame changes nothing. Each rule
below is one kind of change the kernel makes, with the count it changes.
-/
import Linux011.Mm.Tables

namespace Linux011.Mm

open RefCount

theorem Sound.mono {M : Nat → Prop} {hi : Nat} {f g : Ref → Option Nat} (h : Sound M hi f)
    (hg : ∀ r n, g r = some n → f r = some n) : Sound M hi g :=
  ⟨fun r r' n h₁ h₂ e₁ e₂ => h.uniq r r' n h₁ h₂ (hg _ _ e₁) (hg _ _ e₂),
    fun r n h₁ e => h.managed r n h₁ (hg _ _ e), fun t i j n e => h.pte_lt t i j n (hg _ _ e),
    fun t i j t' i' j' n hM e e' => h.addr t i j t' i' j' n hM (hg _ _ e) (hg _ _ e')⟩

theorem pde_set (m : Mem) (R : Roots) (f k v : Nat) (t : Fin 64) (i : Nat) :
    pde (m.set f k v) R t i = if R.dir t = some f ∧ i = k then v else pde m R t i := by
  unfold pde
  cases h : R.dir t with
  | none => simp
  | some d => simp [Mem.set_word]

theorem pde_ext {m m' : Mem} {R R' : Roots} (hw : m'.word = m.word) (hd : R'.dir = R.dir) :
    pde m' R' = pde m R := by
  funext t i
  simp only [pde, hw, hd]

theorem pte_ext {m m' : Mem} {R R' : Roots} (hw : m'.word = m.word) (hd : R'.dir = R.dir) :
    pte m' R' = pte m R := by
  funext t i j
  simp only [pte, pde_ext hw hd, hw]

theorem pde_setMap (m : Mem) (R : Roots) (n v : Nat) (t : Fin 64) (i : Nat) :
    pde (m.setMap n v) R t i = pde m R t i := rfl

theorem pte_setMap (m : Mem) (R : Roots) (n v : Nat) (t : Fin 64) (i j : Nat) :
    pte (m.setMap n v) R t i j = pte m R t i j := rfl

namespace Inv

variable {s : Prop} {m : Mem} {R : Roots}

/-! ## A store into a table -/

theorem pde_setTable (h : Inv s m R) {t : Fin 64} {i : Nat} (hi : i < 768) (hp : Present (pde m R t i))
    (j w : Nat) (u : Fin 64) (i' : Nat) :
    pde (m.set (frame (pde m R t i)) j w) R u i' = pde m R u i' := by
  rw [pde_set, if_neg]
  exact fun he => h.table_ne_dir hi hp u he.1

theorem pte_setTable (h : Inv s m R) {t : Fin 64} {i : Nat} (hi : i < 768) (hp : Present (pde m R t i))
    (j w : Nat) (u : Fin 64) {i' : Nat} (hi' : i' < 768) (j' : Nat) :
    pte (m.set (frame (pde m R t i)) j w) R u i' j' =
      if u = t ∧ i' = i ∧ j' = j then w else pte m R u i' j' := by
  unfold pte
  rw [h.pde_setTable hi hp]
  by_cases hp' : Present (pde m R u i')
  · rw [if_pos hp', if_pos hp', Mem.set_word]
    by_cases he : frame (pde m R u i') = frame (pde m R t i)
    · obtain ⟨rfl, rfl⟩ := h.table_inj hi hi' hp hp' he
      simp
    · rw [if_neg (fun hh => he hh.1), if_neg]
      rintro ⟨rfl, rfl, -⟩
      exact he rfl
  · rw [if_neg hp', if_neg hp', if_neg]
    rintro ⟨rfl, rfl, -⟩
    exact hp' hp

theorem target_setTable (h : Inv s m R) {t : Fin 64} {i : Nat} (hi : i < 768) (hp : Present (pde m R t i))
    {j : Nat} (hj : j < 1024) (w : Nat) :
    target (m.set (frame (pde m R t i)) j w) R =
      Function.update (target m R) (.pte t ⟨i, hi⟩ ⟨j, hj⟩) (ent w) := by
  funext r
  cases r with
  | cr3 u => simp [target]
  | misc x => simp [target]
  | pde u i' => simp [target, h.pde_setTable hi hp]
  | pte u i' j' =>
    simp only [target]
    rw [h.pte_setTable hi hp j w u i'.2]
    by_cases he : u = t ∧ i'.1 = i ∧ j'.1 = j
    · obtain ⟨rfl, rfl, rfl⟩ := he
      simp
    · rw [if_neg he, Function.update_of_ne]
      · simp [target]
      · intro e
        injection e with e₁ e₂ e₃
        exact he ⟨e₁, congrArg Fin.val e₂, congrArg Fin.val e₃⟩

/-- The invariant after a store of `w` into an entry of a table, with the
counts `m'.map` and the held pages `R'.misc` that go with it. -/
theorem storePte (h : Inv s m R) {t : Fin 64} {i j : Nat} (hi : i < 768) (hj : j < 1024)
    (hp : Present (pde m R t i)) {w : Nat} (hw : w = 0 ∨ Present w) {m' : Mem} {R' : Roots}
    (hword : m'.word = (m.set (frame (pde m R t i)) j w).word) (hlow : m'.low = m.low)
    (hhigh : m'.high = m.high) (hd : R'.dir = R.dir) (hm : ∀ x n, R'.misc x = some n → R.misc x = some n)
    (hu : ∀ n, ¬ m.Managed n → m'.map n = 128)
    (hs : Sound m.Managed 4096 (Function.update (target m R') (.pte t ⟨i, hi⟩ ⟨j, hj⟩) (ent w)))
    (he : ∀ n, m.Managed n →
      m'.map n = count (Function.update (target m R') (.pte t ⟨i, hi⟩ ⟨j, hj⟩) (ent w)) n)
    (hc : ∀ n, m.Managed n → n < 1024 → ¬ Dirty (m.word 1 n) → ent w = some n → i * 1024 + j = n)
    (hr : Present w → Rw w → m.Managed (frame w) ∧ ∀ r, target m R' r = some (frame w) → r.IsPte)
    (hheld : ∀ n x, ent w = some n → R'.misc x ≠ some n)
    (hsep : s → ∀ n, ent w = some n → ∀ r, ¬ r.IsPte → target m R' r ≠ some n)
    (hone : s → ∀ n, ent w = some n → ∀ r, r ≠ .pte t ⟨i, hi⟩ ⟨j, hj⟩ → target m R' r = some n →
      ¬ Rw w ∧ ∀ u i' j', r = .pte u i' j' → ¬ Rw (pte m R u i' j')) :
    Inv s m' R' := by
  have hP : ∀ u i', pde m' R' u i' = pde m R u i' := fun u i' => by
    rw [pde_ext hword hd, h.pde_setTable hi hp]
  have hQ : ∀ u i' j', i' < 768 →
      pte m' R' u i' j' = if u = t ∧ i' = i ∧ j' = j then w else pte m R u i' j' := fun u i' j' hi' => by
    rw [pte_ext hword hd, h.pte_setTable hi hp _ _ _ hi']
  have hT : target m' R' = Function.update (target m R') (.pte t ⟨i, hi⟩ ⟨j, hj⟩) (ent w) := by
    have := h.target_setTable hi hp hj w
    funext r
    have hr := congrFun this r
    cases r with
    | cr3 u => simp [target]
    | misc x => simp [target]
    | pde u i' => simp [target, hP, pde_ext (rfl : m.word = m.word) hd]
    | pte u i' j' =>
      rw [show target m' R' (.pte u i' j') = target (m.set (frame (pde m R t i)) j w) R (.pte u i' j') by
        simp only [target, pte_ext hword hd], hr]
      by_cases he : Ref.pte u i' j' = .pte t ⟨i, hi⟩ ⟨j, hj⟩
      · rw [he, Function.update_self, Function.update_self]
      · rw [Function.update_of_ne he, Function.update_of_ne he]
        simp only [target, pte_ext (rfl : m.word = m.word) hd]
  have hM : m'.Managed = m.Managed := by funext n; simp only [Mem.Managed, hlow, hhigh]
  have hf := h.table_managed hi hp
  have hlo : ∀ f k, f < 256 → m'.word f k = m.word f k := by
    intro f k hf'
    rw [hword, Mem.set_word, if_neg]
    rintro ⟨rfl, -⟩
    exact h.not_managed_lt hf' hf
  have hold : ∀ r n, target m R' r = some n → target m R r = some n := by
    intro r n hr
    cases r with
    | misc x => exact hm x n hr
    | cr3 u => simpa only [target, hd] using hr
    | pde u i' => simpa only [target, pde_ext (rfl : m.word = m.word) hd] using hr
    | pte u i' j' => simpa only [target, pte_ext (rfl : m.word = m.word) hd] using hr
  constructor
  case low_ge => rw [hlow]; exact h.low_ge
  case low_le => rw [hlow, hhigh]; exact h.low_le
  case high_le => rw [hhigh]; exact h.high_le
  case map_used => rw [hM]; exact hu
  case sound => rw [hM, hT]; exact hs
  case exact => rw [hM, hT]; exact he
  case pde_wf => intro u i' hi'; rw [hP]; exact h.pde_wf u i' hi'
  case pte_wf =>
    intro u i' j' hi' hj'
    rw [hQ u i' j' hi']
    split
    · exact hw
    · exact h.pte_wf u i' j' hi' hj'
  case kern =>
    intro u d hd' i' h₁ h₂
    rw [hd] at hd'
    have : m'.word d i' = m.word d i' := by
      rw [hword, Mem.set_word, if_neg]
      rintro ⟨rfl, -⟩
      exact h.table_ne_dir hi hp u hd'
    rw [hlo 0 i' (by omega), this]
    exact h.kern u d hd' i' h₁ h₂
  case swap =>
    have hs := h.swap
    exact ⟨by rw [hlo 0 0 (by omega)]; exact hs.dir0,
      fun i' h₁ h₂ => by rw [hlo 0 i' (by omega)]; exact hs.user i' h₁ h₂,
      fun i' h₁ h₂ => by rw [hlo 0 i' (by omega)]; exact hs.kern i' h₁ h₂,
      fun j' h₁ => by rw [hlo 1 j' (by omega)]; exact hs.pg0 j' h₁⟩
  case clean =>
    intro n hn hn' hdirty r hr'
    rw [hM] at hn
    rw [hlo 1 n (by omega)] at hdirty
    rw [hT] at hr'
    by_cases hrt : r = .pte t ⟨i, hi⟩ ⟨j, hj⟩
    · subst hrt
      rw [Function.update_self] at hr'
      exact hc n hn hn' hdirty hr'
    · rw [Function.update_of_ne hrt] at hr'
      exact h.clean n hn hn' hdirty r (hold r n hr')
  case rwData =>
    intro u i' j' hi' hj'
    rw [hQ u i' j' hi', hT, hM]
    have spte : ∀ n r, Function.update (target m R') (.pte t ⟨i, hi⟩ ⟨j, hj⟩) (ent w) r = some n →
        (∀ r, target m R' r = some n → r.IsPte) → r.IsPte := by
      intro n r hr' hall
      by_cases hrt : r = .pte t ⟨i, hi⟩ ⟨j, hj⟩
      · subst hrt; simp
      · exact hall r (by rwa [Function.update_of_ne hrt] at hr')
    split
    · intro hpw hrw
      obtain ⟨h₁, h₂⟩ := hr hpw hrw
      exact ⟨h₁, fun r hr' => spte _ r hr' h₂⟩
    · intro hpw hrw
      obtain ⟨h₁, h₂⟩ := h.rwData u i' j' hi' hj' hpw hrw
      exact ⟨h₁, fun r hr' => spte _ r hr' fun r hr'' => h₂ r (hold r _ hr'')⟩
  case held =>
    intro r x n h₁ e₁ e₂
    rw [hT] at e₁
    by_cases hrt : r = .pte t ⟨i, hi⟩ ⟨j, hj⟩
    · rw [hrt, Function.update_self] at e₁
      exact hheld n x e₁ e₂
    · rw [Function.update_of_ne hrt] at e₁
      exact h.held r x n h₁ (hold _ _ e₁) (hm x n e₂)
  case sep =>
    intro hs' r r' n h₁ h₂ e₁ e₂
    rw [hT] at e₁ e₂
    rw [Function.update_of_ne (by rintro rfl; simp at h₂)] at e₂
    by_cases hrt : r = .pte t ⟨i, hi⟩ ⟨j, hj⟩
    · rw [hrt, Function.update_self] at e₁
      exact hsep hs' n e₁ r' h₂ e₂
    · rw [Function.update_of_ne hrt] at e₁
      exact h.sep hs' r r' n h₁ h₂ (hold _ _ e₁) (hold _ _ e₂)
  case rwOne =>
    intro hs' u i' j' hrw n e r e'
    rw [hT] at e e'
    rw [hQ u i' j' i'.2] at hrw
    by_cases hut : Ref.pte u i' j' = .pte t ⟨i, hi⟩ ⟨j, hj⟩
    · rw [hut, Function.update_self] at e
      by_cases hrt : r = .pte t ⟨i, hi⟩ ⟨j, hj⟩
      · exact hrt.trans hut.symm
      · rw [Function.update_of_ne hrt] at e'
        injection hut with e₁ e₂ e₃
        rw [if_pos ⟨e₁, congrArg Fin.val e₂, congrArg Fin.val e₃⟩] at hrw
        exact absurd hrw (hone hs' n e r hrt e').1
    · rw [Function.update_of_ne hut] at e
      rw [if_neg (by rintro ⟨rfl, rfl, rfl⟩; exact hut rfl)] at hrw
      by_cases hrt : r = .pte t ⟨i, hi⟩ ⟨j, hj⟩
      · rw [hrt, Function.update_self] at e'
        exact absurd hrw ((hone hs' n e' _ hut e).2 u i' j' rfl)
      · rw [Function.update_of_ne hrt] at e'
        exact h.rwOne hs' u i' j' hrw n (hold _ _ e) r (hold _ _ e')

/-! ## Changes outside the tables -/

theorem not_isTable_of_free (h : Inv s m R) {f : Nat} (hf : m.Managed f) (h0 : m.map f = 0) : ¬ IsTable m R f := by
  rw [h.exact f hf, count_eq_zero] at h0
  rintro (⟨t, ht⟩ | ⟨t, i, hi, ht⟩)
  · exact h0 (.cr3 t) ht
  · exact h0 (.pde t ⟨i, hi⟩) ht

theorem not_isTable_of_unmanaged (h : Inv s m R) {f : Nat} (hf : ¬ m.Managed f) : ¬ IsTable m R f := by
  rintro (⟨t, ht⟩ | ⟨t, i, hi, ht⟩)
  · exact hf (h.sound.managed (.cr3 t) f (by simp) ht)
  · exact hf (h.sound.managed (.pde t ⟨i, hi⟩) f (by simp) ht)

theorem not_isTable_of_misc (h : Inv s m R) {f : Nat} {x : Misc} (hf : R.misc x = some f) : ¬ IsTable m R f := by
  rintro (⟨t, ht⟩ | ⟨t, i, hi, ht⟩)
  · cases h.sound.uniq (.cr3 t) (.misc x) f (by simp) (by simp) ht hf
  · cases h.sound.uniq (.pde t ⟨i, hi⟩) (.misc x) f (by simp) (by simp) ht hf

theorem pde_keep {m' : Mem} {R' : Roots} (hd : R'.dir = R.dir)
    (hw : ∀ f k, IsTable m R f → m'.word f k = m.word f k) (t : Fin 64) (i : Nat) :
    pde m' R' t i = pde m R t i := by
  unfold pde
  rw [hd]
  cases h : R.dir t with
  | none => rfl
  | some d => exact hw d i (.inl ⟨t, h⟩)

theorem pte_keep {m' : Mem} {R' : Roots} (hd : R'.dir = R.dir)
    (hw : ∀ f k, IsTable m R f → m'.word f k = m.word f k) (t : Fin 64) {i : Nat} (hi : i < 768) (j : Nat) :
    pte m' R' t i j = pte m R t i j := by
  unfold pte
  rw [pde_keep hd hw]
  split
  · exact hw _ j (.inr ⟨t, i, hi, ent_of_present ‹_›⟩)
  · rfl

theorem target_keep {m' : Mem} {R' : Roots} (hd : R'.dir = R.dir)
    (hw : ∀ f k, IsTable m R f → m'.word f k = m.word f k) (r : Ref) :
    target m' R' r = match r with | .misc x => R'.misc x | r => target m R r := by
  cases r with
  | cr3 t => simp [target, hd]
  | misc x => rfl
  | pde t i => simp [target, pde_keep hd hw]
  | pte t i j => simp [target, pte_keep hd hw t i.2]

/-- The invariant after a change that adds no mapping: entries stay or are
emptied, and a new reference is the kernel's own, to a page it held or to a
page nothing referenced. -/
theorem change (h : Inv s m R) {m' : Mem} {R' : Roots} (hlow : m'.low = m.low) (hhigh : m'.high = m.high)
    (hP : ∀ u i, i < 768 → pde m' R' u i = 0 ∨ Present (pde m' R' u i))
    (hQ : ∀ u i j, i < 768 → j < 1024 → pte m' R' u i j = pte m R u i j ∨ pte m' R' u i j = 0)
    (hT : ∀ r n, target m' R' r = some n → target m R r = some n ∨
      ¬ r.IsPte ∧ ((∃ y, R.misc y = some n) ∨
        (∀ r, target m R r ≠ some n) ∧ (n < 1024 → Dirty (m'.word 1 n))))
    (hkern : ∀ u d, R'.dir u = some d → ∀ i, 768 ≤ i → i < 1024 → m'.word d i = m'.word 0 i ∨ m'.word d i = 0)
    (h0 : ∀ k, m'.word 0 k = m.word 0 k)
    (h1 : ∀ j, j < 1024 → ent (m'.word 1 j) = ent (m.word 1 j) ∧ (Dirty (m.word 1 j) → Dirty (m'.word 1 j)))
    (hu : ∀ n, ¬ m.Managed n → m'.map n = 128) (hs : Sound m.Managed 4096 (target m' R'))
    (he : ∀ n, m.Managed n → m'.map n = count (target m' R') n) : Inv s m' R' := by
  have hM : m'.Managed = m.Managed := by funext n; simp only [Mem.Managed, hlow, hhigh]
  have hTp : ∀ r n, r.IsPte → target m' R' r = some n → target m R r = some n := by
    intro r n hr e
    rcases hT r n e with e | ⟨hr', _⟩
    · exact e
    · exact absurd hr hr'
  have hTn : ∀ r r' n, r.IsPte → ¬ r'.IsPte → target m R r = some n → target m' R' r' = some n →
      target m R r' = some n ∨ ∃ y, R.misc y = some n := by
    intro r r' n _ _ e e'
    rcases hT r' n e' with e' | ⟨_, hy | ⟨hf, _⟩⟩
    · exact .inl e'
    · exact .inr hy
    · exact absurd e (hf r)
  constructor
  case low_ge => rw [hlow]; exact h.low_ge
  case low_le => rw [hlow, hhigh]; exact h.low_le
  case high_le => rw [hhigh]; exact h.high_le
  case map_used => rw [hM]; exact hu
  case sound => rw [hM]; exact hs
  case exact => rw [hM]; exact he
  case pde_wf => exact hP
  case pte_wf =>
    intro u i j hi hj
    rcases hQ u i j hi hj with e | e
    · rw [e]; exact h.pte_wf u i j hi hj
    · exact .inl e
  case kern => exact hkern
  case swap =>
    have hs := h.swap
    refine ⟨by rw [h0]; exact hs.dir0, fun i' h₁ h₂ => by rw [h0]; exact hs.user i' h₁ h₂,
      fun i' h₁ h₂ => by rw [h0]; exact hs.kern i' h₁ h₂, fun j' hj' => ?_⟩
    obtain ⟨hp, hf⟩ := hs.pg0 j' hj'
    have := (h1 j' hj').1
    rw [ent_of_present hp, ent_eq_some] at this
    exact ⟨this.1, this.2.trans hf⟩
  case clean =>
    intro n hn hn' hdirty r hr
    rw [hM] at hn
    have hdirty' : ¬ Dirty (m.word 1 n) := fun hx => hdirty ((h1 n hn').2 hx)
    rcases hT r n hr with hr | ⟨_, ⟨y, hy⟩ | ⟨_, hx⟩⟩
    · exact h.clean n hn hn' hdirty' r hr
    · exact (h.clean n hn hn' hdirty' (.misc y) hy).elim
    · exact absurd (hx hn') hdirty
  case rwData =>
    intro u i j hi hj hpw hrw
    rcases hQ u i j hi hj with e | e
    · rw [e] at hpw hrw ⊢
      obtain ⟨h₁, h₂⟩ := h.rwData u i j hi hj hpw hrw
      refine ⟨by rw [hM]; exact h₁, fun r hr => ?_⟩
      by_contra hr'
      rcases hTn (.pte u ⟨i, hi⟩ ⟨j, hj⟩) r _ (by simp) hr' (ent_of_present hpw) hr with hr | ⟨y, hy⟩
      · exact hr' (h₂ r hr)
      · exact absurd (h₂ (.misc y) hy) (by simp)
    · rw [e] at hpw; simp at hpw
  case held =>
    intro r x n h₁ e₁ e₂
    rcases hTn r (.misc x) n h₁ (by simp) (hTp r n h₁ e₁) e₂ with e₂ | ⟨y, hy⟩
    · exact h.held r x n h₁ (hTp r n h₁ e₁) e₂
    · exact h.held r y n h₁ (hTp r n h₁ e₁) hy
  case sep =>
    intro hs' r r' n h₁ h₂ e₁ e₂
    rcases hTn r r' n h₁ h₂ (hTp r n h₁ e₁) e₂ with e₂ | ⟨y, hy⟩
    · exact h.sep hs' r r' n h₁ h₂ (hTp r n h₁ e₁) e₂
    · exact h.held r y n h₁ (hTp r n h₁ e₁) hy
  case rwOne =>
    intro hs' u i j hrw n e r e'
    have hold := hTp (.pte u i j) n (by simp) e
    rcases hQ u i j i.2 j.2 with ee | ee
    · rw [ee] at hrw
      by_cases hr : r.IsPte
      · exact h.rwOne hs' u i j hrw n hold r (hTp r n hr e')
      · rcases hTn _ r n (by simp) hr hold e' with e' | ⟨y, hy⟩
        · exact h.rwOne hs' u i j hrw n hold r e'
        · exact absurd hy (h.held (.pte u i j) y n (by simp) hold)
    · rw [target, ee] at e; simp at e

/-- The invariant after a change that leaves directories and tables alone:
stores into other frames, and pages taken up or put down by the kernel. -/
theorem reroot (h : Inv s m R) {m' : Mem} {R' : Roots} (hlow : m'.low = m.low) (hhigh : m'.high = m.high)
    (hd : R'.dir = R.dir) (hw : ∀ f k, IsTable m R f → m'.word f k = m.word f k)
    (h0 : ∀ k, m'.word 0 k = m.word 0 k)
    (h1 : ∀ j, j < 1024 → ent (m'.word 1 j) = ent (m.word 1 j) ∧ (Dirty (m.word 1 j) → Dirty (m'.word 1 j)))
    (hm : ∀ x n, R'.misc x = some n → (∃ y, R.misc y = some n) ∨
      (∀ r, target m R r ≠ some n) ∧ (n < 1024 → Dirty (m'.word 1 n)))
    (hu : ∀ n, ¬ m.Managed n → m'.map n = 128) (hs : Sound m.Managed 4096 (target m' R'))
    (he : ∀ n, m.Managed n → m'.map n = count (target m' R') n) : Inv s m' R' := by
  refine h.change hlow hhigh ?_ ?_ ?_ ?_ h0 h1 hu hs he
  · intro u i hi
    rw [pde_keep hd hw]
    exact h.pde_wf u i hi
  · exact fun u i j hi _ => .inl (pte_keep hd hw u hi j)
  · intro r n hr
    rw [target_keep (m := m) (R := R) hd hw r] at hr
    cases r with
    | misc x => exact .inr ⟨by simp, hm x n hr⟩
    | _ => exact .inl hr
  · intro u d hd' i h₁ h₂
    rw [hd] at hd'
    rw [hw d i (.inl ⟨u, hd'⟩), h0]
    exact h.kern u d hd' i h₁ h₂

/-- A store into a frame that is no table, above the kernel's first pages. -/
theorem storeData (h : Inv s m R) {m' : Mem} (hlow : m'.low = m.low) (hhigh : m'.high = m.high)
    (hmap : m'.map = m.map) {f : Nat} (hf : ¬ IsTable m R f) (hf' : 2 ≤ f)
    (hw : ∀ g k, g ≠ f → m'.word g k = m.word g k) : Inv s m' R := by
  have hkeep : ∀ g k, IsTable m R g → m'.word g k = m.word g k := fun g k hg =>
    hw g k (fun e => hf (e ▸ hg))
  have hT : target m' R = target m R := by
    funext r
    rw [target_keep rfl hkeep r]
    cases r <;> rfl
  exact h.reroot hlow hhigh rfl hkeep (fun k => hw 0 k (by omega))
    (fun j _ => by rw [hw 1 j (by omega)]; exact ⟨rfl, id⟩) (fun x n hx => .inl ⟨x, hx⟩)
    (by rw [hmap]; exact h.map_used) (by rw [hT]; exact h.sound) (by rw [hmap, hT]; exact h.exact)

end Inv

end Linux011.Mm
