/-
`free_page`, `free_one_table`, `clear_page_tables` and `free_page_tables`.
From a state with exact counts they never panic: a frame that is freed has
the reference being dropped, and a frame without the USED bit is below
`HIGH_MEMORY`. A table's USED frames stay in it until the table itself goes.
-/
import Linux011.Lib.Loop
import Linux011.Mm.Change

namespace Linux011.Mm

open RefCount

theorem Mem.freePage_ok {m : Mem} {n : Nat} (hn : n < m.high) (hu : ¬ m.Used n) (hpos : 0 < m.map n) :
    m.freePage n = .ok (m.setMap n (m.map n - 1)) := by
  unfold Mem.freePage
  rw [if_neg (by omega), if_neg hu, if_pos (by omega)]

namespace Inv

variable {s : Prop} {m : Mem} {R : Roots} {t : Fin 64} {i j : Nat}

theorem freePage_managed (h : Inv s m R) {n : Nat} (hM : m.Managed n) (hpos : 0 < m.map n) :
    m.freePage n = .ok (m.setMap n (m.map n - 1)) :=
  Mem.freePage_ok hM.2 (by rw [h.used_iff]; exact not_not.2 hM) hpos

theorem freePage_used (h : Inv s m R) {n : Nat} (hM : ¬ m.Managed n) (hn : n < m.high) : m.freePage n = .ok m := by
  unfold Mem.freePage
  rw [if_neg (by omega), if_pos ((h.used_iff n).2 hM)]

/-- Freeing address 0, which callers do for a page they failed to get. -/
theorem freePage_zero (h : Inv s m R) : m.freePage 0 = .ok m :=
  h.freePage_used (h.not_managed_lt (by omega)) (by have := h.low_ge; have := h.low_le; omega)

/-! ## One table -/

/-- What the loop over the table `i` of task `t` has done after `j` entries. -/
structure Emptied (s : Prop) (m₀ : Mem) (R : Roots) (t : Fin 64) (i j : Nat) (m : Mem) : Prop where
  inv : Inv s m R
  low : m.low = m₀.low
  high : m.high = m₀.high
  pde : ∀ u i', pde m R u i' = pde m₀ R u i'
  other : ∀ u i' j', i' < 768 → ¬ (u = t ∧ i' = i) → pte m R u i' j' = pte m₀ R u i' j'
  done : ∀ j', j' < j → pte m R t i j' = 0 ∨ ¬ m.Managed (frame (pte m R t i j'))
  word : ∀ f k, f ≠ frame (Mm.pde m₀ R t i) → m.word f k = m₀.word f k

theorem pte_eq (hp : Present (pde m R t i)) (j : Nat) : pte m R t i j = m.word (frame (pde m R t i)) j := if_pos hp

theorem freeEntry_spec {m₀ : Mem} (hi : i < 768) (hp : Present (pde m₀ R t i)) (hj : j < 1024)
    (h : Emptied s m₀ R t i j m) :
    ∃ m', Mem.freeEntry (frame (pde m₀ R t i)) m j = .ok m' ∧ Emptied s m₀ R t i (j + 1) m' := by
  have hI := h.inv
  rw [← h.pde] at hp
  have hw : m.word (frame (pde m₀ R t i)) j = pte m R t i j := by rw [pte_eq hp, h.pde]
  -- An entry left in place keeps what was done.
  have stay : (pte m R t i j = 0 ∨ ¬ m.Managed (frame (pte m R t i j))) → Emptied s m₀ R t i (j + 1) m := by
    intro hz
    refine ⟨hI, h.low, h.high, h.pde, h.other, fun j' hj' => ?_, h.word⟩
    rcases Nat.lt_succ_iff_lt_or_eq.1 hj' with hj' | rfl
    · exact h.done j' hj'
    · exact hz
  unfold Mem.freeEntry
  simp only [hw]
  by_cases hz : pte m R t i j = 0
  · exact ⟨m, if_pos hz, stay (.inl hz)⟩
  rw [if_neg hz]
  by_cases hu : m.Used (frame (pte m R t i j))
  · exact ⟨m, if_pos hu, stay (.inr ((hI.used_iff _).1 hu))⟩
  rw [if_neg hu]
  have hq : Present (pte m R t i j) := (hI.pte_wf t i j hi hj).resolve_left hz
  have hM : m.Managed (frame (pte m R t i j)) := by rw [hI.used_iff] at hu; exact not_not.1 hu
  have hpos : 0 < m.map (frame (pte m R t i j)) :=
    hI.map_pos hM (r := .pte t ⟨i, hi⟩ ⟨j, hj⟩) (ent_of_present hq)
  have hdrop := hI.dropPte hi hj hq rfl hM
  rw [if_pos hq, ← h.pde]
  refine ⟨(m.set (frame (pde m R t i)) j 0).setMap (frame (pte m R t i j)) (m.map (frame (pte m R t i j)) - 1),
    ?_, hdrop, h.low, h.high, fun u i' => ?_, fun u i' j' hi' hne => ?_, fun j' hj' => ?_, fun f k hf => ?_⟩
  · exact Mem.freePage_ok (m := m.set _ j 0) hM.2 hu hpos
  · rw [pde_setMap, hI.pde_setTable hi hp, h.pde]
  · rw [pte_setMap, hI.pte_setTable hi hp _ _ _ hi', if_neg (fun e => hne ⟨e.1, e.2.1⟩), h.other u i' j' hi' hne]
  · rw [pte_setMap, hI.pte_setTable hi hp _ _ _ hi]
    split
    · exact .inl rfl
    · rename_i hne
      refine h.done j' ?_
      rcases Nat.lt_succ_iff_lt_or_eq.1 hj' with hj' | rfl
      · exact hj'
      · exact absurd ⟨rfl, rfl, rfl⟩ hne
  · rw [Mem.setMap_word, Mem.set_word, if_neg, h.word f k hf]
    rintro ⟨rfl, -⟩
    exact hf (by rw [h.pde])

/-- What freeing the tables of task `t` below `i` has done: those of the
directory entries are gone, and nothing else has changed. -/
structure Cleared (s : Prop) (m₀ : Mem) (R : Roots) (t : Fin 64) (i : Nat) (m : Mem) : Prop where
  inv : Inv s m R
  low : m.low = m₀.low
  high : m.high = m₀.high
  done : ∀ i', i' < i → i' < 768 → pde m R t i' = 0
  rest : ∀ i', i ≤ i' → pde m R t i' = pde m₀ R t i'
  pde : ∀ u, u ≠ t → ∀ i', pde m R u i' = pde m₀ R u i'
  pte : ∀ u, u ≠ t → ∀ i' j', i' < 768 → pte m R u i' j' = pte m₀ R u i' j'
  word : ∀ f k, ¬ TableOf m₀ R t f → m.word f k = m₀.word f k

theorem freeOneTable_user {m₀ : Mem} {d : Nat} (hd : R.dir t = some d) (hi : i < 768) (h : Cleared s m₀ R t i m) :
    ∃ m', Mem.freeOneTable d m i = .ok m' ∧ Cleared s m₀ R t (i + 1) m' := by
  have hI := h.inv
  have hw : m.word d i = pde m R t i := by simp [pde, hd]
  unfold Mem.freeOneTable
  simp only [hw]
  by_cases hz : pde m R t i = 0
  · refine ⟨m, if_pos hz, hI, h.low, h.high, fun i' h₁ h₂ => ?_, fun i' hi' => h.rest i' (by omega), h.pde, h.pte, h.word⟩
    rcases Nat.lt_succ_iff_lt_or_eq.1 h₁ with h₁ | rfl
    · exact h.done i' h₁ h₂
    · exact hz
  have hp : Present (pde m R t i) := (hI.pde_wf t i hi).resolve_left hz
  have hM := hI.table_managed hi hp
  rw [if_neg hz, if_neg (by have := hM.2; simp only [hp, not_true, or_false]; omega),
    if_neg (by rw [hI.used_iff]; exact not_not.2 hM)]
  have hstart : Emptied s m R t i 0 m :=
    ⟨hI, rfl, rfl, fun _ _ => rfl, fun _ _ _ _ _ => rfl, by omega, fun _ _ _ => rfl⟩
  obtain ⟨m₁, hm₁, h₁⟩ := Loop.foldlM_range (Emptied s m R t i) (n := 1024) hstart
    fun j m' hj hm' => freeEntry_spec hi hp hj hm'
  have hI₁ := h₁.inv
  have hp₁ : Present (pde m₁ R t i) := by rw [h₁.pde]; exact hp
  have hM₁ : m₁.Managed (frame (pde m R t i)) := by
    have := hI₁.table_managed hi hp₁
    rwa [h₁.pde] at this
  have hpos : 0 < m₁.map (frame (pde m R t i)) :=
    hI₁.map_pos hM₁ (r := .pde t ⟨i, hi⟩) (ent_eq_some.2 ⟨hp₁, by rw [h₁.pde]⟩)
  have hdrop := hI₁.dropTable hd hi hp₁ fun j hj => h₁.done j hj
  rw [h₁.pde] at hdrop
  refine ⟨(m₁.set d i 0).setMap (frame (pde m R t i)) (m₁.map (frame (pde m R t i)) - 1), ?_, hdrop,
    h₁.low.trans h.low, h₁.high.trans h.high, fun i' h₂ h₃ => ?_, fun i' h₂ => ?_, fun u hu i' => ?_,
    fun u hu i' j' hi' => ?_, fun f k hf => ?_⟩
  · simp only [bind, Except.bind, hm₁]
    exact Mem.freePage_ok (m := m₁.set d i 0) hM₁.2 ((hI₁.used_iff _).not.2 (not_not.2 hM₁)) hpos
  · rw [pde_setMap, hI₁.pde_setDir hd, h₁.pde]
    split
    · rfl
    · exact h.done i' (by omega) h₃
  · rw [pde_setMap, hI₁.pde_setDir hd, h₁.pde, if_neg (by omega)]
    exact h.rest i' (by omega)
  · rw [pde_setMap, hI₁.pde_setDir hd, if_neg (fun e => hu e.1), h₁.pde, h.pde u hu]
  · rw [pte_setMap, hI₁.pte_clearPde hd _ _ hi', if_neg (fun e => hu e.1),
      h₁.other u i' j' hi' (fun e => hu e.1), h.pte u hu i' j' hi']
  · rw [Mem.setMap_word, Mem.set_word, if_neg (by rintro ⟨rfl, -⟩; exact hf (.inl hd)), h₁.word, h.word f k hf]
    rintro rfl
    exact hf (.inr ⟨i, hi, by rw [← h.rest i le_rfl]; exact ent_of_present hp⟩)

/-- A kernel table is USED, and left alone. -/
theorem freeOneTable_kern {d : Nat} (h : Inv s m R) (hd : R.dir t = some d) (hi : 768 ≤ i) (hi' : i < 1024) :
    Mem.freeOneTable d m i = .ok m := by
  unfold Mem.freeOneTable
  simp only
  split
  · rfl
  rename_i hz
  split
  · rfl
  rename_i hp
  rw [if_pos]
  rw [h.used_iff]
  apply h.not_managed_lt
  have hk := (h.kern t d hd i hi hi').resolve_right hz
  rw [hk]
  rcases h.swap.kern i hi hi' with h0 | ⟨_, h4⟩
  · exact absurd (hk.trans h0) hz
  · omega

theorem cleared_zero (h : Inv s m R) : Cleared s m R t 0 m :=
  ⟨h, rfl, rfl, by omega, fun _ _ => rfl, fun _ _ _ => rfl, fun _ _ _ _ _ => rfl, fun _ _ _ => rfl⟩

/-- **`clear_page_tables`** never panics and takes out all user tables of its task. -/
theorem clearPageTables_spec (h : Inv s m R) {d : Nat} (hd : R.dir t = some d) :
    ∃ m', m.clearPageTables d = .ok m' ∧ Cleared s m R t 768 m' := by
  have hd0 : d ≠ 0 := by
    rintro rfl
    exact h.not_managed_lt (by omega) (h.dir_managed hd)
  unfold Mem.clearPageTables
  rw [if_neg hd0]
  exact Loop.foldlM_range (Cleared s m R t) h.cleared_zero fun i m' hi hm' => freeOneTable_user hd hi hm'

/-- **`free_page_tables`** never panics, and takes out the directory as well. -/
theorem freePageTables_spec (h : Inv s m R) {d : Nat} (hd : R.dir t = some d) :
    ∃ m', m.freePageTables d = .ok m' ∧ Inv s m' (R.setDir t none) ∧ m'.low = m.low ∧ m'.high = m.high ∧
      (∀ u, u ≠ t → ∀ i, pde m' R u i = pde m R u i) ∧
      (∀ u, u ≠ t → ∀ i j, i < 768 → pte m' R u i j = pte m R u i j) ∧
      ∀ f k, ¬ TableOf m R t f → m'.word f k = m.word f k := by
  have hM := h.dir_managed hd
  have hd0 : d ≠ 0 := by
    rintro rfl
    exact h.not_managed_lt (by omega) hM
  have hloop := Loop.foldlM_range (f := Mem.freeOneTable d) (fun i => Cleared s m R t (min i 768)) (n := 1024)
    (s := m) (by simpa using h.cleared_zero) (fun i m' hi hm' => by
      by_cases hu : i < 768
      · rw [min_eq_left hu.le] at hm'
        rw [min_eq_left hu]
        exact freeOneTable_user hd hu hm'
      · rw [min_eq_right (by omega)] at hm'
        rw [min_eq_right (by omega)]
        exact ⟨m', freeOneTable_kern hm'.inv hd (by omega) hi, hm'⟩)
  obtain ⟨m₁, hm₁, h₁⟩ := hloop
  simp only [show min 1024 768 = 768 from rfl] at h₁
  have hM₁ : m₁.Managed d := h₁.inv.dir_managed hd
  have hpos : 0 < m₁.map d := h₁.inv.map_pos hM₁ (r := .cr3 t) hd
  refine ⟨m₁.setMap d (m₁.map d - 1), ?_, h₁.inv.dropDir hd fun i hi => h₁.done i hi hi, h₁.low, h₁.high, h₁.pde,
    h₁.pte, h₁.word⟩
  unfold Mem.freePageTables
  rw [if_neg hd0]
  simp only [bind, Except.bind, hm₁]
  exact h₁.inv.freePage_managed hM₁ hpos

end Inv

end Linux011.Mm
