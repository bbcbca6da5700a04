/-
The handlers of page faults: `un_wp_page` and its callers `do_wp_page`,
`write_verify` and `verify_area`; `put_page` and `get_empty_page`; and
`try_to_share`. Each changes one entry of the current task (and may give it
a table); `try_to_share` also write-protects the entry it copies. A frame
that is in use and is no table keeps its words through all of them.
-/
import Linux011.Mm.Fork

namespace Linux011.Mm

open RefCount

namespace Inv

variable {s : Prop} {m : Mem} {R : Roots} {p t : Fin 64} {i j : Nat}

/-- In a run without sharing from `pg0`, a mapped frame holds data. -/
theorem not_isTable_of_mapped (h : Inv s m R) (hs : s) {n : Nat} (hn : Mapped m R n) : ¬ IsTable m R n := by
  obtain ⟨r, hr, hn⟩ := hn
  rintro (⟨u, hu⟩ | ⟨u, i, hi, hu⟩)
  · exact h.sep hs r (.cr3 u) n hr (by simp) hn hu
  · exact h.sep hs r (.pde u ⟨i, hi⟩) n hr (by simp) hn hu

/-- A page some task can write to is no table. -/
theorem not_isTable_of_rw (h : Inv s m R) {n : Nat} (hi : i < 768) (hj : j < 1024) (hq : Present (pte m R t i j))
    (hw : Rw (pte m R t i j)) (hn : frame (pte m R t i j) = n) : ¬ IsTable m R n := by
  subst hn
  obtain ⟨-, honly⟩ := h.rwData t i j hi hj hq hw
  rintro (⟨u, hu⟩ | ⟨u, i', hi', hu⟩)
  · exact absurd (honly (.cr3 u) hu) (by simp)
  · exact absurd (honly (.pde u ⟨i', hi'⟩) hu) (by simp)

theorem map_ne_zero_of_mapped (h : Inv s m R) {n : Nat} (hn : Mapped m R n) : m.map n ≠ 0 := fun h0 => by
  obtain ⟨r, -, hn⟩ := hn
  exact h.no_ref h0 r hn

/-! ## Write faults -/

/-- What `un_wp_page` does to entry `(i, j)` of task `t`: the entry is
writable, on its old frame if that had one reference, or on a fresh copy. -/
structure Unshared (m : Mem) (R : Roots) (t : Fin 64) (i j : Nat) (m' : Mem) : Prop where
  low : m'.low = m.low
  high : m'.high = m.high
  pde : ∀ u i', pde m' R u i' = pde m R u i'
  pte : ∀ u i' j', i' < 768 → ¬ (u = t ∧ i' = i ∧ j' = j) → pte m' R u i' j' = pte m R u i' j'
  self : (m.Managed (frame (Mm.pte m R t i j)) ∧ m.map (frame (Mm.pte m R t i j)) = 1 ∧
      Mm.pte m' R t i j = setRw (Mm.pte m R t i j) ∧
      m' = m.set (frame (Mm.pde m R t i)) j (setRw (Mm.pte m R t i j))) ∨
    ∃ new, m.map new = 0 ∧ Mm.pte m' R t i j = entry new 7 ∧ m'.map new = 1 ∧
      ∀ k, m'.word new k = m'.word (frame (Mm.pte m R t i j)) k
  used : ∀ n, m.map n ≠ 0 → m'.map n ≠ 0
  data : KeepData m R m'

theorem unWpPage_spec (h : Inv s m R) (hhand : R.misc .hand = none) (hi : i < 768) (hj : j < 1024)
    (hq : Present (pte m R t i j)) :
    m.unWpPage (frame (pde m R t i)) j = none ∨
      ∃ m', m.unWpPage (frame (pde m R t i)) j = some m' ∧ Inv s m' R ∧ Unshared m R t i j m' := by
  have hp := present_pde hq
  have hw : m.word (frame (pde m R t i)) j = pte m R t i j := (pte_eq hp j).symm
  unfold Mem.unWpPage
  simp only [hw]
  generalize hold : frame (pte m R t i j) = old
  by_cases hone : ¬ m.Used old ∧ m.map old = 1
  · -- The frame is this entry's alone.
    rw [if_pos hone]
    have hM : m.Managed old := by
      have := hone.1
      rw [h.used_iff] at this
      exact not_not.1 this
    refine .inr ⟨_, rfl, h.flagPte hi hj hq (by simp) fun _ => .inr (hold ▸ ⟨hM, hone.2⟩), rfl, rfl, ?_, ?_, ?_,
      fun _ hn => hn, ?_⟩
    · exact fun u i' => h.pde_setTable hi hp j _ u i'
    · intro u i' j' hi' hne
      rw [h.pte_setTable hi hp j _ u hi', if_neg hne]
    · refine .inl ⟨hold ▸ hM, hold ▸ hone.2, ?_, rfl⟩
      rw [h.pte_setTable hi hp j _ t hi, if_pos ⟨rfl, rfl, rfl⟩]
    · intro n k _ _ hn
      rw [Mem.set_word, if_neg]
      rintro ⟨rfl, -⟩
      exact hn (isTable_pde hi hp)
  rw [if_neg hone]
  cases hg : m.getFreePage with
  | none => exact .inl rfl
  | some x =>
    obtain ⟨new, m₁⟩ := x
    obtain ⟨h0, rfl⟩ := Mem.getFreePage_some hg
    refine .inr ⟨_, rfl, ?_⟩
    have hMn : m.Managed new := h.managed_of_map_lt (by omega)
    have hge : 256 ≤ new := le_trans h.low_ge hMn.1
    have hlt : new < 4096 := lt_of_lt_of_le hMn.2 h.high_le
    have hent : ent (entry new 7) = some new := ent_entry (by omega) rfl
    have hI₁ := h.claim h0 hhand
    have hkeep := h.claim_keep h0
    have hP₁ : ∀ u i', pde (m.claim new) R u i' = pde m R u i' := pde_keep rfl hkeep
    have hQ₁ : ∀ u i' j', i' < 768 → pte (m.claim new) R u i' j' = pte m R u i' j' :=
      fun u i' j' hi' => pte_keep rfl hkeep u hi' j'
    have hq₁ : Present (pte (m.claim new) (R.setMisc .hand (some new)) t i j) := by
      rw [pte_setMisc, hQ₁ t i j hi]; exact hq
    have hp₁ := present_pde hq₁
    have hnold : old ≠ new := by
      rintro rfl
      exact h.no_ref h0 (.pte t ⟨i, hi⟩ ⟨j, hj⟩) (ent_eq_some.2 ⟨hq, hold⟩)
    have hmap : (m.claim new).map old = m.map old := by simp [Mem.claim, hnold]
    -- The memory with the old reference dropped and the entry empty.
    obtain ⟨m₂, hm₂, hI₂, hword₂, hl₂, hh₂, hmap₂, hused₂⟩ : ∃ m₂, (if (m.claim new).Used old then m.claim new
          else (m.claim new).setMap old (((m.claim new).map old + 255) % 256)).set (frame (pde m R t i)) j 0 = m₂ ∧
        Inv s m₂ (R.setMisc .hand (some new)) ∧ m₂.word = ((m.claim new).set (frame (pde m R t i)) j 0).word ∧
        m₂.low = m.low ∧ m₂.high = m.high ∧ m₂.map new = 1 ∧ ∀ n, m.map n ≠ 0 → m₂.map n ≠ 0 := by
      have hclaimed : ∀ n, m.map n ≠ 0 → (m.claim new).map n = m.map n := by
        intro n hn
        have : n ≠ new := by rintro rfl; exact hn h0
        simp [Mem.claim, this]
      have hnew1 : (m.claim new).map new = 1 := by simp [Mem.claim]
      by_cases hu : (m.claim new).Used old
      · rw [if_pos hu]
        refine ⟨_, rfl, ?_, rfl, rfl, rfl, hnew1, fun n hn => by rw [Mem.set_map, hclaimed n hn]; exact hn⟩
        have hnm := (hI₁.used_iff old).1 hu
        have := hI₁.clearUsedPte hi hj hq₁ (by rw [pte_setMisc, hQ₁ t i j hi, hold]; exact hnm)
        rwa [pde_setMisc, hP₁] at this
      · rw [if_neg hu]
        have hM : (m.claim new).Managed old := by rw [hI₁.used_iff] at hu; exact not_not.1 hu
        have hpos : 0 < (m.claim new).map old :=
          hI₁.map_pos hM (r := .pte t ⟨i, hi⟩ ⟨j, hj⟩) (ent_eq_some.2 ⟨hq₁, by rw [pte_setMisc, hQ₁ t i j hi, hold]⟩)
        have hlt' := hI₁.map_lt hM
        have htwo : 2 ≤ m.map old := by
          have : m.map old ≠ 1 := fun e => hone ⟨(h.used_iff old).not.2 (not_not.2 hM), e⟩
          omega
        refine ⟨_, rfl, ?_, rfl, rfl, rfl, by simp [hnold.symm, hnew1], fun n hn => ?_⟩
        swap
        · simp only [Mem.set_map, Mem.setMap_map, Function.update_apply]
          split
          · omega
          · rw [hclaimed n hn]; exact hn
        have := hI₁.dropPte hi hj hq₁ (n := old) (by rw [pte_setMisc, hQ₁ t i j hi, hold]) hM
        rw [pde_setMisc, hP₁] at this
        rw [show ((m.claim new).map old + 255) % 256 = (m.claim new).map old - 1 by omega]
        exact this
    have hP₂ : ∀ u i', pde m₂ R u i' = pde m R u i' := by
      intro u i'
      have e := hI₁.pde_setTable hi hp₁ j 0 u i'
      simp only [pde_setMisc, hP₁] at e
      rw [pde_ext hword₂ rfl, e]
    have hQ₂ : ∀ u i' j', i' < 768 → pte m₂ R u i' j' = if u = t ∧ i' = i ∧ j' = j then 0 else pte m R u i' j' := by
      intro u i' j' hi'
      have e := hI₁.pte_setTable hi hp₁ j 0 u hi' j'
      simp only [pde_setMisc, hP₁, pte_setMisc] at e
      rw [pte_ext hword₂ rfl, e, hQ₁ u i' j' hi']
    have hp₂ : Present (pde m₂ (R.setMisc .hand (some new)) t i) := by rw [pde_setMisc, hP₂]; exact hp
    have hI₃ := hI₂.movePte hi hj hp₂ (by rw [pte_setMisc, hQ₂ t i j hi, if_pos ⟨rfl, rfl, rfl⟩]; simp)
      (show (R.setMisc .hand (some new)).misc .hand = some new by simp) hent
    rw [R.setMisc_none hhand, pde_setMisc, hP₂] at hI₃
    -- The entry stored, in terms of the state before.
    have hset : (if (m.claim new).Used old then m.claim new
        else (m.claim new).setMap old (((m.claim new).map old + 255) % 256)).set (frame (pde m R t i)) j
          (entry new 7) = m₂.set (frame (pde m R t i)) j (entry new 7) := by
      rw [← hm₂, Mem.set_set]
    rw [hset]
    have hP₃ : ∀ u i', pde (m₂.set (frame (pde m R t i)) j (entry new 7)) R u i' = pde m R u i' := by
      intro u i'
      have e := hI₂.pde_setTable hi hp₂ j (entry new 7) u i'
      rwa [pde_setMisc, pde_setMisc, pde_setMisc, hP₂, hP₂] at e
    have hQ₃ : ∀ u i' j', i' < 768 → pte (m₂.set (frame (pde m R t i)) j (entry new 7)) R u i' j' =
        if u = t ∧ i' = i ∧ j' = j then entry new 7 else pte m R u i' j' := by
      intro u i' j' hi'
      have e := hI₂.pte_setTable hi hp₂ j (entry new 7) u hi' j'
      rw [pde_setMisc, pte_setMisc, pte_setMisc, hP₂] at e
      rw [e]
      split
      · rfl
      · rename_i hne
        rw [hQ₂ u i' j' hi', if_neg hne]
    have hnt : ¬ IsTable (m₂.set (frame (pde m R t i)) j (entry new 7)) R new := by
      rintro (⟨u, hu⟩ | ⟨u, i', hi', hu⟩)
      · exact h.no_ref h0 (.cr3 u) hu
      · rw [hP₃] at hu
        exact h.no_ref h0 (.pde u ⟨i', hi'⟩) hu
    have hkeep' : ∀ f k, IsTable (m₂.set (frame (pde m R t i)) j (entry new 7)) R f →
        ((m₂.set (frame (pde m R t i)) j (entry new 7)).copyPage old new).word f k =
          (m₂.set (frame (pde m R t i)) j (entry new 7)).word f k := by
      intro f k hf
      simp only [Mem.copyPage]
      rw [if_neg]
      rintro rfl
      exact hnt hf
    refine ⟨hI₃.storeData rfl rfl rfl hnt (by omega) ?_, hl₂, hh₂, ?_, ?_, ?_, hused₂, ?_⟩
    · intro g k hg
      simp [Mem.copyPage, hg]
    · intro u i'
      rw [pde_keep rfl hkeep', hP₃]
    · intro u i' j' hi' hne
      rw [pte_keep rfl hkeep' u hi', hQ₃ u i' j' hi', if_neg hne]
    · refine .inr ⟨new, h0, ?_, hmap₂, fun k => ?_⟩
      · rw [pte_keep rfl hkeep' t hi, hQ₃ t i j hi, if_pos ⟨rfl, rfl, rfl⟩]
      · simp only [Mem.copyPage]
        rw [if_pos trivial, hold, if_neg hnold]
    · intro n k hM hne hn
      have hnn : n ≠ new := by rintro rfl; exact hne h0
      have hnT : n ≠ frame (pde m R t i) := by rintro rfl; exact hn (isTable_pde hi hp)
      simp only [Mem.copyPage]
      rw [if_neg hnn, Mem.set_word, if_neg (fun e => hnT e.1), hword₂, Mem.set_word, if_neg (fun e => hnT e.1)]
      exact h.keepData_claim h0 n k hM hne hn

/-- What a sequence of `un_wp_page` on entries of task `t` does: an entry is
as it was, or was read-only and is writable now, on its frame or on a copy. -/
structure Verified (m : Mem) (R : Roots) (t : Fin 64) (m' : Mem) : Prop where
  low : m'.low = m.low
  high : m'.high = m.high
  pde : ∀ u i', pde m' R u i' = pde m R u i'
  other : ∀ u i' j', i' < 768 → u ≠ t → pte m' R u i' j' = pte m R u i' j'
  own : ∀ i' j', i' < 768 → j' < 1024 → pte m' R t i' j' = pte m R t i' j' ∨
    Present (pte m R t i' j') ∧ ¬ Rw (pte m R t i' j') ∧ (pte m' R t i' j' = setRw (pte m R t i' j') ∨
      ∃ new, pte m' R t i' j' = entry new 7 ∧ m.map new = 0 ∧
        (m.Managed (frame (pte m R t i' j')) → ¬ IsTable m R (frame (pte m R t i' j')) →
          ∀ k, m'.word new k = m.word (frame (pte m R t i' j')) k))
  used : ∀ n, m.map n ≠ 0 → m'.map n ≠ 0
  data : KeepData m R m'

theorem Verified.refl : Verified m R t m :=
  ⟨rfl, rfl, fun _ _ => rfl, fun _ _ _ _ _ => rfl, fun _ _ _ _ => .inl rfl, fun _ h => h, KeepData.refl⟩

theorem isTable_congr {m m' : Mem} (hP : ∀ u i', pde m' R u i' = pde m R u i') (f : Nat) :
    IsTable m' R f ↔ IsTable m R f := by
  simp only [IsTable, hP]

/-- One more entry verified. -/
theorem Verified.snoc {m₁ m₂ : Mem} (h : Inv s m R) (hI : Inv s m₁ R) (hv : Verified m R t m₁) (hi : i < 768)
    (hj : j < 1024) (hq : Present (pte m₁ R t i j)) (hro : ¬ Rw (pte m₁ R t i j)) (hu : Unshared m₁ R t i j m₂) :
    Verified m R t m₂ := by
  have hT := isTable_congr (R := R) hv.pde
  have hMc := managed_congr hv.low hv.high
  have hdata : KeepData m R m₂ := by
    intro n k hM hn hnt
    rw [hu.data n k ((hMc n).2 hM) (hv.used n hn) (by rw [hT]; exact hnt), hv.data n k hM hn hnt]
  refine ⟨hu.low.trans hv.low, hu.high.trans hv.high, fun u i' => (hu.pde u i').trans (hv.pde u i'),
    fun u i' j' hi' hut => ?_, fun i' j' hi' hj' => ?_, fun n hn => hu.used n (hv.used n hn), hdata⟩
  · rw [hu.pte u i' j' hi' (fun e => hut e.1), hv.other u i' j' hi' hut]
  by_cases he : i' = i ∧ j' = j
  · obtain ⟨rfl, rfl⟩ := he
    -- A read-only entry has not been verified before.
    have hsame : pte m₁ R t i' j' = pte m R t i' j' := by
      rcases hv.own i' j' hi' hj' with e | ⟨-, -, e | ⟨new, e, -⟩⟩
      · exact e
      · exact absurd (by rw [e]; simp) hro
      · exact absurd (by rw [e, rw_entry]) hro
    have hself := hu.self
    rw [hsame] at hq hro hself
    refine .inr ⟨hq, hro, ?_⟩
    rcases hself with ⟨-, -, e, -⟩ | ⟨new, h0, e, -, hc⟩
    · exact .inl e
    · refine .inr ⟨new, e, ?_, fun hM hnt k => ?_⟩
      · by_contra hne
        exact hv.used new hne h0
      · rw [hc k]
        exact hdata _ k hM (h.map_ne_zero_of_mapped ⟨.pte t ⟨i', hi'⟩ ⟨j', hj'⟩, by simp, ent_of_present hq⟩) hnt
  · have hkeep : pte m₂ R t i' j' = pte m₁ R t i' j' := hu.pte t i' j' hi' (fun e => he e.2)
    rw [hkeep]
    rcases hv.own i' j' hi' hj' with e | ⟨h₁, h₂, e | ⟨new, e, h0, hc⟩⟩
    · exact .inl e
    · exact .inr ⟨h₁, h₂, .inl e⟩
    · refine .inr ⟨h₁, h₂, .inr ⟨new, e, h0, fun hM hnt k => ?_⟩⟩
      -- The copy made before is in use, and no table.
      have hent : ent (pte m₁ R t i' j') = some new := by rw [e]; exact ent_entry (by omega) rfl
      have hMn : m.Managed new := h.managed_of_map_lt (by omega)
      have hnew : ¬ IsTable m₁ R new := by
        rw [hT]
        exact h.not_isTable_of_free hMn h0
      rw [hu.data new k ((hMc new).2 hMn)
        (hI.map_ne_zero_of_mapped ⟨.pte t ⟨i', hi'⟩ ⟨j', hj'⟩, by simp, hent⟩) hnew]
      exact hc hM hnt k

theorem dirIx_lt {a : Nat} (ha : a < 3221225472) : Mem.dirIx a < 768 := by
  unfold Mem.dirIx; omega

theorem tabIx_lt (a : Nat) : Mem.tabIx a < 1024 := Nat.mod_lt _ (by omega)

theorem writeVerify_spec {m₁ : Mem} (h : Inv s m R) (hI : Inv s m₁ R) (hv : Verified m R t m₁)
    (hhand : R.misc .hand = none) {d a : Nat} (hd : R.dir t = some d) (ha : a < 3221225472) :
    m₁.writeVerify d a = none ∨ ∃ m₂, m₁.writeVerify d a = some m₂ ∧ Inv s m₂ R ∧ Verified m R t m₂ ∧
      (∀ i' j', i' < 768 → j' < 1024 → ¬ (i' = Mem.dirIx a ∧ j' = Mem.tabIx a) →
        pte m₂ R t i' j' = pte m₁ R t i' j') ∧
      (Present (pte m₂ R t (Mem.dirIx a) (Mem.tabIx a)) → Rw (pte m₂ R t (Mem.dirIx a) (Mem.tabIx a))) := by
  have hi := dirIx_lt ha
  have hj := tabIx_lt a
  have hw : m₁.word d (Mem.dirIx a) = pde m₁ R t (Mem.dirIx a) := by simp [pde, hd]
  unfold Mem.writeVerify
  simp only [hw]
  by_cases hp : Present (pde m₁ R t (Mem.dirIx a))
  swap
  · rw [if_pos hp]
    refine .inr ⟨m₁, rfl, hI, hv, fun _ _ _ _ _ => rfl, fun hq => ?_⟩
    rw [pte, if_neg hp] at hq
    simp at hq
  rw [if_neg (not_not.2 hp), ← pte_eq hp]
  by_cases hq : Present (pte m₁ R t (Mem.dirIx a) (Mem.tabIx a)) ∧ ¬ Rw (pte m₁ R t (Mem.dirIx a) (Mem.tabIx a))
  swap
  · rw [if_neg hq]
    refine .inr ⟨m₁, rfl, hI, hv, fun _ _ _ _ _ => rfl, fun hq' => ?_⟩
    by_contra hr
    exact hq ⟨hq', hr⟩
  rw [if_pos hq]
  rcases hI.unWpPage_spec hhand hi hj hq.1 with hnone | ⟨m₂, hm₂, hI₂, hu⟩
  · exact .inl hnone
  · refine .inr ⟨m₂, hm₂, hI₂, Verified.snoc h hI hv hi hj hq.1 hq.2 hu,
      fun i' j' hi' _ hne => hu.pte t i' j' hi' (fun e => hne e.2), fun _ => ?_⟩
    rcases hu.self with ⟨-, -, e, -⟩ | ⟨new, -, e, -⟩ <;> rw [e]
    · simp
    · rw [rw_entry]

/-- **`verify_area`** below 3 GB: afterwards the pages of the range that are
present are writable, unless the size overflowed; it may run out of pages. -/
theorem verifyArea_spec (h : Inv s m R) (hhand : R.misc .hand = none) {d addr size : Nat} (hd : R.dir t = some d)
    (ha : addr + size ≤ 3221225472) :
    (∃ m', m.verifyArea d addr size = .ok m' ∧ Inv s m' R ∧ Verified m R t m' ∧
      (size + addr % 4096 < 2147483648 → ∀ a, addr ≤ a → a < addr + size →
        Present (pte m' R t (Mem.dirIx a) (Mem.tabIx a)) → Rw (pte m' R t (Mem.dirIx a) (Mem.tabIx a)))) ∨
    ∃ m', m.verifyArea d addr size = .error m' ∧ Inv s m' R ∧ Verified m R t m' := by
  -- Page `q` of the range, by its page number.
  have hpage : ∀ q, q < Mem.verifyPages addr size → addr / 4096 * 4096 + 4096 * q < 3221225472 := by
    intro q hq
    unfold Mem.verifyPages at hq
    simp only at hq
    split at hq <;> omega
  have hloop := Loop.foldlM_range_or (n := Mem.verifyPages addr size) (s := m) (f := Mem.verifyPage d addr)
    (fun n m' => Inv s m' R ∧ Verified m R t m' ∧ ∀ q, q < n →
      Present (pte m' R t ((addr / 4096 + q) / 1024) ((addr / 4096 + q) % 1024)) →
        Rw (pte m' R t ((addr / 4096 + q) / 1024) ((addr / 4096 + q) % 1024)))
    (fun m' => Inv s m' R ∧ Verified m R t m') ⟨h, Verified.refl, by omega⟩ ?_
  · unfold Mem.verifyArea
    rcases hloop with ⟨m', hm', hI, hv, hrw⟩ | ⟨m', hm', hI, hv⟩
    · refine .inl ⟨m', hm', hI, hv, fun hsz a h₁ h₂ => ?_⟩
      have hq : a / 4096 - addr / 4096 < Mem.verifyPages addr size := by
        unfold Mem.verifyPages
        simp only
        rw [if_pos hsz]
        omega
      have := hrw _ hq
      rwa [show addr / 4096 + (a / 4096 - addr / 4096) = a / 4096 by omega,
        show a / 4096 / 1024 = Mem.dirIx a by unfold Mem.dirIx; omega] at this
    · exact .inr ⟨m', hm', hI, hv⟩
  · intro q m₁ hq ⟨hI, hv, hrw⟩
    have hlt := hpage q hq
    have hdi : Mem.dirIx (addr / 4096 * 4096 + 4096 * q) = (addr / 4096 + q) / 1024 := by unfold Mem.dirIx; omega
    have hti : Mem.tabIx (addr / 4096 * 4096 + 4096 * q) = (addr / 4096 + q) % 1024 := by unfold Mem.tabIx; omega
    rcases writeVerify_spec h hI hv hhand hd hlt with hnone | ⟨m₂, hm₂, hI₂, hv₂, hkeep, hself⟩
    · exact .inr ⟨m₁, by rw [Mem.verifyPage, hnone], hI, hv⟩
    · refine .inl ⟨m₂, by rw [Mem.verifyPage, hm₂], hI₂, hv₂, fun q' hq' => ?_⟩
      rw [hdi, hti] at hkeep hself
      by_cases he : q' = q
      · subst he; exact hself
      · have hq'' : q' < q := by omega
        have hlt' := hpage q' (by omega)
        rw [hkeep _ _ (by omega) (by omega) (by omega)]
        exact hrw q' hq''

/-! ## Pages brought in -/

/-- Entry `(i, j)` of task `t` has become `w`, in a table that may be new;
nothing else has changed. -/
structure Placed (m : Mem) (R : Roots) (t : Fin 64) (i j w : Nat) (m' : Mem) : Prop where
  low : m'.low = m.low
  high : m'.high = m.high
  pde : ∀ u i', ¬ (u = t ∧ i' = i) → pde m' R u i' = pde m R u i'
  present : Present (Mm.pde m' R t i)
  pte : ∀ u i' j', i' < 768 → pte m' R u i' j' = if u = t ∧ i' = i ∧ j' = j then w else pte m R u i' j'
  data : KeepData m R m'

theorem putPage_spec (h : Inv s m R) (hhand : R.misc .hand = none) {x : Misc} {n d a : Nat} (hx : R.misc x = some n)
    (hd : R.dir t = some d) (hi : Mem.dirIx a < 768) (hq : ¬ Present (pte m R t (Mem.dirIx a) (Mem.tabIx a))) :
    m.putPage d n a = none ∨ ∃ m', m.putPage d n a = some m' ∧ Inv s m' (R.setMisc x none) ∧
      Placed m R t (Mem.dirIx a) (Mem.tabIx a) (entry n 103) m' := by
  generalize hdi : Mem.dirIx a = i at *
  generalize htj : Mem.tabIx a = j at *
  have hj : j < 1024 := by
    rw [← htj]
    exact Nat.mod_lt _ (by omega)
  have hw : m.word d i = pde m R t i := by simp [pde, hd]
  have hent : ent (entry n 103) = some n := ent_entry (by omega) rfl
  unfold Mem.putPage
  simp only [hdi, htj, hw]
  by_cases hp : Present (pde m R t i)
  · rw [if_pos hp]
    refine .inr ⟨_, rfl, h.movePte hi hj hp hq hx hent, rfl, rfl, fun u i' _ => h.pde_setTable hi hp j _ u i', ?_,
      fun u i' j' hi' => h.pte_setTable hi hp j _ u hi' j', ?_⟩
    · rw [h.pde_setTable hi hp]; exact hp
    · intro n' k _ _ hn'
      rw [Mem.set_word, if_neg]
      rintro ⟨rfl, -⟩
      exact hn' (isTable_pde hi hp)
  rw [if_neg hp]
  cases hg : m.getFreePage with
  | none => exact .inl rfl
  | some y =>
    obtain ⟨tn, m₁⟩ := y
    obtain ⟨h0, rfl⟩ := Mem.getFreePage_some hg
    obtain ⟨hI₁, hP₁, hQ₁, hK₁⟩ := h.addTable hhand hd hi hp h0
    have hself : pde ((m.claim tn).set d i (entry tn 39)) R t i = entry tn 39 := by rw [hP₁, if_pos ⟨rfl, rfl⟩]
    have hfr : frame (pde ((m.claim tn).set d i (entry tn 39)) R t i) = tn := by rw [hself, frame_entry (by omega)]
    have hp₁ : Present (pde ((m.claim tn).set d i (entry tn 39)) R t i) := by rw [hself, present_entry]
    have hI₂ := hI₁.movePte hi hj hp₁ (by rw [hQ₁ t i j hi]; exact hq) hx hent
    have hP₂ := hI₁.pde_setTable hi hp₁ j (entry n 103)
    have hQ₂ := fun u (i' : Nat) (hi' : i' < 768) j' => hI₁.pte_setTable hi hp₁ j (entry n 103) u hi' j'
    rw [hfr] at hI₂ hP₂ hQ₂
    refine .inr ⟨_, rfl, hI₂, rfl, rfl, fun u i' hne => ?_, ?_, fun u i' j' hi' => ?_, fun n' k hM hne hn' => ?_⟩
    · rw [hP₂, hP₁, if_neg hne]
    · rw [hP₂]; exact hp₁
    · rw [hQ₂ u i' hi' j']
      split
      · rfl
      · exact hQ₁ u i' j' hi'
    · rw [Mem.set_word, if_neg]
      · exact hK₁ n' k hM hne hn'
      · rintro ⟨rfl, -⟩
        exact hne h0

/-- How a handler that may run out of pages ends. -/
def Ends (P Q : Mem → Prop) : Mem.Outcome → Prop
  | .done m => P m
  | .oom m => Q m

/-- No table has changed, and no data. -/
structure Intact (m : Mem) (R : Roots) (m' : Mem) : Prop where
  low : m'.low = m.low
  high : m'.high = m.high
  pde : ∀ u i, pde m' R u i = pde m R u i
  pte : ∀ u i j, i < 768 → pte m' R u i j = pte m R u i j
  data : KeepData m R m'

theorem Intact.refl : Intact m R m := ⟨rfl, rfl, fun _ _ => rfl, fun _ _ _ _ => rfl, KeepData.refl⟩

theorem getEmptyPage_spec (h : Inv s m R) (hhand : R.misc .hand = none) (hpage : R.misc .page = none) {d a : Nat}
    (hd : R.dir t = some d) (hi : Mem.dirIx a < 768) (hq : ¬ Present (pte m R t (Mem.dirIx a) (Mem.tabIx a))) :
    ∃ o, m.getEmptyPage d a = .ok o ∧ Ends
      (fun m' => Inv s m' R ∧ ∃ n, m.map n = 0 ∧
        Placed m R t (Mem.dirIx a) (Mem.tabIx a) (entry n 103) m' ∧ ∀ k, m'.word n k = 0)
      (fun m' => Inv s m' R ∧ Intact m R m') o := by
  unfold Mem.getEmptyPage
  cases hg : m.getFreePage with
  | none =>
    simp only [h.freePage_zero, bind, Except.bind]
    exact ⟨_, rfl, h, Intact.refl⟩
  | some y =>
    obtain ⟨n, m₁⟩ := y
    obtain ⟨h0, rfl⟩ := Mem.getFreePage_some hg
    have hkeep := h.claim_keep h0
    have hI₁ := h.claim h0 hpage
    have hP₁ : ∀ u i', pde (m.claim n) R u i' = pde m R u i' := pde_keep rfl hkeep
    have hQ₁ : ∀ u i' j', i' < 768 → pte (m.claim n) R u i' j' = pte m R u i' j' :=
      fun u i' j' hi' => pte_keep rfl hkeep u hi' j'
    have hT₁ : ∀ f, IsTable (m.claim n) (R.setMisc .page (some n)) f ↔ IsTable m R f := by
      intro f
      simp only [IsTable, Roots.setMisc_dir, pde_setMisc, hP₁]
    have hMn : m.Managed n := h.managed_of_map_lt (by omega)
    have hput := hI₁.putPage_spec (t := t) (x := .page) (n := n) (d := d) (a := a) (by simpa using hhand) (by simp) hd hi
      (by rw [pte_setMisc, hQ₁ _ _ _ hi]; exact hq)
    simp only
    rcases hput with hnone | ⟨m', hm', hI', hpl⟩
    · rw [hnone]
      have hfree := hI₁.freePage_managed (n := n) hMn (by simp [Mem.claim])
      have hrel := hI₁.release (x := .page) (n := n) (by simp)
      rw [R.setMisc_none hpage] at hrel
      simp only [hfree, bind, Except.bind]
      exact ⟨_, rfl, hrel, rfl, rfl, hP₁, hQ₁, h.keepData_claim h0⟩
    · rw [hm']
      rw [R.setMisc_none hpage] at hI'
      refine ⟨_, rfl, hI', n, h0, ⟨hpl.low, hpl.high, fun u i' hne => ?_, hpl.present, fun u i' j' hi' => ?_,
        fun n' k hM hne hn' => ?_⟩, fun k => ?_⟩
      · have := hpl.pde u i' hne
        rwa [pde_setMisc, pde_setMisc, hP₁] at this
      · have := hpl.pte u i' j' hi'
        rwa [pte_setMisc, pte_setMisc, hQ₁ u i' j' hi'] at this
      · have hnn : n' ≠ n := by rintro rfl; exact hne h0
        rw [hpl.data n' k hM (by simp [Mem.claim, hnn, hne]) (by rw [hT₁]; exact hn')]
        exact h.keepData_claim h0 n' k hM hne hn'
      · rw [hpl.data n k hMn (by simp [Mem.claim]) (by rw [hT₁]; exact h.not_isTable_of_free hMn h0)]
        simp

/-! ## Sharing -/

/-- The stores of `try_to_share` once the destination table `T` is there: the
source entry `j` of table `F` and the new entry read-only, one more reference. -/
def shareStores (m : Mem) (F T j : Nat) : Mem :=
  ((m.set F j (clearRw (m.word F j))).set T j (clearRw (m.word F j))).setMap (frame (m.word F j))
    (m.map (frame (m.word F j)) + 1)

/-- What sharing entry `(i, j)` of the tables under `src` with task `t` does;
`v` is the task the entry is taken from, if it has tables of its own. -/
structure Shared (m : Mem) (R : Roots) (t : Fin 64) (v : Option (Fin 64)) (src i j : Nat) (m' : Mem) : Prop where
  low : m'.low = m.low
  high : m'.high = m.high
  pde : ∀ u i', ¬ (u = t ∧ i' = i) → pde m' R u i' = pde m R u i'
  present : Present (Mm.pde m' R t i)
  clean : Present (m.walk src i j) ∧ ¬ Dirty (m.walk src i j) ∧ m.Managed (frame (m.walk src i j))
  new : ent (pte m' R t i j) = some (frame (m.walk src i j)) ∧ ¬ Rw (pte m' R t i j)
  pte : ∀ u i' j', i' < 768 → ¬ (u = t ∧ i' = i ∧ j' = j) → pte m' R u i' j' =
    if some u = v ∧ i' = i ∧ j' = j then clearRw (pte m R u i' j') else pte m R u i' j'
  data : KeepData m R m'

/-- Sharing from a task's own table. -/
theorem shareStores_own {v : Fin 64} (h : Inv s m R) (hvt : v ≠ t) (hi : i < 768) (hj : j < 1024)
    (hq : Present (pte m R v i j)) (hp : Present (pde m R t i)) (hfree : ¬ Present (pte m R t i j))
    (hM : m.Managed (frame (pte m R v i j))) :
    Inv s (shareStores m (frame (pde m R v i)) (frame (pde m R t i)) j) R ∧
      (∀ u i', pde (shareStores m (frame (pde m R v i)) (frame (pde m R t i)) j) R u i' = pde m R u i') ∧
      (∀ u i' j', i' < 768 → pte (shareStores m (frame (pde m R v i)) (frame (pde m R t i)) j) R u i' j' =
        if (u = t ∨ u = v) ∧ i' = i ∧ j' = j then clearRw (pte m R v i j) else pte m R u i' j') ∧
      KeepData m R (shareStores m (frame (pde m R v i)) (frame (pde m R t i)) j) := by
  have hpv := present_pde hq
  have hw : m.word (frame (pde m R v i)) j = pte m R v i j := (pte_eq hpv j).symm
  have hs := h.shareEntry hvt hi hj hq hp hfree hM
  have h₁ := h.flagPte (w := clearRw (pte m R v i j)) hi hj hq (by simp) (fun hr => absurd hr (by simp))
  have hP₁ := h.pde_setTable hi hpv j (clearRw (pte m R v i j))
  unfold shareStores
  rw [hw]
  refine ⟨hs, fun u i' => ?_, fun u i' j' hi' => ?_, fun n k _ _ hn => ?_⟩
  · have e := h₁.pde_setTable hi (by rw [hP₁]; exact hp) j (clearRw (pte m R v i j)) u i'
    rwa [hP₁, hP₁] at e
  · have e := h₁.pte_setTable hi (by rw [hP₁]; exact hp) j (clearRw (pte m R v i j)) u hi' j'
    rw [hP₁] at e
    rw [pte_setMap, e, h.pte_setTable hi hpv j _ u hi']
    by_cases hij : i' = i ∧ j' = j
    · by_cases hu : u = t <;> by_cases hv : u = v <;> simp [hij, hu, hv]
    · rw [if_neg (fun e => hij e.2), if_neg (fun e => hij e.2), if_neg (fun e => hij e.2)]
  · rw [Mem.setMap_word, Mem.set_word, if_neg, Mem.set_word, if_neg]
    · rintro ⟨rfl, -⟩
      exact hn (isTable_pde hi hpv)
    · rintro ⟨rfl, -⟩
      exact hn (isTable_pde hi hp)

/-- Sharing from `pg0`: the frame at the same address, if the kernel has
never stored into it. -/
theorem shareStores_swapper (h : Inv s m R) (hns : ¬ s) (hj : j < 1024) (hp : Present (pde m R t 0))
    (hfree : ¬ Present (pte m R t 0 j)) (hM : m.Managed j)
    (hat : ∀ u i' j', target m R (.pte u i' j') = some j → i'.val = 0 ∧ j'.val = j)
    (hheld : ∀ x, R.misc x ≠ some j) :
    Inv s (shareStores m 1 (frame (pde m R t 0)) j) R ∧
      (∀ u i', pde (shareStores m 1 (frame (pde m R t 0)) j) R u i' = pde m R u i') ∧
      (∀ u i' j', i' < 768 → pte (shareStores m 1 (frame (pde m R t 0)) j) R u i' j' =
        if u = t ∧ i' = 0 ∧ j' = j then clearRw (m.word 1 j) else pte m R u i' j') ∧
      KeepData m R (shareStores m 1 (frame (pde m R t 0)) j) := by
  obtain ⟨hpr, hfr⟩ := h.swap.pg0 j hj
  have hent : ent (clearRw (m.word 1 j)) = some j := by rw [ent_clearRw, ent_of_present hpr, hfr]
  -- The store into `pg0` touches no task's table.
  have hkeep : ∀ f k, IsTable m R f → (m.set 1 j (clearRw (m.word 1 j))).word f k = m.word f k := by
    intro f k hf
    rw [Mem.set_word, if_neg]
    rintro ⟨rfl, -⟩
    exact h.not_isTable_of_unmanaged (h.not_managed_lt (by omega)) hf
  have hT : target (m.set 1 j (clearRw (m.word 1 j))) R = target m R := by
    funext r
    rw [target_keep rfl hkeep r]
    cases r <;> rfl
  have hP : ∀ u i', pde (m.set 1 j (clearRw (m.word 1 j))) R u i' = pde m R u i' := pde_keep rfl hkeep
  have hQ : ∀ u i' j', i' < 768 → pte (m.set 1 j (clearRw (m.word 1 j))) R u i' j' = pte m R u i' j' :=
    fun u i' j' hi' => pte_keep rfl hkeep u hi' j'
  have h₁ : Inv s (m.set 1 j (clearRw (m.word 1 j))) R := by
    refine h.reroot rfl rfl rfl hkeep (fun k => by simp [Mem.set_word]) (fun k _ => ?_) (fun x n hx => .inl ⟨x, hx⟩)
      h.map_used (by rw [hT]; exact h.sound) (by rw [hT]; exact h.exact)
    rw [Mem.set_word]
    split
    · rename_i he
      rw [he.2]
      simp
    · exact ⟨rfl, id⟩
  have hp₁ : Present (pde (m.set 1 j (clearRw (m.word 1 j))) R t 0) := by rw [hP]; exact hp
  have hs := h₁.sharePte (w := clearRw (m.word 1 j)) (n := j) (by omega) hj hp₁
    (by rw [hQ t 0 j (by omega)]; exact hfree) hM hent (by simp) (fun u i' j' e => hat u i' j' (by rwa [hT] at e)) hheld
    (fun _ _ => by omega) (fun hs => absurd hs hns)
  have hPs := h₁.pde_setTable (by omega) hp₁ j (clearRw (m.word 1 j))
  have hQs := fun u (i' : Nat) (hi' : i' < 768) j' =>
    h₁.pte_setTable (by omega) hp₁ j (clearRw (m.word 1 j)) u hi' j'
  rw [hP] at hs hPs hQs
  unfold shareStores
  rw [hfr]
  refine ⟨hs, fun u i' => ?_, fun u i' j' hi' => ?_, fun n k hMn _ hn => ?_⟩
  · rw [pde_setMap, hPs, hP]
  · rw [pte_setMap, hQs u i' hi' j', hQ u i' j' hi']
  · rw [Mem.setMap_word, Mem.set_word, if_neg, Mem.set_word, if_neg]
    · rintro ⟨rfl, -⟩
      exact h.not_managed_lt (by omega) hMn
    · rintro ⟨rfl, -⟩
      exact hn (isTable_pde (by omega) hp)

theorem shareEntry_eq {F T n : Nat} (hfree : ¬ Present (m.word T j)) (hn : frame (m.word F j) = n)
    (hlt : m.map n < 128) : m.shareEntry F T j n = .ok (shareStores m F T j, true) := by
  unfold Mem.shareEntry shareStores
  rw [if_neg hfree]
  simp [hn, Nat.mod_eq_of_lt (show m.map n + 1 < 256 by omega)]

/-- Where a page is shared from: a task's own tables, or `swapper_pg_dir` for
a task inside `do_exit`. -/
def SharedFrom (R : Roots) (t : Fin 64) (v : Option (Fin 64)) (src : Nat) : Prop :=
  match v with
  | some v => v ≠ t ∧ R.dir v = some src
  | none => src = 0

/-- The table of the current task for the shared entry, made if there is none. -/
theorem shareTable (h : Inv s m R) (hhand : R.misc .hand = none) {d : Nat} (hd : R.dir t = some d) (hi : i < 768)
    {x : Except Panic (Mem × Bool)} {F n : Nat}
    (hx : x = if Present (m.word d i) then m.shareEntry F (frame (m.word d i)) j n
      else match m.getFreePage with
        | none => .ok (m, false)
        | some (tn, m) => (m.set d i (entry tn 39)).shareEntry F tn j n) :
    x = .ok (m, false) ∨ ∃ m', x = m'.shareEntry F (frame (pde m' R t i)) j n ∧ Inv s m' R ∧ m'.low = m.low ∧
      m'.high = m.high ∧ Present (pde m' R t i) ∧ (∀ u i', ¬ (u = t ∧ i' = i) → pde m' R u i' = pde m R u i') ∧
      (∀ u i' j', i' < 768 → pte m' R u i' j' = pte m R u i' j') ∧ KeepData m R m' ∧
      ∀ n', m.map n' ≠ 0 → m'.map n' ≠ 0 ∧ (IsTable m' R n' → IsTable m R n') := by
  have hw : m.word d i = pde m R t i := by simp [pde, hd]
  rw [hw] at hx
  by_cases hp : Present (pde m R t i)
  · rw [if_pos hp] at hx
    exact .inr ⟨m, hx, h, rfl, rfl, hp, fun _ _ _ => rfl, fun _ _ _ _ => rfl, KeepData.refl, fun _ h => ⟨h, id⟩⟩
  rw [if_neg hp] at hx
  cases hg : m.getFreePage with
  | none =>
    rw [hg] at hx
    exact .inl hx
  | some y =>
    obtain ⟨tn, m₁⟩ := y
    obtain ⟨h0, rfl⟩ := Mem.getFreePage_some hg
    rw [hg] at hx
    obtain ⟨hI₁, hP₁, hQ₁, hK₁⟩ := h.addTable hhand hd hi hp h0
    have hself : pde ((m.claim tn).set d i (entry tn 39)) R t i = entry tn 39 := by rw [hP₁, if_pos ⟨rfl, rfl⟩]
    refine .inr ⟨_, ?_, hI₁, rfl, rfl, by rw [hself, present_entry], fun u i' hne => by rw [hP₁, if_neg hne], hQ₁, hK₁, ?_⟩
    · rw [hx, hself, frame_entry (by omega)]
    · intro n' hn'
      have hne : n' ≠ tn := by rintro rfl; exact hn' h0
      refine ⟨by simpa [Mem.claim, hne] using hn', ?_⟩
      rintro (hu | ⟨u, i', hi', hu⟩)
      · exact .inl hu
      · rw [hP₁] at hu
        split at hu
        · rw [ent_entry (by omega) rfl, Option.some.injEq] at hu
          exact absurd hu.symm hne
        · exact .inr ⟨u, i', hi', hu⟩

/-- **`try_to_share`** never panics. It fails and changes nothing, or maps
the clean page at `a` under `src` into the tables of `t`, both read-only.
Sharing from `swapper_pg_dir` is the one step that can break `s`. -/
theorem tryToShare_spec (h : Inv s m R) (hhand : R.misc .hand = none) {v : Option (Fin 64)} {d src a : Nat}
    (hd : R.dir t = some d) (hsrc : SharedFrom R t v src) (hi : Mem.dirIx a < 768)
    (hq : ¬ Present (pte m R t (Mem.dirIx a) (Mem.tabIx a)))
    (hns : s → v = none → ∀ m', m.tryToShare d src a ≠ .ok (m', true)) :
    m.tryToShare d src a = .ok (m, false) ∨ ∃ m', m.tryToShare d src a = .ok (m', true) ∧ Inv s m' R ∧
      Shared m R t v src (Mem.dirIx a) (Mem.tabIx a) m' := by
  generalize hx : m.tryToShare d src a = x at hns ⊢
  unfold Mem.tryToShare at hx
  generalize hdi : Mem.dirIx a = i at *
  generalize htj : Mem.tabIx a = j at *
  have hj : j < 1024 := by
    rw [← htj]
    exact Nat.mod_lt _ (by omega)
  simp only at hx
  by_cases hdir : Present (m.word src i)
  swap
  · rw [if_pos hdir] at hx
    exact .inl hx.symm
  rw [if_neg (not_not.2 hdir)] at hx
  by_cases hph : Present (m.word (frame (m.word src i)) j) ∧ ¬ Dirty (m.word (frame (m.word src i)) j)
  swap
  · rw [if_pos hph] at hx
    exact .inl hx.symm
  rw [if_neg (not_not.2 hph)] at hx
  by_cases hhi : m.high ≤ frame (m.word (frame (m.word src i)) j)
  · rw [if_pos hhi] at hx
    exact .inl hx.symm
  rw [if_neg hhi] at hx
  by_cases hu : m.Used (frame (m.word (frame (m.word src i)) j))
  · rw [if_pos hu] at hx
    exact .inl hx.symm
  rw [if_neg hu] at hx
  have hM : m.Managed (frame (m.word (frame (m.word src i)) j)) := by rw [h.used_iff] at hu; exact not_not.1 hu
  have hwalk : m.walk src i j = m.word (frame (m.word src i)) j := by
    unfold Mem.walk
    rw [if_pos hdir]
  rcases h.shareTable hhand hd hi hx.symm with hf | ⟨m', hx', hI', hl', hh', hp', hP', hQ', hK', hmap'⟩
  · exact .inl hf
  have hMc := managed_congr hl' hh'
  have hw' : m'.word (frame (pde m' R t i)) j = pte m' R t i j := (pte_eq hp' j).symm
  have hfree : ¬ Present (m'.word (frame (pde m' R t i)) j) := by rw [hw', hQ' t i j hi]; exact hq
  have hdata : ∀ m'', KeepData m' R m'' → KeepData m R m'' := by
    intro m'' hK n k hMn hn hnt
    obtain ⟨hn', ht'⟩ := hmap' n hn
    rw [hK n k ((hMc n).2 hMn) hn' (fun e => hnt (ht' e)), hK' n k hMn hn hnt]
  cases v with
  | some v =>
    obtain ⟨hvt, hv⟩ := hsrc
    have hwv : m.word src i = pde m R v i := by simp [pde, hv]
    have hpv : Present (pde m R v i) := by rw [← hwv]; exact hdir
    have hPv : pde m' R v i = pde m R v i := hP' v i (fun e => hvt e.1)
    rw [hwv, ← pte_eq hpv] at hph hM hwalk hx'
    have hqv : Present (pte m' R v i j) := by rw [hQ' v i j hi]; exact hph.1
    have hMv : m'.Managed (frame (pte m' R v i j)) := by rw [hQ' v i j hi, hMc]; exact hM
    obtain ⟨hIs, hPs, hQs, hKs⟩ := hI'.shareStores_own hvt hi hj hqv hp' (by rw [hQ' t i j hi]; exact hq) hMv
    have hwF : m'.word (frame (pde m R v i)) j = pte m R v i j := by
      rw [← hPv, ← pte_eq (present_pde hqv), hQ' v i j hi]
    have hlt := hI'.map_lt hMv
    rw [hQ' v i j hi] at hlt
    rw [hPv] at hIs hPs hQs hKs
    simp only [hQ' v i j hi] at hQs
    rw [hx', shareEntry_eq hfree (by rw [hwF]) hlt]
    refine .inr ⟨_, rfl, hIs, hl', hh', fun u i' hne => ?_, ?_, ?_, ?_, fun u i' j' hi' hne => ?_, hdata _ hKs⟩
    · rw [hPs, hP' u i' hne]
    · rw [hPs]; exact hp'
    · rw [hwalk]; exact ⟨hph.1, hph.2, hM⟩
    · rw [hwalk, hQs t i j hi, if_pos ⟨.inl rfl, rfl, rfl⟩, ent_clearRw]
      exact ⟨ent_of_present hph.1, by simp⟩
    · rw [hQs u i' j' hi', hQ' u i' j' hi']
      by_cases hu : u = v ∧ i' = i ∧ j' = j
      · obtain ⟨rfl, rfl, rfl⟩ := hu
        rw [if_pos ⟨.inr rfl, rfl, rfl⟩, if_pos ⟨rfl, rfl, rfl⟩]
      · rw [if_neg, if_neg]
        · exact fun e => hu ⟨Option.some.inj e.1, e.2⟩
        · rintro ⟨rfl | rfl, e⟩
          · exact hne ⟨rfl, e⟩
          · exact hu ⟨rfl, e⟩
  | none =>
    obtain rfl : src = 0 := hsrc
    -- Below 3 GB, `swapper_pg_dir` has one table, `pg0`.
    have hi0 : i = 0 := by
      by_contra hi0
      rw [h.swap.user i (by omega) hi] at hdir
      simp at hdir
    subst hi0
    rw [h.swap.dir0.2] at hph hM hwalk hx'
    have hfr := (h.swap.pg0 j hj).2
    have hfr' := (hI'.swap.pg0 j hj).2
    rw [hfr] at hM hx'
    have hMj' : m'.Managed j := (hMc j).2 hM
    have hclean := h.clean j hM hj hph.2
    rw [shareEntry_eq hfree hfr' (hI'.map_lt hMj')] at hx'
    have hs : ¬ s := fun hs => hns hs rfl _ hx'
    obtain ⟨hIs, hPs, hQs, hKs⟩ := hI'.shareStores_swapper hs hj hp' (by rw [hQ' t 0 j hi]; exact hq) hMj'
      (fun u i' j' e => by
        have hat : i'.val * 1024 + j'.val = j := hclean (.pte u i' j') (by
          simp only [target, hQ' u i' j' i'.2] at e
          exact e)
        omega)
      (fun x hx => hclean (.misc x) hx)
    rw [hx']
    refine .inr ⟨_, rfl, hIs, hl', hh', fun u i' hne => ?_, ?_, ?_, ?_, fun u i' j' hi' hne => ?_, hdata _ hKs⟩
    · rw [hPs, hP' u i' hne]
    · rw [hPs]; exact hp'
    · rw [hwalk, hfr]; exact ⟨hph.1, hph.2, hM⟩
    · rw [hwalk, hfr, hQs t 0 j hi, if_pos ⟨rfl, rfl, rfl⟩, ent_clearRw, ent_of_present (hI'.swap.pg0 j hj).1, hfr']
      exact ⟨rfl, by simp⟩
    · rw [hQs u i' j' hi', if_neg hne, hQ' u i' j' hi', if_neg (by simp)]

/-! ## Sharing out of `pg0` -/

/-- Nothing is shared from a table entry that is absent, or dirty. -/
theorem tryToShare_of_not {d src a : Nat}
    (h : ¬ (Present (m.walk src (Mem.dirIx a) (Mem.tabIx a)) ∧ ¬ Dirty (m.walk src (Mem.dirIx a) (Mem.tabIx a)))) :
    m.tryToShare d src a = .ok (m, false) := by
  unfold Mem.tryToShare
  simp only
  unfold Mem.walk at h
  split
  · rfl
  rename_i hp
  rw [if_pos (not_not.1 hp)] at h
  rw [if_pos h]

/-- The stores of `try_to_share` with the entry of `pg0` for frame `n`. -/
theorem shareStores_pg0 {b c n T : Nat} (hb : Spare m b) (hfr : frame (m.word 1 n) = n) (hT : T ≠ 1) (hbc : b ≤ c)
    (hn : n < c) (hcl : ¬ Dirty (m.word 1 n)) :
    (shareStores m 1 T n).map n = m.map n + 1 ∧ ¬ Dirty ((shareStores m 1 T n).word 1 n) ∧
      Spare (shareStores m 1 T n) c := by
  unfold shareStores
  rw [hfr]
  refine ⟨by simp, ?_, ?_⟩
  · rw [Mem.setMap_word, Mem.set_word, if_neg (fun e => hT e.1.symm), Mem.set_word_self]
    simpa using hcl
  · exact ((((hb.mono hbc).setClearRw).set hT).setMap (.inr hn))

/-- **A page of `pg0`**, clean and known to the allocator, is shared with a task
that has nothing there. -/
theorem tryToShare_swapper {d a n b : Nat} (h : Inv s m R) (hns : ¬ s) (hhand : R.misc .hand = none)
    (hd : R.dir t = some d) (hi : Mem.dirIx a = 0) (hj : Mem.tabIx a = n) (hn : n < 1024)
    (hq : ¬ Present (pte m R t 0 n)) (hM : m.Managed n) (hcl : ¬ Dirty (m.word 1 n)) (hb : Spare m b)
    (hroom : b < m.high) (hbn : b < n ∨ m.map n ≠ 0) :
    ∃ m', m.tryToShare d 0 a = .ok (m', true) ∧ Shared m R t none 0 0 n m' ∧ m'.map n = m.map n + 1 ∧
      ¬ Dirty (m'.word 1 n) ∧ Spare m' (max (b + 1) (n + 1)) := by
  have hpg := h.swap.pg0 n hn
  have hlt := h.map_lt hM
  have h1 : m.map 1 ≠ 0 := by rw [h.map_used 1 (h.not_managed_lt (by omega))]; omega
  have hgo : m.tryToShare d 0 a = if Present (m.word d 0) then m.shareEntry 1 (frame (m.word d 0)) n n
      else match m.getFreePage with
        | none => .ok (m, false)
        | some (tn, m) => (m.set d 0 (entry tn 39)).shareEntry 1 tn n n := by
    unfold Mem.tryToShare
    simp only [hi, hj, h.swap.dir0.2, hpg.2]
    refine (if_neg (not_not.2 h.swap.dir0.1)).trans ((if_neg (not_not.2 ⟨hpg.1, hcl⟩)).trans ?_)
    exact (if_neg (not_le.2 hM.2)).trans (if_neg (by rw [h.used_iff]; exact not_not.2 hM))
  have hd1 : d ≠ 1 := by rintro rfl; exact h.not_managed_lt (by omega) (h.dir_managed hd)
  have hw : m.word d 0 = pde m R t 0 := by simp [pde, hd]
  obtain ⟨m', hm', hmap, hdirty, hsp⟩ : ∃ m', m.tryToShare d 0 a = .ok (m', true) ∧ m'.map n = m.map n + 1 ∧
      ¬ Dirty (m'.word 1 n) ∧ Spare m' (max (b + 1) (n + 1)) := by
    rw [hgo, hw]
    by_cases hp : Present (pde m R t 0)
    · rw [if_pos hp, shareEntry_eq (by rw [← pte_eq hp]; exact hq) hpg.2 hlt]
      refine ⟨_, rfl, shareStores_pg0 hb hpg.2 ?_ (by omega) (by omega) hcl⟩
      intro e
      exact h.not_managed_lt (by omega) (e ▸ h.table_managed (by omega) hp)
    · obtain ⟨tn, hg, htn, h0⟩ := hb.getFreePage hroom h.high_le
      have htn1 : tn ≠ 1 := by rintro rfl; exact h1 h0
      have hne : n ≠ tn := by
        rintro rfl
        rcases hbn with hbn | hbn
        · omega
        · exact hbn h0
      have htd : d ≠ tn := by
        rintro rfl
        have := h.map_pos (h.dir_managed hd) (r := .cr3 t) hd
        omega
      rw [if_neg hp, hg]
      -- The table just made is empty; `pg0` has one more dirty bit, not at `n`.
      have hw1 : ((m.claim tn).set d 0 (entry tn 39)).word 1 n = m.word 1 n := by
        rw [Mem.set_word, if_neg (fun e => hd1 e.1.symm)]
        simp only [Mem.claim]
        rw [if_neg (fun e => htn1 e.symm), if_neg (by omega)]
      have hmapn : ((m.claim tn).set d 0 (entry tn 39)).map n = m.map n := by simp [Mem.claim, hne]
      have hsp := (hb.claim htn htn1).set (k := 0) (v := entry tn 39) hd1
      simp only
      rw [shareEntry_eq (by rw [Mem.set_word, if_neg (fun e => htd e.1.symm), claim_word_self]; exact not_present_zero)
        (by rw [hw1]; exact hpg.2) (by rw [hmapn]; exact hlt)]
      have := shareStores_pg0 (c := max (b + 1) (n + 1)) hsp (by rw [hw1]; exact hpg.2) htn1 (by omega) (by omega)
        (by rw [hw1]; exact hcl)
      rw [hmapn] at this
      exact ⟨_, rfl, this⟩
  refine ⟨m', hm', ?_, hmap, hdirty, hsp⟩
  have hfrom : SharedFrom R t none 0 := rfl
  rcases h.tryToShare_spec (a := a) hhand hd hfrom (by omega) (by rw [hi, hj]; exact hq) (fun hs => absurd hs hns) with hf | ⟨m'', hm'', -, hsh⟩
  · rw [hm'] at hf; simp at hf
  · rw [hm'] at hm''
    simp only [Except.ok.injEq, Prod.mk.injEq, and_true] at hm''
    rwa [← hm'', hi, hj] at hsh

end Inv

end Linux011.Mm
