/-
`copy_page_tables`. A fork gives the child its own directory and tables,
filled with the parent's entries without PAGE_RW; the parent's entries for
managed frames lose PAGE_RW too, so the first write of either side copies.
The undo of a fork that runs out of pages is `free_page_tables`, which sees
the tables of the child as it sees those of any task.
-/
import Linux011.Mm.Free
import Linux011.Mm.Spare

namespace Linux011.Mm

open RefCount

namespace Mem

variable {m m' : Mem} {n : Nat}

theorem getFreePage_some (h : m.getFreePage = some (n, m')) : m.map n = 0 ∧ m' = m.claim n := by
  unfold getFreePage at h
  rw [Option.map_eq_some_iff] at h
  obtain ⟨i, hi, he⟩ := h
  cases he
  exact ⟨by simpa using List.find?_some hi, rfl⟩

theorem getFreePage_none (h : m.getFreePage = none) (hn : m.low ≤ n) (hn' : n < 4096) : m.map n ≠ 0 := by
  unfold getFreePage at h
  rw [Option.map_eq_none_iff, List.find?_eq_none] at h
  simpa using h n (by simp only [List.mem_range']; exact ⟨n - m.low, by omega, by omega⟩)

end Mem

theorem pte_walk {m : Mem} {R : Roots} {t : Fin 64} {d : Nat} (hd : R.dir t = some d) (i j : Nat) :
    pte m R t i j = m.walk d i j := by
  simp [pte, pde, hd, Mem.walk]

theorem pde_setDir_ne {m : Mem} {R : Roots} {t u : Fin 64} (hu : u ≠ t) (v : Option Nat) (i : Nat) :
    pde m (R.setDir t v) u i = pde m R u i := by
  simp [pde, hu]

theorem pte_setDir_ne {m : Mem} {R : Roots} {t u : Fin 64} (hu : u ≠ t) (v : Option Nat) (i j : Nat) :
    pte m (R.setDir t v) u i j = pte m R u i j := by
  simp [pte, pde_setDir_ne hu]

theorem Roots.setMisc_none (R : Roots) {x : Misc} (hx : R.misc x = none) (v : Option Nat) :
    (R.setMisc x v).setMisc x none = R := by
  cases R
  simp only [Roots.setMisc, Function.update_idem, Roots.mk.injEq, true_and]
  rw [← hx, Function.update_eq_self]

theorem Roots.setDir_none (R : Roots) {t : Fin 64} (ht : R.dir t = none) (v : Option Nat) :
    (R.setDir t v).setDir t none = R := by
  cases R
  simp only [Roots.setDir, Function.update_idem, Roots.mk.injEq, and_true]
  rw [← ht, Function.update_eq_self]

namespace Inv

variable {s : Prop} {m : Mem} {R : Roots} {p t : Fin 64} {i j : Nat}

/-! ## One table -/

/-- Where `copy_page_tables` reads the entries of table `i`: the table of the
forking task `p`, or `pg0`, of which task 0's fork reads 160 entries. -/
def Source (m : Mem) (R : Roots) (p t : Fin 64) (i f pageCount : Nat) : Prop :=
  (p ≠ t ∧ Present (pde m R p i) ∧ f = frame (pde m R p i) ∧ pageCount = 1024) ∨ (f = 1 ∧ pageCount = 160)

/-- What the loop over the entries of a table has done after `j` of them. -/
structure Copied (s : Prop) (m₁ : Mem) (R : Roots) (p t : Fin 64) (i f j : Nat) (m : Mem) : Prop where
  inv : Inv s m R
  low : m.low = m₁.low
  high : m.high = m₁.high
  pde : ∀ u i', pde m R u i' = pde m₁ R u i'
  new : ∀ j', j' < 1024 → pte m R t i j' = if j' < j then clearRw (m₁.word f j') else 0
  todo : ∀ j', j ≤ j' → m.word f j' = m₁.word f j'
  other : ∀ u i' j', i' < 768 → j' < 1024 → ¬ (u = t ∧ i' = i) → pte m R u i' j' = pte m₁ R u i' j' ∨
    u = p ∧ i' = i ∧ m₁.Managed (frame (pte m₁ R u i' j')) ∧ pte m R u i' j' = clearRw (pte m₁ R u i' j')
  word : ∀ f' k, f' ≠ f → f' ≠ frame (Mm.pde m₁ R t i) → m.word f' k = m₁.word f' k
  marked : Marked m₁ m
  spare : ∀ b, Spare m₁ b → Spare m b

theorem managed_congr {m m' : Mem} (hl : m'.low = m.low) (hh : m'.high = m.high) (n : Nat) :
    m'.Managed n ↔ m.Managed n := by
  simp only [Mem.Managed, hl, hh]

/-- The copy of one entry that maps a managed frame: both entries read-only,
one more reference. -/
theorem shareEntry (h : Inv s m R) (hpt : p ≠ t) (hi : i < 768) (hj : j < 1024)
    (hq : Present (pte m R p i j)) (hpt' : Present (pde m R t i)) (hfree : ¬ Present (pte m R t i j))
    (hM : m.Managed (frame (pte m R p i j))) :
    Inv s (((m.set (frame (pde m R p i)) j (clearRw (pte m R p i j))).set (frame (pde m R t i)) j
      (clearRw (pte m R p i j))).setMap (frame (pte m R p i j)) (m.map (frame (pte m R p i j)) + 1)) R := by
  have hp := present_pde hq
  have h₁ := h.flagPte (w := clearRw (pte m R p i j)) hi hj hq (by simp) (fun hr => absurd hr (by simp))
  have hP := h.pde_setTable hi hp j (clearRw (pte m R p i j))
  have hQ := fun u (i' : Nat) (hi' : i' < 768) j' =>
    h.pte_setTable hi hp j (clearRw (pte m R p i j)) u hi' j'
  have hself : pte (m.set (frame (pde m R p i)) j (clearRw (pte m R p i j))) R p i j = clearRw (pte m R p i j) := by
    rw [hQ p i hi j, if_pos ⟨rfl, rfl, rfl⟩]
  have hT : target (m.set (frame (pde m R p i)) j (clearRw (pte m R p i j))) R (.pte p ⟨i, hi⟩ ⟨j, hj⟩) =
      some (frame (pte m R p i j)) := by
    simp only [target, hself, ent_clearRw]
    exact ent_of_present hq
  rw [← hP t i]
  refine h₁.sharePte hi hj (by rw [hP]; exact hpt') ?_ hM (by simp [ent_of_present hq]) (by simp) ?_ ?_ ?_ ?_
  · rw [hQ t i hi j, if_neg (fun e => hpt e.1.symm)]
    exact hfree
  · intro u i' j' e
    obtain ⟨e₁, e₂⟩ := h₁.sound.addr _ _ _ _ _ _ _ hM e hT
    exact ⟨congrArg Fin.val e₁, congrArg Fin.val e₂⟩
  · exact fun x => h₁.held _ x _ (by simp) hT
  · intro hn hd
    exact h₁.clean _ hM hn hd _ hT
  · intro hs r hr
    cases r with
    | pte u i' j' =>
      refine ⟨u, i', j', rfl, fun hrw => ?_⟩
      have := h₁.rwOne hs u i' j' hrw _ hr _ hT
      cases this
      rw [hself] at hrw
      exact absurd hrw (by simp)
    | _ => exact absurd hr (h₁.sep hs _ _ _ (by simp) (by simp) hT)

theorem copyEntry_spec {m₁ : Mem} {f pageCount : Nat} (hi : i < 768) (hpt : Present (pde m₁ R t i))
    (hsrc : Source m₁ R p t i f pageCount) (hne : f ≠ frame (pde m₁ R t i)) (hj : j < pageCount)
    (h : Copied s m₁ R p t i f j m) :
    Copied s m₁ R p t i f (j + 1) (Mem.copyEntry f (frame (pde m₁ R t i)) m j) := by
  have hI := h.inv
  have hj' : j < 1024 := by rcases hsrc with ⟨-, -, -, rfl⟩ | ⟨-, rfl⟩ <;> omega
  have hpt₁ : Present (pde m R t i) := by rw [h.pde]; exact hpt
  have hfree : pte m R t i j = 0 := by rw [h.new j hj', if_neg (by omega)]
  have hMc := managed_congr h.low h.high
  have hw := h.todo j le_rfl
  -- The entry read: 0, or present, with its frame below 4096.
  have hwf : m.word f j = 0 ∨ Present (m.word f j) := by
    rcases hsrc with ⟨-, hp, rfl, -⟩ | ⟨rfl, -⟩
    · rw [← h.pde] at hp ⊢
      rw [← pte_eq hp]
      exact hI.pte_wf p i j hi hj'
    · exact .inr (hI.swap.pg0 j hj').1
  have stay : pte m R t i j = clearRw (m₁.word f j) → Copied s m₁ R p t i f (j + 1) m := by
    intro e
    refine ⟨hI, h.low, h.high, h.pde, fun j' h₁ => ?_, fun j' h₁ => h.todo j' (by omega), h.other, h.word, h.marked,
      h.spare⟩
    by_cases hjj : j' = j
    · subst hjj; rw [e, if_pos (by omega)]
    · rw [h.new j' h₁]
      exact if_congr (by omega) rfl rfl
  unfold Mem.copyEntry
  simp only
  by_cases hz : m.word f j = 0
  · rw [if_pos hz]
    exact stay (by rw [hfree, ← hw, hz]; rfl)
  have hpr := hwf.resolve_left hz
  rw [if_neg hz, if_neg (not_not.2 hpr)]
  rw [← h.pde t i] at hne ⊢
  have hQ := fun w u (i' : Nat) (hi' : i' < 768) j' => hI.pte_setTable hi hpt₁ j w u hi' j'
  have hMt := hI.table_managed hi hpt₁
  have hset : ∀ v, Marked m₁ (m.set (frame (pde m R t i)) j v) := fun v =>
    h.marked.trans (.set hMt) h.low h.high
  have hne1 : frame (pde m R t i) ≠ 1 := by
    intro e
    rw [e] at hMt
    exact hI.not_managed_lt (by omega) hMt
  by_cases hu : m.Used (frame (m.word f j))
  · -- A USED frame: one read-only entry in the child.
    have hnm := (hI.used_iff _).1 hu
    have hlt : frame (m.word f j) < 4096 := by
      rcases hsrc with ⟨-, hp, rfl, -⟩ | ⟨rfl, -⟩
      · rw [← h.pde] at hp hpr hz ⊢
        rw [← pte_eq hp] at hpr ⊢
        exact hI.sound.pte_lt p ⟨i, hi⟩ ⟨j, hj'⟩ _ (ent_of_present hpr)
      · rw [(hI.swap.pg0 j hj').2]; omega
    have hu' : (m.set (frame (pde m R t i)) j (clearRw (m.word f j))).Used (frame (clearRw (m.word f j))) := by
      simpa using hu
    rw [if_pos hu']
    refine ⟨hI.usedPte hi hj' hpt₁ (by rw [hfree]; simp) hnm hlt (by simp [ent_of_present hpr]) (by simp), h.low,
      h.high, fun u i' => ?_, fun j' h₁ => ?_, fun j' h₁ => ?_, fun u i' j' h₁ h₂ h₃ => ?_, fun f' k h₁ h₂ => ?_,
      hset _, fun b hb => (h.spare b hb).set hne1⟩
    · rw [hI.pde_setTable hi hpt₁, h.pde]
    · rw [hQ _ t i hi j']
      by_cases hjj : j' = j
      · subst hjj; rw [if_pos ⟨rfl, rfl, rfl⟩, if_pos (by omega), hw]
      · rw [if_neg (fun e => hjj e.2.2), h.new j' h₁]
        exact if_congr (by omega) rfl rfl
    · rw [Mem.set_word, if_neg (fun e => hne e.1), h.todo j' (by omega)]
    · rw [hQ _ u i' h₁ j', if_neg (fun e => h₃ ⟨e.1, e.2.1⟩)]
      exact h.other u i' j' h₁ h₂ h₃
    · rw [h.pde] at *
      rw [Mem.set_word, if_neg (fun e => h₂ e.1), h.word f' k h₁ h₂]
  · -- A managed frame: the parent's entry becomes read-only too.
    have hM : m.Managed (frame (m.word f j)) := by rw [hI.used_iff] at hu; exact not_not.1 hu
    obtain ⟨hptne, hp, hf, -⟩ : p ≠ t ∧ Present (pde m₁ R p i) ∧ f = frame (pde m₁ R p i) ∧ pageCount = 1024 := by
      rcases hsrc with hs | ⟨rfl, rfl⟩
      · exact hs
      · rw [(hI.swap.pg0 j hj').2] at hM
        exact absurd hM (hI.not_managed_lt (by omega))
    rw [← h.pde] at hp hf
    have hpte : pte m R p i j = m.word f j := by rw [pte_eq hp, hf]
    have hshare := hI.shareEntry hptne hi hj' (by rw [hpte]; exact hpr) hpt₁ (by rw [hfree]; simp)
      (by rw [hpte]; exact hM)
    have hcount : m.map (frame (m.word f j)) < 128 := hI.map_lt hM
    rw [if_neg (by simpa using hu)]
    simp only [frame_clearRw, Mem.set_map, Nat.mod_eq_of_lt (show m.map (frame (m.word f j)) + 1 < 256 by omega)]
    rw [hpte, ← hf] at hshare
    rw [Mem.set_comm _ hne.symm]
    have hQ' : ∀ u i' j', i' < 768 →
        pte (((m.set f j (clearRw (m.word f j))).set (frame (pde m R t i)) j (clearRw (m.word f j))).setMap
          (frame (m.word f j)) (m.map (frame (m.word f j)) + 1)) R u i' j' =
        if u = t ∧ i' = i ∧ j' = j then clearRw (m.word f j) else
          if u = p ∧ i' = i ∧ j' = j then clearRw (m.word f j) else pte m R u i' j' := by
      intro u i' j' hi'
      have h₁ := hI.flagPte (w := clearRw (pte m R p i j)) hi hj' (by rw [hpte]; exact hpr) (by simp)
        (fun hr => absurd hr (by simp))
      have hP := hI.pde_setTable hi hp j (clearRw (m.word f j))
      rw [hpte, ← hf] at h₁
      rw [← hf] at hP
      rw [pte_setMap]
      have e₁ := h₁.pte_setTable hi (by rw [hP]; exact hpt₁) j (clearRw (m.word f j)) u hi' j'
      rw [hP] at e₁
      rw [e₁]
      have e₂ := hI.pte_setTable hi hp j (clearRw (m.word f j)) u hi' j'
      rw [← hf] at e₂
      rw [e₂]
    have hMf : m.Managed f := by rw [hf]; exact hI.table_managed hi hp
    have hf1 : f ≠ 1 := by
      rintro rfl
      exact hI.not_managed_lt (by omega) hMf
    refine ⟨hshare, h.low, h.high, fun u i' => ?_, fun j' h₁ => ?_, fun j' h₁ => ?_, fun u i' j' h₁ h₂ h₃ => ?_,
      fun f' k h₁ h₂ => ?_, ?_, fun b hb => ?_⟩
    · rw [pde_setMap, Mem.set_comm _ hne]
      have hnd : ∀ u, R.dir u ≠ some f := fun u => by rw [hf]; exact hI.table_ne_dir hi hp u
      rw [pde_set, if_neg (fun e => hnd u e.1), hI.pde_setTable hi hpt₁, h.pde]
    · rw [hQ' t i j' hi]
      by_cases hjj : j' = j
      · subst hjj; rw [if_pos ⟨rfl, rfl, rfl⟩, if_pos (by omega), hw]
      · rw [if_neg (fun e => hjj e.2.2), if_neg (fun e => hjj e.2.2), h.new j' h₁]
        exact if_congr (by omega) rfl rfl
    · rw [Mem.setMap_word, Mem.set_word, if_neg (fun e => hne e.1), Mem.set_word, if_neg (by omega),
        h.todo j' (by omega)]
    · rw [hQ' u i' j' h₁, if_neg (fun e => h₃ ⟨e.1, e.2.1⟩)]
      split
      · rename_i hup
        obtain ⟨rfl, rfl, rfl⟩ := hup
        have hold : pte m₁ R u i' j' = m.word f j' := by
          rw [pte_eq (by rw [← h.pde]; exact hp), ← h.pde, ← hf, hw]
        rw [hold]
        exact .inr ⟨rfl, rfl, (hMc _).1 hM, rfl⟩
      · exact h.other u i' j' h₁ h₂ h₃
    · rw [h.pde] at *
      rw [Mem.setMap_word, Mem.set_word, if_neg (fun e => h₂ e.1), Mem.set_word, if_neg (fun e => h₁ e.1),
        h.word f' k h₁ h₂]
    · exact (h.marked.trans (.set hMf) h.low h.high).trans (.set hMt) h.low h.high
    · -- The frame that gains a reference had one.
      refine (((h.spare b hb).set hf1).set hne1).setMap (.inl ?_)
      rw [← hpte] at hpr ⊢
      exact (hI.map_pos (by rw [hpte]; exact hM) (r := .pte p ⟨i, hi⟩ ⟨j, hj'⟩) (ent_of_present hpr)).ne'

/-! ## A fresh table -/

theorem isTable_pde (hi : i < 768) (hp : Present (pde m R t i)) : IsTable m R (frame (pde m R t i)) :=
  .inr ⟨t, i, hi, ent_of_present hp⟩

theorem keepData_claim (h : Inv s m R) {n : Nat} (h0 : m.map n = 0) : KeepData m R (m.claim n) := by
  intro n' k hM hne _
  apply claim_word_of_ne
  · rintro rfl; exact hne h0
  · rintro rfl
    have := (h.managed_of_map_lt (n := n) (by omega)).2
    have := h.high_le
    exact h.not_managed_lt (by omega) hM

/-- A table taken from the free pages and put in place. -/
theorem addTable (h : Inv s m R) (hhand : R.misc .hand = none) {d n : Nat} (hd : R.dir t = some d) (hi : i < 768)
    (hp : ¬ Present (pde m R t i)) (h0 : m.map n = 0) :
    Inv s ((m.claim n).set d i (entry n 39)) R ∧
      (∀ u i', pde ((m.claim n).set d i (entry n 39)) R u i' =
        if u = t ∧ i' = i then entry n 39 else pde m R u i') ∧
      (∀ u i' j', i' < 768 → pte ((m.claim n).set d i (entry n 39)) R u i' j' = pte m R u i' j') ∧
      KeepData m R ((m.claim n).set d i (entry n 39)) := by
  have hkeep := h.claim_keep h0
  have hI₂ := h.claim h0 hhand
  have hP₂ : ∀ u i', pde (m.claim n) R u i' = pde m R u i' := pde_keep rfl hkeep
  obtain ⟨hI₃, hQ₃⟩ := hI₂.newTable (t := t) (w := entry n 39) hd hi (by rw [pde_setMisc, hP₂]; exact hp)
    (show (R.setMisc .hand (some n)).misc .hand = some n by simp) (fun k => by simp) (ent_entry (by omega) rfl)
  rw [R.setMisc_none hhand] at hI₃
  refine ⟨hI₃, fun u i' => ?_, fun u i' j' hi' => ?_, fun n' k hM hne hn => ?_⟩
  · have e := hI₂.pde_setDir (t := t) hd i (entry n 39) u i'
    rwa [pde_setMisc, pde_setMisc, hP₂] at e
  · have e := hQ₃ u i' j' hi'
    rw [pte_setMisc, pte_setMisc] at e
    rw [e, pte_keep rfl hkeep u hi']
  · rw [Mem.set_word, if_neg]
    · exact h.keepData_claim h0 n' k hM hne hn
    · rintro ⟨rfl, -⟩
      exact hn (.inl ⟨t, hd⟩)

/-! ## All tables -/

/-- The directory the forking task `p` runs on, and the entries read from
each table: its own, or for task 0 `swapper_pg_dir`. -/
def Parent (R : Roots) (p t : Fin 64) (old pageCount : Nat) : Prop :=
  (p ≠ t ∧ R.dir p = some old ∧ pageCount = 1024) ∨ (old = 0 ∧ pageCount = 160)

/-- The tables of the user half of directory `d`, up to entry `i`. -/
def tableCount (m : Mem) (d i : Nat) : Nat := (List.range i).countP fun i' => decide (i' < 768 ∧ m.word d i' ≠ 0)

theorem tableCount_succ (m : Mem) (d i : Nat) :
    tableCount m d (i + 1) = tableCount m d i + if i < 768 ∧ m.word d i ≠ 0 then 1 else 0 := by
  simp only [tableCount, List.range_succ, List.countP_append, List.countP_singleton, decide_eq_true_eq]

/-- What the loop over the directory has done after `i` entries; `m₀` is the
memory with the cleared directory of the child `t` in place. -/
structure Forked (s : Prop) (m₀ : Mem) (R : Roots) (p t : Fin 64) (old pageCount i : Nat) (m : Mem) : Prop where
  inv : Inv s m R
  low : m.low = m₀.low
  high : m.high = m₀.high
  pde : ∀ u, u ≠ t → ∀ i', pde m R u i' = pde m₀ R u i'
  todo : ∀ i', i ≤ i' → i' < 768 → Mm.pde m R t i' = 0
  dir : ∀ i', m.word old i' = m₀.word old i'
  src : ∀ i' j', i ≤ i' → i' < 768 → j' < pageCount → m.walk old i' j' = m₀.walk old i' j'
  child : ∀ i' j', i' < 768 → j' < 1024 →
    pte m R t i' j' = if i' < i ∧ j' < pageCount then clearRw (m₀.walk old i' j') else 0
  tables : ∀ i', i' < i → i' < 768 → m₀.word old i' ≠ 0 → Present (Mm.pde m R t i')
  other : ∀ u i' j', u ≠ t → i' < 768 → j' < 1024 → pte m R u i' j' = pte m₀ R u i' j' ∨
    u = p ∧ m₀.Managed (frame (pte m₀ R u i' j')) ∧ pte m R u i' j' = clearRw (pte m₀ R u i' j')
  mapped : ∀ n, Mapped m₀ R n → Mapped m R n
  word : s → ∀ n, m₀.Managed n → Mapped m₀ R n → ∀ k, m.word n k = m₀.word n k
  marked : Marked m₀ m
  spare : ∀ b, Spare m₀ b → b + tableCount m₀ old i < m₀.high → Spare m (b + tableCount m₀ old i)

variable {m₀ : Mem} {old pageCount : Nat}

theorem walk_swapper (h : Inv s m R) (j : Nat) : m.walk 0 0 j = m.word 1 j := by
  have := h.swap.dir0
  unfold Mem.walk
  rw [if_pos this.1, this.2]

theorem walk_swapper_user (h : Inv s m R) (hi : 0 < i) (hi' : i < 768) (j : Nat) : m.walk 0 i j = 0 := by
  unfold Mem.walk
  rw [h.swap.user i hi hi', if_neg (by simp)]

/-- A directory entry with nothing to copy. -/
theorem Forked.skip (h : Forked s m₀ R p t old pageCount i m) (hz : i < 768 → m₀.word old i = 0) :
    Forked s m₀ R p t old pageCount (i + 1) m := by
  refine ⟨h.inv, h.low, h.high, h.pde, fun i' h₁ h₂ => h.todo i' (by omega) h₂, h.dir,
    fun i' j' h₁ => h.src i' j' (by omega), fun i' j' h₁ h₂ => ?_, fun i' h₁ h₂ h₃ => ?_, h.other, h.mapped, h.word,
    h.marked, fun b hb => ?_⟩
  · rw [h.child i' j' h₁ h₂]
    by_cases he : i' = i
    · subst he
      rw [if_neg (by omega)]
      simp [Mem.walk, hz h₁, clearRw]
    · exact if_congr (by omega) rfl rfl
  · by_cases he : i' = i
    · subst he
      exact absurd (hz h₂) h₃
    · exact h.tables i' (by omega) h₂ h₃
  · rw [tableCount_succ, if_neg (fun e => e.2 (hz e.1))]
    exact h.spare b hb

/-- An entry of the kernel half. -/
theorem Forked.kern (h : Forked s m₀ R p t old pageCount i m) {new : Nat} (hnew : R.dir t = some new)
    (hpar : Parent R p t old pageCount) (hi : 768 ≤ i) (hw : m.word old i = m.word 0 i) :
    Forked s m₀ R p t old pageCount (i + 1) (m.set new i (m.word old i)) := by
  have hI := h.inv
  rw [hw]
  have hne : old ≠ new := by
    rintro rfl
    rcases hpar with ⟨hpt, hp, -⟩ | ⟨rfl, -⟩
    · exact hpt (hI.dir_inj hnew hp)
    · exact hI.not_managed_lt (by omega) (hI.dir_managed hnew)
  have hP : ∀ u i', i' < 768 → Mm.pde (m.set new i (m.word 0 i)) R u i' = Mm.pde m R u i' := fun u i' hi' => by
    rw [hI.pde_setDir hnew, if_neg (by omega)]
  have hQ : ∀ u i' j', i' < 768 → pte (m.set new i (m.word 0 i)) R u i' j' = pte m R u i' j' :=
    fun u i' j' hi' => hI.pte_setDir hnew i _ u hi' (by omega) j'
  refine ⟨hI.copyKern hnew hi, h.low, h.high, fun u hu i' => ?_, fun i' h₁ h₂ => ?_, fun i' => ?_,
    fun i' j' h₁ h₂ => by omega, fun i' j' h₁ h₂ => ?_, fun i' h₁ h₂ h₃ => ?_, fun u i' j' hu h₁ h₂ => ?_,
    fun n hn => ?_, fun hs n hM hn k => ?_, h.marked.trans (.set (hI.dir_managed hnew)) h.low h.high,
    fun b hb hlt => ?_⟩
  · rw [hI.pde_setDir hnew, if_neg (fun e => hu e.1), h.pde u hu]
  · rw [hP t i' h₂]
    exact h.todo i' (by omega) h₂
  · rw [Mem.set_word, if_neg (fun e => hne e.1), h.dir]
  · rw [hQ t i' j' h₁, h.child i' j' h₁ h₂]
    exact if_congr (by omega) rfl rfl
  · rw [hP t i' h₂]
    exact h.tables i' (by omega) h₂ h₃
  · rw [hQ u i' j' h₁]
    exact h.other u i' j' hu h₁ h₂
  · obtain ⟨r, hr, hn⟩ := h.mapped n hn
    refine ⟨r, hr, ?_⟩
    cases r with
    | pte u i' j' =>
      simp only [target] at hn ⊢
      rw [hQ u i' j' i'.2]
      exact hn
    | _ => exact absurd hr (by simp)
  · rw [Mem.set_word, if_neg]
    · exact h.word hs n hM hn k
    · rintro ⟨rfl, -⟩
      obtain ⟨r, hr, hn⟩ := h.mapped n hn
      exact hI.sep hs r (.cr3 t) n hr (by simp) hn hnew
  · rw [tableCount_succ, if_neg (by omega)] at hlt ⊢
    refine (h.spare b hb hlt).set ?_
    rintro rfl
    exact hI.not_managed_lt (by omega) (hI.dir_managed hnew)

theorem Forked.source (h : Forked s m₀ R p t old pageCount i m) (hpar : Parent R p t old pageCount)
    (hi : i < 768) (hz : m.word old i ≠ 0) :
    Present (m.word old i) ∧ (∀ u, R.dir u ≠ some (frame (m.word old i))) ∧ frame (m.word old i) < m.high ∧
      Source m R p t i (frame (m.word old i)) pageCount := by
  have hI := h.inv
  rcases hpar with ⟨hpt, hp, rfl⟩ | ⟨rfl, rfl⟩
  · have hw : m.word old i = Mm.pde m R p i := by simp [Mm.pde, hp]
    rw [hw] at hz ⊢
    have hpr := (hI.pde_wf p i hi).resolve_left hz
    exact ⟨hpr, hI.table_ne_dir hi hpr, (hI.table_managed hi hpr).2, .inl ⟨hpt, hpr, rfl, rfl⟩⟩
  · have h0 : i = 0 := by
      by_contra h0
      exact hz (hI.swap.user i (by omega) hi)
    subst h0
    obtain ⟨hpr, hf⟩ := hI.swap.dir0
    rw [hf]
    refine ⟨hpr, fun u hu => hI.not_managed_lt (by omega) (hI.dir_managed hu), ?_, .inr ⟨rfl, rfl⟩⟩
    have := hI.low_ge
    have := hI.low_le
    omega

/-- A user table copied into a fresh one. -/
theorem Forked.table (h : Forked s m₀ R p t old pageCount i m) {new tn : Nat} (hnew : R.dir t = some new)
    (hhand : R.misc .hand = none) (hpar : Parent R p t old pageCount) (hi : i < 768) (hz : m.word old i ≠ 0)
    (hg : m.getFreePage = some (tn, m.claim tn)) :
    Forked s m₀ R p t old pageCount (i + 1) ((List.range pageCount).foldl
      (Mem.copyEntry (frame (m.word old i)) tn) ((m.claim tn).set new i (entry tn 39))) := by
  have hI := h.inv
  have h0 := (Mem.getFreePage_some hg).1
  have hzi : m₀.word old i ≠ 0 := by rw [← h.dir]; exact hz
  obtain ⟨hpr, hfd, -, hsrc⟩ := h.source hpar hi hz
  generalize hf : frame (m.word old i) = f at *
  have hMn : m.Managed tn := hI.managed_of_map_lt (by omega)
  have hge : 256 ≤ tn := le_trans hI.low_ge hMn.1
  have hlt : tn < 4096 := lt_of_lt_of_le hMn.2 hI.high_le
  have hent : ent (entry tn 39) = some tn := ent_entry (by omega) rfl
  have hkeep := hI.claim_keep h0
  obtain ⟨hI₃, hP₃, hQ₃, -⟩ := hI.addTable hhand hnew hi (by rw [h.todo i le_rfl hi]; simp) h0
  have hpt : Present (Mm.pde ((m.claim tn).set new i (entry tn 39)) R t i) := by
    rw [hP₃, if_pos ⟨rfl, rfl⟩]
    exact (ent_eq_some.1 hent).1
  have hfr : frame (Mm.pde ((m.claim tn).set new i (entry tn 39)) R t i) = tn := by
    rw [hP₃, if_pos ⟨rfl, rfl⟩]
    exact (ent_eq_some.1 hent).2
  -- The source table is neither the child's directory nor the new table.
  have hftn : f ≠ tn := by
    rintro rfl
    rcases hsrc with ⟨-, hp, hf', -⟩ | ⟨rfl, -⟩
    · exact hI.no_ref h0 (.pde p ⟨i, hi⟩) (ent_eq_some.2 ⟨hp, hf'.symm⟩)
    · omega
  have hfnew : f ≠ new := fun e => hfd t (e ▸ hnew)
  have hfword : ∀ j', j' < pageCount →
      ((m.claim tn).set new i (entry tn 39)).word f j' = m.word f j' := by
    intro j' hj'
    rw [Mem.set_word, if_neg (fun e => hfnew e.1)]
    rcases hsrc with ⟨-, hp, hf', -⟩ | ⟨rfl, rfl⟩
    · exact hkeep f j' (.inr ⟨p, i, hi, ent_eq_some.2 ⟨hp, hf'.symm⟩⟩)
    · simp only [Mem.claim]
      rw [if_neg hftn, if_neg]
      have := hI.low_ge
      have := hMn.1
      omega
  have hsrc₃ : Source ((m.claim tn).set new i (entry tn 39)) R p t i f pageCount := by
    rcases hsrc with ⟨hpt', hp, hf', hc⟩ | hb
    · refine .inl ⟨hpt', ?_, ?_, hc⟩ <;> rw [hP₃, if_neg (fun e => hpt' e.1)]
      · exact hp
      · exact hf'
    · exact .inr hb
  have hcopy := Loop.foldl_range
    (Copied s ((m.claim tn).set new i (entry tn 39)) R p t i f) (n := pageCount)
    (s := (m.claim tn).set new i (entry tn 39)) (f := Mem.copyEntry f tn)
    ⟨hI₃, rfl, rfl, fun _ _ => rfl, fun j' hj' => by
      rw [hQ₃ t i j' hi, h.child i j' hi hj', if_neg (by omega), if_neg (by omega)],
      fun _ _ => rfl, fun _ _ _ _ _ _ => .inl rfl, fun _ _ _ _ => rfl, .refl _, fun _ h => h⟩
    (fun j' m' hj' hm' => by
      have e := copyEntry_spec hi hpt hsrc₃ (by rw [hfr]; exact hftn) hj' hm'
      rwa [hfr] at e)
  generalize (List.range pageCount).foldl (Mem.copyEntry f tn) ((m.claim tn).set new i (entry tn 39)) = m' at hcopy
  have hMc : ∀ n, ((m.claim tn).set new i (entry tn 39)).Managed n ↔ m₀.Managed n := managed_congr h.low h.high
  have hoth : ∀ u i' j', u ≠ t → i' < 768 → j' < 1024 → pte m' R u i' j' = pte m R u i' j' ∨
      u = p ∧ i' = i ∧ m₀.Managed (frame (pte m R u i' j')) ∧ pte m' R u i' j' = clearRw (pte m R u i' j') := by
    intro u i' j' hu h₁ h₂
    have e := hcopy.other u i' j' h₁ h₂ (fun e => hu e.1)
    rwa [hQ₃ u i' j' h₁, hMc] at e
  have hmap' : ∀ n, Mapped m₀ R n → Mapped m' R n := by
    intro n hn
    obtain ⟨r, hr, hn⟩ := h.mapped n hn
    refine ⟨r, hr, ?_⟩
    cases r with
    | pte u i' j' =>
      by_cases hu : u = t
      · subst hu
        by_cases hii : i'.val = i
        · simp only [target] at hn
          rw [h.child i' j' i'.2 j'.2, if_neg (by omega)] at hn
          simp at hn
        · rcases hcopy.other u i' j' i'.2 j'.2 (fun e => hii e.2) with e | ⟨-, -, -, e⟩
          all_goals
            simp only [target] at hn ⊢
            rw [e, hQ₃ u i' j' i'.2]
          · exact hn
          · simpa using hn
      · simp only [target] at hn ⊢
        rcases hoth u i' j' hu i'.2 j'.2 with e | ⟨-, -, -, e⟩ <;> rw [e]
        · exact hn
        · simpa using hn
    | _ => exact absurd hr (by simp)
  refine ⟨hcopy.inv, hcopy.low.trans h.low, hcopy.high.trans h.high, fun u hu i' => ?_, fun i' h₁ h₂ => ?_,
    fun i' => ?_, fun i' j' h₁ h₂ h₃ => ?_, fun i' j' h₁ h₂ => ?_, fun i' h₁ h₂ h₃ => ?_,
    fun u i' j' hu h₁ h₂ => ?_, hmap', fun hs n hM hn k => ?_, ?_, fun b hb hlt' => ?_⟩
  · rw [hcopy.pde, hP₃, if_neg (fun e => hu e.1), h.pde u hu]
  · rw [hcopy.pde, hP₃, if_neg (by omega)]
    exact h.todo i' (by omega) h₂
  · -- The parent's directory is written by none of this.
    have hof : old ≠ f ∧ old ≠ tn ∧ old ≠ new ∧ (m.claim tn).word old i' = m.word old i' := by
      rcases hpar with ⟨hpt', hp, -⟩ | ⟨rfl, -⟩
      · exact ⟨fun e => hfd p (e ▸ hp), fun e => hI.no_ref h0 (.cr3 p) (e ▸ hp),
          fun e => hpt' (hI.dir_inj hnew (e ▸ hp)), hkeep old i' (.inl ⟨p, hp⟩)⟩
      · refine ⟨?_, by omega, ?_, claim_word_of_ne (by omega) (by omega) i'⟩
        · rintro rfl
          rcases hsrc with ⟨-, hp, hf', -⟩ | ⟨h1, -⟩
          · have hmt := hI.table_managed hi hp
            rw [← hf'] at hmt
            exact hI.not_managed_lt (by omega) hmt
          · omega
        · rintro rfl
          exact hI.not_managed_lt (by omega) (hI.dir_managed hnew)
    rw [hcopy.word old i' hof.1 (by rw [hfr]; exact hof.2.1), Mem.set_word, if_neg (fun e => hof.2.2.1 e.1),
      hof.2.2.2, h.dir]
  · -- Later tables of the parent are as they were.
    rcases hpar with ⟨hpt', hp, rfl⟩ | ⟨rfl, rfl⟩
    · have e := hoth p i' j' hpt' h₂ (by omega)
      rw [pte_walk hp, pte_walk hp] at e
      rcases e with e | ⟨-, e, -⟩
      · rw [e, h.src i' j' (by omega) h₂ h₃]
      · omega
    · rw [hcopy.inv.walk_swapper_user (by omega) h₂, ← h.src i' j' (by omega) h₂ h₃,
        hI.walk_swapper_user (by omega) h₂]
  · by_cases hii : i' = i
    · subst hii
      rw [hcopy.new j' h₂]
      by_cases hc : j' < pageCount
      · rw [if_pos hc, if_pos ⟨by omega, hc⟩, hfword j' hc, ← h.src i' j' le_rfl hi hc]
        unfold Mem.walk
        rw [if_pos hpr, hf]
      · rw [if_neg hc, if_neg (fun e => hc e.2)]
    · have e : pte m' R t i' j' = pte m R t i' j' := by
        rcases hcopy.other t i' j' h₁ h₂ (fun e => hii e.2) with e | ⟨-, e, -⟩
        · rw [e, hQ₃ t i' j' h₁]
        · exact absurd e hii
      rw [e, h.child i' j' h₁ h₂]
      exact if_congr (by omega) rfl rfl
  · by_cases hii : i' = i
    · subst hii
      rw [hcopy.pde]
      exact hpt
    · rw [hcopy.pde, hP₃, if_neg (fun e => hii e.2)]
      exact h.tables i' (by omega) h₂ h₃
  · rcases hoth u i' j' hu h₁ h₂ with e | ⟨hup, -, hMm, e⟩
    · rw [e]
      exact h.other u i' j' hu h₁ h₂
    · rcases h.other u i' j' hu h₁ h₂ with e' | ⟨-, hMm', e'⟩
      · rw [e'] at hMm e
        exact .inr ⟨hup, hMm, e⟩
      · rw [e, e', clearRw_clearRw]
        exact .inr ⟨hup, hMm', rfl⟩
  · obtain ⟨r, hr, hnr⟩ := h.mapped n hn
    have hMn' : m.Managed n := (managed_congr h.low h.high n).2 hM
    have hntn : n ≠ tn := by
      rintro rfl
      exact hI.no_ref h0 r hnr
    have hnnew : n ≠ new := by
      rintro rfl
      exact hI.sep hs r (.cr3 t) n hr (by simp) hnr hnew
    have hnf : n ≠ f := by
      rintro rfl
      rcases hsrc with ⟨-, hp, hf', -⟩ | ⟨rfl, -⟩
      · exact hI.sep hs r (.pde p ⟨i, hi⟩) n hr (by simp) hnr (ent_eq_some.2 ⟨hp, hf'.symm⟩)
      · exact hI.not_managed_lt (by omega) hMn'
    rw [hcopy.word n k hnf (by rw [hfr]; exact hntn), Mem.set_word, if_neg (fun e => hnnew e.1),
      claim_word_of_ne hntn, h.word hs n hM hn k]
    rintro rfl
    exact hI.not_managed_lt (by omega) hMn'
  · have hMk₁ := h.marked.trans (.claim hMn) h.low h.high
    have hMk₂ := hMk₁.trans (.set (f := new) (k := i) (v := entry tn 39) (hI.dir_managed hnew)) h.low h.high
    exact hMk₂.trans hcopy.marked h.low h.high
  · rw [tableCount_succ, if_pos ⟨hi, hzi⟩] at hlt' ⊢
    have hsp := h.spare b hb (by omega)
    have hle := hsp.getFreePage_le (by rw [h.high]; omega) hI.high_le hg
    refine hcopy.spare _ ((hsp.claim hle (by omega)).set ?_)
    rintro rfl
    exact hI.not_managed_lt (by omega) (hI.dir_managed hnew)

/-- One turn of the loop over the directory: it goes on, or stops where no
page is left. -/
theorem Forked.turn (h : Forked s m₀ R p t old pageCount i m) {new : Nat} (hnew : R.dir t = some new)
    (hhand : R.misc .hand = none) (hpar : Parent R p t old pageCount) (hi : i < 1024) :
    (∃ m', Mem.copyDir old new pageCount m i = .ok m' ∧ Forked s m₀ R p t old pageCount (i + 1) m') ∨
      Mem.copyDir old new pageCount m i = .error m ∧ m.getFreePage = none := by
  have hI := h.inv
  unfold Mem.copyDir
  simp only
  by_cases hz : m.word old i = 0
  · rw [if_pos hz]
    exact .inl ⟨m, rfl, h.skip fun _ => by rw [← h.dir]; exact hz⟩
  rw [if_neg hz]
  by_cases hu : i < 768
  · obtain ⟨hpr, -, hlt, -⟩ := h.source hpar hu hz
    rw [if_neg (by simp only [hpr, not_true, or_false]; omega), if_neg (by omega)]
    cases hg : m.getFreePage with
    | none => exact .inr ⟨rfl, rfl⟩
    | some x =>
      obtain ⟨tn, m'⟩ := x
      obtain ⟨-, rfl⟩ := Mem.getFreePage_some hg
      exact .inl ⟨_, rfl, h.table hnew hhand hpar hu hz hg⟩
  · -- The kernel half: the entry is `swapper_pg_dir`'s.
    have hw : m.word old i = m.word 0 i := by
      rcases hpar with ⟨-, hp, -⟩ | ⟨rfl, -⟩
      · exact (hI.kern p old hp i (by omega) hi).resolve_right hz
      · rfl
    obtain ⟨hpr, h4⟩ : Present (m.word old i) ∧ frame (m.word old i) ≤ 4 := by
      rw [hw] at hz ⊢
      exact (hI.swap.kern i (by omega) hi).resolve_left hz
    have := hI.low_ge
    have := hI.low_le
    rw [if_neg (by simp only [hpr, not_true, or_false]; omega),
      if_pos ⟨(hI.used_iff _).2 (hI.not_managed_lt (by omega)), by omega⟩]
    exact .inl ⟨_, rfl, h.kern hnew hpar (by omega) hw⟩

/-- What a fork by `p` leaves of every task's tables: the directories as they
were, and entries of `p` for managed frames possibly read-only. -/
structure ForkKeeps (s : Prop) (m : Mem) (R : Roots) (p : Fin 64) (m' : Mem) : Prop where
  low : m'.low = m.low
  high : m'.high = m.high
  pde : ∀ u i, pde m' R u i = pde m R u i
  pte : ∀ u i j, i < 768 → j < 1024 → pte m' R u i j = pte m R u i j ∨
    u = p ∧ m.Managed (frame (pte m R u i j)) ∧ pte m' R u i j = clearRw (pte m R u i j)
  word : s → ∀ n, m.Managed n → Mapped m R n → ∀ k, m'.word n k = m.word n k
  marked : Marked m m'

theorem forkKeeps_refl : ForkKeeps s m R p m :=
  ⟨rfl, rfl, fun _ _ => rfl, fun _ _ _ _ _ => .inl rfl, fun _ _ _ _ _ => rfl, .refl m⟩

/-- The tables of the tasks that had them, back in terms of the roots before the fork. -/
theorem ForkKeeps.pte_none (ht : R.dir t = none) (m : Mem) (i j : Nat) : Mm.pte m R t i j = 0 := by
  simp [Mm.pte, Mm.pde, ht]

/-- A page claimed by the fork is not on the way to an entry it copies. -/
theorem walk_claim {R' : Roots} {n i j : Nat} (h : Inv s m R) (hI : Inv s (m.claim n) R') (h0 : m.map n = 0)
    (hpar : Parent R p t old pageCount) (hi : i < 768) (hj : j < pageCount) :
    (m.claim n).walk old i j = m.walk old i j := by
  have hge : 256 ≤ n := le_trans h.low_ge (h.managed_of_map_lt (by omega)).1
  rcases hpar with ⟨-, hp, -⟩ | ⟨rfl, rfl⟩
  · rw [← pte_walk (R := R) hp, ← pte_walk (R := R) hp]
    exact pte_keep rfl (h.claim_keep h0) p hi j
  · by_cases hi0 : i = 0
    · subst hi0
      rw [h.walk_swapper, hI.walk_swapper]
      simp only [Mem.claim]
      rw [if_neg (by omega), if_neg (by omega)]
    · rw [h.walk_swapper_user (by omega) hi, hI.walk_swapper_user (by omega) hi]

/-- **`copy_page_tables`** returns, without a panic. Where it succeeds the
child `t` has a directory whose entries are the parent's without PAGE_RW;
where it fails the roots are as they were and the invariant still holds. It
succeeds where there are pages for a directory and the tables. -/
theorem copyPageTables_spec (h : Inv s m R) (ht : R.dir t = none) (hhand : R.misc .hand = none)
    (hpar : Parent R p t old pageCount) :
    ∃ m' r, m.copyPageTables old pageCount = .ok (m', r) ∧ ForkKeeps s m R p m' ∧
      (∀ b, Spare m b → b + 1 + tableCount m old 1024 < m.high →
        r ≠ none ∧ Spare m' (b + 1 + tableCount m old 1024)) ∧
      match r with
      | none => Inv s m' R
      | some new => Inv s m' (R.setDir t (some new)) ∧ ∀ i j, i < 768 → j < 1024 →
          pte m' (R.setDir t (some new)) t i j = (if j < pageCount then clearRw (m.walk old i j) else 0) ∧
          (m.word old i ≠ 0 → Present (pde m' (R.setDir t (some new)) t i)) := by
  unfold Mem.copyPageTables
  cases hg : m.getFreePage with
  | none =>
    refine ⟨m, none, rfl, forkKeeps_refl, fun b hb hlt => ?_, h⟩
    obtain ⟨n, hn, -⟩ := hb.getFreePage (by omega) h.high_le
    rw [hg] at hn
    cases hn
  | some x =>
    obtain ⟨new, m₀⟩ := x
    obtain ⟨h0, rfl⟩ := Mem.getFreePage_some hg
    have hkeep := h.claim_keep h0
    have hMn : m.Managed new := h.managed_of_map_lt (by omega)
    have hge : 256 ≤ new := le_trans h.low_ge hMn.1
    have hlt : new < 4096 := lt_of_lt_of_le hMn.2 h.high_le
    -- The child's directory, cleared and in place.
    have hI₀ := (h.claim h0 hhand).newDir (t := t) ht
      (show (R.setMisc .hand (some new)).misc .hand = some new by simp) fun k => by simp
    rw [R.setMisc_none hhand] at hI₀
    have hP₀ : ∀ u i, pde (m.claim new) (R.setDir t (some new)) u i = pde m R u i := by
      intro u i
      rw [pde_newDir ht fun k => by simp, pde_keep rfl hkeep]
    have hQ₀ : ∀ u i j, i < 768 → pte (m.claim new) (R.setDir t (some new)) u i j = pte m R u i j := by
      intro u i j hi
      rw [pte_newDir ht fun k => by simp, pte_keep rfl hkeep u hi]
    have hpar' : Parent (R.setDir t (some new)) p t old pageCount := by
      rcases hpar with ⟨hpt, hp, hc⟩ | hb
      · exact .inl ⟨hpt, by simpa [hpt] using hp, hc⟩
      · exact .inr hb
    have hnew : (R.setDir t (some new)).dir t = some new := by simp
    have hhand' : (R.setDir t (some new)).misc .hand = none := hhand
    have hstart : Forked s (m.claim new) (R.setDir t (some new)) p t old pageCount 0 (m.claim new) := by
      refine ⟨hI₀, rfl, rfl, fun _ _ _ => rfl, fun i _ _ => ?_, fun _ => rfl, fun _ _ _ _ _ => rfl,
        fun i j hi hj => ?_, by omega, fun _ _ _ _ _ _ => .inl rfl, fun _ h => h, fun _ _ _ _ _ => rfl, .refl _,
        fun b hb _ => by simpa [tableCount] using hb⟩
      · rw [hP₀]; simp [pde, ht]
      · rw [hQ₀ t i j hi, ForkKeeps.pte_none ht]; simp
    -- What a state of the loop says in terms of the roots before the fork.
    have hback : ∀ m' i', Forked s (m.claim new) (R.setDir t (some new)) p t old pageCount i' m' →
        ForkKeeps s m R p m' := by
      intro m' i' hm'
      refine ⟨hm'.low, hm'.high, fun u i => ?_, fun u i j hi hj => ?_, fun hs n hM hn k => ?_,
        (Marked.claim hMn).trans hm'.marked rfl rfl⟩
      · by_cases hu : u = t
        · subst hu; simp [pde, ht]
        · rw [← pde_setDir_ne hu (some new), hm'.pde u hu, hP₀]
      · by_cases hu : u = t
        · subst hu; simp [ForkKeeps.pte_none ht]
        · rw [← pte_setDir_ne hu (some new), ← hQ₀ u i j hi]
          exact hm'.other u i j hu hi hj
      · have hn' : Mapped (m.claim new) (R.setDir t (some new)) n := by
          obtain ⟨r, hr, hn⟩ := hn
          refine ⟨r, hr, ?_⟩
          cases r with
          | pte u i j =>
            simp only [target] at hn ⊢
            rw [hQ₀ u i j i.2]
            exact hn
          | _ => exact absurd hr (by simp)
        rw [hm'.word hs n hM hn' k]
        obtain ⟨r, hr, hn⟩ := hn
        apply claim_word_of_ne
        · rintro rfl
          exact h.no_ref h0 r hn
        · rintro rfl
          exact h.not_managed_lt (by omega) hM
    -- The parent's directory is no page that was free.
    have hold : ∀ i, (m.claim new).word old i = m.word old i := by
      intro i
      rcases hpar with ⟨-, hp, -⟩ | ⟨rfl, -⟩
      · exact hkeep old i (.inl ⟨p, hp⟩)
      · exact claim_word_of_ne (by omega) (by omega) i
    have hcount : ∀ i, tableCount (m.claim new) old i = tableCount m old i := fun i => by
      simp only [tableCount, hold]
    -- With pages to spare, the loop leaves as many fewer as it has made tables.
    have hspare : ∀ m' i' b, Forked s (m.claim new) (R.setDir t (some new)) p t old pageCount i' m' → Spare m b →
        b + 1 + tableCount m old i' < m.high → Spare m' (b + 1 + tableCount m old i') := by
      intro m' i' b hm' hb hlt'
      have hle := hb.getFreePage_le (by omega) h.high_le hg
      rw [← hcount] at hlt' ⊢
      exact hm'.spare (b + 1) (hb.claim hle (by omega)) hlt'
    have hloop := Loop.foldlM_range_or (f := Mem.copyDir old new pageCount) (n := 1024)
      (Forked s (m.claim new) (R.setDir t (some new)) p t old pageCount)
      (fun m' => ∃ i', i' < 1024 ∧ Forked s (m.claim new) (R.setDir t (some new)) p t old pageCount i' m' ∧
        m'.getFreePage = none) hstart
      fun i m' hi hm' => (hm'.turn hnew hhand' hpar' hi).imp_right fun e => ⟨m', e.1, i, hi, hm', e.2⟩
    simp only
    rcases hloop with ⟨m', hm', hF⟩ | ⟨m', hm', i', hi', hF, hnone⟩
    · rw [hm']
      refine ⟨m', some new, rfl, hback m' _ hF, fun b hb hlt' => ⟨by simp, hspare m' _ b hF hb hlt'⟩, hF.inv,
        fun i j hi hj => ⟨?_, fun hne => hF.tables i (by omega) hi (by rw [hold]; exact hne)⟩⟩
      rw [hF.child i j hi hj]
      by_cases hc : j < pageCount
      · rw [if_pos ⟨by omega, hc⟩, if_pos hc, h.walk_claim hI₀ h0 hpar hi hc]
      · rw [if_neg (fun e => hc e.2), if_neg hc]
    · obtain ⟨m'', hfree, hI'', hlow, hhigh, hpde, hpte, hword⟩ := hF.inv.freePageTables_spec hnew
      rw [R.setDir_none ht] at hI''
      have hk := hback m' i' hF
      rw [hm']
      simp only [bind, Except.bind, hfree]
      refine ⟨m'', none, rfl, ⟨hlow.trans hk.low, hhigh.trans hk.high, fun u i => ?_, fun u i j hi hj => ?_,
        fun hs n hM hn k => ?_, ?_⟩, fun b hb hlt' => ?_, hI''⟩
      · by_cases hu : u = t
        · subst hu; simp [pde, ht]
        · rw [← pde_setDir_ne hu (some new), hpde u hu, pde_setDir_ne hu, hk.pde u i]
      · by_cases hu : u = t
        · subst hu; simp [ForkKeeps.pte_none ht]
        · rw [← pte_setDir_ne (m := m'') hu (some new), hpte u hu i j hi, pte_setDir_ne hu]
          exact hk.pte u i j hi hj
      · rw [← hk.word hs n hM hn k]
        apply hword
        obtain ⟨r, hr, hn⟩ := hn
        have hr' : target m' (R.setDir t (some new)) r = some n := by
          cases r with
          | pte u i j =>
            by_cases hu : u = t
            · subst hu
              simp [target, ForkKeeps.pte_none ht] at hn
            · simp only [target] at hn ⊢
              rw [pte_setDir_ne hu]
              rcases hk.pte u i j i.2 j.2 with e | ⟨-, -, e⟩ <;> rw [e]
              · exact hn
              · simpa using hn
          | _ => exact absurd hr (by simp)
        rintro (hc | ⟨i, hi, hc⟩)
        · exact hF.inv.sep hs r (.cr3 t) n hr (by simp) hr' hc
        · exact hF.inv.sep hs r (.pde t ⟨i, hi⟩) n hr (by simp) hr' hc
      · -- Only the child's tables are emptied.
        refine hk.marked.trans (fun f w hf => .inl (hword f w ?_)) hk.low hk.high
        rintro (hc | ⟨i, hi, hc⟩)
        · exact hf (hF.inv.sound.managed (.cr3 t) f (by simp) hc)
        · exact hf (hF.inv.sound.managed (.pde t ⟨i, hi⟩) f (by simp) hc)
      · -- The loop stopped for want of a page.
        have hle : tableCount m old i' ≤ tableCount m old 1024 := by
          simp only [tableCount]
          exact (List.range_sublist.2 (by omega)).countP_le
        obtain ⟨n, hn, -⟩ := (hspare m' i' b hF hb (by omega)).getFreePage (by rw [hk.high]; omega) hF.inv.high_le
        rw [hnone] at hn
        cases hn

end Inv

end Linux011.Mm
