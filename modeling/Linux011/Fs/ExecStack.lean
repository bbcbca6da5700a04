/-
The memory of the new program: the pages of the old one go, the pages of the strings are mapped at the end of
the segment, and `create_tables` puts the tables and the three words of `main` below them.

From the first page on that is mapped again, each page of the task has a frame of its own (`Own`), so a byte that is stored
changes nothing else.
-/
import Linux011.Fs.ExecArgs

namespace Linux011.Fs.Execve

open Bytes Relation
open Prog (Ends)

variable {w : World} {s s' : State} {tk : Task} {m m' m₀ m₁ : Space} {i v n : Nat} {l : List Nat}

/-! ## The old pages -/

/-- Entries, tables and references have gone. -/
structure Shrinks (m m' : Space) : Prop where
  frame : m'.frame = m.frame
  page : m'.page = m.page
  pte : ∀ {v e}, m'.pte v = some e → m.pte v = some e
  le : ∀ n, m'.map n ≤ m.map n

/-- Nothing is left of directory entry `i`. -/
structure Dropped (m₀ : Space) (i : Nat) (m : Space) : Prop where
  table : m.table i = 0
  pte : ∀ {v}, v / 1024 = i → m.pte v = none
  free : m₀.table i ≠ 0 → m.map (m₀.table i) = 0

/-- What holds while the tables of `m₀` are freed. -/
structure Clearing (w : World) (m₀ m : Space) : Prop extends Shrinks m₀ m, Shares w m where
  dropped : ∀ i, m.table i = m₀.table i ∨ Dropped m₀ i m
  arg : ∀ {n}, m₀.Arg n → m.map n = 1

theorem Dropped.shrinks (h : Dropped m₀ i m) (hs : Shrinks m m') (ht : m'.table i = m.table i) : Dropped m₀ i m' where
  table := ht.trans h.table
  pte {v} hv := by
    cases he : m'.pte v with
    | none => rfl
    | some e => exact nomatch (hs.pte he).symm.trans (h.pte hv)
  free h0 := Nat.le_zero.1 (h.free h0 ▸ hs.le _)

theorem Ok.clearing (h : Ok w m) : Clearing w m m :=
  { h.toShares with
    frame := rfl
    page := rfl
    pte := id
    le := fun _ => Nat.le_refl _
    dropped := fun _ => .inl rfl
    arg := fun ha => by
      obtain ⟨i, hi, h0⟩ := ha
      rw [← hi]
      exact (h.args (hi ▸ h0)).2.count }

theorem freePage_ends {Q : Unit → Space → Prop} (hused : m.Used n → Q () m)
    (hdec : ¬m.Used n → m.map n ≠ 0 → Q () (m.setMap n (m.map n - 1))) : Ends (freePage w n) (fun _ => True) Q m := by
  unfold Ends freePage
  split_ifs with _ hu h0
  · trivial
  · exact hused hu
  · exact hdec hu h0
  · trivial

theorem setMap_le (m : Space) (n x : Nat) (hx : x ≤ m.map n) (k : Nat) : (m.setMap n x).map k ≤ m.map k := by
  rw [Space.setMap_map, Function.update_apply]
  split
  · rename_i e
    rw [e]
    exact hx
  · exact Nat.le_refl _

/-- An entry is freed. -/
theorem Clearing.entry (h₀ : Ok w m₀) (h : Clearing w m₀ m) {e : Entry} (he : m.pte v = some e) :
    Clearing w m₀ (({ m with pte := Function.update m.pte v none } : Space).setMap e.frame (m.map e.frame - 1)) := by
  have hpte {v' : Nat} {e' : Entry} (h' : Function.update m.pte v none v' = some e') : v' ≠ v ∧ m.pte v' = some e' := by
    by_cases hv : v' = v
    · rw [hv, Function.update_self] at h'
      cases h'
    · rw [Function.update_of_ne hv] at h'
      exact ⟨hv, h'⟩
  have hs : Shrinks m (({ m with pte := Function.update m.pte v none } : Space).setMap e.frame (m.map e.frame - 1)) :=
    { frame := rfl, page := rfl, pte := fun h' => (hpte h').2, le := setMap_le _ _ _ (Nat.sub_le _ _) }
  exact
    { frame := h.frame
      page := h.page
      pte := fun h' => h.pte (hs.pte h')
      le := fun n => Nat.le_trans (hs.le n) (h.le n)
      dropped := fun i => (h.dropped i).imp id fun hd => hd.shrinks hs rfl
      arg := fun {n} ha => by
        obtain ⟨i, hi, h0⟩ := ha
        have hne : n ≠ e.frame := fun e' => (h₀.args (hi ▸ h0)).2.unmapped (h.pte he) (e'.symm.trans hi.symm)
        rw [Space.setMap_map, Function.update_of_ne hne]
        exact h.arg ⟨i, hi, h0⟩
      inUse := fun {ino v' n} hshare => by
        rw [Space.setMap_map, Function.update_apply]
        split
        · -- the one entry that refers to it goes, and another task has it
          rename_i hn
          have hv := h.addr hshare he hn.symm
          have := h.twice hshare (hv ▸ he) hn.symm
          rw [← hn]
          omega
        · exact h.inUse hshare
      addr := fun hshare h' hf => h.addr hshare (hs.pte h') hf
      twice := fun {ino v' n e'} hshare h' hf => by
        obtain ⟨hv, h'⟩ := hpte h'
        have hn : n ≠ e.frame := fun hn => hv (h.addr hshare he hn.symm).symm
        rw [Space.setMap_map, Function.update_of_ne hn]
        exact h.twice hshare h' hf }

theorem freeEntries_ends (h₀ : Ok w m₀) (h : Clearing w m₀ m) :
    Ends (freeEntries w l) (fun _ => True) (fun _ m' => Clearing w m₀ m' ∧ m'.table = m.table) m := by
  induction l generalizing m with
  | nil => exact Ends.pure ⟨h, rfl⟩
  | cons v l ih =>
    refine Ends.bind (Ends.bind (Ends.get ?_))
    cases he : m.pte v with
    | none => exact Ends.pure (ih h)
    | some e =>
      refine Ends.ite (fun _ => Ends.pure (ih h)) fun hu => Ends.bind (Ends.set (freePage_ends (fun hu' => absurd hu' hu) ?_))
      exact fun _ _ => ih (h.entry h₀ he)

/-- The table goes. -/
theorem Clearing.drop (h₀ : Ok w m₀) (h : Clearing w m₀ m) (h0 : m.table i ≠ 0) :
    Clearing w m₀ ((m.dropTable i).setMap (m.table i) (m.map (m.table i) - 1)) ∧
      Dropped m₀ i ((m.dropTable i).setMap (m.table i) (m.map (m.table i) - 1)) := by
  have ht : m.table i = m₀.table i := (h.dropped i).elim id fun hd => absurd hd.table h0
  obtain ⟨hone, -, -, hns⟩ := h₀.table (ht ▸ h0)
  have hpte {v : Nat} {e : Entry} (h' : (if v / 1024 = i then none else m.pte v) = some e) : v / 1024 ≠ i ∧ m.pte v = some e := by
    split at h'
    · cases h'
    · exact ⟨‹_›, h'⟩
  have hs : Shrinks m ((m.dropTable i).setMap (m.table i) (m.map (m.table i) - 1)) :=
    { frame := rfl, page := rfl, pte := fun h' => (hpte h').2, le := setMap_le _ _ _ (Nat.sub_le _ _) }
  have hdrop : Dropped m₀ i ((m.dropTable i).setMap (m.table i) (m.map (m.table i) - 1)) :=
    { table := Function.update_self ..
      pte := fun hv => if_pos hv
      free := fun _ => by
        have := h.le (m.table i)
        rw [← ht, Space.setMap_map, Function.update_self]
        rw [ht, hone] at this
        rw [ht]
        omega }
  have hne {ino v n : Nat} (hshare : w.share ino v = some n) : n ≠ m.table i := fun e => hns ino v (ht ▸ e ▸ hshare)
  refine ⟨?_, hdrop⟩
  exact
    { frame := h.frame
      page := h.page
      pte := fun h' => h.pte (hs.pte h')
      le := fun n => Nat.le_trans (hs.le n) (h.le n)
      dropped := fun j => by
        by_cases hj : j = i
        · exact .inr (hj ▸ hdrop)
        · have htab : ((m.dropTable i).setMap (m.table i) (m.map (m.table i) - 1)).table j = m.table j := Function.update_of_ne hj ..
          rw [htab]
          exact (h.dropped j).imp id fun hd => hd.shrinks hs htab
      arg := fun {n} ha => by
        obtain ⟨j, hj, hn0⟩ := ha
        have hn : n ≠ m.table i := fun e => (h₀.args (hj ▸ hn0)).2.noTable i (ht.symm.trans (e.symm.trans hj.symm))
        rw [Space.setMap_map, Function.update_of_ne hn]
        exact h.arg ⟨j, hj, hn0⟩
      inUse := fun hshare => by
        rw [Space.setMap_map, Function.update_of_ne (hne hshare)]
        exact h.inUse hshare
      addr := fun hshare h' hf => h.addr hshare (hs.pte h') hf
      twice := fun hshare h' hf => by
        rw [Space.setMap_map, Function.update_of_ne (hne hshare)]
        exact h.twice hshare (hs.pte h') hf }

/-- An entry of the directory that is 0 has been dropped, or there was nothing. -/
theorem Clearing.of_zero (h₀ : Ok w m₀) (h : Clearing w m₀ m) (h0 : m.table i = 0) : Dropped m₀ i m := by
  rcases h.dropped i with ht | hd
  · refine ⟨h0, fun {v} hv => ?_, fun hne => absurd (ht.symm.trans h0) hne⟩
    cases he : m.pte v with
    | none => rfl
    | some e => exact absurd (ht.symm.trans h0) (hv ▸ h₀.tables (h.pte he))
  · exact hd

theorem freeOneTable_ends {Q : Unit → Space → Prop} (h₀ : Ok w m₀) (h : Clearing w m₀ m)
    (hQ : ∀ m', Clearing w m₀ m' → m'.table = Function.update m.table i 0 → Q () m') :
    Ends (freeOneTable w i) (fun _ => True) Q m := by
  refine Ends.bind (Ends.get (Ends.ite (fun hskip => Ends.pure (hQ m h ?_)) fun hfree => ?_))
  · have h0 : m.table i = 0 := by
      by_contra h0
      have ht : m.table i = m₀.table i := (h.dropped i).elim id fun hd => absurd hd.table h0
      obtain ⟨hone, -, hlt, -⟩ := h₀.table (ht ▸ h0)
      have hle := h.le (m.table i)
      rw [ht] at h0 hskip hle
      rcases hskip with hz | hhigh | hused
      · exact h0 hz
      · omega
      · unfold Space.Used at hused
        omega
    rw [← h0, Function.update_eq_self]
  · refine Ends.seq (freeEntries_ends h₀ h) fun _ m₁ h₁ => Ends.bind (Ends.modify ?_)
    obtain ⟨h₁, ht⟩ := h₁
    have h0 : m₁.table i ≠ 0 := by
      rw [ht]
      exact fun hz => hfree (.inl hz)
    have hused : ¬m₁.Used (m₁.table i) := by
      have ht₀ : m₁.table i = m₀.table i := (h₁.dropped i).elim id fun hd => absurd hd.table h0
      have hle := h₁.le (m₁.table i)
      rw [ht₀, (h₀.table (ht₀ ▸ h0)).1] at hle
      rw [ht₀]
      unfold Space.Used
      omega
    rw [← ht]
    refine freePage_ends (fun hu => absurd hu hused) fun _ _ => ?_
    refine hQ _ (h₁.drop h₀ h0).1 ?_
    rw [← ht]
    rfl

/-- **`clear_page_tables`**. -/
theorem clearPageTables_ends {Q : Unit → Space → Prop} (h₀ : Ok w m₀) (h : Clearing w m₀ m)
    (hQ : ∀ m', Clearing w m₀ m' → (∀ i, i ∈ l ∨ m.table i = 0 → m'.table i = 0) → Q () m') :
    Ends (clearPageTables w l) (fun _ => True) Q m := by
  induction l generalizing m with
  | nil => exact Ends.pure (hQ m h fun i hi => hi.resolve_left List.not_mem_nil)
  | cons i l ih =>
    refine Ends.bind (freeOneTable_ends h₀ h fun m₁ h₁ ht => ih h₁ fun m' h' hz => hQ m' h' fun j hj => hz j ?_)
    rw [ht, Function.update_apply]
    by_cases hji : j = i
    · exact .inr (if_pos hji)
    · rw [if_neg hji]
      exact hj.imp_left fun hmem => (List.mem_cons.1 hmem).resolve_left hji

/-- What is left behind `clear_page_tables`: no page is mapped, and there is a page to be had. -/
structure Empty (w : World) (m₀ m : Space) : Prop where
  page : m.page = m₀.page
  frame : m.frame = m₀.frame
  pte : ∀ v, m.pte v = none
  arg : ∀ {n}, m₀.Arg n → m.map n ≠ 0
  inUse : ∀ {ino v n}, w.share ino v = some n → m.map n ≠ 0
  free : ∃ n, w.low ≤ n ∧ n < 4096 ∧ m.map n = 0

theorem clearPageTables_empty (h₀ : Ok w m) (hmem : ∀ i < 768, i ∈ l) :
    Ends (clearPageTables w l) (fun _ => True) (fun _ m' => Empty w m m') m := by
  refine clearPageTables_ends h₀ h₀.clearing fun m' h hz => ?_
  have hdrop {i : Nat} (hi : i < 768) : Dropped m i m' := h.of_zero h₀ (hz i (.inl (hmem i hi)))
  refine ⟨h.page, h.frame, fun v => ?_, fun ha => ?_, h.inUse, ?_⟩
  · cases he : m'.pte v with
    | none => rfl
    | some e =>
      have := h₀.user (h.pte he)
      exact he.symm.trans ((hdrop (by omega)).pte rfl)
  · rw [h.arg ha]
    exact Nat.one_ne_zero
  · obtain ⟨i, hi, h0⟩ := h₀.runs
    obtain ⟨-, hlow, hhigh, -⟩ := h₀.table h0
    exact ⟨m.table i, hlow, Nat.lt_of_lt_of_le hhigh w.high_le, (hdrop hi).free h0⟩

/-! ## The pages of the strings -/

/-- What holds while the pages of `m₁.page` are mapped. -/
structure Placing (w : World) (m₁ m : Space) : Prop where
  page : m.page = m₁.page
  frame : ∀ {n}, m₁.map n ≠ 0 → m.frame n = m₁.frame n
  map : ∀ {n}, m₁.map n ≠ 0 → m.map n ≠ 0
  pte : ∀ {v e}, m.pte v = some e → ∃ i, m₁.page i ≠ 0 ∧ v = 786400 + i ∧ e = ⟨m₁.page i, true⟩
  room : m.table 767 ≠ 0 ∨ ∃ n, w.low ≤ n ∧ n < 4096 ∧ m.map n = 0

/-- There is a table for the last pages. -/
theorem Placing.tabled (h : Placing w m₁ m) (ht : Tabled w m 767 m') : Placing w m₁ m' ∧ m'.table 767 ≠ 0 ∧ m'.pte = m.pte := by
  cases ht with
  | there h0 => exact ⟨h, h0, rfl⟩
  | @made t h0 hfree hlow _ =>
    have hne {n : Nat} (hn : m₁.map n ≠ 0) : n ≠ t := fun e => h.map hn (e ▸ hfree)
    have htab : ((m.give t fun _ => 0).setTable 767 t).table 767 ≠ 0 := by
      rw [Space.setTable_table, Function.update_self]
      exact World.ne_zero hlow
    refine ⟨⟨h.page, fun hn => ?_, fun hn => ?_, h.pte, .inl htab⟩, htab, rfl⟩
    · exact (Function.update_of_ne (hne hn) ..).trans (h.frame hn)
    · exact fun h0 => h.map hn ((Function.update_of_ne (hne hn) ..).symm.trans h0)

/-- A page of the strings is mapped at its place. -/
theorem Placing.link (h : Placing w m₁ m) (ht : m.table 767 ≠ 0) (h0 : m₁.page i ≠ 0) :
    Placing w m₁ (m.link (786400 + i) ⟨m₁.page i, true⟩) where
  page := h.page
  frame := h.frame
  map := h.map
  pte {v e} he := by
    by_cases hv : v = 786400 + i
    · rw [Space.link_pte, hv, Function.update_self] at he
      cases he
      exact ⟨i, h0, hv, rfl⟩
    · rw [Space.link_pte, Function.update_of_ne hv] at he
      exact h.pte he
  room := .inl ht

/-- **The loop of `change_ldt`**. -/
theorem putArgs_ends {Q : Unit → Space → Prop} (h : Placing w m₁ m) (hl : ∀ i ∈ l, i < 32)
    (hQ : ∀ m', Placing w m₁ m' → (∀ i, m₁.page i ≠ 0 → i ∈ l ∨ m.pte (786400 + i) = some ⟨m₁.page i, true⟩ →
      m'.pte (786400 + i) = some ⟨m₁.page i, true⟩) → Q () m') : Ends (putArgs w l) (fun _ => True) Q m := by
  induction l generalizing m with
  | nil => exact Ends.pure (hQ m h fun i _ hi => hi.resolve_left List.not_mem_nil)
  | cons i l ih =>
    have hi := hl i List.mem_cons_self
    have hl' := fun j hj => hl j (List.mem_cons_of_mem i hj)
    refine Ends.bind (Ends.get (Ends.bind (onlyIf_ends (fun h0 => Ends.bind (Ends.bind ?_)) fun h0 => ?_)))
    · rw [show (786400 + i) / 1024 = 767 by omega, h.page]
      rw [h.page] at h0
      refine needTable_ends (fun ht hfull => ?_) fun m₂ ht => ?_
      · -- there is a table, or a page for it
        rcases h.room with hne | ⟨n, hlow, hlt, hfree⟩
        · exact absurd ht hne
        · exact absurd hfree (hfull n hlow hlt)
      · obtain ⟨h₂, ht₂, hp₂⟩ := h.tabled ht
        refine Ends.ite (fun _ => Ends.bind (Ends.modify (Ends.pure (Ends.pure ?_)))) fun hf => absurd rfl hf
        refine ih (h₂.link ht₂ h0) hl' fun m' h' hpte => hQ m' h' fun j hj0 hj => hpte j hj0 ?_
        rw [Space.link_pte, hp₂]
        by_cases hji : j = i
        · exact .inr (by rw [hji, Function.update_self])
        · rw [Function.update_of_ne (by omega)]
          exact hj.imp_left fun hmem => (List.mem_cons.1 hmem).resolve_left hji
    · have h0 := Decidable.not_not.1 h0
      rw [h.page] at h0
      refine ih h hl' fun m' h' hpte => hQ m' h' fun j hj0 hj => hpte j hj0 (hj.imp_left fun hmem => ?_)
      exact (List.mem_cons.1 hmem).resolve_left fun e => hj0 (e ▸ h0)

/-! ## The new pages -/

/-- Each page that is mapped has a frame of its own, and the frames of other tasks are in use. -/
structure Own (w : World) (m : Space) : Prop where
  mapped : ∀ {v e}, m.pte v = some e → m.map e.frame ≠ 0
  inj : ∀ {v v' e e'}, m.pte v = some e → m.pte v' = some e' → e.frame = e'.frame → v = v'
  inUse : ∀ {ino v n}, w.share ino v = some n → m.map n ≠ 0
  addr : ∀ {ino v n v' e}, w.share ino v = some n → m.pte v' = some e → e.frame = n → v' = v

/-- The pages stay mapped, with their bytes. -/
def Stays (m m' : Space) : Prop := ∀ {v e}, m.pte v = some e → m'.pte v = some e ∧ m'.frame e.frame = m.frame e.frame

theorem Stays.pages (h : Stays m m') {x : Nat} {b : UInt8} (hx : pages m x = some b) : pages m' x = some b := by
  obtain ⟨e, he, rfl⟩ := Option.map_eq_some_iff.1 hx
  obtain ⟨he', hf⟩ := h he
  rw [Execve.pages, he', Option.map_some, hf]

/-- The strings are mapped: the pages are those of `page[]`. -/
theorem Placing.own (h₀ : Ok w m₀) (h₁ : Empty w m₀ m₁) (h : Placing w m₁ m) : Own w m where
  mapped he := by
    obtain ⟨i, h0, -, rfl⟩ := h.pte he
    rw [h₁.page] at h0 ⊢
    exact h.map (h₁.arg ⟨i, rfl, h0⟩)
  inj he he' hf := by
    obtain ⟨i, h0, rfl, rfl⟩ := h.pte he
    obtain ⟨j, -, rfl, rfl⟩ := h.pte he'
    rw [h₁.page] at h0 hf
    rw [h₀.distinct h0 hf]
  inUse hs := h.map (h₁.inUse hs)
  addr hs he hf := by
    obtain ⟨i, h0, -, rfl⟩ := h.pte he
    rw [h₁.page] at h0
    refine absurd hs ?_
    rw [← hf, h₁.page]
    exact (h₀.args h0).2.unshared _ _

theorem Own.tabled (h : Own w m) (ht : Tabled w m i m') : Own w m' ∧ Stays m m' ∧ m'.pte = m.pte := by
  cases ht with
  | there => exact ⟨h, fun he => ⟨he, rfl⟩, rfl⟩
  | @made t _ hfree _ _ =>
    have hmap {n : Nat} : m.map n ≠ 0 → Function.update m.map t 1 n ≠ 0 := update_ne_zero Nat.one_ne_zero
    refine ⟨⟨fun he => hmap (h.mapped he), h.inj, fun hs => hmap (h.inUse hs), h.addr⟩, fun {v e} he => ⟨he, ?_⟩, rfl⟩
    have hne : e.frame ≠ t := fun e' => h.mapped he (e' ▸ hfree)
    exact Function.update_of_ne hne ..

theorem Own.paged (h : Own w m) (hp : Paged w tk m v m') (hv : m.pte v = none) : Own w m' ∧ Stays m m' := by
  have hne {v' : Nat} {e : Entry} (he : m.pte v' = some e) : v' ≠ v := fun e' => nomatch (e' ▸ he).symm.trans hv
  -- an entry of the new table is an old one, or that of the new page
  have hpte {f : Nat} {rw' : Bool} {v' : Nat} {e : Entry} (he : Function.update m.pte v (some ⟨f, rw'⟩) v' = some e) :
      v' = v ∧ e.frame = f ∨ m.pte v' = some e := by
    by_cases e' : v' = v
    · rw [e', Function.update_self] at he
      cases he
      exact .inl ⟨e', rfl⟩
    · rw [Function.update_of_ne e'] at he
      exact .inr he
  cases hp with
  | @fresh n c hfree hlow hlt hc =>
    have hfr {v' : Nat} {e : Entry} (he : m.pte v' = some e) : e.frame ≠ n := fun e' => h.mapped he (e' ▸ hfree)
    have hmap {k : Nat} : m.map k ≠ 0 → Function.update m.map n 1 k ≠ 0 := update_ne_zero Nat.one_ne_zero
    refine ⟨⟨fun he => ?_, fun he he' hf => ?_, fun hs => hmap (h.inUse hs), fun hs he hf => ?_⟩, fun he => ⟨?_, ?_⟩⟩
    · rcases hpte he with ⟨-, hn⟩ | he
      · rw [hn]
        change Function.update m.map n 1 n ≠ 0
        rw [Function.update_self]
        exact Nat.one_ne_zero
      · exact hmap (h.mapped he)
    · rcases hpte he with ⟨hv₁, hn⟩ | he
      · rcases hpte he' with ⟨hv₂, -⟩ | he'
        · exact hv₁.trans hv₂.symm
        · exact absurd (hf.symm.trans hn) (hfr he')
      · rcases hpte he' with ⟨-, hn⟩ | he'
        · exact absurd (hf.trans hn) (hfr he)
        · exact h.inj he he' hf
    · rcases hpte he with ⟨-, hn⟩ | he
      · exact absurd (hn.symm.trans hf ▸ hfree) (h.inUse hs)
      · exact h.addr hs he hf
    · exact (Function.update_of_ne (hne he) ..).trans he
    · exact Function.update_of_ne (hfr he) ..
  | @shared ino n hs hc =>
    have hfr {v' : Nat} {e : Entry} (he : m.pte v' = some e) : e.frame ≠ n := fun e' => hne he (h.addr hs he e')
    have hmap {k : Nat} : m.map k ≠ 0 → Function.update m.map n (m.map n + 1) k ≠ 0 := update_ne_zero (Nat.succ_ne_zero _)
    refine ⟨⟨fun he => ?_, fun he he' hf => ?_, fun hs => hmap (h.inUse hs), fun hs' he hf => ?_⟩, fun he => ⟨?_, rfl⟩⟩
    · rcases hpte he with ⟨-, hn⟩ | he
      · rw [hn]
        exact hmap (h.inUse hs)
      · exact hmap (h.mapped he)
    · rcases hpte he with ⟨hv₁, hn⟩ | he
      · rcases hpte he' with ⟨hv₂, -⟩ | he'
        · exact hv₁.trans hv₂.symm
        · exact absurd (hf.symm.trans hn) (hfr he')
      · rcases hpte he' with ⟨-, hn⟩ | he'
        · exact absurd (hf.trans hn) (hfr he)
        · exact h.inj he he' hf
    · rcases hpte he with ⟨hv', hn⟩ | he
      · rw [hv']
        exact w.share_addr (hn.symm.trans hf ▸ hs) hs'
      · exact h.addr hs' he hf
    · exact (Function.update_of_ne (hne he) ..).trans he

/-- A page fault of the new program. -/
theorem Own.brought (h : Own w m) (hb : Brought w tk m v m') (hv : m.pte v = none) : Own w m' ∧ Stays m m' := by
  obtain ⟨m₁, ht, hp⟩ := hb
  obtain ⟨h₁, hs₁, hpte⟩ := h.tabled ht
  obtain ⟨h', hs'⟩ := h₁.paged hp (hpte ▸ hv)
  refine ⟨h', fun he => ?_⟩
  obtain ⟨he₁, hf₁⟩ := hs₁ he
  obtain ⟨he', hf'⟩ := hs' he₁
  exact ⟨he', hf'.trans hf₁⟩

theorem Own.store (h : Own w m) (n k : Nat) (b : UInt8) : Own w (m.store n k b) := ⟨h.mapped, h.inj, h.inUse, h.addr⟩

/-- A byte stored in a page changes that byte. -/
theorem Own.pages_store (h : Own w m) {e : Entry} {a : Nat} (he : m.pte (a / 4096) = some e) (b : UInt8) (x : Nat) :
    pages (m.store e.frame (a % 4096) b) x = if x = a then some b else pages m x := by
  unfold pages
  rw [show (m.store e.frame (a % 4096) b).pte = m.pte from rfl]
  by_cases hx : x / 4096 = a / 4096
  · rw [hx, he, Option.map_some, Option.map_some, Space.store_frame, Function.update_self, Function.update_apply]
    by_cases hxa : x = a
    · rw [if_pos (by rw [hxa]), if_pos hxa]
    · rw [if_neg (by omega), if_neg hxa]
  · rw [if_neg (c := x = a) (by intro h; exact hx (by rw [h]))]
    cases he' : m.pte (x / 4096) with
    | none => rfl
    | some e' =>
      rw [Option.map_some, Option.map_some, Space.store_frame, Function.update_of_ne fun hf => hx (h.inj he' he hf)]

theorem setUserByte_ends {a : Nat} {b : UInt8} {Q : Unit → Space → Prop} (h : Own w m) (hend : tk.endData ≤ 2147483648)
    (hQ : ∀ m', Own w m' → pages m' a = some b → Keeps a (a + 1) (pages m) (pages m') → Q () m') :
    Ends (setUserByte w tk a b) (fun _ => True) Q m := by
  have hstored {m₁ : Space} {e : Entry} (h₁ : Own w m₁) (hs : Stays m m₁) (he : m₁.pte (a / 4096) = some e) :
      Q () (m₁.store e.frame (a % 4096) b) := by
    refine hQ _ (h₁.store _ _ _) ?_ fun x b' hx hout => ?_
    · rw [h₁.pages_store he, if_pos rfl]
    · rw [h₁.pages_store he, if_neg (by omega)]
      exact hs.pages hx
  refine Ends.bind (touch_ends hend (fun _ => trivial) ?_ (fun _ => trivial) (fun _ _ _ _ => trivial) ?_)
  · exact fun e _ he => Ends.modify (hstored h (fun he => ⟨he, rfl⟩) he)
  · intro _ hnone m₁ e hb he
    obtain ⟨h₁, hs⟩ := h.brought hb hnone
    exact Ends.modify (hstored h₁ hs he)

/-! ## The stack -/

/-- Bytes between `lo` and `hi` have been stored, and pages brought in. -/
structure Writes (w : World) (lo hi : Nat) (s s' : State) : Prop where
  same : s' = { s with mm := s'.mm }
  own : Own w s'.mm
  keeps : Keeps lo hi (pages s.mm) (pages s'.mm)

section Stack

variable {lo hi a p t : Nat} {b : UInt8} {s'' : State} {xs ys : List (List UInt8)}

theorem Writes.refl (h : Own w s.mm) : Writes w lo hi s s := ⟨rfl, h, .refl⟩

theorem Writes.trans (h : Writes w lo hi s s') (h' : Writes w lo hi s' s'') : Writes w lo hi s s'' := by
  refine ⟨?_, h'.own, h.keeps.trans h'.keeps⟩
  rw [h'.same, h.same]

theorem Writes.mono {lo' hi' : Nat} (h : Writes w lo hi s s') (hlo : lo' ≤ lo) (hhi : hi ≤ hi') : Writes w lo' hi' s s' :=
  ⟨h.same, h.own, h.keeps.mono hlo hhi⟩

theorem Writes.task (h : Writes w lo hi s s') : s'.task = s.task := by rw [h.same]

theorem Writes.fs_eq (h : Writes w lo hi s s') : s'.fs = s.fs := by rw [h.same]

theorem putFsByte_ends {Q : Unit → State → Prop} (h : Own w s.mm) (hend : s.task.endData ≤ 2147483648)
    (hQ : ∀ s', Writes w a (a + 1) s s' → pages s'.mm a = some b → Q () s') : Ends (putFsByte w a b) (fun _ => True) Q s :=
  Ends.bind (Ends.get (onMemory_ends (setUserByte_ends h hend fun _ hown hb hk => hQ _ ⟨rfl, hown, hk⟩ hb)))

theorem putFsBytes_ends {l : List UInt8} {Q : Unit → State → Prop} (h : Own w s.mm) (hend : s.task.endData ≤ 2147483648)
    (hQ : ∀ s', Writes w a (a + l.length) s s' → Spells (pages s'.mm) a l → Q () s') : Ends (putFsBytes w a l) (fun _ => True) Q s := by
  induction l generalizing s a Q with
  | nil => exact Ends.pure (hQ s (.refl h) trivial)
  | cons b l ih =>
    refine Ends.bind (putFsByte_ends h hend fun s₁ h₁ hb => ih h₁.own (h₁.task ▸ hend) fun s₂ h₂ hl => ?_)
    rw [List.length_cons] at hQ
    have h₁' : Writes w a (a + (l.length + 1)) s s₁ := h₁.mono (Nat.le_refl _) (by omega)
    have h₂' : Writes w a (a + (l.length + 1)) s₁ s₂ := h₂.mono (by omega) (by omega)
    exact hQ s₂ (h₁'.trans h₂') ⟨h₂.keeps a b hb (.inl (by omega)), hl⟩

theorem putFsLong_ends {x : Nat} {Q : Unit → State → Prop} (h : Own w s.mm) (hend : s.task.endData ≤ 2147483648)
    (hQ : ∀ s', Writes w a (a + 4) s s' → Spells (pages s'.mm) a (le32 x) → Q () s') : Ends (putFsLong w a x) (fun _ => True) Q s :=
  putFsBytes_ends h hend hQ

/-- A byte of a page that is there. -/
theorem getFsByte_pages {Q : UInt8 → State → Prop} (hfs : s.fs = .user) (hb : pages s.mm a = some b) (hQ : Q b s) :
    Ends (getFsByte w a) (fun _ => True) Q s := by
  obtain ⟨e, he, rfl⟩ := Option.map_eq_some_iff.1 hb
  refine Ends.bind (Ends.get ?_)
  rw [hfs]
  refine onMemory_ends (Ends.bind (Ends.ite (fun _ => Ends.throw trivial) fun _ => Ends.bind (Ends.get ?_)))
  rw [he]
  exact Ends.pure (Ends.bind (Ends.get (Ends.pure hQ)))

theorem skipString_pages {x : List UInt8} {Q : Nat → State → Prop} (hfs : s.fs = .user) (hx : Spells (pages s.mm) a (x ++ [0])) (h0 : 0 ∉ x)
    (hn : x.length < n) (hQ : Q (a + x.length + 1) s) : Ends (skipString w n a) (fun _ => True) Q s := by
  induction n generalizing a x with
  | zero => exact absurd hn (Nat.not_lt_zero _)
  | succ n ih =>
    cases x with
    | nil => exact Ends.bind (getFsByte_pages hfs hx.1 (Ends.ite (fun _ => Ends.pure hQ) fun h => absurd rfl h))
    | cons b x =>
      rw [List.mem_cons, not_or] at h0
      refine Ends.bind (getFsByte_pages hfs hx.1 (Ends.ite (fun hb => absurd hb.symm h0.1) fun _ => ?_))
      refine ih hx.2 h0.2 (Nat.lt_of_succ_lt_succ hn) ?_
      rwa [List.length_cons, ← Nat.add_assoc, Nat.add_right_comm a] at hQ

/-- **A table of `create_tables`**, below the strings. -/
theorem tabulate_ends {Q : Nat → State → Prop} (h : Own w s.mm) (hfs : s.fs = .user) (hend : s.task.endData ≤ 2147483648)
    (hnul : ∀ x ∈ xs, 0 ∉ x) (hs : Spells (pages s.mm) p (flat xs)) (hlen : (flat xs).length < space) (ht : t + 4 * (xs.length + 1) ≤ p)
    (hQ : ∀ s', Writes w t (t + 4 * (xs.length + 1)) s s' → Laid (pages s'.mm) t p xs → Q (p + (flat xs).length) s') :
    Ends (tabulate w xs.length p t) (fun _ => True) Q s := by
  induction xs generalizing s p t Q with
  | nil => exact Ends.bind (putFsLong_ends h hend fun s' h' hnull => Ends.pure (hQ s' h' hnull))
  | cons x xs ih =>
    rw [flat_cons, List.length_append, List.length_cons] at hQ hlen
    rw [List.length_cons] at ht hQ
    have hsplit : flat (x :: xs) = (x ++ [0]) ++ flat xs := by rw [flat_cons, List.append_assoc, List.singleton_append]
    rw [hsplit] at hs
    refine Ends.bind (putFsLong_ends h hend fun s₁ h₁ hptr => ?_)
    have hs₁ := hs.keeps h₁.keeps (.inr (by omega))
    obtain ⟨hx, hrest⟩ := spells_append.1 hs₁
    rw [List.length_append, List.length_singleton, ← Nat.add_assoc] at hrest
    refine Ends.bind (skipString_pages (h₁.fs_eq.trans hfs) hx (hnul x List.mem_cons_self) (by omega) ?_)
    refine ih h₁.own (h₁.fs_eq.trans hfs) (h₁.task ▸ hend) (fun y hy => hnul y (List.mem_cons_of_mem _ hy)) hrest (by omega) (by omega)
      fun s₂ h₂ hlaid => ?_
    have h₁' : Writes w t (t + 4 * (xs.length + 1 + 1)) s s₁ := h₁.mono (Nat.le_refl _) (by omega)
    have h₂' : Writes w t (t + 4 * (xs.length + 1 + 1)) s₁ s₂ := h₂.mono (by omega) (by omega)
    have hp : p + x.length + 1 + (flat xs).length = p + (x.length + ((flat xs).length + 1)) := by omega
    rw [hp]
    refine hQ s₂ (h₁'.trans h₂') ⟨hptr.keeps h₂.keeps (.inl ?_), hx.keeps h₂.keeps (.inr (by omega)), hlaid⟩
    rw [le32_length]

/-- The three words at `sp`, the tables behind them, and the strings from `p` on. -/
structure Stacked (u : Memory) (sp p : Nat) (xs ys : List (List UInt8)) : Prop where
  argc : Spells u sp (le32 xs.length)
  argv : Spells u (sp + 4) (le32 (sp + 12))
  envp : Spells u (sp + 8) (le32 (sp + 12 + 4 * (xs.length + 1)))
  args : Laid u (sp + 12) p xs
  envs : Laid u (sp + 12 + 4 * (xs.length + 1)) (p + (flat xs).length) ys
  room : sp + 12 + 4 * (xs.length + 1) + 4 * (ys.length + 1) ≤ p

theorem Stacked.keeps {u u' : Memory} {sp : Nat} (h : Stacked u sp p xs ys) (hk : Keeps lo hi u u') (hhi : hi ≤ sp) : Stacked u' sp p xs ys := by
  have hroom := h.room
  exact
    { argc := h.argc.keeps hk (.inr hhi)
      argv := h.argv.keeps hk (.inr (by omega))
      envp := h.envp.keeps hk (.inr (by omega))
      args := h.args.keeps hk (.inr (by omega)) (.inr (by omega))
      envs := h.envs.keeps hk (.inr (by omega)) (.inr (by omega))
      room := hroom }

theorem sub32_eq {x y : Nat} (h : y ≤ x) (hx : x < 4294967296) : sub32 x y = x - y := by
  unfold sub32
  omega

/-- **`create_tables`**. -/
theorem createTables_ends {Q : Nat → State → Prop} (h : Own w s.mm) (hfs : s.fs = .user) (hend : s.task.endData ≤ 2147483648)
    (hnul : ∀ x ∈ xs ++ ys, 0 ∉ x) (hs : Spells (pages s.mm) p (flat (xs ++ ys))) (hlow : 3221094400 ≤ p) (htop : p + (flat (xs ++ ys)).length = 3221225468)
    (hQ : ∀ sp s', 3000000000 ≤ sp → s'.task = s.task → Own w s'.mm → Stacked (pages s'.mm) sp p xs ys → Q sp s') :
    Ends (createTables w p xs.length ys.length) (fun _ => True) Q s := by
  have hn := length_le_flat (xs ++ ys)
  rw [List.length_append] at hn
  have hspace : space = 4294967296 := rfl
  rw [flat_append, List.length_append] at htop hn
  rw [flat_append] at hs
  obtain ⟨sp, hsp, hge⟩ : ∃ sp, sp + 12 + 4 * (xs.length + 1) + 4 * (ys.length + 1) = p / 4 * 4 ∧ 3000000000 ≤ sp :=
    ⟨p / 4 * 4 - 4 * (ys.length + 1) - 4 * (xs.length + 1) - 12, by omega, by omega⟩
  have henvp : sub32 (p / 4 * 4) (4 * (ys.length + 1)) = sp + 12 + 4 * (xs.length + 1) := by
    rw [sub32_eq (by omega) (by omega)]
    omega
  have hargv : sub32 (sp + 12 + 4 * (xs.length + 1)) (4 * (xs.length + 1)) = sp + 12 := by
    rw [sub32_eq (by omega) (by omega)]
    omega
  have hwords : sub32 (sp + 12) 4 = sp + 8 ∧ sub32 (sp + 12) 8 = sp + 4 ∧ sub32 (sp + 12) 12 = sp :=
    ⟨sub32_eq (by omega) (by omega), sub32_eq (by omega) (by omega), sub32_eq (by omega) (by omega)⟩
  unfold createTables
  dsimp only
  rw [henvp, hargv, hwords.1, hwords.2.1, hwords.2.2]
  -- the words
  refine Ends.bind (putFsLong_ends h hend fun s₁ h₁ henvp => Ends.bind (putFsLong_ends h₁.own (h₁.task ▸ hend) fun s₂ h₂ hargv => ?_))
  have ht₂ : s₂.task = s.task := h₂.task.trans h₁.task
  refine Ends.bind (putFsLong_ends h₂.own (ht₂ ▸ hend) fun s₃ h₃ hargc => ?_)
  have ht₃ : s₃.task = s.task := h₃.task.trans ht₂
  have hfs₃ : s₃.fs = .user := h₃.fs_eq.trans (h₂.fs_eq.trans (h₁.fs_eq.trans hfs))
  have h₀₃ : Writes w sp (sp + 12) s s₃ :=
    ((h₁.mono (by omega) (by omega)).trans (h₂.mono (by omega) (by omega))).trans (h₃.mono (Nat.le_refl _) (by omega))
  obtain ⟨hxs, hys⟩ := spells_append.1 (hs.keeps h₀₃.keeps (.inr (by omega)))
  -- the tables
  refine Ends.bind (tabulate_ends h₃.own hfs₃ (ht₃ ▸ hend) (fun x hx => hnul x (List.mem_append_left _ hx)) hxs (by omega) (by omega)
    fun s₄ h₄ hargs => ?_)
  have ht₄ : s₄.task = s.task := h₄.task.trans ht₃
  refine Ends.bind (tabulate_ends h₄.own (h₄.fs_eq.trans hfs₃) (ht₄ ▸ hend) (fun x hx => hnul x (List.mem_append_right _ hx))
    (hys.keeps h₄.keeps (.inr (by omega))) (by omega) (by omega) fun s₅ h₅ henvs => Ends.pure ?_)
  refine hQ sp s₅ hge (h₅.task.trans ht₄) h₅.own ?_
  have h₃₅ : Keeps (sp + 12) p (pages s₃.mm) (pages s₅.mm) :=
    (h₄.keeps.mono (Nat.le_refl _) (by omega)).trans (h₅.keeps.mono (by omega) (by omega))
  exact
    { argc := hargc.keeps h₃₅ (.inl (by rw [le32_length]; omega))
      argv := (hargv.keeps h₃.keeps (.inr (by omega))).keeps h₃₅ (.inl (by rw [le32_length]; omega))
      envp := ((henvp.keeps h₂.keeps (.inr (by omega))).keeps h₃.keeps (.inr (by omega))).keeps h₃₅ (.inl (by rw [le32_length]))
      args := hargs.keeps h₅.keeps (.inl (Nat.le_refl _)) (.inr (by omega))
      envs := henvs
      room := by omega }

theorem clearTail_ends {Q : Unit → State → Prop} (h : Own w s.mm) (hend : s.task.endData ≤ 2147483648)
    (hQ : ∀ s', Writes w a (a + n) s s' → Q () s') : Ends (clearTail w n a) (fun _ => True) Q s := by
  induction n generalizing s a Q with
  | zero => exact Ends.pure (hQ s (.refl h))
  | succ n ih =>
    refine Ends.bind (putFsByte_ends h hend fun s₁ h₁ _ => ih h₁.own (h₁.task ▸ hend) fun s₂ h₂ => hQ s₂ ?_)
    exact (h₁.mono (Nat.le_refl _) (by omega)).trans (h₂.mono (by omega) (by omega))

end Stack

/-! ## The point of no return -/

/-- What is not of the pages has changed. -/
def Lets (s s' : State) : Prop := s'.mm = s.mm ∧ s'.task.endData = s.task.endData

theorem iput_lets (ino : Nat) : Ends (iput ino) (fun _ => True) (fun _ s' => Lets s s') s :=
  Ends.bind (Ends.get (Ends.ite (fun _ => Ends.throw trivial) fun _ => Ends.set ⟨rfl, rfl⟩))

theorem sysClose_lets (fd : Nat) : Ends (sysClose w fd) (fun _ => True) (fun _ s' => Lets s s') s := by
  refine Ends.bind (Ends.get ?_)
  split
  · exact Ends.pure ⟨rfl, rfl⟩
  · refine Ends.ite (fun _ => Ends.throw trivial) fun _ => Ends.bind (Ends.set (onlyIf_ends (fun _ => ?_) fun _ => ⟨rfl, rfl⟩))
    exact (iput_lets _).mono fun _ _ h => h

theorem closeFiles_lets : Ends (closeFiles w l) (fun _ => True) (fun _ s' => Lets s s') s := by
  induction l generalizing s with
  | nil => exact Ends.pure ⟨rfl, rfl⟩
  | cons fd l ih =>
    have hclose : Ends (onlyIf (s.task.closeOnExec fd = true) (sysClose w fd)) (fun _ => True) (fun _ s' => Lets s s') s :=
      onlyIf_ends (fun _ => sysClose_lets fd) fun _ => ⟨rfl, rfl⟩
    refine Ends.bind (Ends.get (Ends.seq hclose fun _ s₁ h₁ => ih.mono fun _ s₂ h₂ => ?_))
    exact ⟨h₂.1.trans h₁.1, h₂.2.trans h₁.2⟩

theorem discard_lets (ino : Nat) : Ends (discard w ino) (fun _ => True) (fun _ s' => Lets s s') s := by
  have hput : Ends (iputExecutable s.task.executable) (fun _ => True) (fun _ s' => Lets s s') s := by
    unfold iputExecutable
    split
    · exact Ends.pure ⟨rfl, rfl⟩
    · exact iput_lets _
  refine Ends.bind (Ends.get (Ends.seq hput fun _ s₁ h₁ => Ends.bind (Ends.modify (Ends.seq closeFiles_lets fun _ s₂ h₂ => ?_))))
  exact Ends.modify ⟨h₂.1.trans h₁.1, h₂.2.trans h₁.2⟩

/-- The strings are mapped at the end of the segment. -/
theorem Placing.strings {l : List UInt8} {p : Nat} (h₁ : Empty w m₀ m₁) (h : Placing w m₁ m)
    (hpte : ∀ i, m₁.page i ≠ 0 → i < 32 → m.pte (786400 + i) = some ⟨m₁.page i, true⟩) (hat : Spells (argBytes m₀) p l)
    (hlen : p + l.length = argTop) : Spells (pages m) (p + 3221094400) l := by
  have htop : argTop = 131068 := rfl
  refine spells_iff.2 fun k hk => ?_
  have hb := spells_iff.1 hat k hk
  have h0 : m₀.page ((p + k) / 4096) ≠ 0 := fun e => nomatch (if_pos e).symm.trans hb
  rw [argBytes, if_neg h0] at hb
  have hdiv : (p + 3221094400 + k) / 4096 = 786400 + (p + k) / 4096 := by omega
  have hmod : (p + 3221094400 + k) % 4096 = (p + k) % 4096 := by omega
  have hp := hpte ((p + k) / 4096) (h₁.page ▸ h0) (by omega)
  rw [pages, hdiv, hp, hmod, Option.map_some, h₁.page, h.frame (h₁.arg ⟨_, rfl, h0⟩), h₁.frame]
  exact hb

/-- The new pages are those of the strings. -/
theorem placeArgs_ends {l : List UInt8} {p : Nat} (h₀ : Ok w m₀) (h₁ : Empty w m₀ s.mm) (hat : Spells (argBytes m₀) p l)
    (hlen : p + l.length = argTop) :
    Ends (onMemory (putArgs w (List.range 32).reverse)) (fun _ => True)
      (fun _ s' => s'.fs = s.fs ∧ s'.task = s.task ∧ Own w s'.mm ∧ Spells (pages s'.mm) (p + 3221094400) l) s := by
  have hplace : Placing w s.mm s.mm :=
    { page := rfl
      frame := fun _ => rfl
      map := id
      pte := fun he => by
        rw [h₁.pte] at he
        cases he
      room := .inr h₁.free }
  refine onMemory_ends (putArgs_ends hplace (fun i hi => List.mem_range.1 (List.mem_reverse.1 hi)) fun m h hpte => ?_)
  refine ⟨rfl, rfl, h.own h₀ h₁, h.strings h₁ (fun i h0 hi => hpte i h0 (.inl ?_)) hat hlen⟩
  exact List.mem_reverse.2 (List.mem_range.2 hi)

/-- **From the point of no return on**, with the strings copied. -/
theorem commit_ends {r : Ready} {xs ys : List (List UInt8)} (hg : Good w s) (hnul : ∀ x ∈ xs ++ ys, 0 ∉ x)
    (hargc : r.argc = xs.length) (henvc : r.envc = ys.length) (hend : r.ex.endData.toNat ≤ 16777216)
    (hlen : r.p + (flat (xs ++ ys)).length = argTop) (hat : Spells (argBytes s.mm) r.p (flat (xs ++ ys))) :
    Ends (commit w r) (fun _ => True) (fun _ s' => Stacked (pages s'.mm) s'.esp (r.p + 3221094400) xs ys) s := by
  have htop : argTop = 131068 := rfl
  have htask : taskSize - 131072 = 3221094400 := by decide
  have hmem (i : Nat) (hi : i < 768) : i ∈ List.range 768 := List.mem_range.2 hi
  unfold commit
  generalize List.range 768 = entries at hmem ⊢
  rw [htask, hargc, Int.toNat_natCast, henvc]
  refine Ends.seq (discard_lets r.ino) fun _ s₁ h₁ => ?_
  have hok : Ok w s₁.mm := h₁.1 ▸ hg.ok
  have hclear : Ends (onMemory (clearPageTables w entries)) (fun _ => True)
      (fun _ s₂ => s₂.task = s₁.task ∧ Empty w s₁.mm s₂.mm) s₁ :=
    onMemory_ends ((clearPageTables_empty hok hmem).mono fun _ m₂ hm₂ => ⟨rfl, hm₂⟩)
  refine Ends.seq hclear fun _ s₂ h₂ => Ends.bind (Ends.modify (Ends.seq (placeArgs_ends hok h₂.2 (h₁.1 ▸ hat) hlen) fun _ s₃ h₃ => ?_))
  obtain ⟨hfs, ht, hown, hstr⟩ := h₃
  have hend₃ : s₃.task.endData ≤ 2147483648 := by
    rw [ht]
    dsimp only
    rw [h₂.1, h₁.2]
    exact hg.task.endData
  have hhigh : r.p + 3221094400 + (flat (xs ++ ys)).length = 3221225468 := by omega
  refine Ends.bind (createTables_ends hown hfs hend₃ hnul hstr (by omega) hhigh fun sp s₄ hsp _ hown₄ hst => ?_)
  refine Ends.bind (Ends.modify (Ends.bind (clearTail_ends hown₄ (Nat.le_trans hend (by decide)) fun s₅ h₅ => Ends.modify ?_)))
  exact hst.keeps h₅.keeps (by omega)

/-! ## The whole call -/

/-- The codes of errors are negative. -/
def Code (r : Except Int Ready) : Prop := ∀ e, r = .error e → e < 0

theorem execError1_code {e : Int} (he : e < 0) : Ends (execError1 w e) (fun _ => True) (fun r _ => Code r) s := by
  refine Ends.seq Ends.any fun _ _ _ => Ends.pure fun e' h => ?_
  cases h
  exact he

theorem execError2_code {e : Int} {ino : Nat} (he : e < 0) : Ends (execError2 w ino e) (fun _ => True) (fun r _ => Code r) s :=
  Ends.seq Ends.any fun _ _ _ => execError1_code he

theorem examine_neg {e : Int} {ino : Nat} (h : examine w tk ino = .error e) : e < 0 := by
  unfold examine at h
  split at h
  · cases h
    decide
  · split at h
    · cases h
      decide
    · split at h <;> cases h
      decide

theorem firstBlock_code (ino : Nat) : Ends (firstBlock w ino) (fun _ => True) (fun r _ => ∀ e, r = .error e → e < 0) s := by
  refine Ends.bind (Ends.get ?_)
  split
  · rename_i he
    refine Ends.pure fun e' h => ?_
    cases h
    exact examine_neg he
  · exact Ends.seq Ends.any fun _ _ _ => Ends.pure fun _ h => nomatch h

theorem binary_code {b : Nat → UInt8} {copy : M Nat} {argc : Int} {envc ino : Nat} :
    Ends (binary w ino b copy argc envc) (fun _ => True) (fun r _ => Code r) s := by
  refine Ends.seq Ends.any fun _ _ _ => Ends.ite (fun _ => execError2_code (by decide)) fun _ => ?_
  refine Ends.seq Ends.any fun _ _ _ => Ends.ite (fun _ => execError2_code (by decide)) fun _ => ?_
  exact Ends.seq Ends.any fun _ _ _ => Ends.pure fun _ h => nomatch h

theorem script_code {c : Call} {sc : Script} {argc envc : Nat} : Ends (script w c sc argc envc) (fun _ => True) (fun r _ => Code r) s := by
  refine Ends.seq Ends.any fun _ _ _ => Ends.seq Ends.any fun _ _ _ => Ends.seq Ends.any fun _ _ _ => ?_
  refine Ends.seq Ends.any fun _ _ _ => Ends.seq Ends.any fun _ _ _ => Ends.seq Ends.any fun _ _ _ => ?_
  refine Ends.ite (fun _ => execError1_code (by decide)) fun _ => ?_
  refine Ends.seq Ends.any fun _ _ _ => Ends.seq Ends.any fun _ _ _ => Ends.seq Ends.any fun r _ _ => Ends.seq Ends.any fun _ _ _ => ?_
  cases r with
  | none => exact execError1_code (by decide)
  | some ino =>
    refine Ends.seq (firstBlock_code ino) fun r _ hr => ?_
    cases r with
    | error e => exact execError2_code (hr e rfl)
    | ok b => exact binary_code

theorem prepare_code (c : Call) : Ends (prepare w c) (fun _ => True) (fun r _ => Code r) s := by
  refine Ends.seq Ends.any fun _ _ _ => Ends.seq Ends.any fun r _ _ => ?_
  cases r with
  | none => exact Ends.pure fun e h => by cases h; decide
  | some ino =>
    refine Ends.seq Ends.any fun _ _ _ => Ends.seq Ends.any fun _ _ _ => Ends.seq (firstBlock_code ino) fun r _ hr => ?_
    cases r with
    | error e => exact execError2_code (hr e rfl)
    | ok b =>
      refine Ends.ite (fun _ => Ends.seq Ends.any fun _ _ _ => Ends.seq Ends.any fun _ _ _ => ?_) fun _ => binary_code
      cases parse b with
      | none => exact execError1_code (by decide)
      | some sc => exact script_code

section Delivers

variable {f : List UInt8} {xs ys : List (List UInt8)} {c : Call}

theorem Argv.nul (h : Argv u a xs) : ∀ x ∈ xs, 0 ∉ x := by
  intro x hx
  obtain ⟨i, hi, rfl⟩ := List.getElem_of_mem hx
  exact (h.strings i hi).1

/-- No argument of the new program has a NUL in it. -/
theorem Given.nul (h : Given u c f xs ys) {k : Option Script} (hk : ∀ sc, k = some sc → sc.Ok) : ∀ x ∈ newArgs f xs k ++ ys, 0 ∉ x := by
  intro x hx
  rcases List.mem_append.1 hx with hx | hx
  · cases k with
    | none => exact h.argv.nul x hx
    | some sc =>
      have hsc := hk sc rfl
      rcases List.mem_cons.1 hx with rfl | hx
      · exact hsc.name
      rcases List.mem_append.1 hx with hx | hx
      · exact hsc.arg x (Option.mem_toList.1 hx)
      rcases List.mem_cons.1 hx with rfl | hx
      · exact h.name
      · exact h.argv.nul x (List.mem_of_mem_tail hx)
  · exact h.envp.nul x hx

theorem found_ok {tk : Task} {k : Option Script} (h : found w tk f = some k) : ∀ sc, k = some sc → sc.Ok := by
  intro sc hk
  rw [hk] at h
  unfold found at h
  split at h
  · cases h
  · split at h
    · cases h
    · split at h
      · obtain ⟨sc', hp, he⟩ := Option.map_eq_some_iff.1 h
        cases he
        exact parse_ok hp
      · split at h <;> cases h

/-- `argc` is the number of arguments if a script gets one. -/
theorem newArgc_eq {k : Option Script} (h : ∀ sc, k = some sc → xs ≠ []) : newArgc xs.length k = (newArgs f xs k).length := by
  cases k with
  | none => rfl
  | some sc =>
    have := List.length_pos_iff.2 (h sc rfl)
    rw [newArgc, newArgs, List.length_cons, List.length_append, List.length_cons, List.length_tail]
    cases sc.arg <;> simp <;> omega

theorem sample_filename : Spells (view sampleWorld sampleState.task sampleState.mm) 4096 ([102] ++ [0]) := ⟨rfl, rfl, trivial⟩

theorem sample_argv : Argv (view sampleWorld sampleState.task sampleState.mm) 4112 [[97, 98], [99]] := by
  have h₀ : (0 : UInt8) ∉ [97, 98] := by decide
  have h₁ : (0 : UInt8) ∉ [99] := by decide
  refine .inr ⟨by decide, fun i hi => ?_, fun i hi h0 => ?_, ⟨rfl, rfl, rfl, rfl, trivial⟩⟩
  · obtain rfl | rfl := Nat.le_one_iff_eq_zero_or_eq_one.1 (Nat.le_of_lt_succ hi)
    · exact ⟨h₀, 4144, by decide, ⟨rfl, rfl, rfl, rfl, trivial⟩, ⟨rfl, rfl, rfl, trivial⟩⟩
    · exact ⟨h₁, 4148, by decide, ⟨rfl, rfl, rfl, rfl, trivial⟩, ⟨rfl, rfl, trivial⟩⟩
  · obtain rfl | rfl := Nat.le_one_iff_eq_zero_or_eq_one.1 (Nat.le_of_lt_succ hi)
    · exact absurd h0.1 (by decide)
    · exact absurd h0.1 (by decide)

theorem sample_envp : Argv (view sampleWorld sampleState.task sampleState.mm) 4128 [[101, 61, 49]] := by
  have h₀ : (0 : UInt8) ∉ [101, 61, 49] := by decide
  refine .inr ⟨by decide, fun i hi => ?_, fun i hi h0 => ?_, ⟨rfl, rfl, rfl, rfl, trivial⟩⟩
  · cases Nat.lt_one_iff.1 hi
    exact ⟨h₀, 4152, by decide, ⟨rfl, rfl, rfl, rfl, trivial⟩, ⟨rfl, rfl, rfl, rfl, trivial⟩⟩
  · cases Nat.lt_one_iff.1 hi
    exact absurd h0.1 (by decide)

-- it would evaluate the runs below
set_option linter.constructorNameAsVariable false

/-- Without arguments, a script gets one too few. -/
theorem sample_runs :
    found sampleWorld sampleState.task [102] = some (some ⟨[32], [47, 105], some [120]⟩) ∧
    Ends (doExecve sampleWorld ⟨4096, 4120, 4128⟩) (fun _ => False) (fun r s => r = 0 ∧ pages s.mm s.esp = some 2) sampleState ∧
    Ends (doExecve sampleWorld ⟨4096, 4112, 4128⟩) (fun _ => False) (fun r _ => r = 0) sampleState := by
  decide +kernel

end Delivers

end Linux011.Fs.Execve
