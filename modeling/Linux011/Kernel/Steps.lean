/-
Each operation keeps the invariant of the kernel: it does not panic, the
counts stay exact, and the other tasks keep their tables and pages.
-/
import Linux011.Kernel.Refs

namespace Linux011.Kernel

open Mm RefCount

variable {s : Prop} {lost lost' : Fin 4096 → Bool} {k k' : State} {t : Fin 64} {tk tk' : Task} {m m' : Mem}
  {R R' : Roots}

/-! ## The other tasks -/

theorem pde_congr_dir {u : Fin 64} (hd : R'.dir u = R.dir u) (i : Nat) : pde m R' u i = pde m R u i := by
  simp only [pde, hd]

theorem pte_congr_dir {u : Fin 64} (hd : R'.dir u = R.dir u) (i j : Nat) : pte m R' u i j = pte m R u i j := by
  simp only [pte, pde_congr_dir hd]

theorem dir_setTask {u : Fin 64} (hu : u ≠ t) (x : Option Task) :
    (roots (Function.update k.task t x) lost').dir u = (roots k.task lost).dir u := by
  simp [roots, hu]

/-- Mapped frames are in use, and hold data. -/
theorem KeepData.mapped (hK : KeepData m R m') (h : Inv s m R) (hs : s) (n w : Nat) (hM : m.Managed n)
    (hn : Mapped m R n) : m'.word n w = m.word n w :=
  hK n w hM (h.map_ne_zero_of_mapped hn) (h.not_isTable_of_mapped hs hn)

theorem Others.of (hdir : ∀ u, u ≠ t → R'.dir u = R.dir u) (hlow : m'.low = m.low)
    (hhigh : m'.high = m.high) (hpde : ∀ u i, u ≠ t → i < 768 → pde m' R u i = pde m R u i)
    (hpte : ∀ u i j, u ≠ t → i < 768 → j < 1024 → pte m' R u i j = pte m R u i j ∨
      pte m' R u i j = clearRw (pte m R u i j))
    (hdata : s → ∀ n w, m.Managed n → Mapped m R n → m'.word n w = m.word n w) : Others s t m R m' R' := by
  refine ⟨hlow, hhigh, fun u i hu hi => ?_, fun u i j hu hi hj => ?_, fun hs u i j hu hi hj hq hM w => ?_⟩
  · rw [pde_congr_dir (hdir u hu), hpde u i hu hi]
  · rw [pte_congr_dir (hdir u hu)]
    exact hpte u i j hu hi hj
  · exact hdata hs _ w hM ⟨.pte u ⟨i, hi⟩ ⟨j, hj⟩, by simp, ent_of_present hq⟩

theorem Others.refl (hdir : ∀ u, u ≠ t → R'.dir u = R.dir u) : Others s t m R m R' :=
  Others.of hdir rfl rfl (fun _ _ _ _ => rfl) (fun _ _ _ _ _ _ => .inl rfl) (fun _ _ _ _ _ => rfl)

theorem Others.trans {m₁ m₂ : Mem} {R₁ R₂ : Roots} (h : Others s t m R m₁ R₁) (h' : Others s t m₁ R₁ m₂ R₂) :
    Others s t m R m₂ R₂ := by
  refine ⟨h'.low.trans h.low, h'.high.trans h.high, fun u i hu hi => (h'.tables u i hu hi).trans (h.tables u i hu hi),
    fun u i j hu hi hj => ?_, fun hs u i j hu hi hj hq hM w => ?_⟩
  · rcases h.entries u i j hu hi hj with e | e <;> rcases h'.entries u i j hu hi hj with e' | e' <;> rw [e', e]
    · exact .inl rfl
    · exact .inr rfl
    · exact .inr rfl
    · exact .inr (clearRw_clearRw _)
  · have hfr : Present (pte m₁ R₁ u i j) ∧ frame (pte m₁ R₁ u i j) = frame (pte m R u i j) := by
      rcases h.entries u i j hu hi hj with e | e <;> rw [e]
      · exact ⟨hq, rfl⟩
      · exact ⟨by simpa using hq, by simp⟩
    have e := h'.data hs u i j hu hi hj hfr.1 (by rw [hfr.2]; exact (Inv.managed_congr h.low h.high _).2 hM) w
    rw [hfr.2] at e
    rw [e, h.data hs u i j hu hi hj hq hM w]

/-- No table has changed, nor a page that is mapped. -/
structure Still (s : Prop) (m : Mem) (R : Roots) (m' : Mem) : Prop where
  low : m'.low = m.low
  high : m'.high = m.high
  tables : ∀ u i, pde m' R u i = pde m R u i
  entries : ∀ u i j, i < 768 → pte m' R u i j = pte m R u i j
  data : s → ∀ n w, m.Managed n → Mapped m R n → m'.word n w = m.word n w

theorem Still.refl : Still s m R m := ⟨rfl, rfl, fun _ _ => rfl, fun _ _ _ _ => rfl, fun _ _ _ _ _ => rfl⟩

theorem mapped_congr (hpte : ∀ u i j, i < 768 → pte m' R u i j = pte m R u i j) (n : Nat) :
    Mapped m' R n ↔ Mapped m R n := by
  refine exists_congr fun r => and_congr_right fun hr => ?_
  cases r with
  | pte u i j => simp only [target, hpte u i j i.2]
  | _ => exact absurd hr (by simp)

theorem mapped_setMisc {x : Misc} {v : Option Nat} {n : Nat} : Mapped m (R.setMisc x v) n ↔ Mapped m R n := by
  refine exists_congr fun r => and_congr_right fun hr => ?_
  cases r with
  | pte u i j => exact Iff.rfl
  | _ => exact absurd hr (by simp)

theorem Still.trans {m₁ m₂ : Mem} (h : Still s m R m₁) (h' : Still s m₁ R m₂) : Still s m R m₂ := by
  refine ⟨h'.low.trans h.low, h'.high.trans h.high, fun u i => (h'.tables u i).trans (h.tables u i),
    fun u i j hi => (h'.entries u i j hi).trans (h.entries u i j hi), fun hs n w hM hn => ?_⟩
  rw [h'.data hs n w ((Inv.managed_congr h.low h.high n).2 hM) ((mapped_congr h.entries n).2 hn),
    h.data hs n w hM hn]

theorem Others.of_still (h : Still s m R m') (hdir : ∀ u, u ≠ t → R'.dir u = R.dir u) : Others s t m R m' R' :=
  Others.of hdir h.low h.high (fun u i _ _ => h.tables u i) (fun u i j _ hi _ => .inl (h.entries u i j hi)) h.data

theorem Still.of_claim (h : Inv s m R) {n : Nat} (h0 : m.map n = 0) : Still s m R (m.claim n) :=
  ⟨rfl, rfl, Inv.pde_keep rfl (h.claim_keep h0), fun u _ j hi => Inv.pte_keep rfl (h.claim_keep h0) u hi j,
    KeepData.mapped (h.keepData_claim h0) h⟩

theorem Others.of_intact (h : Inv s m R) (hm : Inv.Intact m R m') (hdir : ∀ u, u ≠ t → R'.dir u = R.dir u) :
    Others s t m R m' R' :=
  Others.of hdir hm.low hm.high (fun u i _ _ => hm.pde u i) (fun u i j _ hi _ => .inl (hm.pte u i j hi)) (KeepData.mapped hm.data h)

theorem Others.of_placed {i j w : Nat} (h : Inv s m R) (hm : Inv.Placed m R t i j w m')
    (hdir : ∀ u, u ≠ t → R'.dir u = R.dir u) : Others s t m R m' R' :=
  Others.of hdir hm.low hm.high (fun u i' hu _ => hm.pde u i' (fun e => hu e.1))
    (fun u i' j' hu hi' _ => .inl (by rw [hm.pte u i' j' hi', if_neg (fun e => hu e.1)])) (KeepData.mapped hm.data h)

theorem Others.of_verified (h : Inv s m R) (hm : Inv.Verified m R t m') (hdir : ∀ u, u ≠ t → R'.dir u = R.dir u) :
    Others s t m R m' R' :=
  Others.of hdir hm.low hm.high (fun u i' _ _ => hm.pde u i') (fun u i' j' hu hi' _ => .inl (hm.other u i' j' hi' hu))
    (KeepData.mapped hm.data h)

theorem Others.of_unshared {i j : Nat} (h : Inv s m R) (hm : Inv.Unshared m R t i j m')
    (hdir : ∀ u, u ≠ t → R'.dir u = R.dir u) : Others s t m R m' R' :=
  Others.of hdir hm.low hm.high (fun u i' _ _ => hm.pde u i')
    (fun u i' j' hu hi' _ => .inl (hm.pte u i' j' hi' (fun e => hu e.1))) (KeepData.mapped hm.data h)

theorem Others.of_shared {v : Option (Fin 64)} {src i j : Nat} (h : Inv s m R) (hm : Inv.Shared m R t v src i j m')
    (hdir : ∀ u, u ≠ t → R'.dir u = R.dir u) : Others s t m R m' R' := by
  refine Others.of hdir hm.low hm.high (fun u i' hu _ => hm.pde u i' (fun e => hu e.1))
    (fun u i' j' hu hi' _ => ?_) (KeepData.mapped hm.data h)
  rw [hm.pte u i' j' hi' (fun e => hu e.1)]
  split
  · exact .inr rfl
  · exact .inl rfl

/-! ## One task changes -/

/-- The invariant of the kernel after an operation of task `t`. -/
theorem KInv.update (h : KInv s lost k) (ht : t ≠ 0) (tk' : Task) (m' : Mem) (hmem : k'.mem = m')
    (htask : k'.task = Function.update k.task t (some tk'))
    (hinv : Inv s m' (roots (Function.update k.task t (some tk')) lost'))
    (hoth : Others s t k.mem (roots k.task lost) m' (roots (Function.update k.task t (some tk')) lost'))
    (hown : tk'.cr3 ≠ 0 ↔ tk'.phase.live) (hlim : tk'.limit ≤ taskSize)
    (hload : ∀ n a, tk'.load = some (n, a) → (tk'.phase.touches ∧ a % 4096 = 0) ∧ Mem.dirIx a < 768 ∧
      ¬ Present (pte m' (roots (Function.update k.task t (some tk')) lost') t (Mem.dirIx a) (Mem.tabIx a)))
    (htab : tk'.phase.live → (∀ e p, tk'.phase ≠ .building e p) →
      ∃ i, i < 768 ∧ Present (pde m' (roots (Function.update k.task t (some tk')) lost') t i)) :
    KInv s lost' k' := by
  constructor
  case mem => rw [hmem, htask]; exact hinv
  case own =>
    intro u tu hu hk
    rw [htask] at hk
    by_cases he : u = t
    · subst he
      simp only [Function.update_self, Option.some.injEq] at hk
      rw [← hk]; exact hown
    · exact h.own u tu hu (by simpa [he] using hk)
  case init =>
    rw [htask]
    simpa [Ne.symm ht] using h.init
  case limit =>
    intro u tu hk
    rw [htask] at hk
    by_cases he : u = t
    · subst he
      simp only [Function.update_self, Option.some.injEq] at hk
      rw [← hk]; exact hlim
    · exact h.limit u tu (by simpa [he] using hk)
  case load =>
    intro u tu n a hk hl
    rw [hmem, htask]
    rw [htask] at hk
    by_cases he : u = t
    · subst he
      simp only [Function.update_self, Option.some.injEq] at hk
      subst hk
      exact hload n a hl
    · obtain ⟨h₁, h₂, h₃⟩ := h.load u tu n a (by simpa [he] using hk) hl
      refine ⟨h₁, h₂, ?_⟩
      rcases hoth.entries u _ _ he h₂ (Inv.tabIx_lt a) with e | e <;> rw [e]
      · exact h₃
      · simpa using h₃
  case table =>
    intro u tu hu hk hlive hb
    rw [hmem, htask]
    rw [htask] at hk
    by_cases he : u = t
    · subst he
      simp only [Function.update_self, Option.some.injEq] at hk
      subst hk
      exact htab hlive hb
    · obtain ⟨i, hi, hp⟩ := h.table u tu hu (by simpa [he] using hk) hlive hb
      exact ⟨i, hi, by rw [hoth.tables u i he hi]; exact hp⟩

/-- The same, where the task's record stays as it is. -/
theorem KInv.memory (h : KInv s lost k) (ht : t ≠ 0) (hk : k.task t = some tk) (hmem : k'.mem = m')
    (htask : k'.task = k.task) (hinv : Inv s m' (roots k.task lost))
    (hoth : Others s t k.mem (roots k.task lost) m' (roots k.task lost))
    (hload : tk.load = none)
    (htab : ∀ i, i < 768 → Present (pde k.mem (roots k.task lost) t i) → Present (pde m' (roots k.task lost) t i)) :
    KInv s lost k' := by
  have hsame : Function.update k.task t (some tk) = k.task := by rw [← hk, Function.update_eq_self]
  refine h.update ht tk m' hmem (by rw [htask, hsame]) (by rw [hsame]; exact hinv) (by rw [hsame]; exact hoth)
    (h.own t tk ht hk) (h.limit t tk hk) (by simp [hload]) ?_
  intro hl hb
  rw [hsame]
  obtain ⟨i, hi, hp⟩ := h.table t tk ht hk hl hb
  exact ⟨i, hi, htab i hi hp⟩

/-- The same, where only the task's record changes and it keeps its pages. -/
theorem KInv.record (h : KInv s lost k) (ht : t ≠ 0) (hk : k.task t = some tk)
    (hmem : k'.mem = k.mem) (htask : k'.task = Function.update k.task t (some tk')) (hc : tk'.cr3 = tk.cr3)
    (hp : tk'.page = tk.page) (ha : tk'.phase.pages = tk.phase.pages) (hl : tk'.load = none) (hl' : tk.load = none)
    (hlive : tk'.phase.live = tk.phase.live) (hlim : tk'.limit ≤ taskSize)
    (htab : (∀ e p, tk'.phase ≠ .building e p) → (∀ e p, tk.phase ≠ .building e p) ∨
      ∃ i, i < 768 ∧ Present (pde k.mem (roots k.task lost) t i)) : KInv s lost k' := by
  have hR : roots (Function.update k.task t (some tk')) lost = roots k.task lost :=
    roots_congr hk hc hp ha (by rw [hl, hl'])
  refine h.update ht tk' k.mem hmem htask (by rw [hR]; exact h.mem) (by rw [hR]; exact Others.refl fun _ _ => rfl)
    (by rw [hc, hlive]; exact h.own t tk ht hk) hlim (by simp [hl]) fun hlv hb => ?_
  rw [hR]
  rcases htab hb with hb | hx
  · exact h.table t tk ht hk (by rw [← hlive]; exact hlv) hb
  · exact hx

/-- What an operation of task `t` has done, seen from the rest of the kernel. -/
structure After (s : Prop) (lost : Fin 4096 → Bool) (t : Fin 64) (k k' : State) (lost' : Fin 4096 → Bool) : Prop where
  inv : KInv s lost' k'
  others : Others s t k.mem (roots k.task lost) k'.mem (roots k'.task lost')
  task : ∀ u, u ≠ t → k'.task u = k.task u

theorem After.trans {k₁ k₂ : State} {lost₁ lost₂ : Fin 4096 → Bool} (h : After s lost t k k₁ lost₁)
    (h' : After s lost₁ t k₁ k₂ lost₂) : After s lost t k k₂ lost₂ :=
  ⟨h'.inv, h.others.trans h'.others, fun u hu => (h'.task u hu).trans (h.task u hu)⟩

theorem KInv.dir (h : KInv s lost k) (ht : t ≠ 0) (hk : k.task t = some tk) (hlive : tk.phase.live) :
    (roots k.task lost).dir t = some tk.cr3 :=
  roots_dir ht hk ((h.own t tk ht hk).2 hlive)

theorem KInv.entryAt (h : KInv s lost k) (ht : t ≠ 0) (hk : k.task t = some tk) (hlive : tk.phase.live) (a : Nat) :
    State.entryAt k.mem tk.cr3 a = pte k.mem (roots k.task lost) t (Mem.dirIx a) (Mem.tabIx a) :=
  (pte_walk (h.dir ht hk hlive) _ _).symm

theorem Phase.touches_live {p : Phase} (h : p.touches = true) : p.live = true := by
  cases p <;> simp_all [Phase.touches, Phase.live]

theorem Phase.isUser_touches {p : Phase} (h : p.isUser = true) : p.touches = true := by
  cases p <;> simp_all [Phase.touches, Phase.isUser]

theorem Phase.isUser_pages {p : Phase} (h : p.isUser = true) (i : Fin 32) : p.pages i = none := by
  cases p <;> simp_all [Phase.pages, Phase.isUser]

/-! ## Exit -/

/-- The references without the pages `page[i]`, `i` in `l`, of task `t`. -/
def dropMisc (R : Roots) (t : Fin 64) (l : List (Fin 32)) : Misc → Option Nat
  | .arg u i => if u = t ∧ i ∈ l then none else R.misc (.arg u i)
  | x => R.misc x

/-- The references after the pages `page[i]`, `i` in `l`, of task `t` were lost. -/
def lostMisc (R : Roots) (t : Fin 64) (l : List (Fin 32)) : Misc → Option Nat
  | .arg u i => if u = t ∧ i ∈ l then none else R.misc (.arg u i)
  | .lost n => if ∃ i ∈ l, R.misc (.arg t i) = some n.val then some n.val else R.misc (.lost n)
  | x => R.misc x

theorem loseArgs (h : Inv s m R) (hlost : ∀ n v, R.misc (.lost n) = some v → v = n.val) (t : Fin 64)
    (l : List (Fin 32)) (hl : l.Nodup) : Inv s m ⟨R.dir, lostMisc R t l⟩ := by
  induction l with
  | nil =>
    have : (⟨R.dir, lostMisc R t []⟩ : Roots) = R := by
      ext1
      · rfl
      · funext x
        cases x <;> simp [lostMisc]
    rw [this]; exact h
  | cons i l ih =>
    obtain ⟨hi, hl⟩ := List.nodup_cons.1 hl
    have hI := ih hl
    have harg : lostMisc R t l (.arg t i) = R.misc (.arg t i) := by simp [lostMisc, hi]
    cases hp : R.misc (.arg t i) with
    | none =>
      -- Nothing to lose at `page[i]`.
      have : (⟨R.dir, lostMisc R t (i :: l)⟩ : Roots) = ⟨R.dir, lostMisc R t l⟩ := by
        ext1
        · rfl
        · funext x
          cases x with
          | arg u i' =>
            by_cases he : u = t ∧ i' = i
            · obtain ⟨rfl, rfl⟩ := he
              simp [lostMisc, hi, hp]
            · have : (u = t ∧ (i' = i ∨ i' ∈ l)) ↔ (u = t ∧ i' ∈ l) := by
                constructor
                · rintro ⟨h₁, h₂ | h₂⟩
                  · exact absurd ⟨h₁, h₂⟩ he
                  · exact ⟨h₁, h₂⟩
                · exact fun e => ⟨e.1, .inr e.2⟩
              simp [lostMisc, this]
          | lost n => simp [lostMisc, hp]
          | _ => rfl
      rw [this]; exact hI
    | some n =>
      have hM : m.Managed n := h.sound.managed (.misc (.arg t i)) n (by simp) hp
      have hlt : n < 4096 := lt_of_lt_of_le hM.2 h.high_le
      have hfree : lostMisc R t l (.lost ⟨n, hlt⟩) = none := by
        cases hv : lostMisc R t l (.lost ⟨n, hlt⟩) with
        | none => rfl
        | some v =>
          have hvn : v = n := by
            simp only [lostMisc] at hv
            split at hv
            · exact (Option.some.inj hv).symm
            · exact hlost _ _ hv
          subst hvn
          have := hI.sound.uniq (.misc (.lost ⟨v, hlt⟩)) (.misc (.arg t i)) v (by simp) (by simp) hv
            (harg.trans hp)
          simp at this
      have hnext := hI.handOver (x := .arg t i) (y := .lost ⟨n, hlt⟩) (n := n) (harg.trans hp) hfree
      have : (⟨R.dir, lostMisc R t (i :: l)⟩ : Roots) =
          ((⟨R.dir, lostMisc R t l⟩ : Roots).setMisc (.arg t i) none).setMisc (.lost ⟨n, hlt⟩) (some n) := by
        ext1
        · rfl
        · funext x
          cases x with
          | arg u i' =>
            by_cases he : u = t ∧ i' = i
            · obtain ⟨rfl, rfl⟩ := he
              simp [lostMisc]
            · have hne : Misc.arg u i' ≠ Misc.arg t i := by
                intro e
                injection e with e₁ e₂
                exact he ⟨e₁, e₂⟩
              have : (u = t ∧ (i' = i ∨ i' ∈ l)) ↔ (u = t ∧ i' ∈ l) := by
                constructor
                · rintro ⟨h₁, h₂ | h₂⟩
                  · exact absurd ⟨h₁, h₂⟩ he
                  · exact ⟨h₁, h₂⟩
                · exact fun e => ⟨e.1, .inr e.2⟩
              simp [lostMisc, hne, this]
          | lost n' =>
            by_cases he : n' = ⟨n, hlt⟩
            · subst he
              simp [lostMisc, hp]
            · have hne : n ≠ n'.val := fun e => he (Fin.ext e.symm)
              simp [lostMisc, he, hp, hne]
          | _ => simp [lostMisc]
      rw [this]; exact hnext

/-- The pages lost when task `t` dies with `page[]` in hand. -/
def addLost (lost : Fin 4096 → Bool) (pages : Fin 32 → Option Nat) (n : Fin 4096) : Bool :=
  lost n || decide (∃ i, pages i = some n.val)

theorem addLost_none {pages : Fin 32 → Option Nat} (h : ∀ i, pages i = none) : addLost lost pages = lost := by
  funext n
  simp [addLost, h]

/-- What was lost by an operation of `t`: nothing, or `page[]` of a task that died. -/
def Loses (lost : Fin 4096 → Bool) (t : Fin 64) (tk : Task) (k' : State) (lost' : Fin 4096 → Bool) : Prop :=
  lost' = lost ∨ lost' = addLost lost tk.phase.pages ∧
    k'.task t = some { tk with cr3 := 0, load := none, phase := .exiting }

theorem roots_lost (task : Fin 64 → Option Task) (n : Fin 4096) (v : Nat)
    (h : (roots task lost).misc (.lost n) = some v) : v = n.val := by
  simp only [roots] at h
  split at h
  · exact (Option.some.inj h).symm
  · cases h

/-- **`do_exit`** does not panic; the pages of an `execve` under way are lost. -/
theorem doExit_spec (h : KInv s lost k) (ht : t ≠ 0) (hk : k.task t = some tk) (hlive : tk.phase.live)
    (hload : tk.load = none) :
    ∃ k', k.doExit t tk = .ok k' ∧ After s lost t k k' (addLost lost tk.phase.pages) ∧
      k'.task t = some { tk with cr3 := 0, load := none, phase := .exiting } := by
  have hd := h.dir ht hk hlive
  obtain ⟨m', hm', hI', hlow, hhigh, hpde, hpte, hword⟩ := h.mem.freePageTables_spec hd
  have hI'' := loseArgs hI' (fun n v hv => roots_lost k.task n v hv) t (List.finRange 32) (List.nodup_finRange 32)
  have hR : (⟨((roots k.task lost).setDir t none).dir, lostMisc ((roots k.task lost).setDir t none) t (List.finRange 32)⟩ :
      Roots) = roots (Function.update k.task t (some { tk with cr3 := 0, load := none, phase := .exiting }))
        (addLost lost tk.phase.pages) := by
    ext1
    · funext u
      by_cases hu : u = t
      · subst hu; simp [roots, Task.dir]
      · simp [roots, hu]
    · funext x
      cases x with
      | task u =>
        by_cases hu : u = t
        · subst hu; simp [lostMisc, roots, hk]
        · simp [lostMisc, roots, hu]
      | arg u i =>
        by_cases hu : u = t
        · subst hu; simp [lostMisc, roots, Phase.pages]
        · simp [lostMisc, roots, hu]
      | load u =>
        by_cases hu : u = t
        · subst hu; simp [lostMisc, roots, hk, hload]
        · simp [lostMisc, roots, hu]
      | lost n =>
        by_cases hn : ∃ i, tk.phase.pages i = some n.val
        · simp [lostMisc, roots, addLost, hk, hn]
        · simp [lostMisc, roots, addLost, hk, hn]
      | _ => rfl
  rw [hR] at hI''
  have hoth : Others s t k.mem (roots k.task lost) m'
      (roots (Function.update k.task t (some { tk with cr3 := 0, load := none, phase := .exiting }))
        (addLost lost tk.phase.pages)) := by
    refine Others.of (fun u hu => dir_setTask hu _) hlow hhigh (fun u i hu _ => hpde u hu i)
      (fun u i j hu hi _ => .inl (hpte u hu i j hi))
      (fun hs n w _ hn => hword n w fun hT => h.mem.not_isTable_of_mapped hs hn ?_)
    rcases hT with hT | ⟨i, hi, hT⟩
    · exact .inl ⟨t, hT⟩
    · exact .inr ⟨t, i, hi, hT⟩
  refine ⟨_, by simp only [State.doExit, hm', bind, Except.bind]; rfl, ⟨?_, hoth, fun u hu => ?_⟩, ?_⟩
  · exact h.update ht _ m' rfl rfl hI'' hoth (by simp [Phase.live]) (h.limit t tk hk) (by simp) (by simp [Phase.live])
  · simp [State.setTask, hu]
  · simp [State.setTask]

theorem KInv.load_none (h : KInv s lost k) (hk : k.task t = some tk) (hp : tk.phase.touches = false) :
    tk.load = none := by
  cases hl : tk.load with
  | none => rfl
  | some x =>
    have := (h.load t tk x.1 x.2 hk hl).1.1
    rw [hp] at this
    cases this

/-- **`release`** does not panic. -/
theorem release_spec (h : KInv s lost k) (ht : t ≠ 0) (hk : k.task t = some tk) (hz : tk.phase = .zombie) :
    ∃ k', k.release t tk = .ok k' ∧ After s lost t k k' lost ∧ k'.task t = none := by
  have hload : tk.load = none := h.load_none hk (by simp [hz, Phase.touches])
  have hcr3 : tk.cr3 = 0 := by
    by_contra hc
    have := (h.own t tk ht hk).1 hc
    simp [hz, Phase.live] at this
  have hpage : (roots k.task lost).misc (.task t) = some tk.page := by simp [roots, ht, hk]
  have hM := h.mem.sound.managed (.misc (.task t)) tk.page (by simp) hpage
  have hfree := h.mem.freePage_managed hM (by rw [h.mem.held_map hpage]; omega)
  have hrel := h.mem.release hpage
  have hR : (roots k.task lost).setMisc (.task t) none = roots (Function.update k.task t none) lost := by
    ext1
    · funext u
      by_cases hu : u = t
      · subst hu; simp [roots, hk, Task.dir, hcr3]
      · simp [roots, hu]
    · funext x
      cases x with
      | task u => by_cases hu : u = t <;> simp [roots, hu]
      | arg u i => by_cases hu : u = t <;> simp_all [roots, Phase.pages]
      | load u => by_cases hu : u = t <;> simp_all [roots]
      | _ => simp [roots]
  rw [hR] at hrel
  have hoth : Others s t k.mem (roots k.task lost) (k.mem.setMap tk.page (k.mem.map tk.page - 1))
      (roots (Function.update k.task t none) lost) :=
    Others.of (fun u hu => dir_setTask hu _) rfl rfl (fun _ _ _ _ => rfl) (fun _ _ _ _ _ _ => .inl rfl)
      (fun _ _ _ _ _ => rfl)
  have look : ∀ {u tu}, Function.update k.task t none u = some tu → u ≠ t ∧ k.task u = some tu := by
    intro u tu hu
    by_cases he : u = t
    · subst he; simp at hu
    · exact ⟨he, by simpa [he] using hu⟩
  refine ⟨_, by simp only [State.release, hfree, bind, Except.bind]; rfl, ⟨⟨hrel, ?_, ?_, ?_, ?_, ?_⟩, hoth, ?_⟩, ?_⟩
  · exact fun u tu hu he => h.own u tu hu (look he).2
  · simpa [State.setTask, Ne.symm ht] using h.init
  · exact fun u tu he => h.limit u tu (look he).2
  · intro u tu n a he hl
    obtain ⟨hut, he⟩ := look he
    obtain ⟨h₁, h₂, h₃⟩ := h.load u tu n a he hl
    refine ⟨h₁, h₂, ?_⟩
    rcases hoth.entries u _ _ hut h₂ (Inv.tabIx_lt a) with e | e <;> simp only [State.setTask, e]
    · exact h₃
    · simpa using h₃
  · intro u tu hu he hl hb
    obtain ⟨hut, he⟩ := look he
    obtain ⟨i, hi, hp⟩ := h.table u tu hu he hl hb
    exact ⟨i, hi, by simp only [State.setTask, hoth.tables u i hut hi]; exact hp⟩
  · intro u hu
    simp [State.setTask, hu]
  · simp [State.setTask]

end Linux011.Kernel
