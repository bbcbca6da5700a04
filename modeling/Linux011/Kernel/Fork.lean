/-
`copy_process` and `sys_fork`. A fork that fails gives back what it took, in
whichever allocation it fails: the record, the counts and the tables are as
they were, but for PAGE_RW bits of the parent.
-/
import Linux011.Kernel.Steps

namespace Linux011.Kernel

open Mm RefCount

variable {s : Prop} {lost : Fin 4096 → Bool} {k k' : State} {cur nr : Fin 64} {tk : Task} {m m' : Mem} {R : Roots}

/-- The invariant only looks at memory and `task[]`. -/
theorem KInv.congr (h : KInv s lost k) (hmem : k'.mem = k.mem) (htask : k'.task = k.task) : KInv s lost k' := by
  obtain ⟨h₁, h₂, h₃, h₄, h₅, h₆⟩ := h
  constructor <;> rw [htask] <;> try rw [hmem]
  all_goals assumption

/-- The invariant after an operation that left `task[]` alone, with slot `t` empty. -/
theorem KInv.keep (h : KInv s lost k) (hfree : k.task nr = none) (htask : k'.task = k.task)
    (hinv : Inv s k'.mem (roots k.task lost))
    (hoth : Others s nr k.mem (roots k.task lost) k'.mem (roots k.task lost)) : KInv s lost k' := by
  have other : ∀ {u tu}, k.task u = some tu → u ≠ nr := by
    rintro u tu hu rfl
    rw [hfree] at hu; cases hu
  constructor
  case mem => rw [htask]; exact hinv
  case own => rw [htask]; exact h.own
  case init => rw [htask]; exact h.init
  case limit => rw [htask]; exact h.limit
  case load =>
    rw [htask]
    intro u tu n a hu hl
    obtain ⟨h₁, h₂, h₃⟩ := h.load u tu n a hu hl
    refine ⟨h₁, h₂, ?_⟩
    rcases hoth.entries u _ _ (other hu) h₂ (Inv.tabIx_lt a) with e | e <;> rw [e]
    · exact h₃
    · simpa using h₃
  case table =>
    rw [htask]
    intro u tu hu hk hl hb
    obtain ⟨i, hi, hp⟩ := h.table u tu hu hk hl hb
    exact ⟨i, hi, by rw [hoth.tables u i (other hk) hi]; exact hp⟩

/-- A page claimed before the fork is none the tables know of. -/
theorem forkKeeps_claim (h : Inv s m R) {n : Nat} (h0 : m.map n = 0) {x : Misc}
    (hk : Inv.ForkKeeps s (m.claim n) (R.setMisc x (some n)) cur m') : Inv.ForkKeeps s m R cur m' := by
  have hP := Inv.pde_keep (m := m) (R := R) rfl (h.claim_keep h0)
  have hQ := fun u {i} hi j => Inv.pte_keep (m := m) (R := R) rfl (h.claim_keep h0) u (i := i) hi j
  refine ⟨hk.low, hk.high, fun u i => (hk.pde u i).trans (hP u i), fun u i j hi hj => ?_, fun hs f hM hf w => ?_,
    (Marked.claim (h.managed_of_map_lt (by omega))).trans hk.marked rfl rfl⟩
  · have := hk.pte u i j hi hj
    rwa [show pte (m.claim n) (R.setMisc x (some n)) u i j = pte m R u i j from hQ u hi j] at this
  · have hf' : Mapped (m.claim n) (R.setMisc x (some n)) f := by
      obtain ⟨r, hr, ht⟩ := hf
      refine ⟨r, hr, ?_⟩
      cases r with
      | pte u i j =>
        simp only [target] at ht ⊢
        rw [show pte (m.claim n) (R.setMisc x (some n)) u i j = pte m R u i j from hQ u i.2 j]
        exact ht
      | _ => exact absurd hr (by simp)
    rw [hk.word hs f hM hf' w]
    exact KeepData.mapped (h.keepData_claim h0) h hs f w hM hf

theorem Others.of_forkKeeps (hk : Inv.ForkKeeps s m R cur m') {R' : Roots}
    (hdir : ∀ u, u ≠ nr → R'.dir u = R.dir u) : Others s nr m R m' R' :=
  Others.of hdir hk.low hk.high (fun u i _ _ => hk.pde u i)
    (fun u i j _ hi hj => (hk.pte u i j hi hj).imp_right fun e => e.2.2) (fun hs n w hM hn => hk.word hs n hM hn w)

/-- How `copy_process` ends. -/
inductive ForkEnds (k : State) (lost : Fin 4096 → Bool) (cur nr : Fin 64) (tk : Task) (k' : State) :
    Option Nat → Prop
  | failed (hfile : k'.file = k.file) (htask : k'.task = k.task) (hfc : k'.fCount = k.fCount)
      (hic : k'.iCount = k.iCount) : ForkEnds k lost cur nr tk k' none
  | forked (p dir : Nat) (hfile : k'.file = k.file) (htask : k'.task = Function.update k.task nr (some
        { tk with page := p, pid := k.lastPid, cr3 := dir, load := none, phase := .user }))
      (hchild : ∀ i j, i < 768 → j < 1024 → pte k'.mem (roots k'.task lost) nr i j =
        if j < State.pageCount cur then clearRw (k.mem.walk tk.cr3 i j) else 0) :
      ForkEnds k lost cur nr tk k' (some k.lastPid)

/-- **`copy_process`** does not panic, and keeps the invariant whether or not
it finds the pages it needs: one for the task, one for the directory and one
for each table. -/
theorem copyProcess_spec (h : KInv s lost k) (hk : k.task cur = some tk) (hu : tk.phase.isUser) (hnr : nr ≠ 0)
    (hfree : k.task nr = none) :
    ∃ k' r, k.copyProcess cur nr tk = .ok (k', r) ∧ After s lost nr k k' lost ∧
      Inv.ForkKeeps s k.mem (roots k.task lost) cur k'.mem ∧
      (∀ b, Spare k.mem b → b + 2 + Inv.tableCount k.mem tk.cr3 1024 < k.mem.high →
        r ≠ none ∧ Spare k'.mem (b + 2 + Inv.tableCount k.mem tk.cr3 1024)) ∧ ForkEnds k lost cur nr tk k' r := by
  have hsame : Function.update k.task nr none = k.task := by rw [← hfree, Function.update_eq_self]
  have hlive := Phase.touches_live (Phase.isUser_touches hu)
  unfold State.copyProcess
  cases hg : k.mem.getFreePage with
  | none =>
    refine ⟨k, none, rfl, ⟨h, Others.refl fun _ _ => rfl, fun _ _ => rfl⟩, Inv.forkKeeps_refl, fun b hb hlt => ?_,
      .failed rfl rfl rfl rfl⟩
    obtain ⟨n, hn, -⟩ := hb.getFreePage (by omega) h.mem.high_le
    rw [hg] at hn
    cases hn
  | some x =>
    obtain ⟨p, m⟩ := x
    obtain ⟨h0, rfl⟩ := Mem.getFreePage_some hg
    have hslot : (roots k.task lost).misc (.task nr) = none := by simp [roots, hfree]
    have hI := h.mem.claim h0 hslot
    have hpar : Inv.Parent ((roots k.task lost).setMisc (.task nr) (some p)) cur nr tk.cr3
        (State.pageCount cur) := by
      by_cases hc : cur = 0
      · subst hc
        obtain ⟨tk₀, hk₀, hz, -⟩ := h.init
        rw [hk] at hk₀; cases hk₀
        exact .inr ⟨hz, if_pos rfl⟩
      · refine .inl ⟨?_, h.dir hc hk hlive, if_neg hc⟩
        rintro rfl
        rw [hk] at hfree; cases hfree
    have hdir : (roots k.task lost).dir nr = none := roots_dir_none hfree
    obtain ⟨m', r, hm', hkeeps, hsp, hr⟩ := hI.copyPageTables_spec hdir (by simp) hpar
    have hkeeps' := forkKeeps_claim h.mem h0 hkeeps
    have hsp' : ∀ b, Spare k.mem b → b + 2 + Inv.tableCount k.mem tk.cr3 1024 < k.mem.high →
        r ≠ none ∧ Spare m' (b + 2 + Inv.tableCount k.mem tk.cr3 1024) := by
      intro b hb hlt
      have hp1 : p ≠ 1 := by
        rintro rfl
        exact h.mem.not_managed_lt (by omega) (h.mem.managed_of_map_lt (n := 1) (by omega))
      have hdir : ∀ i, (k.mem.claim p).word tk.cr3 i = k.mem.word tk.cr3 i := by
        intro i
        rcases hpar with ⟨-, hd, -⟩ | ⟨hz, -⟩
        · exact h.mem.claim_keep h0 tk.cr3 i (.inl ⟨cur, hd⟩)
        · have hge : 256 ≤ p := le_trans h.mem.low_ge (h.mem.managed_of_map_lt (n := p) (by omega)).1
          rw [hz]
          exact Inv.claim_word_of_ne (by omega) (by omega) i
      have hcount : Inv.tableCount (k.mem.claim p) tk.cr3 1024 = Inv.tableCount k.mem tk.cr3 1024 := by
        simp only [Inv.tableCount, hdir]
      have := hsp (b + 1) (hb.claim (hb.getFreePage_le (by omega) h.mem.high_le hg) hp1)
        (by rw [hcount]; simp only [Mem.claim]; omega)
      rwa [hcount, show b + 1 + 1 = b + 2 from rfl] at this
    simp only [bind, Except.bind, hm']
    cases r with
    | none =>
      have hp : ((roots k.task lost).setMisc (.task nr) (some p)).misc (.task nr) = some p := by simp
      have hfp := hr.freePage_managed (hr.sound.managed (.misc (.task nr)) p (by simp) hp)
        (by rw [hr.held_map hp]; omega)
      have hrel := hr.release hp
      rw [(roots k.task lost).setMisc_none hslot] at hrel
      have hK : Inv.ForkKeeps s k.mem (roots k.task lost) cur (m'.setMap p (m'.map p - 1)) :=
        ⟨hkeeps'.low, hkeeps'.high, hkeeps'.pde, hkeeps'.pte, hkeeps'.word, hkeeps'.marked⟩
      simp only [hfp, hsame]
      have hoth := Others.of_forkKeeps hK fun u (_ : u ≠ nr) => rfl
      exact ⟨_, none, rfl, ⟨h.keep hfree rfl hrel hoth, hoth, fun _ _ => rfl⟩, hK,
        fun b hb hlt => absurd rfl (hsp' b hb hlt).1, .failed rfl rfl rfl rfl⟩
    | some dir =>
      obtain ⟨hI', hchild⟩ := hr
      have hge : 256 ≤ dir := le_trans hI'.low_ge (hI'.dir_managed (t := nr) (by simp)).1
      have hR : roots (Function.update k.task nr (some
          { tk with page := p, pid := k.lastPid, cr3 := dir, load := none, phase := .user })) lost = _ :=
        roots_new hnr hfree (show dir ≠ 0 by omega) (fun _ => rfl) rfl
      have hdir' : ∀ u, u ≠ nr → (roots (Function.update k.task nr (some
          { tk with page := p, pid := k.lastPid, cr3 := dir, load := none, phase := .user })) lost).dir u =
          (roots k.task lost).dir u := fun u hu => dir_setTask hu _
      have hoth := Others.of_forkKeeps hkeeps' hdir'
      refine ⟨_, some k.lastPid, rfl, ⟨?_, hoth, fun u hu => Function.update_of_ne hu _ _⟩, hkeeps',
        fun b hb hlt => ⟨by simp, (hsp' b hb hlt).2⟩, .forked p dir rfl rfl fun i j hi hj => ?_⟩
      · refine h.update hnr _ m' rfl rfl (by rw [hR]; exact hI') hoth ?_ (h.limit cur tk hk) (by simp) fun _ _ => ?_
        · exact ⟨fun _ => rfl, fun _ => show dir ≠ 0 by omega⟩
        · -- The child copies the table its parent has.
          obtain ⟨i, hi, hp⟩ : ∃ i, i < 768 ∧ (k.mem.claim p).word tk.cr3 i ≠ 0 := by
            by_cases hc : cur = 0
            · subst hc
              obtain ⟨tk₀, hk₀, hz, -⟩ := h.init
              rw [hk] at hk₀; cases hk₀
              refine ⟨0, by omega, fun e => ?_⟩
              have := hI.swap.dir0.1
              rw [hz] at e
              rw [e] at this
              exact absurd this (by decide)
            · have hd := h.dir hc hk hlive
              obtain ⟨i, hi, hp⟩ := h.table cur tk hc hk hlive (by
                intro e q hq
                rw [hq] at hu
                cases hu)
              refine ⟨i, hi, fun e => ?_⟩
              rw [h.mem.claim_keep h0 tk.cr3 i (.inl ⟨cur, hd⟩)] at e
              simp only [pde, hd] at hp
              rw [e] at hp
              exact absurd hp (by decide)
          exact ⟨i, hi, by rw [hR]; exact (hchild i 0 hi (by omega)).2 hp⟩
      · simp only [hR, (hchild i j hi hj).1]
        by_cases hj' : j < State.pageCount cur
        · rw [if_pos hj', if_pos hj', h.mem.walk_claim hI h0 (R := roots k.task lost) hpar hi hj']
        · rw [if_neg hj', if_neg hj']

/-- The slot `find_empty_process` returns is free. -/
theorem findEmptyProcess_free {k₁ : State} (h : k.findEmptyProcess = (k₁, some nr)) :
    nr ≠ 0 ∧ k.task nr = none ∧ k₁ = { k with lastPid := State.findPid k.task 64 k.lastPid } := by
  simp only [State.findEmptyProcess, Prod.mk.injEq] at h
  have := List.find?_some h.2
  simp only [Bool.and_eq_true, bne_iff_ne, ne_eq, Option.isNone_iff_eq_none] at this
  exact ⟨this.1, this.2, h.1.symm⟩

/-- **`sys_fork`** does not panic; without a free slot it changes `last_pid` alone. -/
theorem fork_spec (h : KInv s lost k) (hk : k.task cur = some tk) (hu : tk.phase.isUser) :
    ∃ k', k.fork cur tk = .ok k' ∧ ((k'.mem = k.mem ∧ k'.task = k.task ∧ ∀ nr, nr ≠ 0 → k.task nr ≠ none) ∨
      ∃ nr pid r, nr ≠ 0 ∧ k.task nr = none ∧ After s lost nr k k' lost ∧
        Inv.ForkKeeps s k.mem (roots k.task lost) cur k'.mem ∧
        (∀ b, Spare k.mem b → b + 2 + Inv.tableCount k.mem tk.cr3 1024 < k.mem.high →
          r ≠ none ∧ Spare k'.mem (b + 2 + Inv.tableCount k.mem tk.cr3 1024)) ∧
        ForkEnds { k with lastPid := pid } lost cur nr tk k' r) := by
  unfold State.fork
  cases he : k.findEmptyProcess with
  | mk k₁ slot =>
    cases slot with
    | none =>
      simp only [State.findEmptyProcess, Prod.mk.injEq] at he
      refine ⟨k₁, rfl, .inl ⟨by rw [← he.1], by rw [← he.1], fun nr hnr hfree => ?_⟩⟩
      have := List.find?_eq_none.1 he.2 nr (List.mem_finRange nr)
      simp [hnr, hfree] at this
    | some nr =>
      obtain ⟨hnr, hfree, rfl⟩ := findEmptyProcess_free he
      have h₁ : KInv s lost { k with lastPid := State.findPid k.task 64 k.lastPid } := h.congr rfl rfl
      obtain ⟨k', r, hc, hafter, hkeeps, hsp, hends⟩ := copyProcess_spec h₁ hk hu hnr hfree
      simp only [hc, bind, Except.bind]
      exact ⟨k', rfl, .inr ⟨nr, _, r, hnr, hfree, ⟨hafter.inv, hafter.others, hafter.task⟩, hkeeps, hsp, hends⟩⟩

end Linux011.Kernel
