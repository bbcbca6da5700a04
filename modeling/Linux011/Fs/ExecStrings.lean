/-
`copy_strings`: the strings end up in the pages of `page[]`, one behind the other and in
order, up to the last four bytes of the last page.

A copy ends early when there is no page left. It does not end when the strings
do not fit: `p` is unsigned, and below 0 it is an index of `page[]` that is far behind the end.
-/
import Linux011.Fs.Execve
import Linux011.Fs.ExecPages

namespace Linux011.Fs.Execve

open Bytes Relation
open Prog (Ends)

variable {w : World} {s s' s'' : State} {fs fs' : Seg} {E : Stop → Prop} {u u' : Memory} {a : Nat}

/-! ## Reading through `fs` -/

/-- What is seen through a segment. -/
def mem (w : World) (s : State) : Seg → Memory
  | .user => view w s.task s.mm
  | .kernel => fun a => some (s.kmem a)

structure Good (w : World) (s : State) : Prop where
  ok : Ok w s.mm
  task : s.task.Ok

/-- Nothing but memory has changed, and `fs`. -/
structure Copies (w : World) (s : State) (fs : Seg) (s' : State) : Prop where
  same : s' = { s with mm := s'.mm, fs := fs }
  quiet : Quiet w s.task s.mm s'.mm

/-- Nothing but memory has changed, by page faults. -/
structure Reads (w : World) (s s' : State) : Prop where
  same : s' = { s with mm := s'.mm }
  faulted : Faulted w s.task s.mm s'.mm

theorem Copies.good (h : Copies w s fs s') (hg : Good w s) : Good w s' :=
  ⟨h.quiet.ok, by rw [h.same]; exact hg.task⟩

theorem Copies.refl (hg : Good w s) : Copies w s s.fs s := ⟨rfl, .refl hg.ok⟩

theorem Copies.setFs (hg : Good w s) (fs : Seg) : Copies w s fs { s with fs := fs } := ⟨rfl, .refl hg.ok⟩

theorem Copies.task (h : Copies w s fs s') : s'.task = s.task := by rw [h.same]

theorem Copies.kmem (h : Copies w s fs s') : s'.kmem = s.kmem := by rw [h.same]

theorem Copies.fs_eq (h : Copies w s fs s') : s'.fs = fs := by rw [h.same]

theorem Copies.trans (h : Copies w s fs s') (h' : Copies w s' fs' s'') : Copies w s fs' s'' := by
  refine ⟨?_, h.quiet.trans (h.task ▸ h'.quiet)⟩
  rw [h'.same, h.same]

theorem Reads.copies (h : Reads w s s') : Copies w s s.fs s' := ⟨h.same, h.faulted.toQuiet⟩

theorem Reads.good (h : Reads w s s') (hg : Good w s) : Good w s' := h.copies.good hg

theorem Reads.refl (hg : Good w s) : Reads w s s := ⟨rfl, .refl hg.ok⟩

theorem Reads.trans (h : Reads w s s') (h' : Reads w s' s'') : Reads w s s'' := by
  refine ⟨?_, h.faulted.trans (h.copies.task ▸ h'.faulted)⟩
  rw [h'.same, h.same]

/-- The bytes `u` can be read in the segment, with page faults at most where those may fail. -/
def Knows (E : Stop → Prop) (w : World) (s : State) (seg : Seg) (u : Memory) : Prop :=
  ∀ a b, u a = some b → mem w s seg a = some b ∧ (seg = .user → s.mm.pte (a / 4096) = none → E .oom)

theorem Knows.copies {seg : Seg} (hk : Knows E w s seg u) (h : Copies w s fs s') : Knows E w s' seg u := by
  intro a b hu
  obtain ⟨hm, hoom⟩ := hk a b hu
  constructor
  · cases seg with
    | user =>
      rw [mem, h.task, h.quiet.view]
      exact hm
    | kernel =>
      rw [mem, h.kmem]
      exact hm
  · intro hseg hnone
    refine hoom hseg ?_
    cases hp : s.mm.pte (a / 4096) with
    | none => rfl
    | some e => exact nomatch (h.quiet.there hp).symm.trans hnone

theorem Knows.reads (hk : Knows E w s s.fs u) (h : Reads w s s') : Knows E w s' s'.fs u := by
  rw [h.copies.fs_eq]
  exact hk.copies h.copies

theorem onMemory_ends {α : Type} {x : MM α} {Q : α → State → Prop} (h : Ends x E (fun a m => Q a { s with mm := m }) s.mm) :
    Ends (onMemory x) E Q s := by
  unfold Ends onMemory at *
  split at h
  · rename_i hx
    rw [hx]
    exact h
  · rename_i hx
    rw [hx]
    exact h

theorem setFs_ends {Q : Unit → State → Prop} (h : Q () { s with fs := fs }) : Ends (setFs fs) E Q s := h

theorem getFsByte_any {Q : UInt8 → State → Prop} (hg : Good w s) (hbad : mem w s s.fs a = none → ∀ e, E e)
    (hoom : s.fs = .user → s.mm.pte (a / 4096) = none → E .oom)
    (hQ : ∀ b s', mem w s s.fs a = some b → Reads w s s' → Q b s') : Ends (getFsByte w a) E Q s := by
  refine Ends.bind (Ends.get ?_)
  split
  · rename_i hfs
    rw [hfs] at hbad hQ
    exact onMemory_ends (userByte_ends hg.ok hg.task hbad (hoom hfs) fun b m' hv hf => hQ b _ hv ⟨rfl, hf⟩)
  · rename_i hfs
    rw [hfs] at hQ
    exact Ends.pure (hQ _ s rfl (.refl hg))

/-- A byte that is known. -/
theorem getFsByte_ends {b : UInt8} {Q : UInt8 → State → Prop} (hg : Good w s) (hk : Knows E w s s.fs u) (hu : u a = some b)
    (hQ : ∀ s', Reads w s s' → Q b s') : Ends (getFsByte w a) E Q s := by
  obtain ⟨hm, hoom⟩ := hk a b hu
  refine getFsByte_any hg (fun hn => nomatch hm.symm.trans hn) hoom fun b' s' hm' hr => ?_
  cases hm.symm.trans hm'
  exact hQ s' hr

/-- A long that is known. -/
theorem getFsLong_ends {v : Nat} {Q : Nat → State → Prop} (hg : Good w s) (hk : Knows E w s s.fs u) (hu : Spells u a (le32 v))
    (hv : v < 4294967296) (hQ : ∀ s', Reads w s s' → Q v s') : Ends (getFsLong w a) E Q s := by
  obtain ⟨h₀, h₁, h₂, h₃, -⟩ := hu
  refine Ends.bind (getFsByte_ends hg hk h₀ fun s₁ hr₁ => ?_)
  have hg₁ := hr₁.good hg
  have hk₁ := hk.reads hr₁
  refine Ends.bind (getFsByte_ends hg₁ hk₁ h₁ fun s₂ hr₂ => ?_)
  have hg₂ := hr₂.good hg₁
  have hk₂ := hk₁.reads hr₂
  refine Ends.bind (getFsByte_ends hg₂ hk₂ h₂ fun s₃ hr₃ => ?_)
  refine Ends.bind (getFsByte_ends (hr₃.good hg₂) (hk₂.reads hr₃) h₃ fun s₄ hr₄ => Ends.pure ?_)
  rw [long_le32 hv]
  exact hQ s₄ (((hr₁.trans hr₂).trans hr₃).trans hr₄)

/-- The end of a string that is known. -/
theorem skipString_ends {x : List UInt8} {n : Nat} {Q : Nat → State → Prop} (hg : Good w s) (hk : Knows E w s s.fs u)
    (hx : Spells u a (x ++ [0])) (h0 : 0 ∉ x) (hn : x.length < n) (hQ : ∀ s', Reads w s s' → Q (a + x.length + 1) s') :
    Ends (skipString w n a) E Q s := by
  induction n generalizing s a x with
  | zero => exact absurd hn (Nat.not_lt_zero _)
  | succ n ih =>
    cases x with
    | nil =>
      refine Ends.bind (getFsByte_ends hg hk hx.1 fun s₁ hr => Ends.ite (fun _ => Ends.pure (hQ s₁ hr)) fun h => absurd rfl h)
    | cons b x =>
      rw [List.mem_cons, not_or] at h0
      refine Ends.bind (getFsByte_ends hg hk hx.1 fun s₁ hr => Ends.ite (fun hb => absurd hb.symm h0.1) fun _ => ?_)
      refine ih (hr.good hg) (hk.reads hr) hx.2 h0.2 (Nat.lt_of_succ_lt_succ hn) fun s₂ hr₂ => ?_
      have := hQ s₂ (hr.trans hr₂)
      rwa [List.length_cons, ← Nat.add_assoc, Nat.add_right_comm a] at this

/-! ## The copy -/

/-- Where the strings are, and where the pointers to them. -/
def stringSeg (fromKmem : Nat) (oldFs : Seg) : Seg := if fromKmem = 2 then .kernel else oldFs
def tableSeg (fromKmem : Nat) (oldFs : Seg) : Seg := if fromKmem = 1 ∨ fromKmem = 2 then .kernel else oldFs

/-- `pag` and `offset` are of the byte at `p`, or stand for nothing. -/
def Cursor.Ok (m : Space) (c : Cursor) : Prop :=
  c.offset = 0 ∨ c.offset = (c.p % 4096 : Nat) ∧ c.pag = m.page (c.p / 4096) ∧ c.pag ≠ 0

/-- No page is free. -/
def Exhausted (w : World) (m : Space) : Prop := ∀ n, w.low ≤ n → n < 4096 → m.map n ≠ 0

/-- All of `page[]` is in use. -/
def Full (m : Space) : Prop := ∀ i < 32, m.page i ≠ 0

theorem sub32_one {p : Nat} (h0 : 0 < p) (hp : p < 4294967296) : sub32 p 1 = p - 1 := by
  unfold sub32
  omega

variable {fromKmem : Nat} {oldFs : Seg} {c : Cursor} {l : List UInt8}

/-- The bytes down to `p` are in pages of `page[]`. -/
theorem full_of_at {m : Space} (hl : Spells (argBytes m) 0 l) (hlen : l.length = argTop) : Full m := by
  intro i hi h0
  have hat := spells_iff.1 hl (4096 * i) (by rw [hlen, argTop]; omega)
  rw [Nat.zero_add, argBytes, show 4096 * i / 4096 = i by omega, if_pos h0] at hat
  cases hat

theorem onlyIf_ends {S : Type} {s : S} {p : Prop} [Decidable p] {x : StateT S (Except Stop) Unit} {Q : Unit → S → Prop}
    (h : p → Ends x E Q s) (h' : ¬p → Q () s) : Ends (onlyIf p x) E Q s :=
  Ends.ite h fun hp => Ends.pure (h' hp)

/-- `fs` set back for a string of the kernel. -/
theorem leave_ends {Q : Unit → State → Prop} (hg : Good w s) (hfs : s.fs = stringSeg fromKmem oldFs)
    (hQ : ∀ s', Copies w s oldFs s' → s'.mm = s.mm → Q () s') : Ends (onlyIf (fromKmem = 2) (setFs oldFs)) E Q s := by
  refine onlyIf_ends (fun _ => setFs_ends (hQ _ (.setFs hg _) rfl)) fun h => hQ s ?_ rfl
  rw [stringSeg, if_neg h] at hfs
  rw [← hfs]
  exact .refl hg

/-- `fs` set for it. -/
theorem enter_ends {Q : Unit → State → Prop} (hg : Good w s) (hfs : s.fs = oldFs)
    (hQ : ∀ s', Copies w s (stringSeg fromKmem oldFs) s' → s'.mm = s.mm → Q () s') :
    Ends (onlyIf (fromKmem = 2) (setFs .kernel)) E Q s := by
  refine onlyIf_ends (fun h => setFs_ends (hQ _ ?_ rfl)) fun h => hQ s ?_ rfl
  · rw [stringSeg, if_pos h]
    exact .setFs hg _
  · rw [stringSeg, if_neg h, ← hfs]
    exact .refl hg

/-- One byte down. -/
theorem down_ends {Q : Option Cursor → State → Prop} (hg : Good w s) (hfs : s.fs = stringSeg fromKmem oldFs) (hc : c.Ok s.mm)
    (hp : c.p ≤ argTop) (hindex : c.p = 0 → E (.index 1048575))
    (hnone : ∀ s', Copies w s oldFs s' → Exhausted w s'.mm → Q none s')
    (hsome : ∀ c' s', Copies w s s.fs s' → c'.p + 1 = c.p → c'.pag = s'.mm.page (c'.p / 4096) → c'.pag ≠ 0 →
      c'.offset = ((c'.p % 4096 : Nat) : Int) → (∀ x b, argBytes s.mm x = some b → argBytes s'.mm x = some b) → Q (some c') s') :
    Ends (down w fromKmem oldFs c) E Q s := by
  have htop : argTop = 131068 := rfl
  refine Ends.ite (fun hneg => Ends.bind (leave_ends hg hfs fun s₁ h₁ hm₁ => ?_)) fun hpos => ?_
  · -- the page of the byte below
    have hg₁ := h₁.good hg
    refine Ends.bind (onMemory_ends (argPage_ends s₁.task hg₁.ok ?_ ?_ ?_))
    · intro hge
      have h0 : c.p = 0 := by
        by_contra hne
        rw [sub32_one (by omega) (by omega)] at hge
        omega
      rw [h0]
      exact hindex h0
    · exact fun hfull => Ends.ite (fun _ => Ends.pure (hnone _ h₁ hfull)) fun h => absurd rfl h
    · intro n m' hlt hn hpage hq hext
      have hpos : 0 < c.p := by
        by_contra h0
        rw [Nat.le_zero.1 (Nat.not_lt.1 h0)] at hlt
        exact absurd hlt (by decide)
      have h₂ : Copies w s₁ oldFs { s₁ with mm := m' } := ⟨by rw [h₁.same], hq⟩
      rw [hm₁] at hext
      rw [sub32_one hpos (by omega)] at hpage ⊢
      refine Ends.ite (fun h => absurd h hn) fun _ => Ends.bind (enter_ends (h₂.good hg₁) h₂.fs_eq fun s₃ h₃ hm₃ => Ends.pure ?_)
      rw [← hfs] at h₃
      refine hsome _ s₃ ((h₁.trans h₂).trans h₃) (Nat.sub_add_cancel hpos) ?_ hn rfl ?_
      · rw [hm₃]
        exact hpage.symm
      · rw [hm₃]
        exact hext
  · -- the page is that of the byte above
    have hoff : 0 < c.offset := by omega
    rcases hc with h0 | ⟨ho, hpag, hne⟩
    · omega
    · have hpos : 0 < c.p := by
        by_contra h0
        rw [Nat.le_zero.1 (Nat.not_lt.1 h0)] at ho
        omega
      rw [sub32_one hpos (by omega)]
      have hdiv : (c.p - 1) / 4096 = c.p / 4096 := by omega
      refine Ends.pure (hsome _ s (.refl hg) (Nat.sub_add_cancel hpos) (by rw [hdiv]; exact hpag) hne ?_ fun _ _ hx => hx)
      dsimp only
      omega

/-- The byte for `p`, stored. -/
theorem store_ends {b : UInt8} {Q : Unit → State → Prop} (hg : Good w s) (hpag : c.pag = s.mm.page (c.p / 4096)) (h0 : c.pag ≠ 0)
    (hoff : c.offset = ((c.p % 4096 : Nat) : Int))
    (hQ : ∀ s', Copies w s s.fs s' → s'.mm.page = s.mm.page →
      (∀ x, argBytes s'.mm x = if x = c.p then some b else argBytes s.mm x) → Q () s') :
    Ends (onMemory (modify fun m => m.store c.pag c.offset.toNat b)) E Q s := by
  refine onMemory_ends (Ends.modify ?_)
  rw [hpag] at h0 ⊢
  rw [hoff, Int.toNat_natCast]
  refine hQ _ ⟨rfl, quiet_store hg.ok h0 _ b⟩ rfl fun x => ?_
  rw [argBytes_store hg.ok h0 (Nat.mod_lt _ (by decide)) b x, Nat.div_add_mod]

/-- **The bytes of a string**, from the last one down. -/
theorem copyBytes_ends {ys : List UInt8} {n tmp : Nat} {Q : Option Cursor → State → Prop} (hg : Good w s)
    (hfs : s.fs = stringSeg fromKmem oldFs) (hk : Knows E w s s.fs u) (hn : ys.length = n) (htmp : n ≤ tmp)
    (hys : Spells u (tmp - n) ys) (hc : c.Ok s.mm) (hl : Spells (argBytes s.mm) c.p l) (hlen : c.p + l.length = argTop)
    (hindex : n ≤ c.p ∨ ∀ m', Quiet w s.task s.mm m' → Full m' → E (.index 1048575))
    (hnone : ∀ s', Copies w s oldFs s' → Exhausted w s'.mm → Q none s')
    (hsome : ∀ c' s', Copies w s s.fs s' → c'.Ok s'.mm → c'.p + n = c.p → Spells (argBytes s'.mm) c'.p (ys ++ l) → Q (some c') s') :
    Ends (copyBytes w fromKmem oldFs n tmp c) E Q s := by
  induction n generalizing s ys tmp c l with
  | zero =>
    rw [List.length_eq_zero_iff.1 hn] at hsome
    exact Ends.pure (hsome c s (.refl hg) hc rfl hl)
  | succ n ih =>
    rcases List.eq_nil_or_concat ys with rfl | ⟨zs, b, rfl⟩
    · cases hn
    rw [List.concat_eq_append, List.length_append, List.length_singleton] at hn
    rw [List.concat_eq_append] at hys hsome
    obtain ⟨hzs, hb, -⟩ := spells_append.1 hys
    have hz : zs.length = n := by omega
    refine Ends.bind (down_ends hg hfs hc (by omega) (fun h0 => ?_) (fun s' h he => Ends.pure (hnone s' h he)) ?_)
    · -- `p` is 0, and there are bytes left
      rcases hindex with hle | hfull
      · omega
      · rw [h0] at hl hlen
        exact hfull s.mm (.refl hg.ok) (full_of_at hl (by omega))
    · intro c₁ s₁ h₁ hp hpag hne hoff hext
      have hg₁ := h₁.good hg
      have hk₁ : Knows E w s₁ s₁.fs u := h₁.fs_eq ▸ hk.copies h₁
      have htmp1 : tmp - (n + 1) + zs.length = tmp - 1 := by omega
      rw [htmp1] at hb
      refine Ends.bind (getFsByte_ends hg₁ hk₁ hb fun s₂ hr₂ => ?_)
      have hg₂ := hr₂.good hg₁
      rw [← hr₂.faulted.page] at hpag
      refine Ends.bind (store_ends hg₂ hpag hne hoff fun s₃ h₃ hpage₃ hbytes => ?_)
      have hg₃ := h₃.good hg₂
      have hfs₃ : s₃.fs = s.fs := by rw [h₃.fs_eq, hr₂.copies.fs_eq, h₁.fs_eq]
      have h₀₃ : Copies w s s.fs s₃ := by
        have := (h₁.trans hr₂.copies).trans h₃
        rwa [hr₂.copies.fs_eq, h₁.fs_eq] at this
      have hl₃ : Spells (argBytes s₃.mm) c₁.p (b :: l) := by
        refine ⟨by rw [hbytes, if_pos rfl], spells_iff.2 fun k hk => ?_⟩
        rw [hbytes, if_neg (by omega), hr₂.faulted.bytes, hp]
        exact hext _ _ (spells_iff.1 hl k hk)
      have hk₃ : Knows E w s₃ s₃.fs u := hfs₃ ▸ hk.copies h₀₃
      have hc₃ : c₁.Ok s₃.mm := .inr ⟨hoff, by rw [hpage₃]; exact hpag, hne⟩
      refine ih hg₃ (hfs₃.trans hfs) hk₃ hz (by omega) ?_ hc₃ hl₃ (by rw [List.length_cons]; omega) ?_ ?_ ?_
      · rwa [show tmp - 1 - n = tmp - (n + 1) by omega]
      · rcases hindex with hle | hfull
        · exact .inl (by omega)
        · exact .inr fun m' hq => hfull m' (h₀₃.quiet.trans (h₀₃.task ▸ hq))
      · exact fun s' h he => hnone s' (h₀₃.trans h) he
      · intro c' s' h hc' hp' hat
        refine hsome c' s' (hfs₃ ▸ h₀₃.trans h) hc' (by omega) ?_
        rwa [List.append_assoc]

/-- The pointer and the string are in one segment, but for a pointer of the kernel to a string of the user. -/
theorem tableSeg_eq (h : fromKmem ≠ 1) : tableSeg fromKmem oldFs = stringSeg fromKmem oldFs :=
  if_congr (or_iff_right h) rfl rfl

/-- `fs` set for the pointer, and set back for the string. -/
theorem toTable_ends {Q : Unit → State → Prop} (hg : Good w s) (hfs : s.fs = stringSeg fromKmem oldFs)
    (hQ : ∀ s', Copies w s (tableSeg fromKmem oldFs) s' → s'.mm = s.mm → Q () s') :
    Ends (onlyIf (fromKmem = 1) (setFs .kernel)) E Q s := by
  refine onlyIf_ends (fun h => setFs_ends (hQ _ ?_ rfl)) fun h => hQ s ?_ rfl
  · rw [tableSeg, if_pos (.inl h)]
    exact .setFs hg _
  · rw [tableSeg_eq h, ← hfs]
    exact .refl hg

theorem toString_ends {Q : Unit → State → Prop} (hg : Good w s) (hfs : s.fs = tableSeg fromKmem oldFs)
    (hQ : ∀ s', Copies w s (stringSeg fromKmem oldFs) s' → s'.mm = s.mm → Q () s') :
    Ends (onlyIf (fromKmem = 1) (setFs oldFs)) E Q s := by
  refine onlyIf_ends (fun h => setFs_ends (hQ _ ?_ rfl)) fun h => hQ s ?_ rfl
  · rw [stringSeg, if_neg (by omega)]
    exact .setFs hg _
  · rw [← tableSeg_eq h, ← hfs]
    exact .refl hg

/-- The bytes of a memory are below 4 GB. -/
def Within (u : Memory) : Prop := ∀ a b, u a = some b → a < space

theorem Within.length_lt {x : List UInt8} (h : Within u) (hx : Spells u a (x ++ [0])) : a + x.length < space :=
  h _ 0 (spells_append.1 hx).2.1

/-- **The strings**, from the last one down. -/
theorem copyLoop_ends {xs : List (List UInt8)} {n argv : Nat} {Q : Option Cursor → State → Prop} (hg : Good w s)
    (hfs : s.fs = stringSeg fromKmem oldFs) (ht : Knows E w s (tableSeg fromKmem oldFs) u)
    (hs : Knows E w s (stringSeg fromKmem oldFs) u') (hu' : Within u') (hn : xs.length = n) (hx : Strings u u' argv xs)
    (hnull : (∃ i < xs.length, Spells u (argv + 4 * i) (le32 0)) → E (.panic "argc is wrong"))
    (hc : c.Ok s.mm) (hl : Spells (argBytes s.mm) c.p l) (hlen : c.p + l.length = argTop)
    (hindex : (flat xs).length ≤ c.p ∨ ∀ m', Quiet w s.task s.mm m' → Full m' → E (.index 1048575))
    (hnone : ∀ s', Copies w s oldFs s' → Exhausted w s'.mm → Q none s')
    (hsome : ∀ c' s', Copies w s s.fs s' → c'.p + (flat xs).length = c.p → Spells (argBytes s'.mm) c'.p (flat xs ++ l) →
      Q (some c') s') :
    Ends (copyLoop w fromKmem oldFs argv n c) E Q s := by
  induction n generalizing s xs c l with
  | zero =>
    rw [List.length_eq_zero_iff.1 hn] at hsome
    exact Ends.pure (hsome c s (.refl hg) rfl hl)
  | succ n ih =>
    rcases List.eq_nil_or_concat xs with rfl | ⟨xs, x, rfl⟩
    · cases hn
    rw [List.concat_eq_append] at hn hx hnull hindex hsome
    rw [List.length_append, List.length_singleton] at hn
    have hflat : flat (xs ++ [x]) = flat xs ++ (x ++ [0]) := by rw [flat_append, flat_cons, flat_nil]
    rw [hflat, List.length_append] at hindex hsome
    have hn : xs.length = n := by omega
    obtain ⟨h0, q, hlt, hptr, hstr⟩ := hx.last
    rw [hn] at hptr
    have hxlen : (x ++ [0]).length = x.length + 1 := by rw [List.length_append, List.length_singleton]
    -- the pointer
    refine Ends.bind (toTable_ends hg hfs fun s₁ h₁ hm₁ => ?_)
    have hg₁ := h₁.good hg
    refine Ends.bind (getFsLong_ends hg₁ (h₁.fs_eq ▸ ht.copies h₁) hptr hlt fun s₂ hr₂ => ?_)
    have hg₂ := hr₂.good hg₁
    have h₀₂ := h₁.trans hr₂.copies
    refine Ends.ite (fun hq => Ends.throw (hnull ⟨n, ?_, hq ▸ hptr⟩)) fun _ => ?_
    · rw [List.length_append, List.length_singleton]
      omega
    -- the length of the string
    refine Ends.bind (toString_ends hg₂ (hr₂.copies.fs_eq.trans h₁.fs_eq) fun s₃ h₃ hm₃ => ?_)
    have hg₃ := h₃.good hg₂
    have h₀₃ := h₀₂.trans h₃
    refine Ends.bind (skipString_ends hg₃ (h₃.fs_eq ▸ hs.copies h₀₃) hstr h0 ?_ fun s₄ hr₄ => ?_)
    · exact Nat.lt_of_le_of_lt (Nat.le_add_left _ _) (hu'.length_lt hstr)
    have hg₄ := hr₄.good hg₃
    have h₀₄ : Copies w s s.fs s₄ := by
      have := h₀₃.trans hr₄.copies
      rwa [h₃.fs_eq, ← hfs] at this
    refine Ends.ite (fun h => absurd h (Nat.not_lt_zero _)) fun _ => ?_
    have hbytes : argBytes s₄.mm = argBytes s.mm := by rw [hr₄.faulted.bytes, hm₃, hr₂.faulted.bytes, hm₁]
    have hpage : s₄.mm.page = s.mm.page := by rw [hr₄.faulted.page, hm₃, hr₂.faulted.page, hm₁]
    have hlen' : q + x.length + 1 - q = x.length + 1 := by omega
    rw [hlen']
    -- its bytes
    have hc₄ : c.Ok s₄.mm := by
      unfold Cursor.Ok at hc ⊢
      rwa [hpage]
    refine Ends.bind (copyBytes_ends hg₄ (h₀₄.fs_eq.trans hfs) (h₀₄.fs_eq ▸ hfs ▸ hs.copies h₀₄) hxlen (by omega) ?_ hc₄
      (hbytes ▸ hl) hlen ?_ (fun s' h he => Ends.pure (hnone s' (h₀₄.trans h) he)) ?_)
    · rwa [show q + x.length + 1 - (x.length + 1) = q by omega]
    · rcases hindex with hle | hfull
      · exact .inl (by omega)
      · exact .inr fun m' hq => hfull m' (h₀₄.quiet.trans (h₀₄.task ▸ hq))
    · intro c₅ s₅ h₅ hc₅ hp₅ hl₅
      have h₀₅ : Copies w s s.fs s₅ := h₀₄.fs_eq ▸ h₀₄.trans h₅
      have hg₅ := h₀₅.good hg
      refine ih hg₅ (h₀₅.fs_eq.trans hfs) (ht.copies h₀₅) (hs.copies h₀₅) hn hx.init ?_ hc₅ hl₅ ?_ ?_ ?_ ?_
      · intro hex
        obtain ⟨i, hi, h0⟩ := hex
        exact hnull ⟨i, by rw [List.length_append]; omega, h0⟩
      · rw [List.length_append]
        omega
      · rcases hindex with hle | hfull
        · exact .inl (by omega)
        · exact .inr fun m' hq => hfull m' (h₀₅.quiet.trans (h₀₅.task ▸ hq))
      · exact fun s' h he => hnone s' (h₀₅.trans h) he
      · intro c' s' h hp hat
        refine hsome c' s' (h₀₅.fs_eq ▸ h₀₅.trans h) (by omega) ?_
        rwa [List.append_assoc]

/-- What `copy_strings` has come to: the strings `zs` at the end of the pages; or 0, because no page was free or because
strings that were copied before had taken all of them. -/
def Outcome (w : World) (m : Space) (p : Nat) (zs : List (List UInt8)) : Prop :=
  p + (flat zs).length = argTop ∧ Spells (argBytes m) p (flat zs) ∨
    p = 0 ∧ (Exhausted w m ∨ ∃ zs', zs' <:+ zs ∧ (flat zs').length = argTop)

theorem Outcome.start {m : Space} : Outcome w m argTop [] := .inl ⟨rfl, trivial⟩

/-- More strings, that are not copied. -/
theorem Outcome.zero {m : Space} {zs : List (List UInt8)} (h : Outcome w m 0 zs) (xs : List (List UInt8)) : Outcome w m 0 (xs ++ zs) := by
  refine .inr ⟨rfl, ?_⟩
  rcases h with ⟨hlen, -⟩ | ⟨-, he | ⟨zs', hsuf, hlen⟩⟩
  · exact .inr ⟨zs, List.suffix_append xs zs, by omega⟩
  · exact .inl he
  · exact .inr ⟨zs', hsuf.trans (List.suffix_append xs zs), hlen⟩

/-- **`copy_strings`**. -/
theorem copyStrings_ends {xs zs : List (List UInt8)} {argc : Int} {argv p : Nat} {Q : Nat → State → Prop} (hg : Good w s)
    (ht : Knows E w s (tableSeg fromKmem s.fs) u) (hs : Knows E w s (stringSeg fromKmem s.fs) u') (hu' : Within u')
    (hn : xs.length = argc.toNat) (hx : Strings u u' argv xs)
    (hnull : (∃ i < xs.length, Spells u (argv + 4 * i) (le32 0)) → E (.panic "argc is wrong")) (ho : Outcome w s.mm p zs)
    (hindex : (flat (xs ++ zs)).length ≤ argTop ∨ ∀ m', Quiet w s.task s.mm m' → Full m' → E (.index 1048575))
    (hQ : ∀ p' s', Copies w s s.fs s' → Outcome w s'.mm p' (xs ++ zs) → Q p' s') :
    Ends (copyStrings w argc argv p fromKmem) E Q s := by
  refine Ends.ite (fun h0 => Ends.pure ?_) fun h0 => Ends.bind (Ends.get (Ends.bind (enter_ends hg rfl fun s₁ h₁ hm₁ => ?_)))
  · rw [h0] at ho
    exact hQ 0 s (.refl hg) (ho.zero _)
  · have hg₁ := h₁.good hg
    rw [flat_append, List.length_append] at hindex
    rcases ho with ⟨hlen, hl⟩ | ⟨hp, -⟩
    · refine Ends.bind (copyLoop_ends hg₁ h₁.fs_eq (ht.copies h₁) (hs.copies h₁) hu' hn hx hnull (.inl rfl) (hm₁ ▸ hl) hlen ?_ ?_ ?_)
      · rcases hindex with hle | hfull
        · exact .inl (by dsimp only; omega)
        · exact .inr (by rw [h₁.task, hm₁]; exact hfull)
      · exact fun s' h he => Ends.pure (hQ 0 s' (h₁.trans h) (.inr ⟨rfl, .inl he⟩))
      · intro c' s₂ h₂ hp hat
        have h₀₂ := h₁.trans h₂
        rw [h₁.fs_eq] at h₀₂
        refine Ends.bind (leave_ends (h₀₂.good hg) h₀₂.fs_eq fun s₃ h₃ hm₃ => Ends.pure ?_)
        refine hQ c'.p s₃ (h₀₂.trans h₃) (.inl ?_)
        rw [flat_append, List.length_append]
        dsimp only at hp
        exact ⟨by omega, hm₃ ▸ hat⟩
    · exact absurd hp h0

end Linux011.Fs.Execve
