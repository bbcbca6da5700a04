/-
`do_execve` that fails.

Every failure is before the point of no return. What was taken by then is given back on the way out: the
inode by `exec_error2`, the pages of the strings by both labels, the buffer by the code itself. What stays is
what the page faults of the call have brought in.
-/
import Linux011.Fs.ExecStrings

namespace Linux011.Fs.Execve

open Bytes Relation
open Prog (Ends)

variable {w : World} {s s' s'' : State} {α β : Type}

/-! ## Reading -/

/-- A program that reads memory, whatever it finds there. -/
def Still (w : World) (x : M α) : Prop := ∀ s, Good w s → Ends x (fun _ => True) (fun _ s' => Reads w s s') s

theorem Still.pure (a : α) : Still w (Pure.pure a) := fun _ hg => Ends.pure (.refl hg)

theorem Still.throw (e : Stop) : Still w (MonadExcept.throw e : M α) := fun _ _ => Ends.throw trivial

theorem Still.bind {x : M α} {f : α → M β} (hx : Still w x) (hf : ∀ a, Still w (f a)) : Still w (x >>= f) := fun s hg =>
  Ends.seq (hx s hg) fun a s₁ h₁ => (hf a s₁ (h₁.good hg)).mono fun _ _ h₂ => h₁.trans h₂

theorem Still.ite {c : Prop} [Decidable c] {x y : M α} (hx : c → Still w x) (hy : ¬c → Still w y) :
    Still w (if c then x else y) := fun s hg => Ends.ite (fun h => hx h s hg) fun h => hy h s hg

theorem getFsByte_still (a : Nat) : Still w (getFsByte w a) := fun _ hg =>
  getFsByte_any hg (fun _ _ => trivial) (fun _ _ => trivial) fun _ _ _ hr => hr

theorem getFsLong_still (a : Nat) : Still w (getFsLong w a) :=
  (getFsByte_still _).bind fun _ => (getFsByte_still _).bind fun _ => (getFsByte_still _).bind fun _ =>
    (getFsByte_still _).bind fun _ => .pure _

theorem skipString_still (n a : Nat) : Still w (skipString w n a) := by
  induction n generalizing a with
  | zero => exact .throw _
  | succ n ih => exact (getFsByte_still a).bind fun _ => .ite (fun _ => .pure _) fun _ => ih _

theorem countFrom_still (n a : Nat) : Still w (countFrom w n a) := by
  induction n generalizing a with
  | zero => exact .throw _
  | succ n ih => exact (getFsLong_still a).bind fun _ => .ite (fun _ => .pure _) fun _ => (ih _).bind fun _ => .pure _

theorem count_still (a : Nat) : Still w (count w a) := .ite (fun _ => .pure _) fun _ => countFrom_still _ a

theorem nameFrom_still (n : Nat) (l : List UInt8) (a : Nat) : Still w (nameFrom w n l a) := by
  induction n generalizing l a with
  | zero => exact .throw _
  | succ n ih =>
    refine (getFsByte_still a).bind fun b => ?_
    split
    · exact ih _ _
    · exact .pure _

/-! ## Copying -/

section Copying

variable {fromKmem : Nat} {oldFs : Seg} {c : Cursor}

theorem copyBytes_quiet {n tmp : Nat} {Q : Option Cursor → State → Prop} (hg : Good w s) (hfs : s.fs = stringSeg fromKmem oldFs)
    (hc : c.Ok s.mm) (hp : c.p ≤ argTop) (hnone : ∀ s', Copies w s oldFs s' → Q none s')
    (hsome : ∀ c' s', Copies w s s.fs s' → c'.Ok s'.mm → c'.p ≤ argTop → Q (some c') s') :
    Ends (copyBytes w fromKmem oldFs n tmp c) (fun _ => True) Q s := by
  induction n generalizing s tmp c with
  | zero => exact Ends.pure (hsome c s (.refl hg) hc hp)
  | succ n ih =>
    refine Ends.bind (down_ends hg hfs hc hp (fun _ => trivial) (fun s' h _ => Ends.pure (hnone s' h)) ?_)
    intro c₁ s₁ h₁ hp₁ hpag hne hoff _
    have hg₁ := h₁.good hg
    refine Ends.bind (getFsByte_any hg₁ (fun _ _ => trivial) (fun _ _ => trivial) fun b s₂ _ hr₂ => ?_)
    have hg₂ := hr₂.good hg₁
    rw [← hr₂.faulted.page] at hpag
    refine Ends.bind (store_ends hg₂ hpag hne hoff fun s₃ h₃ hpage₃ _ => ?_)
    have h₀₃ : Copies w s s.fs s₃ := by
      have := (h₁.trans hr₂.copies).trans h₃
      rwa [hr₂.copies.fs_eq, h₁.fs_eq] at this
    refine ih (h₀₃.good hg) (h₀₃.fs_eq.trans hfs) (.inr ⟨hoff, by rw [hpage₃]; exact hpag, hne⟩) (by omega) ?_ ?_
    · exact fun s' h => hnone s' (h₀₃.trans h)
    · exact fun c' s' h hc' hp' => hsome c' s' (h₀₃.fs_eq ▸ h₀₃.trans h) hc' hp'

theorem copyLoop_quiet {n argv : Nat} {Q : Option Cursor → State → Prop} (hg : Good w s) (hfs : s.fs = stringSeg fromKmem oldFs)
    (hc : c.Ok s.mm) (hp : c.p ≤ argTop) (hnone : ∀ s', Copies w s oldFs s' → Q none s')
    (hsome : ∀ c' s', Copies w s s.fs s' → c'.p ≤ argTop → Q (some c') s') :
    Ends (copyLoop w fromKmem oldFs argv n c) (fun _ => True) Q s := by
  induction n generalizing s c with
  | zero => exact Ends.pure (hsome c s (.refl hg) hp)
  | succ n ih =>
    refine Ends.bind (toTable_ends hg hfs fun s₁ h₁ hm₁ => ?_)
    have hg₁ := h₁.good hg
    refine Ends.seq (getFsLong_still _ s₁ hg₁) fun tmp s₂ hr₂ => Ends.ite (fun _ => Ends.throw trivial) fun _ => ?_
    have hg₂ := hr₂.good hg₁
    refine Ends.bind (toString_ends hg₂ (hr₂.copies.fs_eq.trans h₁.fs_eq) fun s₃ h₃ hm₃ => ?_)
    have hg₃ := h₃.good hg₂
    refine Ends.seq (skipString_still _ _ s₃ hg₃) fun past s₄ hr₄ => Ends.ite (fun h => absurd h (Nat.not_lt_zero _)) fun _ => ?_
    have hg₄ := hr₄.good hg₃
    have h₀₄ : Copies w s s.fs s₄ := by
      have := ((h₁.trans hr₂.copies).trans h₃).trans hr₄.copies
      rwa [h₃.fs_eq, ← hfs] at this
    have hpage : s₄.mm.page = s.mm.page := by rw [hr₄.faulted.page, hm₃, hr₂.faulted.page, hm₁]
    have hc₄ : c.Ok s₄.mm := by
      unfold Cursor.Ok at hc ⊢
      rwa [hpage]
    refine Ends.bind (copyBytes_quiet hg₄ (h₀₄.fs_eq.trans hfs) hc₄ hp (fun s' h => Ends.pure (hnone s' (h₀₄.trans h))) ?_)
    intro c₅ s₅ h₅ hc₅ hp₅
    have h₀₅ : Copies w s s.fs s₅ := h₀₄.fs_eq ▸ h₀₄.trans h₅
    refine ih (h₀₅.good hg) (h₀₅.fs_eq.trans hfs) hc₅ hp₅ (fun s' h => hnone s' (h₀₅.trans h)) fun c' s' h hp' => ?_
    exact hsome c' s' (h₀₅.fs_eq ▸ h₀₅.trans h) hp'

theorem copyStrings_quiet {argc : Int} {argv p : Nat} {Q : Nat → State → Prop} (hg : Good w s) (hp : p ≤ argTop)
    (hQ : ∀ p' s', Copies w s s.fs s' → p' ≤ argTop → Q p' s') :
    Ends (copyStrings w argc argv p fromKmem) (fun _ => True) Q s := by
  refine Ends.ite (fun _ => Ends.pure (hQ 0 s (.refl hg) (Nat.zero_le _))) fun _ => Ends.bind (Ends.get (Ends.bind
    (enter_ends hg rfl fun s₁ h₁ _ => ?_)))
  refine Ends.bind (copyLoop_quiet (h₁.good hg) h₁.fs_eq (.inl rfl) hp
    (fun s' h => Ends.pure (hQ 0 s' (h₁.trans h) (Nat.zero_le _))) fun c' s₂ h₂ hp' => ?_)
  have h₀₂ := h₁.trans h₂
  rw [h₁.fs_eq] at h₀₂
  exact Ends.bind (leave_ends (h₀₂.good hg) h₀₂.fs_eq fun s₃ h₃ _ => Ends.pure (hQ c'.p s₃ (h₀₂.trans h₃) hp'))

end Copying

/-! ## What is held -/

/-- One user more. -/
def bump (f : Nat → Nat) (i : Nat) : Nat → Nat := Function.update f i (f i + 1)

/-- One user more of a buffer. -/
def bumpAt (f : Nat → Nat → Nat) (d i : Nat) : Nat → Nat → Nat := Function.update f d (bump (f d) i)

theorem bump_undo (f : Nat → Nat) (i : Nat) : bump f i i ≠ 0 ∧ Function.update (bump f i) i (bump f i i - 1) = f := by
  unfold bump
  rw [Function.update_self, Function.update_idem, Nat.add_sub_cancel, Function.update_eq_self]
  exact ⟨Nat.succ_ne_zero _, rfl⟩

theorem bumpAt_undo (f : Nat → Nat → Nat) (d i : Nat) : bumpAt f d i d i ≠ 0 ∧
    Function.update (bumpAt f d i) d (Function.update (bumpAt f d i d) i (bumpAt f d i d i - 1)) = f := by
  unfold bumpAt
  obtain ⟨h0, hundo⟩ := bump_undo (f d) i
  rw [Function.update_self, hundo, Function.update_idem, Function.update_eq_self]
  exact ⟨h0, rfl⟩

/-- The inode is in use, and the buffer with its first block. -/
def State.hold (t : State) (ino : Nat) : State := { t with iCount := bump t.iCount ino }
def State.holdBlock (w : World) (t : State) (ino : Nat) : State :=
  { t with bCount := bumpAt t.bCount (w.inode ino).dev (w.inode ino).zone }

variable {t : State} {fs fs' : Seg} {ino : Nat}

theorem Good.hold (hg : Good w t) (ino : Nat) : Good w (t.hold ino) := ⟨hg.ok, hg.task⟩

theorem Copies.iCount (h : Copies w t fs s) : s.iCount = t.iCount := by rw [h.same]

theorem Copies.bCount (h : Copies w t fs s) : s.bCount = t.bCount := by rw [h.same]

theorem Copies.reads (h : Copies w t fs s) (h' : Reads w s s') : Copies w t fs s' := h.trans (h.fs_eq ▸ h'.copies)

/-- `namei`, with an inode held if there is one. -/
theorem namei_quiet {a : Nat} {Q : Option Nat → State → Prop} (hg : Good w t) (h : Copies w t fs s)
    (hnone : ∀ s', Reads w s s' → Q none s') (hsome : ∀ ino s', Copies w (t.hold ino) fs s' → Q (some ino) s') :
    Ends (namei w a) (fun _ => True) Q s := by
  refine Ends.seq (nameFrom_still _ _ _ s (h.good hg)) fun r s₁ h₁ => ?_
  have h' := h.reads h₁
  cases r with
  | none => exact Ends.pure (hnone s₁ h₁)
  | some ino =>
    refine Ends.bind (Ends.modify (Ends.pure (hsome ino _ ⟨?_, h'.quiet⟩)))
    rw [h'.iCount, h'.same]
    rfl

theorem iput_ends {E : Stop → Prop} {Q : Unit → State → Prop} (h : Copies w (t.hold ino) fs s)
    (hQ : ∀ s', Copies w t fs s' → s'.mm = s.mm → Q () s') : Ends (iput ino) E Q s := by
  obtain ⟨h0, hundo⟩ := bump_undo t.iCount ino
  refine Ends.bind (Ends.get (Ends.ite (fun hz => absurd ((congrFun h.iCount ino).symm.trans hz) h0) fun _ => Ends.set (hQ _ ⟨?_, h.quiet⟩ rfl)))
  rw [h.iCount, State.hold, hundo, h.same]
  rfl

theorem firstBlock_ends {E : Stop → Prop} {Q : Except Int (Nat → UInt8) → State → Prop} (h : Copies w t fs s)
    (herr : ∀ e, examine w t.task ino = .error e → Q (.error e) s)
    (hok : ∀ b s', examine w t.task ino = .ok b → Copies w (t.holdBlock w ino) fs s' → s'.mm = s.mm → Q (.ok b) s') :
    Ends (firstBlock w ino) E Q s := by
  refine Ends.bind (Ends.get ?_)
  rw [h.task]
  split
  · rename_i e he
    exact Ends.pure (herr e he)
  · rename_i b hb
    refine Ends.bind (Ends.set (Ends.pure (hok b _ hb ⟨?_, h.quiet⟩ rfl)))
    rw [h.bCount, h.same]
    rfl

theorem brelse_ends {E : Stop → Prop} {Q : Unit → State → Prop} (h : Copies w (t.holdBlock w ino) fs s)
    (hQ : ∀ s', Copies w t fs s' → s'.mm = s.mm → Q () s') : Ends (brelse w ino) E Q s := by
  obtain ⟨h0, hundo⟩ := bumpAt_undo t.bCount (w.inode ino).dev (w.inode ino).zone
  refine Ends.bind (Ends.get (Ends.ite (fun hz => absurd ((congrFun (congrFun h.bCount _) _).symm.trans hz) h0) fun _ => Ends.set (hQ _ ⟨?_, h.quiet⟩ rfl)))
  rw [h.bCount, State.holdBlock, hundo, h.same]
  rfl

/-! ## Failure -/

/-- `page[]` is cleared, and the variables of the call are these. -/
def State.begin (s : State) (k : Nat → UInt8) : State := { s with mm := { s.mm with page := fun _ => 0 }, kmem := k }

/-- The call finds a task that runs, with counts that are right. -/
def Start (w : World) (s : State) : Prop := Good w (s.begin s.kmem)

theorem Start.begin (hg : Start w s) (k : Nat → UInt8) : Good w (s.begin k) := ⟨hg.ok, hg.task⟩

/-- What a failed call leaves: all is as before but for the variables of the call, and the counts and the tables are as page
faults of the caller would leave them; its memory has the same bytes. -/
structure Failed (w : World) (s s' : State) : Prop where
  same : s' = { s with mm := s'.mm, kmem := s'.kmem }
  grown : ReflTransGen (Brings w s.task) s.mm.maps s'.mm.maps
  view : view w s.task s'.mm = view w s.task s.mm

theorem rest_eq_maps {m : Space} (h : m.page = fun _ => 0) : m.rest = m.maps := by
  ext1
  · funext n
    refine rest_map_of_not fun ha => ?_
    obtain ⟨i, hi, h0⟩ := ha
    rw [h] at hi
    exact h0 hi.symm
  · rfl
  · rfl

/-- The caller's bytes are in its frames. -/
theorem view_congr {tk : Task} {m m' : Space} (hp : m'.pte = m.pte) (hf : m'.frame = m.frame) : view w tk m' = view w tk m := by
  funext a
  simp only [view, pageByte, absentByte, hp, hf]

/-- What `prepare` leaves. -/
def Settled (w : World) (s : State) (r : Except Int Ready) (s' : State) : Prop :=
  match r with
  | .error _ => Failed w s s'
  | .ok r => ∃ k, Copies w ((s.begin k).hold r.ino) s.fs s'

variable {k : Nat → UInt8}

theorem execError1_ends {E : Stop → Prop} {e : Int} {Q : Except Int Ready → State → Prop} (hg : Good w s)
    (hQ : ∀ m', m'.maps = s.mm.rest → m'.frame = s.mm.frame → Q (.error e) { s with mm := m' }) : Ends (execError1 w e) E Q s :=
  Ends.bind (onMemory_ends (hg.ok.freeArgs_ends fun m' hm hf _ => Ends.pure (hQ m' hm hf)))

theorem execError1_settled {E : Stop → Prop} {e : Int} (hg : Start w s) (h : Copies w (s.begin k) s.fs s') :
    Ends (execError1 w e) E (Settled w s) s' := by
  refine execError1_ends (h.good (hg.begin k)) fun m' hm hf => ⟨?_, ?_, ?_⟩
  · rw [h.same]
    rfl
  · rw [hm, show s.mm.maps = (s.begin k).mm.maps from rfl, ← rest_eq_maps rfl]
    exact h.quiet.grown
  · exact (view_congr (congrArg Maps.pte hm) hf).trans h.quiet.view

theorem execError2_settled {E : Stop → Prop} {e : Int} (hg : Start w s) (h : Copies w ((s.begin k).hold ino) s.fs s') :
    Ends (execError2 w ino e) E (Settled w s) s' :=
  Ends.bind (iput_ends h fun _ h _ => execError1_settled hg h)

theorem binary_settled {b : Nat → UInt8} {copy : M Nat} {argc : Int} {envc : Nat} (hg : Start w s)
    (hcopy : ∀ s₁, Copies w ((s.begin k).hold ino) s.fs s₁ →
      Ends copy (fun _ => True) (fun _ s₂ => Copies w ((s.begin k).hold ino) s.fs s₂) s₁)
    (h : Copies w (((s.begin k).hold ino).holdBlock w ino) s.fs s') :
    Ends (binary w ino b copy argc envc) (fun _ => True) (Settled w s) s' := by
  refine Ends.bind (brelse_ends h fun s₁ h₁ _ => Ends.ite (fun _ => execError2_settled hg h₁) fun _ => ?_)
  refine Ends.seq (hcopy s₁ h₁) fun p s₂ h₂ => Ends.ite (fun _ => execError2_settled hg h₂) fun _ => ?_
  exact Ends.bind (Ends.get (Ends.pure ⟨k, h₂⟩))

theorem interpreter_settled {sc : Script} {p : Nat} {argc : Int} {envc : Nat} (hg : Start w s)
    (h : Copies w (s.begin k) s.fs s') : Ends (interpreter w sc p argc envc) (fun _ => True) (Settled w s) s' := by
  have hk : Copies w (s.begin k) .kernel { s' with fs := .kernel } := h.trans (.setFs (h.good (hg.begin k)) _)
  refine Ends.bind (Ends.get (Ends.bind (setFs_ends (Ends.bind (namei_quiet (hg.begin k) hk ?_ ?_)))))
  · intro s₁ hr₁
    have h₁ := hk.reads hr₁
    rw [h.fs_eq]
    exact Ends.bind (setFs_ends (execError1_settled hg (h₁.trans (.setFs (h₁.good (hg.begin k)) _))))
  · intro ino s₁ h₁
    have h₂ := h₁.trans (.setFs (h₁.good ((hg.begin k).hold ino)) s.fs)
    rw [h.fs_eq]
    refine Ends.bind (setFs_ends (Ends.bind (firstBlock_ends h₂ (fun e _ => execError2_settled hg h₂) fun b s₃ _ h₃ _ => ?_)))
    exact binary_settled hg (fun s₁ h => Ends.pure h) h₃

theorem copyStrings_copies {argc : Int} {argv p fromKmem : Nat} {Q : Nat → State → Prop} (hg : Good w t) (h : Copies w t fs s)
    (hp : p ≤ argTop) (hQ : ∀ p' s', Copies w t fs s' → p' ≤ argTop → Q p' s') :
    Ends (copyStrings w argc argv p fromKmem) (fun _ => True) Q s :=
  copyStrings_quiet (h.good hg) hp fun p' s' h' hp' => hQ p' s' (h.trans (h.fs_eq ▸ h')) hp'

theorem script_settled {c : Call} {sc : Script} {argc envc : Nat} (hg : Start w s) (h : Copies w (s.begin k) s.fs s') :
    Ends (script w c sc argc envc) (fun _ => True) (Settled w s) s' := by
  have hk : Copies w (s.begin (scriptLocals w sc k)) s.fs { s' with kmem := scriptLocals w sc s'.kmem } := by
    refine ⟨?_, h.quiet⟩
    rw [h.same]
    rfl
  have hg' := hg.begin (scriptLocals w sc k)
  refine Ends.bind (Ends.modify (Ends.bind (copyStrings_copies hg' hk (Nat.le_refl _) fun p₁ s₁ h₁ hp₁ => ?_)))
  refine Ends.bind (copyStrings_copies hg' h₁ hp₁ fun p₂ s₂ h₂ hp₂ => ?_)
  refine Ends.bind (copyStrings_copies hg' h₂ hp₂ fun p₃ s₃ h₃ hp₃ => ?_)
  have harg : Ends (copyArg w sc p₃) (fun _ => True)
      (fun p₄ s₄ => Copies w (s.begin (scriptLocals w sc k)) s.fs s₄ ∧ p₄ ≤ argTop) s₃ :=
    Ends.ite (fun _ => copyStrings_copies hg' h₃ hp₃ fun p₄ s₄ h₄ hp₄ => ⟨h₄, hp₄⟩) fun _ => Ends.pure ⟨h₃, hp₃⟩
  refine Ends.seq harg fun p₄ s₄ h₄ => ?_
  refine Ends.bind (copyStrings_copies hg' h₄.1 h₄.2 fun p₅ s₅ h₅ _ => ?_)
  exact Ends.ite (fun _ => execError1_settled hg h₅) fun _ => interpreter_settled hg h₅

/-- **Up to the point of no return**, the call fails and leaves nothing behind, or holds the inode of the program. -/
theorem prepare_settled (hg : Start w s) (c : Call) : Ends (prepare w c) (fun _ => True) (Settled w s) s := by
  have hg' := hg.begin (putBytes s.kmem w.filenameAt (le32 c.filename))
  have h : Copies w _ s.fs (s.begin _) := .refl hg'
  refine Ends.bind (Ends.modify (Ends.bind (namei_quiet hg' h (fun s₁ hr₁ => Ends.pure ?_) ?_)))
  · -- there is no page to free
    have h₁ := h.reads hr₁
    have hgrown := h₁.quiet.grown
    rw [rest_eq_maps rfl, rest_eq_maps hr₁.faulted.page] at hgrown
    refine ⟨?_, hgrown, h₁.quiet.view⟩
    rw [h₁.same]
    rfl
  · intro ino s₁ h₁
    have hg₁ := hg'.hold ino
    refine Ends.seq (count_still _ s₁ (h₁.good hg₁)) fun argc s₂ hr₂ => ?_
    have h₂ := h₁.reads hr₂
    refine Ends.seq (count_still _ s₂ (h₂.good hg₁)) fun envc s₃ hr₃ => ?_
    have h₃ := h₂.reads hr₃
    refine Ends.bind (firstBlock_ends h₃ (fun e _ => execError2_settled hg h₃) fun b s₄ _ h₄ _ => Ends.ite (fun _ => ?_) fun _ => ?_)
    · refine Ends.bind (brelse_ends h₄ fun s₅ h₅ _ => Ends.bind (iput_ends h₅ fun s₆ h₆ _ => ?_))
      cases parse b with
      | none => exact execError1_settled hg h₆
      | some sc => exact script_settled hg h₆
    · refine binary_settled hg (fun s₅ h₅ => Ends.bind ?_) h₄
      refine copyStrings_copies hg₁ h₅ (Nat.le_refl _) fun p s₆ h₆ hp => ?_
      exact copyStrings_copies hg₁ h₆ hp fun p s₇ h₇ _ => h₇

theorem doExecve_failed (hg : Start w s) (c : Call) :
    Ends (doExecve w c) (fun _ => True) (fun r s' => r < 0 → Failed w s s') s := by
  refine Ends.seq (prepare_settled hg c) fun r s₁ h₁ => ?_
  cases r with
  | error e => exact Ends.pure fun _ => h₁
  | ok r => exact Ends.seq Ends.any fun _ _ _ => Ends.pure fun h0 => absurd h0 (Int.lt_irrefl 0)

section Sample

/-- The bytes of a page: the name `f`, and behind it the tables and the strings. -/
def samplePage : List UInt8 :=
  [102, 0] ++ List.replicate 14 0 ++ le32 4144 ++ le32 4148 ++ le32 0 ++ le32 0 ++ le32 4152 ++ le32 0 ++ le32 0 ++ le32 0 ++
    [97, 98, 0, 0, 99, 0, 0, 0, 101, 61, 49, 0]

/-- `#! /i x`. -/
def sampleScript : List UInt8 := [35, 33, 32, 47, 105, 32, 120, 10]

def sampleHeader : List UInt8 :=
  le32 267 ++ le32 1024 ++ le32 3072 ++ le32 0 ++ le32 0 ++ le32 16 ++ le32 0 ++ le32 0

/-- The name `f` is that of a script, and `/i` that of its interpreter. -/
def sampleWalk (l : List UInt8) : Option (Option Nat) :=
  if l = [102, 0] then some (some 1)
  else if l = [47, 105, 0] then some (some 2)
  else if l.getLast? = some 0 then some none
  else none

theorem sampleWalk_end (l : List UInt8) : sampleWalk (l ++ [0]) ≠ none := by
  unfold sampleWalk
  rw [List.getLast?_concat, if_pos (c := some (0 : UInt8) = some 0) rfl]
  split
  · exact Option.some_ne_none _
  · split
    · exact Option.some_ne_none _
    · exact Option.some_ne_none _

theorem sampleLow_pos : 0 < 256 := Nat.succ_pos 255

theorem sampleHigh_le : 4096 ≤ 4096 := Nat.le_refl 4096

def sampleWorld : World where
  low := 256
  high := 4096
  low_pos := sampleLow_pos
  high_le := sampleHigh_le
  share _ _ := none
  share_low h := nomatch h
  share_addr h := nomatch h
  file _ _ := 0
  walk := sampleWalk
  walk_end := sampleWalk_end
  inode i := ⟨33261, 0, 0, 5120, 1, i⟩
  block _ zone := some fun k => (if zone = 1 then sampleScript else sampleHeader).getD k 0
  fileInode _ := 0
  locals := 4096
  locals_lt := by decide

def sampleTask : Task where
  euid := 0
  egid := 0
  executable := none
  endCode := 0
  endData := 0
  brk := 0
  startStack := 0
  limit := taskSize
  handler _ := .dfl
  filp _ := none
  closeOnExec _ := false
  usedMath := false

/-- One page of the task is there. -/
def sampleState : State where
  fs := .user
  mm :=
    { map := fun n => if n < 256 then 128 else if n < 258 then 1 else if n < 4096 then 0 else 128
      frame := fun n k => if n = 257 then samplePage.getD k 0 else 0
      table := fun i => if i = 0 then 256 else 0
      pte := fun v => if v = 1 then some ⟨257, true⟩ else none
      page := fun _ => 0 }
  kmem _ := 0
  iCount _ := 0
  bCount _ _ := 0
  fCount _ := 0
  task := sampleTask
  lastMath := false
  eip := 0
  esp := 0

theorem sampleState_pte {v : Nat} {e : Entry} (h : sampleState.mm.pte v = some e) : v = 1 ∧ e = ⟨257, true⟩ := by
  change (if v = 1 then some (⟨257, true⟩ : Entry) else none) = some e at h
  split at h
  · cases h
    exact ⟨‹_›, rfl⟩
  · cases h

theorem sampleState_table {i : Nat} (h : sampleState.mm.table i ≠ 0) : i = 0 := by
  by_contra hi
  exact h (if_neg hi)

theorem sampleState_start : Start sampleWorld sampleState where
  ok :=
    { inUse := fun h => nomatch h
      addr := fun h => nomatch h
      twice := fun h => nomatch h
      zero := by decide
      free := fun {n} h => by
        change (if n < 256 then 128 else if n < 258 then 1 else if n < 4096 then 0 else 128) = 0 at h
        change n < 4096
        by_contra hn
        rw [if_neg (by omega), if_neg (by omega), if_neg hn] at h
        cases h
      mapped := fun h => by
        rw [(sampleState_pte h).2]
        decide
      user := fun h => by
        rw [(sampleState_pte h).1]
        decide
      tables := fun h => by
        rw [(sampleState_pte h).1]
        decide
      table := fun h => by
        rw [sampleState_table h]
        exact ⟨rfl, by decide, by decide, fun _ _ h => nomatch h⟩
      runs := ⟨0, by decide, by decide⟩
      args := fun h => absurd rfl h
      distinct := fun h => absurd rfl h }
  task := ⟨by decide, by decide⟩

/-- The name is at the beginning of a page that is not there, and it is empty. -/
theorem sample_fails :
    Ends (doExecve sampleWorld ⟨0, 0, 0⟩) (fun _ => False) (fun r s => r = enoent ∧ s.mm.map 258 = 1) sampleState := by
  decide +kernel

end Sample

end Linux011.Fs.Execve
