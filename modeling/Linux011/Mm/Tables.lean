/-
The references to physical frames, and the invariant of the memory manager.

A frame is referenced from a task's `cr3`, from an entry of the user half of
its directory, from an entry of one of those tables, from `task[]`, or from
a local variable of a system call under way (`Misc`). `Inv` says the counts
in `mem_map` are the numbers of these references, and what keeps them so:
directories, tables and kernel-held pages are referenced once, and all the
user entries mapping a frame map it at one address, so no count comes near
the USED bit.

The frames lost when a task dies holding the pages of its argument strings
are counted here as references of their own (`Misc.lost`), so that the
invariant holds in every run and the leak is visible in the references.
-/
import Linux011.Lib.RefCount
import Linux011.Mm.Memory
import Mathlib.Tactic.DeriveFintype
import Mathlib.Data.Fintype.Option
import Mathlib.Data.Fintype.Sigma
import Mathlib.Data.Fintype.Sum

namespace Linux011.Mm

open RefCount

/-- The references held outside page tables. -/
inductive Misc
  /-- The page of `task[t]`. -/
  | task (t : Fin 64)
  /-- `page[k]` of task `t`'s `do_execve`. -/
  | arg (t : Fin 64) (k : Fin 32)
  /-- The page task `t` is reading into in `do_no_page`. -/
  | load (t : Fin 64)
  /-- A page whose holder died. -/
  | lost (n : Fin 4096)
  /-- The page a function has just got from `get_free_page`. -/
  | hand
  /-- The page `get_empty_page` is about to map. -/
  | page
  deriving DecidableEq, Fintype

/-- The places a frame can be referenced from: the user half of each task's
tables (directory entries below 768), and the rest. -/
inductive Ref
  | cr3 (t : Fin 64)
  | pde (t : Fin 64) (i : Fin 768)
  | pte (t : Fin 64) (i : Fin 768) (j : Fin 1024)
  | misc (x : Misc)
  deriving DecidableEq, Fintype

def Ref.IsPte : Ref → Prop
  | .pte _ _ _ => True
  | _ => False

@[simp] theorem Ref.isPte_pte {t i j} : (Ref.pte t i j).IsPte := trivial
@[simp] theorem Ref.not_isPte_cr3 {t} : ¬ (Ref.cr3 t).IsPte := id
@[simp] theorem Ref.not_isPte_pde {t i} : ¬ (Ref.pde t i).IsPte := id
@[simp] theorem Ref.not_isPte_misc {x} : ¬ (Ref.misc x).IsPte := id

/-- The directories in use, one a task, and the pages held elsewhere. Task 0
and a task inside `do_exit` run on `swapper_pg_dir` and have none. -/
@[ext] structure Roots where
  dir : Fin 64 → Option Nat
  misc : Misc → Option Nat

namespace Roots

def setDir (R : Roots) (t : Fin 64) (v : Option Nat) : Roots := { R with dir := Function.update R.dir t v }

def setMisc (R : Roots) (x : Misc) (v : Option Nat) : Roots := { R with misc := Function.update R.misc x v }

@[simp] theorem setDir_misc (R : Roots) (t v) : (R.setDir t v).misc = R.misc := rfl
@[simp] theorem setMisc_dir (R : Roots) (x v) : (R.setMisc x v).dir = R.dir := rfl
@[simp] theorem setDir_dir (R : Roots) (t v) : (R.setDir t v).dir = Function.update R.dir t v := rfl
@[simp] theorem setMisc_misc (R : Roots) (x v) : (R.setMisc x v).misc = Function.update R.misc x v := rfl

end Roots

/-- Word `i` of task `t`'s directory. -/
def pde (m : Mem) (R : Roots) (t : Fin 64) (i : Nat) : Nat :=
  match R.dir t with
  | none => 0
  | some d => m.word d i

/-- Word `j` of the table at directory entry `i` of task `t`. -/
def pte (m : Mem) (R : Roots) (t : Fin 64) (i j : Nat) : Nat :=
  if Present (pde m R t i) then m.word (frame (pde m R t i)) j else 0

/-- What an entry references. -/
def ent (w : Nat) : Option Nat := if Present w then some (frame w) else none

/-- What each reference names. -/
def target (m : Mem) (R : Roots) : Ref → Option Nat
  | .cr3 t => R.dir t
  | .pde t i => ent (pde m R t i)
  | .pte t i j => ent (pte m R t i j)
  | .misc x => R.misc x

/-- `f` is a directory or a table of some task. -/
def IsTable (m : Mem) (R : Roots) (f : Nat) : Prop :=
  (∃ t, R.dir t = some f) ∨ ∃ t i, i < 768 ∧ ent (pde m R t i) = some f

/-- `f` is the directory or a table of task `t`. -/
def TableOf (m : Mem) (R : Roots) (t : Fin 64) (f : Nat) : Prop :=
  R.dir t = some f ∨ ∃ i, i < 768 ∧ ent (pde m R t i) = some f

/-- `n` is mapped by some user entry. -/
def Mapped (m : Mem) (R : Roots) (n : Nat) : Prop := ∃ r : Ref, r.IsPte ∧ target m R r = some n

/-- The frames in use that hold data keep it. -/
def KeepData (m : Mem) (R : Roots) (m' : Mem) : Prop :=
  ∀ n k, m.Managed n → m.map n ≠ 0 → ¬ IsTable m R n → m'.word n k = m.word n k

theorem KeepData.refl {m : Mem} {R : Roots} : KeepData m R m := fun _ _ _ _ _ => rfl

@[simp] theorem ent_zero : ent 0 = none := by simp [ent]

theorem ent_eq_some {w n : Nat} : ent w = some n ↔ Present w ∧ frame w = n := by
  unfold ent; split <;> simp_all

theorem ent_of_present {w : Nat} (h : Present w) : ent w = some (frame w) := if_pos h

@[simp] theorem ent_clearRw (w : Nat) : ent (clearRw w) = ent w := by simp [ent]
@[simp] theorem ent_setRw (w : Nat) : ent (setRw w) = ent w := by simp [ent]
@[simp] theorem ent_setDirty (w : Nat) : ent (setDirty w) = ent w := by simp [ent]

theorem ent_entry {n f : Nat} (hf : f < 4096) (ho : f % 2 = 1) : ent (entry n f) = some n := by
  rw [ent_of_present (present_entry.2 ho), frame_entry hf]

@[simp] theorem pde_setMisc (m : Mem) (R : Roots) (x v t i) : pde m (R.setMisc x v) t i = pde m R t i := rfl

@[simp] theorem pte_setMisc (m : Mem) (R : Roots) (x v t i j) :
    pte m (R.setMisc x v) t i j = pte m R t i j := rfl

@[simp] theorem target_setMisc (m : Mem) (R : Roots) (x v) :
    target m (R.setMisc x v) = Function.update (target m R) (.misc x) v := by
  funext r
  cases r with
  | misc y =>
    by_cases hy : y = x
    · subst hy; simp [target]
    · simp [target, hy]
  | _ => simp [target]

/-! ## Soundness of a reference map -/

/-- What the reference map satisfies, whatever the counts: `M` the managed
frames, `hi` the size of `mem_map`. -/
structure Sound (M : Nat → Prop) (hi : Nat) (f : Ref → Option Nat) : Prop where
  /-- Directories, tables and held pages have one reference of these kinds. -/
  uniq : ∀ r r' n, ¬ r.IsPte → ¬ r'.IsPte → f r = some n → f r' = some n → r = r'
  managed : ∀ r n, ¬ r.IsPte → f r = some n → M n
  pte_lt : ∀ t i j n, f (.pte t i j) = some n → n < hi
  /-- A frame is mapped at one user address. -/
  addr : ∀ t i j t' i' j' n, M n → f (.pte t i j) = some n → f (.pte t' i' j') = some n → i = i' ∧ j = j'

namespace Sound

variable {M : Nat → Prop} {hi : Nat} {f : Ref → Option Nat}

theorem clear (h : Sound M hi f) (r : Ref) : Sound M hi (Function.update f r none) := by
  have old : ∀ {r' n}, Function.update f r none r' = some n → f r' = some n := by
    intro r' n h'
    by_cases hr : r' = r
    · subst hr; simp at h'
    · simpa [hr] using h'
  exact ⟨fun r₁ r₂ n h₁ h₂ e₁ e₂ => h.uniq r₁ r₂ n h₁ h₂ (old e₁) (old e₂),
    fun r₁ n h₁ e₁ => h.managed r₁ n h₁ (old e₁),
    fun t i j n e => h.pte_lt t i j n (old e),
    fun t i j t' i' j' n hM e e' => h.addr t i j t' i' j' n hM (old e) (old e')⟩

/-- A held page that nothing else of its kind references. -/
theorem fill (h : Sound M hi f) {r : Ref} {n : Nat} (hr : ¬ r.IsPte) (hn : M n)
    (hfree : ∀ r', ¬ r'.IsPte → f r' ≠ some n) : Sound M hi (Function.update f r (some n)) := by
  have old : ∀ {r' n'}, Function.update f r (some n) r' = some n' → (r' = r ∧ n' = n) ∨ f r' = some n' := by
    intro r' n' h'
    by_cases e : r' = r
    · subst e; simp only [Function.update_self, Option.some.injEq] at h'; exact .inl ⟨rfl, h'.symm⟩
    · right; simpa [e] using h'
  have pteOld : ∀ {t i j n'}, Function.update f r (some n) (.pte t i j) = some n' →
      f (.pte t i j) = some n' := by
    intro t i j n' h'
    rcases old h' with ⟨e, _⟩ | h'
    · subst e; simp at hr
    · exact h'
  refine ⟨fun r₁ r₂ n' h₁ h₂ e₁ e₂ => ?_, fun r₁ n' h₁ e₁ => ?_,
    fun t i j n' e => h.pte_lt t i j n' (pteOld e),
    fun t i j t' i' j' n' hM e e' => h.addr t i j t' i' j' n' hM (pteOld e) (pteOld e')⟩
  · rcases old e₁ with ⟨hr₁, hn₁⟩ | o₁ <;> rcases old e₂ with ⟨hr₂, hn₂⟩ | o₂
    · exact hr₁.trans hr₂.symm
    · exact absurd (hn₁ ▸ o₂) (hfree _ h₂)
    · exact absurd (hn₂ ▸ o₁) (hfree _ h₁)
    · exact h.uniq r₁ r₂ n' h₁ h₂ o₁ o₂
  · rcases old e₁ with ⟨rfl, rfl⟩ | e₁
    · exact hn
    · exact h.managed r₁ n' h₁ e₁

/-- A user entry, at the address the frame is mapped at elsewhere if it is. -/
theorem fill_pte (h : Sound M hi f) {t : Fin 64} {i : Fin 768} {j : Fin 1024} {n : Nat} (hn : n < hi)
    (haddr : M n → ∀ t' i' j', f (.pte t' i' j') = some n → i' = i ∧ j' = j) :
    Sound M hi (Function.update f (.pte t i j) (some n)) := by
  have keep : ∀ {r'}, ¬ r'.IsPte → Function.update f (.pte t i j) (some n) r' = f r' := by
    intro r' hr'
    rw [Function.update_of_ne]
    rintro rfl; simp at hr'
  have old : ∀ {t' i' j' n'}, Function.update f (.pte t i j) (some n) (.pte t' i' j') = some n' →
      (i' = i ∧ j' = j ∧ n' = n) ∨ f (.pte t' i' j') = some n' := by
    intro t' i' j' n' h'
    by_cases e : Ref.pte t' i' j' = Ref.pte t i j
    · rw [e, Function.update_self, Option.some.injEq] at h'
      injection e with _ e₂ e₃
      exact .inl ⟨e₂, e₃, h'.symm⟩
    · right; simpa [e] using h'
  refine ⟨fun r₁ r₂ n' h₁ h₂ e₁ e₂ => ?_, fun r₁ n' h₁ e₁ => ?_, fun t' i' j' n' e => ?_,
    fun t₁ i₁ j₁ t₂ i₂ j₂ n' hM e₁ e₂ => ?_⟩
  · rw [keep h₁] at e₁; rw [keep h₂] at e₂; exact h.uniq r₁ r₂ n' h₁ h₂ e₁ e₂
  · rw [keep h₁] at e₁; exact h.managed r₁ n' h₁ e₁
  · rcases old e with ⟨_, _, rfl⟩ | e
    · exact hn
    · exact h.pte_lt t' i' j' n' e
  · rcases old e₁ with ⟨hi₁, hj₁, hn₁⟩ | o₁ <;> rcases old e₂ with ⟨hi₂, hj₂, hn₂⟩ | o₂
    · exact ⟨hi₁.trans hi₂.symm, hj₁.trans hj₂.symm⟩
    · obtain ⟨hi₂, hj₂⟩ := haddr (hn₁ ▸ hM) _ _ _ (hn₁ ▸ o₂)
      exact ⟨hi₁.trans hi₂.symm, hj₁.trans hj₂.symm⟩
    · obtain ⟨hi₁, hj₁⟩ := haddr (hn₂ ▸ hM) _ _ _ (hn₂ ▸ o₁)
      exact ⟨hi₁.trans hi₂.symm, hj₁.trans hj₂.symm⟩
    · exact h.addr _ _ _ _ _ _ _ hM o₁ o₂

/-- The task an entry belongs to; distinct among the references to a frame. -/
def key : Ref → Option (Fin 64)
  | .pte t _ _ => some t
  | _ => none

/-- **No count comes near `USED`**: at most one reference of a kernel kind and
one user entry a task. -/
theorem count_le (h : Sound M hi f) {n : Nat} (hn : M n) : count f n ≤ 65 := by
  refine le_trans (count_le_card (K := Option (Fin 64)) key ?_) (by simp)
  intro r r' hr hr' hk
  cases r <;> cases r' <;> simp only [key, reduceCtorEq, Option.some.injEq] at hk <;>
    first
    | (subst hk; obtain ⟨rfl, rfl⟩ := h.addr _ _ _ _ _ _ n hn hr hr'; rfl)
    | exact h.uniq _ _ n (by simp) (by simp) hr hr'

end Sound

/-! ## The invariant -/

/-- `swapper_pg_dir` and `pg0` to `pg3`, up to the flags of their entries. -/
structure Swapper (m : Mem) : Prop where
  dir0 : Present (m.word 0 0) ∧ frame (m.word 0 0) = 1
  user : ∀ i, 0 < i → i < 768 → m.word 0 i = 0
  kern : ∀ i, 768 ≤ i → i < 1024 → m.word 0 i = 0 ∨ (Present (m.word 0 i) ∧ frame (m.word 0 i) ≤ 4)
  pg0 : ∀ j, j < 1024 → Present (m.word 1 j) ∧ frame (m.word 1 j) = j

/-- The reference is a user entry at the address whose page number is `n`. -/
def Ref.At (n : Nat) : Ref → Prop
  | .pte _ i j => i.val * 1024 + j.val = n
  | _ => False

/-- What holds of the memory and the references to it between any two steps
of the kernel. `s` says that no page has been shared out of `pg0`; the last
two fields need it. -/
structure Inv (s : Prop) (m : Mem) (R : Roots) : Prop where
  low_ge : 256 ≤ m.low
  low_le : m.low ≤ m.high
  high_le : m.high ≤ 4096
  map_used : ∀ n, ¬ m.Managed n → m.map n = 128
  sound : Sound m.Managed 4096 (target m R)
  /-- The counts are exact. -/
  exact : ∀ n, m.Managed n → m.map n = count (target m R) n
  pde_wf : ∀ t i, i < 768 → pde m R t i = 0 ∨ Present (pde m R t i)
  pte_wf : ∀ t i j, i < 768 → j < 1024 → pte m R t i j = 0 ∨ Present (pte m R t i j)
  /-- The kernel half of a directory is `swapper_pg_dir`'s, as far as it has
  been copied. -/
  kern : ∀ t d, R.dir t = some d → ∀ i, 768 ≤ i → i < 1024 → m.word d i = m.word 0 i ∨ m.word d i = 0
  swap : Swapper m
  /-- A frame the kernel has never stored into is mapped, if at all, where
  `pg0` maps it. -/
  clean : ∀ n, m.Managed n → n < 1024 → ¬ Dirty (m.word 1 n) → ∀ r, target m R r = some n → r.At n
  /-- A writable user entry maps a managed frame that is no table, directory
  or held page. -/
  rwData : ∀ t i j, i < 768 → j < 1024 → Present (pte m R t i j) → Rw (pte m R t i j) →
    m.Managed (frame (pte m R t i j)) ∧ ∀ r, target m R r = some (frame (pte m R t i j)) → r.IsPte
  /-- A held page is mapped by no user entry. -/
  held : ∀ r x n, r.IsPte → target m R r = some n → R.misc x ≠ some n
  /-- A frame mapped by a user entry is referenced by user entries only. -/
  sep : s → ∀ r r' n, r.IsPte → ¬ r'.IsPte → target m R r = some n → target m R r' ≠ some n
  /-- A frame mapped writable is mapped once. -/
  rwOne : s → ∀ t i j, Rw (pte m R t i.val j.val) → ∀ n, target m R (.pte t i j) = some n →
    ∀ r, target m R r = some n → r = .pte t i j

namespace Inv

variable {s : Prop} {m : Mem} {R : Roots}

theorem map_lt (h : Inv s m R) {n : Nat} (hn : m.Managed n) : m.map n < 128 := by
  rw [h.exact n hn]
  have := h.sound.count_le hn
  omega

theorem used_iff (h : Inv s m R) (n : Nat) : m.Used n ↔ ¬ m.Managed n := by
  constructor
  · intro hu hn
    have := h.map_lt hn
    unfold Mem.Used at hu
    omega
  · intro hn
    unfold Mem.Used
    rw [h.map_used n hn]

theorem map_pos (h : Inv s m R) {n : Nat} (hn : m.Managed n) {r : Ref} (hr : target m R r = some n) :
    0 < m.map n := by
  rw [h.exact n hn, count_pos]
  exact ⟨r, hr⟩

theorem not_managed_lt (h : Inv s m R) {n : Nat} (hn : n < 256) : ¬ m.Managed n := fun hm => by
  have := h.low_ge; have := hm.1; omega

theorem dir_managed (h : Inv s m R) {t d} (hd : R.dir t = some d) : m.Managed d :=
  h.sound.managed (.cr3 t) d (by simp) hd

/-- A table of the user half is managed, and referenced by its directory entry alone. -/
theorem table_managed (h : Inv s m R) {t i} (hi : i < 768) (hp : Present (pde m R t i)) :
    m.Managed (frame (pde m R t i)) :=
  h.sound.managed (.pde t ⟨i, hi⟩) _ (by simp) (ent_of_present hp)

theorem table_ne_dir (h : Inv s m R) {t i} (hi : i < 768) (hp : Present (pde m R t i)) (u : Fin 64) :
    R.dir u ≠ some (frame (pde m R t i)) := fun hu => by
  have := h.sound.uniq (.cr3 u) (.pde t ⟨i, hi⟩) _ (by simp) (by simp) hu (ent_of_present hp)
  cases this

theorem table_inj (h : Inv s m R) {t i u i'} (hi : i < 768) (hi' : i' < 768) (hp : Present (pde m R t i))
    (hp' : Present (pde m R u i')) (he : frame (pde m R u i') = frame (pde m R t i)) : u = t ∧ i' = i := by
  have := h.sound.uniq (.pde u ⟨i', hi'⟩) (.pde t ⟨i, hi⟩) _ (by simp) (by simp)
    (ent_eq_some.2 ⟨hp', he⟩) (ent_of_present hp)
  injection this with h₁ h₂
  exact ⟨h₁, by simpa using h₂⟩

theorem dir_inj (h : Inv s m R) {t u d} (ht : R.dir t = some d) (hu : R.dir u = some d) : u = t := by
  have := h.sound.uniq (.cr3 u) (.cr3 t) d (by simp) (by simp) hu ht
  injection this

/-- The invariant where it asks less. -/
theorem mono {s' : Prop} (h : Inv s m R) (hs : s' → s) : Inv s' m R :=
  { h with
    sep := fun h' => h.sep (hs h')
    rwOne := fun h' => h.rwOne (hs h') }

end Inv

/-- **`mem_init`** leaves memory with no page in use. -/
theorem memInit_inv {s : Prop} {R : Roots} (b : Boot) (hdir : ∀ t, R.dir t = none) (hmisc : ∀ x, R.misc x = none) :
    Inv s (memInit b) R := by
  have hpde : ∀ t i, pde (memInit b) R t i = 0 := fun t i => by simp only [pde, hdir]
  have hpte : ∀ t i j, pte (memInit b) R t i j = 0 := fun t i j => by simp [pte, hpde]
  have hno : ∀ r, target (memInit b) R r = none := by
    intro r
    cases r <;> simp [target, hdir, hmisc, hpde, hpte, ent]
  have none_ne : ∀ {r n}, target (memInit b) R r ≠ some n := fun {r n} e => by rw [hno r] at e; cases e
  constructor
  case low_ge => exact b.low_ge
  case low_le => exact b.low_le
  case high_le => exact b.high_le
  case map_used => exact fun n hn => if_neg hn
  case sound =>
    exact ⟨fun _ _ _ _ _ e => absurd e none_ne, fun _ _ _ e => absurd e none_ne, fun _ _ _ _ e => absurd e none_ne,
      fun _ _ _ _ _ _ _ _ e => absurd e none_ne⟩
  case exact =>
    intro n hn
    rw [count_eq_zero.2 fun r => none_ne]
    exact if_pos hn
  case pde_wf => exact fun t i _ => .inl (hpde t i)
  case pte_wf => exact fun t i j _ _ => .inl (hpte t i j)
  case kern => exact fun t d hd => by rw [hdir] at hd; cases hd
  case swap =>
    refine ⟨by simp [memInit, bootWord, present_entry], fun i h₀ h₁ => ?_, fun i h₀ h₁ => ?_, fun j hj => ?_⟩
    · simp only [memInit, bootWord, if_true]
      rw [if_neg (by omega), if_neg (by omega)]
    · simp only [memInit, bootWord, if_true]
      rw [if_neg (by omega)]
      split
      · exact .inr ⟨present_entry.2 rfl, by rw [frame_entry (by omega)]; omega⟩
      · exact .inl rfl
    · simp [memInit, bootWord, present_entry]
  case clean => exact fun n _ _ _ r e => absurd e none_ne
  case rwData =>
    intro t i j _ _ hp
    rw [hpte] at hp
    exact absurd hp (by decide)
  case held => exact fun r x n _ e => absurd e none_ne
  case sep => exact fun _ r r' n _ _ e => absurd e none_ne
  case rwOne => exact fun _ t i j _ n e => absurd e none_ne

end Linux011.Mm
