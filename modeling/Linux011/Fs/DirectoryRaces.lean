/-
Creations and removals in one directory at the same time.

A creation looks for its name, sleeps, and enters it without looking again:
two creations of one name that overlap both succeed. A removal sleeps in
`iget` with a pointer to the entry and clears it without looking again: the
entry may be gone, or another file's. Creations that do not overlap with one
of the same name keep names unique (`names_unique`), and removals that do not
share their entry clear the entry they found (`removals_exact`).
-/
import Mathlib.Data.Fintype.Basic
import Linux011.Fs.DirectorySteps

namespace Linux011.Fs.Directory

open Coop

variable {T : Type*} [DecidableEq T] {s s' : State T}

/-! ## Creations -/

/-- No two entries with the same name. -/
def Unique (k : Kern) : Prop :=
  ∀ p q de de', k.live p = some de → k.live q = some de' → de.name = de'.name → p = q

/-- No task inside, and no call has returned. -/
structure Start (s : State T) : Prop where
  stack : ∀ t, s.stack t = []
  ok : Ok s.kern
  created : s.kern.created = []
  removed : s.kern.removed = []

omit [DecidableEq T] in
theorem Start.base (h : Start s) : Base s := by
  refine ⟨h.ok, fun t => .inl (h.stack t), fun t f ht => ?_, fun t u f g z _ ht => ?_⟩ <;>
    rw [h.stack t] at ht <;> cases ht

/-- The name a task is creating. -/
def Frame.creates (f : Frame) : Option Name := f.window.map Prod.fst

/-- A creation that starts to look for its name is the only one of that name. -/
def oneCreator [Fintype T] (s : State T) : Act T Call Event → Bool
  | .run t => (s.stack t).all fun f => f.starts.all fun n =>
      decide (∀ u, u ≠ t → (s.stack u).all fun g => g.creates != some n)
  | .call _ _ | .irq _ => true

structure Creating (s : State T) : Prop where
  base : Base s
  unseen : ∀ t f, s.stack t = [f] → Unseen s.kern f
  names : ∀ t u f g n, t ≠ u → s.stack t = [f] → s.stack u = [g] → f.creates = some n → g.creates ≠ some n
  unique : Unique s.kern
  entered : s.kern.removed = [] → s.kern.created.Nodup ∧
    ∀ n ∈ s.kern.created, ∃ p de, s.kern.live p = some de ∧ n.matchEntry de = true

theorem Frame.creates_eq_some {f : Frame} {n : Name} :
    f.creates = some n ↔ ∃ lo hi, f.window = some (n, lo, hi) := by
  unfold Frame.creates
  constructor
  · intro h
    obtain ⟨⟨m, lo, hi⟩, hw, rfl⟩ := Option.map_eq_some_iff.1 h
    exact ⟨lo, hi, hw⟩
  · intro ⟨lo, hi, hw⟩
    rw [hw]
    rfl

/-- Another creation, of another name, after a change. -/
theorem Change.unseen {k k' : Kern} {f g : Frame} (h : Change k f k') (hg : Unseen k g)
    (hne : ∀ n, f.creates = some n → g.creates ≠ some n) : Unseen k' g := by
  intro n lo hi hw p de hp hde
  cases h with
  | same hl hc hr =>
    rw [hl] at hp
    exact hg n lo hi hw p de hp hde
  | entered m nr j hf hnr hj hl hc hr =>
    rw [hl] at hp
    split at hp
    · cases hp
      have e := (Name.matchEntry_stored n m hnr).1 hde
      exact absurd (Frame.creates_eq_some.2 ⟨lo, hi, hw⟩) (hne n (Frame.creates_eq_some.2 ⟨0, 0, e ▸ hf⟩))
    · exact hg n lo hi hw p de hp hde
  | cleared m nr j hf hl hc hr =>
    rw [hl] at hp
    split at hp
    · cases hp
    · exact hg n lo hi hw p de hp hde

/-- The entry of a creation that saw no other. -/
theorem Unseen.stored {k : Kern} {f : Frame} {n : Name} (h : Unseen k f) (hw : f.window = some (n, 0, 0)) {p : Nat}
    {de : DirEntry} (hp : k.live p = some de) : n.matchEntry de ≠ true := fun hm =>
  absurd (h n 0 0 hw p de hp hm).2 (Nat.not_lt_zero p)

theorem Change.unique {k k' : Kern} {f : Frame} (h : Change k f k') (hf : Unseen k f) (hu : Unique k) :
    Unique k' := by
  intro p q de de' hp hq he
  cases h with
  | same hl hc hr =>
    rw [hl] at hp hq
    exact hu p q de de' hp hq he
  | entered m nr j hw hnr hj hl hc hr =>
    -- an entry that has the stored name is matched by it
    have hno : ∀ r d, k.live r = some d → d.name ≠ m.stored := by
      intro r d hr' hd
      refine hf.stored hw hr' ?_
      have hin := (Kern.live_eq_some.1 hr').2.2.1
      obtain ⟨i, nm⟩ := d
      cases hd
      exact (Name.matchEntry_stored m m hin).2 rfl
    rw [hl] at hp hq
    split at hp <;> split at hq
    · rename_i h1 h2
      rw [h1, h2]
    · cases hp
      exact absurd he.symm (hno q de' hq)
    · cases hq
      exact absurd he (hno p de hp)
    · exact hu p q de de' hp hq he
  | cleared m nr j hw hl hc hr =>
    rw [hl] at hp hq
    split at hp
    · cases hp
    · split at hq
      · cases hq
      · exact hu p q de de' hp hq he

theorem Change.entered_once {k k' : Kern} {f : Frame} (h : Change k f k') (hf : Unseen k f)
    (hc : k.removed = [] → k.created.Nodup ∧ ∀ n ∈ k.created, ∃ p de, k.live p = some de ∧ n.matchEntry de = true)
    (hr' : k'.removed = []) :
    k'.created.Nodup ∧ ∀ n ∈ k'.created, ∃ p de, k'.live p = some de ∧ n.matchEntry de = true := by
  cases h with
  | same hl hc' hr =>
    obtain ⟨hnd, hin⟩ := hc (hr ▸ hr')
    rw [hc']
    refine ⟨hnd, fun n hn => ?_⟩
    obtain ⟨p, de, hp, hm⟩ := hin n hn
    exact ⟨p, de, (hl p).trans hp, hm⟩
  | entered m nr j hw hnr hj hl hc' hr =>
    obtain ⟨hnd, hin⟩ := hc (hr ▸ hr')
    rw [hc']
    refine ⟨List.nodup_cons.2 ⟨fun hm => ?_, hnd⟩, fun n hn => ?_⟩
    · obtain ⟨p, de, hp, hde⟩ := hin m hm
      exact hf.stored hw hp hde
    · rcases List.mem_cons.1 hn with rfl | hn
      · exact ⟨j, ⟨nr, n.stored⟩, by rw [hl, if_pos rfl], (Name.matchEntry_stored n n hnr).2 rfl⟩
      · obtain ⟨p, de, hp, hde⟩ := hin n hn
        refine ⟨p, de, ?_, hde⟩
        rw [hl, if_neg]
        · exact hp
        · intro e
          rw [e, hj] at hp
          cases hp
  | cleared m nr j hw hl hc' hr =>
    rw [hr] at hr'
    cases hr'

theorem Creating.step [Fintype T] {a : Act T Call Event} (hs : Creating s) (hone : oneCreator s a = true)
    (h : Moves s a s') : Creating s' := by
  have hbase := hs.base.step h
  cases h with
  | @turn t f k' fs hst ht hg =>
    have hf := hs.unseen t f hst
    -- the name of the next frame is the task's own, or no other task has it
    have hnew : ∀ u g g' n, u ≠ t → fs = [g] → s.stack u = [g'] → g.creates = some n → g'.creates ≠ some n := by
      intro u g g' n hu hfs hg' hc hc'
      obtain ⟨lo, hi, hw⟩ := Frame.creates_eq_some.1 hc
      rcases (hfs ▸ hg).nextOk.name n lo hi hw with hw' | hstart
      · exact hs.names t u f g' n hu.symm hst hg' (Frame.creates_eq_some.2 hw') hc'
      · simp only [oneCreator, hst, List.all_cons, List.all_nil, Bool.and_true, hstart, Option.all_some,
          decide_eq_true_eq] at hone
        have := hone u hu
        simp [hg', hc'] at this
    refine ⟨hbase, fun u g hu => ?_, fun u v g g' n hne hu hv hc => ?_, hg.change.unique hf hs.unique,
      hg.change.entered_once hf hs.entered⟩
    · rcases put_stack_eq hu with ⟨-, hfs⟩ | ⟨hut, hu⟩
      · exact (hfs ▸ hg).nextOk.unseen hf
      · exact hg.change.unseen (hs.unseen u g hu) fun n hn => hs.names t u f g n hut.symm hst hu hn
    · rcases put_stack_eq hu with ⟨hut, hfs⟩ | ⟨hut, hu⟩ <;> rcases put_stack_eq hv with ⟨hvt, hfs'⟩ | ⟨hvt, hv⟩
      · exact absurd (hut.trans hvt.symm) hne
      · exact hnew v g g' n hvt hfs hv hc
      · intro hc'
        exact hnew u g' g n hut hfs' hu hc' hc
      · exact hs.names u v g g' n hne hu hv hc
  | @call t c hst hc =>
    refine ⟨hbase, fun u g hu => ?_, fun u v g g' n hne hu hv hn => ?_, hs.unique, hs.entered⟩
    · rcases put_stack_eq hu with ⟨-, hfs⟩ | ⟨-, hu⟩
      · cases hfs
        intro n lo hi hw
        cases hw
      · exact hs.unseen u g hu
    · rcases put_stack_eq hu with ⟨-, hfs⟩ | ⟨-, hu⟩
      · cases hfs
        cases hn
      · rcases put_stack_eq hv with ⟨-, hfs⟩ | ⟨-, hv⟩
        · cases hfs
          exact fun hz' => by cases hz'
        · exact hs.names u v g g' n hne hu hv hn
  | irq hq =>
    have hg : Good s.kern (.linked 0) _ [] := hq.good _
    have hf : Unseen s.kern (.linked 0) := fun n lo hi hw => by cases hw
    exact ⟨hbase, fun u g hu => hq.unseen (hs.unseen u g hu), hs.names, hg.change.unique hf hs.unique,
      hg.change.entered_once hf hs.entered⟩

omit [DecidableEq T] in
theorem Start.creating (h : Start s) (hu : Unique s.kern) : Creating s := by
  refine ⟨h.base, fun t f ht => ?_, fun t u f g n _ ht => ?_, hu, fun _ => ?_⟩
  · rw [h.stack t] at ht
    cases ht
  · rw [h.stack t] at ht
    cases ht
  · rw [h.created]
    exact ⟨List.nodup_nil, fun n hn => by cases hn⟩

theorem letter_short (c : Nat) : [c].length ≤ nameLen := by simp [nameLen]

theorem letter_nonzero {c : Nat} (h : c ≠ 0) : 0 ∉ [c] := by simpa using h.symm

/-- A name of one letter. -/
def letter (c : Nat) (h : c ≠ 0) : Name := ⟨[c], List.cons_ne_nil _ _, letter_short c, letter_nonzero h⟩

/-- A directory with `.`, `..` and the file `a`, whose inode 5 has two links. -/
def smallDir : Kern :=
  { sb := { ninodes := 96, nzones := 360, imapBlocks := 1, zmapBlocks := 1, firstdatazone := 7, dev := 0x301,
            imount := none, isup := none }
    num := 1
    mode := 0o40755
    uid := 0
    size := 48
    zone := fun b => if b = 0 then 1 else 0
    entry := fun _ w =>
      if w = 0 then { inode := 1, name := 46 :: List.replicate 13 0 }
      else if w = 1 then { inode := 1, name := 46 :: 46 :: List.replicate 12 0 }
      else if w = 2 then { inode := 5, name := 97 :: List.replicate 13 0 }
      else .free
    fresh := 2
    room := 8
    imap := fun j => j ≤ 5
    inode := fun nr =>
      { mode := if nr = 1 then 0o40755 else 0o100644, uid := 0, count := 0, nlinks := 2, mount := false, empty := false }
    created := []
    removed := [] }

/-- No task inside. -/
def idle (T : Type*) (k : Kern) : State T := { kern := k, stack := fun _ => [], acc := fun _ => () }

theorem smallDir_zone {b : Nat} (h : smallDir.zone b ≠ 0) : b = 0 := by
  by_contra hb
  exact h (if_neg hb)

theorem smallDir_start (T : Type*) : Start (idle T smallDir) where
  stack _ := rfl
  ok :=
    { size := ⟨3, rfl⟩
      blocks := fun b hb => by
        have hb : 1024 * b < 48 := hb
        obtain rfl : b = 0 := by omega
        exact Nat.one_ne_zero
      inj := fun b b' hb he => (smallDir_zone hb).trans (smallDir_zone (he ▸ hb)).symm
      fresh := fun b => by
        simp only [idle, smallDir]
        split <;> decide
      reserved := rfl }
  created := rfl
  removed := rfl

theorem smallDir_unique : Unique smallDir := by
  have hall : ∀ p < 3, ∀ q < 3, (smallDir.entry 1 (place p)).name = (smallDir.entry 1 (place q)).name → p = q := by
    decide
  intro p q de de' hp hq he
  obtain ⟨hp3, -, -, rfl⟩ := Kern.live_eq_some.1 hp
  obtain ⟨hq3, -, -, rfl⟩ := Kern.live_eq_some.1 hq
  have hp3 : 16 * p < 48 := hp3
  have hq3 : 16 * q < 48 := hq3
  have hb : block p = 0 ∧ block q = 0 := by
    simp only [block, dirEntriesPerBlock]
    omega
  rw [hb.1, hb.2] at he
  exact hall p (by omega) q (by omega) he

/-- The turn of a removal that clears its entry. -/
def Frame.removes (k : Kern) : Frame → Bool
  | .iget (.unlink _ euid) nr _ _ => mayUnlink k euid nr
  | .emptyDir _ nr _ _ => (k.inode nr).empty
  | _ => false

/-- The entry a removal has found. -/
def Frame.holds (f : Frame) : Option Nat := f.target.map fun r => r.2.2

/-- A removal that clears its entry is the only one that has found it. -/
def oneRemover [Fintype T] (s : State T) : Act T Call Event → Bool
  | .run t => (s.stack t).all fun f => !f.removes s.kern || f.holds.all fun p =>
      decide (∀ u, u ≠ t → (s.stack u).all fun g => g.holds != some p)
  | .call _ _ | .irq _ => true

structure Removing (s : State T) : Prop where
  base : Base s
  target : ∀ t f n nr p, s.stack t = [f] → f.target = some (n, nr, p) →
    ∃ de, s.kern.live p = some de ∧ de.inode = nr ∧ n.matchEntry de = true
  log : ∀ r ∈ s.kern.removed, ∃ de, r.old = some de ∧ de.inode = r.ino ∧ r.name.matchEntry de = true

theorem removes_of_turn {k k' : Kern} {f : Frame} {fs : List Frame} {r : Name × Nat × Nat} (hf : f.target = some r)
    (h : turn f () k = .goes k' fs ()) (hne : k'.removed ≠ k.removed) : f.removes k = true := by
  cases f with
  | iget c nr p z =>
    cases c with
    | create kind n => cases hf
    | unlink n euid =>
      simp only [turn] at h
      split at h
      · assumption
      · cases h
        exact absurd rfl hne
    | rmdir n euid =>
      simp only [turn] at h
      split at h <;> cases h <;> exact absurd rfl hne
  | emptyDir n nr p z =>
    simp only [turn] at h
    split at h
    · assumption
    · cases h
      exact absurd rfl hne
  | start | findMap | find | newInode | newBlock | newDir | addMap | addBlock | add | linked => cases hf

/-- An entry that stays, or is cleared by the removal that found it. -/
theorem Change.kept {k k' : Kern} {f : Frame} (h : Change k f k') {p : Nat} {de : DirEntry} (hp : k.live p = some de) :
    k'.live p = some de ∨ ∃ n nr, f.target = some (n, nr, p) ∧ k'.live p = none ∧
      k'.removed = ⟨n, nr, p, some de⟩ :: k.removed := by
  cases h with
  | same hl hc hr => exact .inl ((hl p).trans hp)
  | entered n nr j hw hnr hj hl hc hr =>
    rw [hl, if_neg]
    · exact .inl hp
    · intro e
      rw [e, hj] at hp
      cases hp
  | cleared n nr j ht hl hc hr =>
    by_cases hj : p = j
    · subst hj
      rw [hl, if_pos rfl]
      exact .inr ⟨n, nr, ht, rfl, hp ▸ hr⟩
    · rw [hl, if_neg hj]
      exact .inl hp

theorem Removing.step [Fintype T] {a : Act T Call Event} (hs : Removing s) (hone : oneRemover s a = true)
    (h : Moves s a s') : Removing s' := by
  have hbase := hs.base.step h
  cases h with
  | @turn t f k' fs hst ht hg =>
    -- another removal's entry stays: the removal that clears is alone with it
    have hother : ∀ u g n nr p de, u ≠ t → s.stack u = [g] → g.target = some (n, nr, p) → s.kern.live p = some de →
        k'.live p = some de := by
      intro u g n nr p de hu hg' htg hp
      rcases hg.change.kept hp with hkept | ⟨m, nr', hf, -, hrm⟩
      · exact hkept
      · have hrem : f.removes s.kern = true := removes_of_turn hf ht (by rw [hrm]; simp)
        simp only [oneRemover, hst, List.all_cons, List.all_nil, Bool.and_true, hrem, Bool.not_true, Bool.false_or,
          Frame.holds, hf, Option.map_some, Option.all_some] at hone
        have := of_decide_eq_true hone u hu
        simp [hg', htg] at this
    refine ⟨hbase, fun u g n nr p hu htg => ?_, ?_⟩
    · rcases put_stack_eq hu with ⟨-, hfs⟩ | ⟨hut, hu⟩
      · rcases (hfs ▸ hg).nextOk.target n nr p htg with ⟨hf, hl⟩ | hok
        · rw [Sys.put_kern, hl]
          exact hs.target t f n nr p hst hf
        · exact hok
      · obtain ⟨de, hp, hde⟩ := hs.target u g n nr p hu htg
        exact ⟨de, hother u g n nr p de hut hu htg hp, hde⟩
    · intro r hr
      rw [Sys.put_kern] at hr
      cases hg.change with
      | same hl hc hrm => exact hs.log r (hrm ▸ hr)
      | entered n nr j hw hnr hj hl hc hrm => exact hs.log r (hrm ▸ hr)
      | cleared n nr j hf hl hc hrm =>
        rw [hrm] at hr
        rcases List.mem_cons.1 hr with rfl | hr
        · exact hs.target t f n nr j hst hf
        · exact hs.log r hr
  | @call t c hst hc =>
    refine ⟨hbase, fun u g n nr p hu htg => ?_, hs.log⟩
    rcases put_stack_eq hu with ⟨-, hfs⟩ | ⟨-, hu⟩
    · cases hfs
      cases htg
    · exact hs.target u g n nr p hu htg
  | irq hq =>
    refine ⟨hbase, fun u g n nr p hu htg => ?_, fun r hr => hs.log r (hq.removed ▸ hr)⟩
    obtain ⟨de, hp, hde⟩ := hs.target u g n nr p hu htg
    exact ⟨de, (hq.live p).trans hp, hde⟩

omit [DecidableEq T] in
theorem Start.removing (h : Start s) : Removing s := by
  refine ⟨h.base, fun t f n nr p ht => ?_, fun r hr => ?_⟩
  · rw [h.stack t] at ht
    cases ht
  · rw [h.removed] at hr
    cases hr

/-- What one step takes out of the directory. -/
theorem Removing.cleared {a : Act T Call Event} (hs : Removing s) (h : Moves s a s') {p : Nat} {de : DirEntry}
    (hp : s.kern.live p = some de) : s'.kern.live p = some de ∨ (s'.kern.live p = none ∧
      ∃ n, n.matchEntry de = true ∧ s'.kern.removed = ⟨n, de.inode, p, some de⟩ :: s.kern.removed) := by
  cases h with
  | @turn t f k' fs hst ht hg =>
    rcases hg.change.kept hp with hkept | ⟨n, nr, hf, hl, hrm⟩
    · exact .inl hkept
    · obtain ⟨de', hp', hin, hm⟩ := hs.target t f n nr p hst hf
      rw [hp] at hp'
      cases hp'
      exact .inr ⟨hl, n, hm, hin ▸ hrm⟩
  | call hst hc => exact .inl hp
  | irq hq => exact .inl ((hq.live p).trans hp)

end Linux011.Fs.Directory
