/-
The strings of the new program, up to the point of no return.

For a script they are the name of the interpreter, its argument if there is one, the name of the script, and
the arguments of the call without the first (`newArgs`). When they have been copied,
the last four bytes of `page[]` are left, and the strings are right below them.
-/
import Linux011.Fs.ExecFail
import Mathlib.Data.Finset.Card
import Mathlib.Data.List.TakeWhile
import Mathlib.Order.Interval.Finset.Nat

namespace Linux011.Fs.Execve

open Bytes Relation
open Prog (Ends)

variable {w : World} {s s' t : State} {fs : Seg} {E : Stop → Prop} {u : Memory} {a : Nat}

/-! ## What is read -/

/-- A vector of strings, as a system call gets it. -/
def Argv (u : Memory) (a : Nat) (xs : List (List UInt8)) : Prop := a = 0 ∧ xs = [] ∨ a ≠ 0 ∧ Vec u a xs

theorem countFrom_ends {xs : List (List UInt8)} {n : Nat} {Q : Nat → State → Prop} (hg : Good w s) (hk : Knows E w s s.fs u)
    (hx : Vec u a xs) (hn : xs.length < n) (hQ : ∀ s', Reads w s s' → Q xs.length s') : Ends (countFrom w n a) E Q s := by
  induction xs generalizing s a n Q with
  | nil =>
    cases n with
    | zero => exact absurd hn (Nat.not_lt_zero _)
    | succ n =>
      refine Ends.bind (getFsLong_ends hg hk hx.null (by decide) fun s₁ hr₁ => ?_)
      exact Ends.ite (fun _ => Ends.pure (hQ s₁ hr₁)) fun h => absurd rfl h
  | cons x xs ih =>
    cases n with
    | zero => exact absurd hn (Nat.not_lt_zero _)
    | succ n =>
      obtain ⟨q, hq, hlt, hp⟩ := hx.head
      refine Ends.bind (getFsLong_ends hg hk hp hlt fun s₁ hr₁ => Ends.ite (fun h => absurd h hq) fun _ => Ends.bind ?_)
      refine ih (hr₁.good hg) (hk.reads hr₁) hx.tail (Nat.lt_of_succ_lt_succ hn) fun s₂ hr₂ => Ends.pure ?_
      exact hQ s₂ (hr₁.trans hr₂)

/-- **`count`**. -/
theorem count_ends {xs : List (List UInt8)} {Q : Nat → State → Prop} (hg : Good w s) (hk : Knows E w s s.fs u) (hu : Within u)
    (hx : Argv u a xs) (hQ : ∀ s', Reads w s s' → Q xs.length s') : Ends (count w a) E Q s := by
  refine Ends.ite (fun h0 => Ends.pure ?_) fun h0 => ?_
  · rcases hx with ⟨-, rfl⟩ | ⟨hne, -⟩
    · exact hQ s (.refl hg)
    · exact absurd h0 hne
  · rcases hx with ⟨h, -⟩ | ⟨-, hv⟩
    · exact absurd h h0
    · have := hu _ _ hv.null.1
      exact countFrom_ends hg hk hv (by omega) hQ

/-- What `namei` comes to, with the bytes `l` read and the others to come. -/
def World.find (w : World) : List UInt8 → List UInt8 → Option Nat
  | _, [] => none
  | l, b :: r =>
    match w.walk (l ++ [b]) with
    | none => w.find (l ++ [b]) r
    | some i => i

/-- The inode with a name. -/
def World.lookup (w : World) (f : List UInt8) : Option Nat := w.find [] (f ++ [0])

theorem nameFrom_ends {f l : List UInt8} {n : Nat} {Q : Option Nat → State → Prop} (hg : Good w s) (hk : Knows E w s s.fs u)
    (hf : Spells u a (f ++ [0])) (hn : f.length < n) (hQ : ∀ s', Reads w s s' → Q (w.find l (f ++ [0])) s') :
    Ends (nameFrom w n l a) E Q s := by
  induction f generalizing s l n a with
  | nil =>
    cases n with
    | zero => exact absurd hn (Nat.not_lt_zero _)
    | succ n =>
      refine Ends.bind (getFsByte_ends hg hk hf.1 fun s₁ hr₁ => ?_)
      rw [List.nil_append, World.find] at hQ
      split
      · rename_i h
        exact absurd h (w.walk_end l)
      · rename_i r h
        rw [h] at hQ
        exact Ends.pure (hQ s₁ hr₁)
  | cons b f ih =>
    cases n with
    | zero => exact absurd hn (Nat.not_lt_zero _)
    | succ n =>
      refine Ends.bind (getFsByte_ends hg hk hf.1 fun s₁ hr₁ => ?_)
      rw [List.cons_append, World.find] at hQ
      split
      · rename_i h
        rw [h] at hQ
        exact ih (hr₁.good hg) (hk.reads hr₁) hf.2 (Nat.lt_of_succ_lt_succ hn) fun s₂ hr₂ => hQ s₂ (hr₁.trans hr₂)
      · rename_i r h
        rw [h] at hQ
        exact Ends.pure (hQ s₁ hr₁)

/-- **`namei`**, of a name that is known. -/
theorem namei_ends {f : List UInt8} {Q : Option Nat → State → Prop} (hg : Good w t) (h : Copies w t fs s) (hk : Knows E w t fs u)
    (hu : Within u) (hf : Spells u a (f ++ [0])) (hnone : w.lookup f = none → ∀ s', Copies w t fs s' → Q none s')
    (hsome : ∀ ino s', w.lookup f = some ino → Copies w (t.hold ino) fs s' → argBytes s'.mm = argBytes s.mm → Q (some ino) s') :
    Ends (namei w a) E Q s := by
  have hlen := hu.length_lt hf
  refine Ends.bind (nameFrom_ends (h.good hg) (h.fs_eq ▸ hk.copies h) hf (by omega) fun s₁ h₁ => ?_)
  have h' := h.reads h₁
  rw [← World.lookup]
  cases hl : w.lookup f with
  | none => exact Ends.pure (hnone hl s₁ h')
  | some ino =>
    refine Ends.bind (Ends.modify (Ends.pure (hsome ino _ hl ⟨?_, h'.quiet⟩ h₁.faulted.bytes)))
    rw [h'.iCount, h'.same]
    rfl

section CallerMemory

variable {tk : Task} {m : Space}

/-! ## The caller's memory -/

/-- The bytes of the pages that are mapped. -/
def pages (m : Space) : Memory := fun a => (m.pte (a / 4096)).map fun e => m.frame e.frame (a % 4096)

/-- The bytes of the task that are in memory. -/
def resident (tk : Task) (m : Space) : Memory := fun a => if tk.limit ≤ a then none else pages m a

theorem within_view (h : tk.Ok) : Within (view w tk m) := fun a b hv => by
  have hlimit := h.limit
  unfold view at hv
  split at hv
  · cases hv
  · rw [space]
    omega

theorem within_resident (h : tk.Ok) : Within (resident tk m) := fun a b hv => by
  have hlimit := h.limit
  unfold resident at hv
  split at hv
  · cases hv
  · rw [space]
    omega

theorem knows_view (s : State) (hoom : E .oom) : Knows E w s .user (view w s.task s.mm) :=
  fun _ _ hv => ⟨hv, fun _ _ => hoom⟩

/-- What is in memory is read without a page fault. -/
theorem knows_resident (s : State) : Knows E w s .user (resident s.task s.mm) := fun a b hv => by
  unfold resident at hv
  split at hv
  · cases hv
  · rename_i hlt
    obtain ⟨e, he, rfl⟩ := Option.map_eq_some_iff.1 hv
    refine ⟨?_, fun _ hnone => nomatch he.symm.trans hnone⟩
    rw [mem, view, if_neg hlt, pageByte, he]

end CallerMemory

/-! ## The variables of the call -/

/-- The kernel's memory. -/
def kernelView (k : Nat → UInt8) : Memory := fun a => if a < space then some (k a) else none

variable {k : Nat → UInt8} {l l' : List UInt8} {b : Nat → UInt8} {sc : Script}

theorem within_kernelView : Within (kernelView k) := fun a b h => by
  by_contra ha
  rw [kernelView, if_neg ha] at h
  cases h

theorem knows_kernelView (t : State) : Knows E w t .kernel (kernelView t.kmem) := fun a b h => by
  have ha := within_kernelView a b h
  rw [kernelView, if_pos ha] at h
  exact ⟨h, fun h => nomatch h⟩

theorem spells_putBytes (h : a + l.length ≤ space) : Spells (kernelView (putBytes k a l)) a l := by
  refine spells_iff.2 fun i hi => ?_
  rw [kernelView, if_pos (by omega), putBytes, if_pos (by omega), Nat.add_sub_cancel_left, List.getD_eq_getElem _ _ hi]

theorem spells_putBytes_of_disjoint {a' : Nat} (h : Spells (kernelView k) a' l') (hd : a' + l'.length ≤ a ∨ a + l.length ≤ a') :
    Spells (kernelView (putBytes k a l)) a' l' := by
  refine spells_iff.2 fun i hi => ?_
  rw [← spells_iff.1 h i hi, kernelView, kernelView, putBytes, if_neg (c := a ≤ _ ∧ _) (by omega)]

theorem ne_zero_of_mem_scriptLine {c : UInt8} (h : c ∈ scriptLine b) : c ≠ 0 := by
  have hc := List.mem_takeWhile_imp (( List.takeWhile_prefix _).subset h)
  exact bne_iff_ne.1 hc

theorem length_takeWhile_lt {c : UInt8} {l : List UInt8} (h : c ∈ l) : (l.takeWhile (· != c)).length < l.length := by
  have hlen := congrArg List.length (List.takeWhile_append_dropWhile (p := (· != c)) (l := l))
  rw [List.length_append] at hlen
  have hne : l.dropWhile (· != c) ≠ [] := fun hd => by
    have := List.dropWhile_eq_nil_iff.1 hd c h
    exact bne_iff_ne.1 this rfl
  have := List.length_pos_iff.2 hne
  omega

/-- A line that has an end leaves room for it. -/
theorem scriptLine_length (h : (scriptText b).contains 10 = true) : (scriptLine b).length ≤ 1021 := by
  have htext : (scriptText b).length ≤ 1022 := by
    have := ( List.takeWhile_prefix (· != 0) (l := (List.range 1022).map fun k => b (k + 2))).length_le
    rwa [List.length_map, List.length_range] at this
  exact Nat.le_of_lt_succ (Nat.lt_of_lt_of_le (length_takeWhile_lt (List.contains_iff_mem.1 h)) htext)

/-- The parts of the line. -/
theorem parseLine_eq {line : List UInt8} (h : parseLine line = some sc) : ∃ r, line = sc.blanks ++ (sc.interp ++ r) ∧
    (r = [] ∧ sc.arg = none ∨ ∃ c arg, r = c :: arg ∧ sc.arg = some arg) := by
  unfold parseLine at h
  dsimp only at h
  split at h
  · cases h
  · cases h
    refine ⟨(line.dropWhile isBlank).dropWhile fun c => !isBlank c, ?_, ?_⟩
    · rw [List.takeWhile_append_dropWhile, List.takeWhile_append_dropWhile]
    · dsimp only
      split
      · exact .inl ⟨‹_›, rfl⟩
      · exact .inr ⟨_, _, ‹_›, rfl⟩

/-- What is known of a script. -/
structure Script.Ok (sc : Script) : Prop where
  interp : 0 ∉ sc.interp
  arg : ∀ arg, sc.arg = some arg → 0 ∉ arg
  length : sc.buf.length ≤ 1022

theorem parse_ok (h : parse b = some sc) : sc.Ok := by
  unfold parse at h
  split at h
  · cases h
  · rename_i hnl
    have hlen := scriptLine_length (Bool.of_not_eq_false hnl)
    have hzero (c : UInt8) (hc : c ∈ scriptLine b) : c ≠ 0 := ne_zero_of_mem_scriptLine hc
    obtain ⟨r, hline, hr⟩ := parseLine_eq h
    rw [hline] at hlen hzero
    refine ⟨fun h0 => hzero 0 (by simp [h0]) rfl, fun arg ha h0 => ?_, ?_⟩
    · rcases hr with ⟨-, hnone⟩ | ⟨c, arg', rfl, hsome⟩
      · cases ha.symm.trans hnone
      · cases ha.symm.trans hsome
        exact hzero 0 (by simp [h0]) rfl
    · rcases hr with ⟨rfl, hnone⟩ | ⟨c, arg', rfl, hsome⟩
      · simp only [Script.buf, hnone, List.length_append, List.length_singleton, List.length_nil] at hlen ⊢
        omega
      · simp only [Script.buf, hsome, List.length_append, List.length_cons, List.length_nil] at hlen ⊢
        omega

/-- The name of the interpreter is at the end of its path. -/
theorem Script.interp_eq (sc : Script) : ∃ d, sc.interp = d ++ sc.name ∧ d.length = sc.interp.length - sc.name.length := by
  have h : sc.interp = (sc.interp.reverse.dropWhile (· != 47)).reverse ++ sc.name := by
    rw [Script.name, ← List.reverse_append, List.takeWhile_append_dropWhile, List.reverse_reverse]
  refine ⟨_, h, ?_⟩
  have := congrArg List.length h
  rw [List.length_append] at this
  omega

theorem Script.Ok.name (h : sc.Ok) : 0 ∉ sc.name := by
  obtain ⟨d, hd, -⟩ := sc.interp_eq
  exact fun h0 => h.interp (hd ▸ List.mem_append_right d h0)

/-- The variables that `copy_strings` and `namei` read for a script. -/
structure Locals (w : World) (sc : Script) (filename : Nat) (u : Memory) : Prop where
  filename : Spells u w.filenameAt (le32 filename)
  argPtr : Spells u w.argAt (le32 (w.arg sc))
  namePtr : Spells u w.nameAt (le32 (w.name sc))
  interp : Spells u (w.interp sc) (sc.interp ++ [0])
  name : Spells u (w.name sc) (sc.name ++ [0])
  arg : ∀ arg, sc.arg = some arg → Spells u (w.arg sc) (arg ++ [0])

/-- The strings in `buf`. -/
theorem spells_buf (h : Spells u w.bufAt sc.buf) : Spells u (w.interp sc) (sc.interp ++ [0]) ∧ Spells u (w.name sc) (sc.name ++ [0]) ∧
    ∀ arg, sc.arg = some arg → Spells u (w.arg sc) (arg ++ [0]) := by
  rw [Script.buf, List.append_assoc, spells_append, spells_append] at h
  obtain ⟨-, hinterp, harg⟩ := h
  refine ⟨hinterp, ?_, fun arg ha => ?_⟩
  · obtain ⟨d, hd, hdlen⟩ := sc.interp_eq
    rw [hd, List.append_assoc, spells_append] at hinterp
    rw [World.name, ← hdlen]
    exact hinterp.2
  · rw [ha, List.length_append, List.length_singleton, ← Nat.add_assoc] at harg
    exact harg

theorem Script.Ok.locals (hsc : sc.Ok) (filename : Nat) :
    Locals w sc filename (kernelView (scriptLocals w sc (putBytes k w.filenameAt (le32 filename)))) := by
  have hlt := w.locals_lt
  have hlen := hsc.length
  have hspace : space = 4294967296 := rfl
  have hat : w.filenameAt = w.locals ∧ w.argAt = w.locals + 4 ∧ w.nameAt = w.locals + 8 ∧ w.bufAt = w.locals + 12 :=
    ⟨rfl, rfl, rfl, rfl⟩
  have h4 (v : Nat) : (le32 v).length = 4 := le32_length v
  unfold scriptLocals
  obtain ⟨hinterp, hname, harg⟩ := spells_buf (w := w) (spells_putBytes_of_disjoint (a := w.argAt) (l := le32 (w.arg sc))
    (spells_putBytes_of_disjoint (a := w.nameAt) (l := le32 (w.name sc))
      (spells_putBytes (a := w.bufAt) (l := sc.buf) (k := putBytes k w.filenameAt (le32 filename)) (by omega))
      (.inr (by rw [h4]; omega))) (.inr (by rw [h4]; omega)))
  refine ⟨?_, spells_putBytes (by rw [h4]; omega), ?_, hinterp, hname, harg⟩
  · refine spells_putBytes_of_disjoint (spells_putBytes_of_disjoint (spells_putBytes_of_disjoint (spells_putBytes ?_) ?_) ?_) ?_
    · rw [h4]
      omega
    · exact .inl (by rw [h4]; omega)
    · exact .inl (by rw [h4]; omega)
    · exact .inl (by rw [h4]; omega)
  · exact spells_putBytes_of_disjoint (spells_putBytes (by rw [h4]; omega)) (.inr (by rw [h4]; omega))

/-! ## The new program -/

/-- What the call has found when it copies the strings: a program with a header, or a script; `none` where it fails before that. -/
def found (w : World) (tk : Task) (f : List UInt8) : Option (Option Script) :=
  match w.lookup f with
  | none => none
  | some ino =>
    match examine w tk ino with
    | .error _ => none
    | .ok b =>
      if isScript b then (parse b).map some
      else if accepts w ino b then some none
      else none

/-- The inode that is executed in the end, and its first block. -/
def program (w : World) (tk : Task) (f : List UInt8) : Option (Nat × (Nat → UInt8)) :=
  match w.lookup f with
  | none => none
  | some ino =>
    match examine w tk ino with
    | .error _ => none
    | .ok b => some (ino, b)

/-- The arguments of the new program. -/
def newArgs (f : List UInt8) (xs : List (List UInt8)) : Option Script → List (List UInt8)
  | none => xs
  | some sc => sc.name :: (sc.arg.toList ++ f :: xs.tail)

/-- `argc` for them. -/
def newArgc (argc : Nat) : Option Script → Int
  | none => argc
  | some sc => (argc : Int) - 1 + 1 + (if sc.arg.isSome then 1 else 0) + 1

/-- The file that is executed in the end. -/
def newFile (f : List UInt8) : Option Script → List UInt8
  | none => f
  | some sc => sc.interp

/-- What the caller gives: the name, the arguments, and the environment. -/
structure Given (u : Memory) (c : Call) (f : List UInt8) (xs ys : List (List UInt8)) : Prop where
  name : 0 ∉ f
  filename : Spells u c.filename (f ++ [0])
  argv : Argv u c.argv xs
  envp : Argv u c.envp ys

/-- There was no page for the strings, or some of them take all of the pages. -/
def Short (w : World) (tk : Task) (m : Space) (zs : List (List UInt8)) : Prop :=
  (∃ m', Quiet w tk m m' ∧ Exhausted w m') ∨ ∃ zs', zs' <:+ zs ∧ (flat zs').length = argTop

/-- The program that is executed is the one in the file. -/
def Ready.Of (w : World) (tk : Task) (file : List UInt8) (r : Ready) : Prop :=
  ∃ b, program w tk file = some (r.ino, b) ∧ accepts w r.ino b = true ∧ r.ex = headerOf b

/-- What becomes of the strings `zs`. -/
def Copied (w : World) (tk : Task) (m : Space) (file : List UInt8) (zs : List (List UInt8)) (argc : Int) (envc : Nat)
    (r : Except Int Ready) (s' : State) : Prop :=
  match r with
  | .error e => argTop < (flat zs).length → e = enomem ∧ Short w tk m zs
  | .ok r => (r.argc = argc ∧ r.envc = envc ∧ r.Of w tk file) ∧
      r.p ≠ 0 ∧ r.p + (flat zs).length = argTop ∧ Spells (argBytes s'.mm) r.p (flat zs)

/-- The same for the whole call. -/
def Prepared (w : World) (tk : Task) (m : Space) (f : List UInt8) (xs ys : List (List UInt8)) (r : Except Int Ready) (s' : State) : Prop :=
  match found w tk f with
  | none => ∃ e, r = .error e
  | some k => Copied w tk m (newFile f k) (newArgs f xs k ++ ys) (newArgc xs.length k) ys.length r s'

section Prepare

variable {f : List UInt8} {xs ys zs : List (List UInt8)} {c : Call} {ino p envc : Nat} {argc : Int} {Q : Except Int Ready → State → Prop}

theorem Argv.strings (h : Argv u a xs) : Strings u u a xs := by
  rcases h with ⟨-, rfl⟩ | ⟨-, h⟩
  · exact fun i hi => absurd hi (Nat.not_lt_zero i)
  · exact h.strings

theorem Argv.ne_null (h : Argv u a xs) : ¬∃ i < xs.length, Spells u (a + 4 * i) (le32 0) := by
  intro hex
  obtain ⟨i, hi, h0⟩ := hex
  rcases h with ⟨-, rfl⟩ | ⟨-, h⟩
  · exact Nat.not_lt_zero i hi
  · exact h.ne_null i hi h0

/-- The arguments behind the first. -/
theorem Argv.tail (h : Argv u a xs) : Strings u u (a + 4) xs.tail ∧ ¬∃ i < xs.tail.length, Spells u (a + 4 + 4 * i) (le32 0) := by
  cases xs with
  | nil => exact ⟨fun i hi => absurd hi (Nat.not_lt_zero i), fun hex => by
      obtain ⟨i, hi, -⟩ := hex
      exact Nat.not_lt_zero i hi⟩
  | cons x xs =>
    rcases h with ⟨-, h⟩ | ⟨-, h⟩
    · cases h
    · refine ⟨h.tail.strings, fun hex => ?_⟩
      obtain ⟨i, hi, h0⟩ := hex
      exact h.tail.ne_null i hi h0

/-- One string, and a variable that points to it. -/
theorem strings_singleton {u' : Memory} {x : List UInt8} {q : Nat} (hx : 0 ∉ x) (hp : Spells u a (le32 q)) (hs : Spells u' q (x ++ [0]))
    (hu' : Within u') : Strings u u' a [x] := by
  intro i hi
  cases Nat.lt_one_iff.1 hi
  have := hu'.length_lt hs
  exact ⟨hx, q, Nat.lt_of_le_of_lt (Nat.le_add_right _ _) this, hp, hs⟩

/-- The variable that points to it is null. -/
theorem eq_zero_of_null {x : List UInt8} {q : Nat} (hp : Spells u a (le32 q)) (hq : q < space)
    (h : ∃ i < [x].length, Spells u (a + 4 * i) (le32 0)) : q = 0 := by
  obtain ⟨i, hi, h0⟩ := h
  cases Nat.lt_one_iff.1 hi
  exact hp.long_inj h0 hq (by decide)

/-- A call of `copy_strings` since `t`. -/
theorem copyStrings_known {u' : Memory} {argv fromKmem : Nat} {Q : Nat → State → Prop} (hg : Good w t) (h : Copies w t fs s)
    (ht : Knows E w t (tableSeg fromKmem fs) u) (hs : Knows E w t (stringSeg fromKmem fs) u') (hu' : Within u')
    (hn : xs.length = argc.toNat) (hx : Strings u u' argv xs)
    (hnull : (∃ i < xs.length, Spells u (argv + 4 * i) (le32 0)) → E (.panic "argc is wrong")) (ho : Outcome w s.mm p zs)
    (hindex : (flat (xs ++ zs)).length ≤ argTop ∨ ∀ m', Quiet w t.task t.mm m' → Full m' → E (.index 1048575))
    (hQ : ∀ p' s', Copies w t fs s' → Outcome w s'.mm p' (xs ++ zs) → Q p' s') :
    Ends (copyStrings w argc argv p fromKmem) E Q s := by
  refine copyStrings_ends (h.good hg) (h.fs_eq ▸ ht.copies h) (h.fs_eq ▸ hs.copies h) hu' hn hx hnull ho ?_ fun p' s' h' ho' =>
    hQ p' s' (h.trans (h.fs_eq ▸ h')) ho'
  exact hindex.imp_right fun hfull m' hq => hfull m' (h.quiet.trans (h.task ▸ hq))

/-- Not all of the strings fit if some of them do not. -/
theorem fits_suffix (h : (flat zs).length ≤ argTop) {zs' : List (List UInt8)} (hs : zs' <:+ zs) : (flat zs').length ≤ argTop := by
  obtain ⟨r, rfl⟩ := hs
  rw [flat_append, List.length_append] at h
  omega

theorem Outcome.short {m m' : Space} {tk : Task} (h : Outcome w m' 0 zs) (hq : Quiet w tk m m') (hlen : argTop < (flat zs).length) :
    Short w tk m zs := by
  rcases h with ⟨hz, -⟩ | ⟨-, he | hs⟩
  · omega
  · exact .inl ⟨m', hq, he⟩
  · exact .inr hs

theorem Outcome.fits {m : Space} (h : Outcome w m p zs) (hp : p ≠ 0) :
    p + (flat zs).length = argTop ∧ Spells (argBytes m) p (flat zs) := by
  rcases h with h | ⟨h0, -⟩
  · exact h
  · exact absurd h0 hp

theorem execError2_ends {e : Int} (hg : Good w t) (h : Copies w (t.hold ino) fs s) (hQ : ∀ s', Q (.error e) s') :
    Ends (execError2 w ino e) E Q s :=
  Ends.bind (iput_ends h fun _ h₁ _ => execError1_ends (h₁.good hg) fun _ _ _ => hQ _)

/-- A program with a header. -/
theorem binary_ends {b : Nat → UInt8} {copy : M Nat} (hg : Good w t) (h : Copies w ((t.hold ino).holdBlock w ino) fs s)
    (hrej : accepts w ino b = false → ∀ s', Q (.error enoexec) s')
    (hcopy : accepts w ino b = true → ∀ s₁, Copies w (t.hold ino) fs s₁ → s₁.mm = s.mm → Ends copy E (fun p s₂ =>
      Copies w (t.hold ino) fs s₂ ∧ (p = 0 → ∀ s', Q (.error enomem) s') ∧
        (p ≠ 0 → ∀ r : Ready, r.p = p → r.argc = argc → r.envc = envc → r.ino = ino → r.ex = headerOf b → Q (.ok r) s₂)) s₁) :
    Ends (binary w ino b copy argc envc) E Q s := by
  refine Ends.bind (brelse_ends h fun s₁ h₁ hm₁ => Ends.ite (fun hacc => execError2_ends hg h₁ (hrej hacc)) fun hacc => ?_)
  refine Ends.seq (hcopy (Bool.of_not_eq_false hacc) s₁ h₁ hm₁) fun p s₂ h₂ => ?_
  obtain ⟨hc, h0, hok⟩ := h₂
  exact Ends.ite (fun hp => execError2_ends hg hc (h0 hp)) fun hp => Ends.bind (Ends.get (Ends.pure (hok hp _ rfl rfl rfl rfl rfl)))

/-- The interpreter of a script. -/
theorem interpreter_ends (hg : Good w t) (h : Copies w t fs s) (hk : Knows E w t .kernel u) (hu : Within u)
    (hi : Spells u (w.interp sc) (sc.interp ++ [0])) (hp : p ≠ 0) (herr : ∀ e s', Q (.error e) s')
    (hok : ∀ r s', r.p = p → r.argc = argc → r.envc = envc → r.Of w t.task sc.interp → argBytes s'.mm = argBytes s.mm → Q (.ok r) s') :
    Ends (interpreter w sc p argc envc) E Q s := by
  have hg₁ := h.good hg
  have h₁ : Copies w t .kernel { s with fs := .kernel } := h.trans (.setFs hg₁ _)
  refine Ends.bind (Ends.get (Ends.bind (setFs_ends (Ends.bind (namei_ends hg h₁ hk hu hi ?_ ?_)))))
  · intro _ s₂ h₂
    exact Ends.bind (setFs_ends (execError1_ends ⟨h₂.quiet.ok, h₂.task ▸ hg.task⟩ fun _ _ _ => herr _ _))
  · intro ino s₂ hl h₂ hb₂
    have h₃ := h₂.trans (.setFs (h₂.good (hg.hold ino)) s.fs)
    refine Ends.bind (setFs_ends (Ends.bind (firstBlock_ends h₃ (fun e _ => execError2_ends hg h₃ (herr e)) ?_)))
    intro b s₄ hex h₄ hm₄
    refine binary_ends hg h₄ (fun _ => herr _) fun hacc s₅ h₅ hm₅ =>
      Ends.pure ⟨h₅, fun h0 => absurd h0 hp, fun _ r hr₁ hr₂ hr₃ hino hr₄ => ?_⟩
    refine hok r s₅ hr₁ hr₂ hr₃ ⟨b, ?_, hino ▸ hacc, hr₄⟩ (by rw [hm₅, hm₄]; exact hb₂)
    simp only [program, hl, show examine w t.task ino = .ok b from hex, hino]

theorem copyArg_ends {Q : Nat → State → Prop} (hsc : sc.Ok) (hg : Good w t) (h : Copies w t fs s) (hk : Knows E w t .kernel u)
    (hu : Within u) (hl : Locals w sc c.filename u) (ho : Outcome w s.mm p zs)
    (hindex : (flat (sc.arg.toList ++ zs)).length ≤ argTop ∨ ∀ m', Quiet w t.task t.mm m' → Full m' → E (.index 1048575))
    (hQ : ∀ p' s', Copies w t fs s' → Outcome w s'.mm p' (sc.arg.toList ++ zs) → Q p' s') : Ends (copyArg w sc p) E Q s := by
  unfold copyArg
  cases harg : sc.arg with
  | none =>
    rw [harg] at hQ
    exact Ends.ite (fun h0 => nomatch h0) fun _ => Ends.pure (hQ p s h ho)
  | some arg =>
    rw [harg] at hQ hindex
    have hlt := hu.length_lt (hl.arg arg harg)
    refine Ends.ite (fun _ => ?_) fun h0 => absurd rfl h0
    refine copyStrings_known hg h hk hk hu rfl (strings_singleton (hsc.arg arg harg) hl.argPtr (hl.arg arg harg) hu) ?_ ho hindex hQ
    intro hnull
    have := eq_zero_of_null hl.argPtr (by omega) hnull
    rw [World.arg] at this
    omega

/-- **The strings of a script**. -/
theorem script_ends (hg : Start w s) (hsc : sc.Ok)
    (h : Copies w (s.begin (putBytes k w.filenameAt (le32 c.filename))) .user s') (hk : Knows E w (s.begin k) .user u) (hu : Within u)
    (hgiven : Given u c f xs ys) (hnull : c.filename = 0 → E (.panic "argc is wrong"))
    (hindex : (flat (newArgs f xs (some sc) ++ ys)).length ≤ argTop ∨
      ∀ m', Quiet w s.task (s.begin k).mm m' → Full m' → E (.index 1048575)) :
    Ends (script w c sc xs.length ys.length) E
      (Copied w s.task (s.begin k).mm sc.interp (newArgs f xs (some sc) ++ ys) (newArgc xs.length (some sc)) ys.length) s' := by
  have hk' := knows_kernelView (E := E) (w := w) (s.begin (scriptLocals w sc (putBytes k w.filenameAt (le32 c.filename))))
  have hl : Locals w sc c.filename _ := hsc.locals (k := k) c.filename
  have hg' := hg.begin (scriptLocals w sc (putBytes k w.filenameAt (le32 c.filename)))
  have h₀ : Copies w (s.begin (scriptLocals w sc (putBytes k w.filenameAt (le32 c.filename)))) .user
      { s' with kmem := scriptLocals w sc s'.kmem } := by
    refine ⟨?_, h.quiet⟩
    rw [h.same]
    rfl
  have hfn := hu.length_lt hgiven.filename
  have hname := within_kernelView.length_lt hl.name
  obtain ⟨htail, htail0⟩ := hgiven.argv.tail
  -- what is copied is the end of the list
  have hsuf (zs' : List (List UInt8)) (hs : zs' <:+ newArgs f xs (some sc) ++ ys) := hindex.imp_left fun hle => fits_suffix hle hs
  refine Ends.bind (Ends.modify (Ends.bind (copyStrings_known hg' h₀ hk hk hu (by simp) hgiven.envp.strings
    (fun h0 => absurd h0 hgiven.envp.ne_null) .start ?_ fun p₁ s₁ h₁ ho₁ => ?_)))
  · exact hsuf _ ⟨newArgs f xs (some sc), by simp⟩
  refine Ends.bind (copyStrings_known hg' h₁ hk hk hu (by simp) htail (fun h0 => absurd h0 htail0) ho₁ ?_ fun p₂ s₂ h₂ ho₂ => ?_)
  · exact hsuf _ ⟨sc.name :: (sc.arg.toList ++ [f]), by simp [newArgs]⟩
  refine Ends.bind (copyStrings_known hg' h₂ hk' hk hu (by simp) (strings_singleton hgiven.name hl.filename hgiven.filename hu)
    (fun h0 => hnull (eq_zero_of_null hl.filename (by omega) h0)) ho₂ ?_ fun p₃ s₃ h₃ ho₃ => ?_)
  · exact hsuf _ ⟨sc.name :: sc.arg.toList, by simp [newArgs]⟩
  refine Ends.bind (copyArg_ends hsc hg' h₃ hk' within_kernelView hl ho₃ ?_ fun p₄ s₄ h₄ ho₄ => ?_)
  · exact hsuf _ ⟨[sc.name], by simp [newArgs]⟩
  have hne : w.name sc ≠ 0 := by
    rw [World.name, World.interp, World.bufAt]
    omega
  refine Ends.bind (copyStrings_known hg' h₄ hk' hk' within_kernelView (by simp)
    (strings_singleton hsc.name hl.namePtr hl.name within_kernelView)
    (fun h0 => absurd (eq_zero_of_null hl.namePtr (by omega) h0) hne) ho₄ ?_ fun p₅ s₅ h₅ ho₅ => ?_)
  · exact hsuf _ ⟨[], by simp [newArgs]⟩
  have hall : [sc.name] ++ (sc.arg.toList ++ ([f] ++ (xs.tail ++ (ys ++ [])))) = newArgs f xs (some sc) ++ ys := by simp [newArgs]
  rw [hall] at ho₅
  refine Ends.ite (fun h0 => ?_) fun h0 => ?_
  · rw [h0] at ho₅
    exact execError1_ends (h₅.good hg') fun _ _ _ hlen => ⟨rfl, ho₅.short h₅.quiet hlen⟩
  · obtain ⟨hlen, hat⟩ := ho₅.fits h0
    refine interpreter_ends hg' h₅ hk' within_kernelView hl.interp h0 (fun e s' hlt => ?_) fun r s' hp hargc henvc hof hb => ?_
    · omega
    · refine ⟨⟨hargc, henvc, hof⟩, hp ▸ h0, hp ▸ hlen, ?_⟩
      rw [hp, hb]
      exact hat

/-- **Up to the point of no return**, with strings that can be read. -/
theorem prepare_ends (hg : Start w s) (hfs : s.fs = .user) (hk : Knows E w (s.begin s.kmem) .user u) (hu : Within u)
    (hgiven : Given u c f xs ys) (hnull : c.filename = 0 → E (.panic "argc is wrong"))
    (hindex : ∀ k, found w s.task f = some k → (flat (newArgs f xs k ++ ys)).length ≤ argTop ∨
      ∀ m', Quiet w s.task (s.begin s.kmem).mm m' → Full m' → E (.index 1048575)) :
    Ends (prepare w c) E (Prepared w s.task (s.begin s.kmem).mm f xs ys) s := by
  have hg' := hg.begin (putBytes s.kmem w.filenameAt (le32 c.filename))
  have h₀ : Copies w (s.begin (putBytes s.kmem w.filenameAt (le32 c.filename))) .user
      (s.begin (putBytes s.kmem w.filenameAt (le32 c.filename))) := by
    rw [← hfs]
    exact .refl hg'
  unfold Prepared
  refine Ends.bind (Ends.modify (Ends.bind (namei_ends hg' h₀ hk hu hgiven.filename ?_ ?_)))
  · intro hl s₁ _
    refine Ends.pure ?_
    rw [found, hl]
    exact ⟨_, rfl⟩
  · intro ino s₁ hl h₁ _
    have hg₁ := h₁.good (hg'.hold ino)
    have hk₁ : Knows E w ((s.begin (putBytes s.kmem w.filenameAt (le32 c.filename))).hold ino) .user u := hk
    refine Ends.bind (count_ends hg₁ (h₁.fs_eq ▸ hk₁.copies h₁) hu hgiven.argv fun s₂ hr₂ => ?_)
    have h₂ := h₁.reads hr₂
    refine Ends.bind (count_ends (hr₂.good hg₁) (h₂.fs_eq ▸ hk₁.copies h₂) hu hgiven.envp fun s₃ hr₃ => ?_)
    have h₃ := h₂.reads hr₃
    refine Ends.bind (firstBlock_ends h₃ (fun e he => execError2_ends hg' h₃ fun s' => ?_) fun b s₄ hb h₄ _ => ?_)
    · have hfound : found w s.task f = none := by
        simp only [found, hl, show examine w s.task ino = .error e from he]
      rw [hfound]
      exact ⟨_, rfl⟩
    have hfound : found w s.task f = if isScript b then (parse b).map some else if accepts w ino b then some none else none := by
      simp only [found, hl, show examine w s.task ino = .ok b from hb]
    refine Ends.ite (fun hs => ?_) fun hs => ?_
    · rw [if_pos hs] at hfound
      refine Ends.bind (brelse_ends h₄ fun s₅ h₅ _ => Ends.bind (iput_ends h₅ fun s₆ h₆ _ => ?_))
      cases hp : parse b with
      | none =>
        rw [hp] at hfound
        refine execError1_ends (h₆.good hg') fun _ _ _ => ?_
        rw [hfound]
        exact ⟨_, rfl⟩
      | some sc =>
        rw [hp] at hfound
        rw [hfound]
        exact script_ends hg (parse_ok hp) h₆ hk hu hgiven hnull (hindex _ hfound)
    · rw [if_neg hs] at hfound
      refine binary_ends hg' h₄ (fun hacc s' => ?_) fun hacc s₅ h₅ _ => ?_
      · rw [hfound, hacc]
        exact ⟨_, rfl⟩
      · rw [if_pos hacc] at hfound
        have hsuf (zs' : List (List UInt8)) (hs : zs' <:+ xs ++ ys) := (hindex none hfound).imp_left fun hle => fits_suffix hle hs
        refine Ends.bind (copyStrings_known (hg'.hold ino) h₅ hk₁ hk₁ hu (by simp) hgiven.envp.strings
          (fun h0 => absurd h0 hgiven.envp.ne_null) .start (hsuf _ ⟨xs, by simp⟩) fun p₁ s₆ h₆ ho₆ => ?_)
        refine copyStrings_known (hg'.hold ino) h₆ hk₁ hk₁ hu (by simp) hgiven.argv.strings
          (fun h0 => absurd h0 hgiven.argv.ne_null) ho₆ (hsuf _ ⟨[], by simp⟩) fun p₂ s₇ h₇ ho₇ => ?_
        rw [List.append_nil] at ho₇
        rw [hfound]
        refine ⟨h₇, fun h0 s' hlen => ⟨rfl, ?_⟩, fun h0 r hp hargc henvc hino hex => ⟨⟨hargc, henvc, b, ?_, hino ▸ hacc, hex⟩, hp ▸ h0, ?_⟩⟩
        · rw [h0] at ho₇
          exact ho₇.short h₇.quiet hlen
        · simp only [newFile, program, hl, show examine w s.task ino = .ok b from hb, hino]
        · rw [hp]
          exact ho₇.fits h0

end Prepare

end Linux011.Fs.Execve
