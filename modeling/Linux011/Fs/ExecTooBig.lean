/-
Strings that are too big for `page[]`.

`copy_strings` tests whether `p - len` is negative, and that is an `unsigned long`. So strings that do not fit
are found out only when no page is free any more. Otherwise `p` goes on below 0, and `page[]` is used at
`0xffffffff / PAGE_SIZE`.
-/
import Linux011.Fs.ExecArgs

namespace Linux011.Fs.Execve

open Bytes Relation
open Prog (Ends)

variable {w : World} {s s' : State} {tk : Task} {m m' : Space} {E : Stop → Prop}

/-! ## Free pages -/

/-- The number of free pages. -/
def freeFrames (w : World) (m : Space) : Nat := ((Finset.Ico w.low w.high).filter fun n => m.map n = 0).card

/-- A page that is in use stays in use. -/
theorem Brings.map_ne_zero {R R' : Maps} {n : Nat} (h : Brings w tk R R') (hn : R.map n ≠ 0) : R'.map n ≠ 0 := by
  cases h with
  | table => exact update_ne_zero Nat.one_ne_zero hn
  | fresh => exact update_ne_zero Nat.one_ne_zero hn
  | shared => exact update_ne_zero (Nat.succ_ne_zero _) hn

theorem grown_map_ne_zero {R R' : Maps} {n : Nat} (h : ReflTransGen (Brings w tk) R R') (hn : R.map n ≠ 0) : R'.map n ≠ 0 := by
  induction h with
  | refl => exact hn
  | tail _ hb ih => exact hb.map_ne_zero ih

/-- All of `page[]` in use is 32 pages that were free. -/
theorem free_of_full (hm : m.page = fun _ => 0) (h : Quiet w tk m m') (hfull : Full m') : 32 ≤ freeFrames w m := by
  rw [← Finset.card_range 32]
  refine Finset.card_le_card_of_injOn m'.page (fun i hi => ?_) fun i hi j _ hij => ?_
  · have h0 := hfull i (Finset.mem_range.1 hi)
    have hheld := (h.ok.args h0).2
    refine Finset.mem_filter.2 ⟨Finset.mem_Ico.2 ⟨hheld.low, hheld.high⟩, ?_⟩
    by_contra hne
    have hgrown := h.grown
    rw [rest_eq_maps hm] at hgrown
    exact grown_map_ne_zero hgrown hne (rest_map_of_arg ⟨i, rfl, h0⟩)
  · exact h.ok.distinct (hfull i (Finset.mem_range.1 hi)) hij

/-! ## Behind the point of no return -/

section InBounds

variable {S α β : Type} {l : List Nat} {i v n a : Nat}

/-- No index of `page[]` is behind its end. -/
def InBounds (x : StateT S (Except Stop) α) : Prop := ∀ s, Ends x (fun e => ∀ i, e ≠ .index i) (fun _ _ => True) s

theorem InBounds.pure (a : α) : InBounds (Pure.pure a : StateT S (Except Stop) α) := fun _ => trivial

theorem InBounds.throw {e : Stop} (h : ∀ i, e ≠ .index i) : InBounds (MonadExcept.throw e : StateT S (Except Stop) α) := fun _ => h

theorem InBounds.get : InBounds (MonadState.get : StateT S (Except Stop) S) := fun _ => trivial

theorem InBounds.set (s : S) : InBounds (MonadStateOf.set s : StateT S (Except Stop) PUnit) := fun _ => trivial

theorem InBounds.modify (f : S → S) : InBounds (modifyGet fun s => (⟨⟩, f s) : StateT S (Except Stop) PUnit) := fun _ => trivial

theorem InBounds.bind {x : StateT S (Except Stop) α} {f : α → StateT S (Except Stop) β} (hx : InBounds x) (hf : ∀ a, InBounds (f a)) :
    InBounds (x >>= f) := fun s => Ends.seq (hx s) fun a s' _ => hf a s'

theorem InBounds.ite {c : Prop} [Decidable c] {x y : StateT S (Except Stop) α} (hx : InBounds x) (hy : InBounds y) :
    InBounds (if c then x else y) := fun s => Ends.ite (fun _ => hx s) fun _ => hy s

theorem InBounds.onlyIf {c : Prop} [Decidable c] {x : StateT S (Except Stop) Unit} (hx : InBounds x) : InBounds (Execve.onlyIf c x) :=
  hx.ite (.pure ())

theorem InBounds.onMemory {x : MM α} (hx : InBounds x) : InBounds (Execve.onMemory x) := fun s => onMemory_ends (hx s.mm)

theorem segv_ne (i : Nat) : Stop.segv ≠ .index i := fun h => nomatch h
theorem oom_ne (i : Nat) : Stop.oom ≠ .index i := fun h => nomatch h
theorem panic_ne {text : String} (i : Nat) : Stop.panic text ≠ .index i := fun h => nomatch h

theorem getFreePage_inBounds : InBounds (getFreePage w) := fun _ => getFreePage_ends (fun _ => trivial) fun _ _ _ _ => trivial

theorem freePage_inBounds : InBounds (freePage w n) := fun m => by
  unfold Ends freePage
  split_ifs
  · exact panic_ne
  · trivial
  · trivial
  · exact panic_ne

theorem needTable_inBounds : InBounds (needTable w i) :=
  .bind .get fun _ => .ite (.pure _) (getFreePage_inBounds.bind fun _ => .ite (.pure _) (.bind (.modify _) fun _ => .pure _))

theorem putPage_inBounds : InBounds (putPage w n v) :=
  needTable_inBounds.bind fun _ => .ite (.bind (.modify _) fun _ => .pure _) (.pure _)

theorem getEmptyPage_inBounds : InBounds (getEmptyPage w v) :=
  getFreePage_inBounds.bind fun _ => .ite (.throw oom_ne) (putPage_inBounds.bind fun _ => .ite (.pure _) (.throw oom_ne))

theorem sharePage_inBounds : InBounds (sharePage w i v) := by
  unfold sharePage
  split
  · exact .pure _
  · exact needTable_inBounds.bind fun _ => .ite (.bind (.modify _) fun _ => .pure _) (.pure _)

theorem loadPage_inBounds {endData : Nat} : InBounds (loadPage w i endData v) :=
  getFreePage_inBounds.bind fun _ => .ite (.throw oom_ne) (.ite (.throw panic_ne) (.bind (.modify _) fun _ =>
    putPage_inBounds.bind fun _ => .ite (.pure _) (.throw oom_ne)))

theorem doNoPage_inBounds : InBounds (doNoPage w tk v) := by
  unfold doNoPage
  split
  · exact getEmptyPage_inBounds
  · exact .ite getEmptyPage_inBounds (sharePage_inBounds.bind fun _ => .ite (.pure _) loadPage_inBounds)

theorem touch_inBounds : InBounds (touch w tk a) := by
  refine .ite (.throw segv_ne) (.bind .get fun m => ?_)
  split
  · exact .pure _
  · refine doNoPage_inBounds.bind fun _ => .bind .get fun m => ?_
    split
    · exact .pure _
    · exact .throw segv_ne

theorem getFsByte_inBounds : InBounds (getFsByte w a) := by
  refine .bind .get fun s => ?_
  split
  · exact .onMemory (touch_inBounds.bind fun _ => .bind .get fun _ => .pure _)
  · exact .pure _

theorem putFsBytes_inBounds {l : List UInt8} : InBounds (putFsBytes w a l) := by
  induction l generalizing a with
  | nil => exact .pure _
  | cons b l ih => exact .bind (.bind .get fun s => .onMemory (touch_inBounds.bind fun _ => .modify _)) fun _ => ih

theorem skipString_inBounds : InBounds (skipString w n a) := by
  induction n generalizing a with
  | zero => exact .throw segv_ne
  | succ n ih => exact getFsByte_inBounds.bind fun _ => .ite (.pure _) ih

theorem tabulate_inBounds {p : Nat} : InBounds (tabulate w n p a) := by
  induction n generalizing p a with
  | zero => exact putFsBytes_inBounds.bind fun _ => .pure _
  | succ n ih => exact putFsBytes_inBounds.bind fun _ => skipString_inBounds.bind fun _ => ih

theorem createTables_inBounds {p argc envc : Nat} : InBounds (createTables w p argc envc) :=
  putFsBytes_inBounds.bind fun _ => putFsBytes_inBounds.bind fun _ => putFsBytes_inBounds.bind fun _ =>
    tabulate_inBounds.bind fun _ => tabulate_inBounds.bind fun _ => .pure _

theorem clearTail_inBounds : InBounds (clearTail w n a) := by
  induction n generalizing a with
  | zero => exact .pure _
  | succ n ih => exact .bind (.bind .get fun s => .onMemory (touch_inBounds.bind fun _ => .modify _)) fun _ => ih

theorem freeEntries_inBounds : InBounds (freeEntries w l) := by
  induction l with
  | nil => exact .pure _
  | cons v l ih =>
    refine .bind (.bind .get fun m => ?_) fun _ => ih
    split
    · exact .pure _
    · exact .ite (.pure _) (.bind (.set _) fun _ => freePage_inBounds)

theorem clearPageTables_inBounds : InBounds (clearPageTables w l) := by
  induction l with
  | nil => exact .pure _
  | cons i l ih =>
    refine .bind (.bind .get fun m => .ite (.pure _) ?_) fun _ => ih
    exact freeEntries_inBounds.bind fun _ => .bind (.modify _) fun _ => freePage_inBounds

theorem putArgs_inBounds : InBounds (putArgs w l) := by
  induction l with
  | nil => exact .pure _
  | cons i l ih => exact .bind .get fun m => .bind (.onlyIf (putPage_inBounds.bind fun _ => .pure _)) fun _ => ih

theorem iput_inBounds : InBounds (iput n) := .bind .get fun _ => .ite (.throw panic_ne) (.set _)

theorem closeFiles_inBounds : InBounds (closeFiles w l) := by
  induction l with
  | nil => exact .pure _
  | cons fd l ih =>
    refine .bind .get fun s => .bind (.onlyIf (.bind .get fun s => ?_)) fun _ => ih
    split
    · exact .pure _
    · exact .ite (.throw panic_ne) (.bind (.set _) fun _ => .onlyIf iput_inBounds)

theorem discard_inBounds : InBounds (discard w n) := by
  refine .bind .get fun s => .bind ?_ fun _ => .bind (.modify _) fun _ => closeFiles_inBounds.bind fun _ => .modify _
  unfold iputExecutable
  split
  · exact .pure _
  · exact iput_inBounds

theorem commit_inBounds (r : Ready) : InBounds (commit w r) := by
  unfold commit
  generalize List.range 768 = entries
  refine discard_inBounds.bind fun _ => .bind (.onMemory clearPageTables_inBounds) fun _ => .bind (.modify _) fun _ => ?_
  refine .bind (.onMemory putArgs_inBounds) fun _ => createTables_inBounds.bind fun _ => .bind (.modify _) fun _ => ?_
  exact clearTail_inBounds.bind fun _ => .modify _

end InBounds

/-! ## Too big -/

section TooBig

variable {c : Call} {f : List UInt8} {xs ys : List (List UInt8)}

/-- The strings take no more than the bytes there are for them. -/
def Fits (w : World) (tk : Task) (f : List UInt8) (xs ys : List (List UInt8)) : Prop :=
  ∀ k, found w tk f = some k → (flat (newArgs f xs k ++ ys)).length ≤ argTop

/-- What the call is given can be read and fits; or it is in memory, and there are too few pages to fill `page[]`. -/
def Fillable (w : World) (s : State) (c : Call) (f : List UInt8) (xs ys : List (List UInt8)) : Prop :=
  Given (view w s.task s.mm) c f xs ys ∧ Fits w s.task f xs ys ∨
    Given (resident s.task s.mm) c f xs ys ∧ c.filename ≠ 0 ∧ freeFrames w s.mm < 32

/-- Nothing fills `page[]`. -/
theorem not_full (hfree : freeFrames w s.mm < 32) {k : Nat → UInt8} (hq : Quiet w s.task (s.begin k).mm m') : ¬Full m' := fun hfull =>
  absurd (free_of_full rfl hq hfull) (Nat.not_le.2 hfree)

theorem prepare_inBounds (hg : Start w s) (hfs : s.fs = .user) (h : Fillable w s c f xs ys) :
    Ends (prepare w c) (fun e => ∀ i, e ≠ .index i) (Prepared w s.task (s.begin s.kmem).mm f xs ys) s := by
  rcases h with ⟨hgiven, hfits⟩ | ⟨hgiven, -, hfree⟩
  · exact prepare_ends hg hfs (knows_view (s.begin s.kmem) oom_ne) (within_view hg.task) hgiven (fun _ => panic_ne)
      fun k hk => .inl (hfits k hk)
  · exact prepare_ends hg hfs (knows_resident (s.begin s.kmem)) (within_resident hg.task) hgiven (fun _ => panic_ne)
      fun k hk => .inr fun m' hq hfull => absurd hfull (not_full hfree hq)

theorem doExecve_of_stop {e : Stop} {P : Except Int Ready → State → Prop} (h : Ends (prepare w c) (· = e) P s)
    (hP : ∀ r s', ¬P r s') : doExecve w c s = .error e := by
  unfold Ends at h
  split at h
  · exact absurd h (hP _ _)
  · rename_i hr
    change (prepare w c s).bind _ = _
    rw [hr, h]
    rfl

theorem doExecve_of_error {e : Int} (h : prepare w c s = .ok (.error e, s')) : doExecve w c s = .ok (e, s') := by
  change (prepare w c s).bind _ = _
  rw [h]
  rfl

/-- Strings in memory that do not fit, and too few pages: there is an answer. -/
theorem prepare_enomem (hg : Start w s) (hfs : s.fs = .user) (hgiven : Given (resident s.task s.mm) c f xs ys) (h0 : c.filename ≠ 0)
    (hfree : freeFrames w s.mm < 32) {k : Option Script} (hk : found w s.task f = some k)
    (hlen : argTop < (flat (newArgs f xs k ++ ys)).length) : ∃ s', prepare w c s = .ok (.error enomem, s') := by
  have hends : Ends (prepare w c) (fun _ => False) (Prepared w s.task (s.begin s.kmem).mm f xs ys) s :=
    prepare_ends hg hfs (knows_resident (s.begin s.kmem)) (within_resident hg.task) hgiven (fun h => h0 h)
      fun k hk => .inr fun m' hq hfull => not_full hfree hq hfull
  obtain ⟨r, s', hr, hp⟩ := hends.exists_ok
  rw [Prepared, hk] at hp
  cases r with
  | error e =>
    obtain ⟨rfl, -⟩ := hp hlen
    exact ⟨s', hr⟩
  | ok r =>
    have hsum := hp.2.2.1
    omega

/-- Strings in memory that do not fit, and pages for all of `page[]`: it is used behind its end. -/
theorem doExecve_overflows (hg : Start w s) (hfs : s.fs = .user) (hgiven : Given (resident s.task s.mm) c f xs ys) (h0 : c.filename ≠ 0)
    {k : Option Script} (hk : found w s.task f = some k) (hlen : argTop < (flat (newArgs f xs k ++ ys)).length)
    (hshort : ¬Short w s.task (s.begin s.kmem).mm (newArgs f xs k ++ ys)) : doExecve w c s = .error (.index 1048575) := by
  have hends : Ends (prepare w c) (· = .index 1048575) (Prepared w s.task (s.begin s.kmem).mm f xs ys) s :=
    prepare_ends hg hfs (knows_resident (s.begin s.kmem)) (within_resident hg.task) hgiven (fun h => absurd h h0)
      fun _ _ => .inr fun _ _ _ => rfl
  refine doExecve_of_stop hends fun r s' hp => ?_
  rw [Prepared, hk] at hp
  cases r with
  | error e => exact hshort (hp hlen).2
  | ok r =>
    have hsum := hp.2.2.1
    omega

end TooBig

/-! ## One string of 131072 bytes -/

section Big

/-- No page fault brings anything in if all is there. -/
theorem grown_eq {R R' : Maps} (ht : ∀ i, 4194304 * i < tk.limit → R.table i ≠ 0) (hp : ∀ v, 4096 * v < tk.limit → R.pte v ≠ none)
    (h : ReflTransGen (Brings w tk) R R') : R' = R := by
  induction h with
  | refl => rfl
  | tail _ hb ih =>
    rw [ih] at hb
    cases hb with
    | table hlim h => exact absurd h (ht _ hlim)
    | fresh hlim h => exact absurd h (hp _ hlim)
    | shared hlim h => exact absurd h (hp _ hlim)

/-- The pages that were free are all in `page[]` when none is left. -/
theorem free_of_exhausted (hrest : m'.rest = m.maps) (hok : Ok w m') (he : Exhausted w m') :
    freeFrames w m ≤ 32 := by
  have hsub : ((Finset.Ico w.low w.high).filter fun n => m.map n = 0) ⊆ (Finset.range 32).image m'.page := fun n hn => by
    obtain ⟨hico, h0⟩ := Finset.mem_filter.1 hn
    obtain ⟨hlow, hlt⟩ := Finset.mem_Ico.1 hico
    have hhigh := w.high_le
    have harg : m'.Arg n := by
      by_contra hne
      have hmap := congrFun (congrArg Maps.map hrest) n
      rw [rest_map_of_not hne] at hmap
      exact he n hlow (by omega) (hmap.trans h0)
    obtain ⟨i, hi, hne⟩ := harg
    exact Finset.mem_image.2 ⟨i, Finset.mem_range.2 (hok.args (hi ▸ hne)).1, hi⟩
  exact (Finset.card_le_card hsub).trans (Finset.card_image_le.trans (Finset.card_range 32).le)

def bigString : List UInt8 := List.replicate 131072 1

/-- The name `/i` at 16, and at 32 an environment of one string. -/
def bigPage : List UInt8 := List.replicate 16 0 ++ [47, 105] ++ List.replicate 14 0 ++ le32 4096

def bigTask : Task := { sampleTask with limit := 139264 }

/-- The task has 34 pages, the string is in 32 of them, and the last one is empty; `free` pages are left. -/
def bigState (free : Nat) : State :=
  { sampleState with
    mm :=
      { map := fun n => if n < 256 then 128 else if n < 291 then 1 else if n < 291 + free then 0 else 128
        frame := fun n k => if n = 257 then bigPage.getD k 0 else if n < 290 then 1 else 0
        table := fun i => if i = 0 then 256 else 0
        pte := fun v => if v < 34 then some ⟨257 + v, true⟩ else none
        page := fun _ => 0 }
    task := bigTask }

variable {free : Nat}

theorem bigState_pte {v : Nat} {e : Entry} (h : (bigState free).mm.pte v = some e) : v < 34 ∧ e = ⟨257 + v, true⟩ := by
  change (if v < 34 then some (⟨257 + v, true⟩ : Entry) else none) = some e at h
  split at h
  · cases h
    exact ⟨‹_›, rfl⟩
  · cases h

theorem bigState_table {i : Nat} (h : (bigState free).mm.table i ≠ 0) : i = 0 := by
  by_contra hi
  exact h (if_neg hi)

theorem bigState_map {n : Nat} : (bigState free).mm.map n = 0 ↔ 291 ≤ n ∧ n < 291 + free := by
  change (if n < 256 then 128 else if n < 291 then 1 else if n < 291 + free then 0 else 128) = 0 ↔ _
  constructor
  · intro h
    split_ifs at h
    omega
  · intro h
    rw [if_neg (by omega), if_neg (by omega), if_pos h.2]

theorem bigState_start (hfree : free ≤ 3000) : Start sampleWorld (bigState free) where
  ok :=
    { inUse := fun h => nomatch h
      addr := fun h => nomatch h
      twice := fun h => nomatch h
      zero := by
        change 128 / 128 % 2 = 1
        decide
      free := fun {n} h => by
        have := bigState_map.1 h
        change n < 4096
        omega
      mapped := fun {v e} h h0 => by
        obtain ⟨hv, rfl⟩ := bigState_pte h
        have := (bigState_map.1 h0).1
        dsimp only at this
        omega
      user := fun h => by
        obtain ⟨hv, -⟩ := bigState_pte h
        omega
      tables := fun {v e} h => by
        obtain ⟨hv, -⟩ := bigState_pte h
        rw [show v / 1024 = 0 by omega]
        exact Nat.succ_ne_zero 255
      table := fun h => by
        rw [bigState_table h]
        exact ⟨rfl, Nat.le_refl 256, by change 256 < 4096; decide, fun _ _ h => nomatch h⟩
      runs := ⟨0, by decide, Nat.succ_ne_zero 255⟩
      args := fun h => absurd rfl h
      distinct := fun h => absurd rfl h }
  task := ⟨by change 139264 ≤ 3221225472; decide, Nat.zero_le _⟩

theorem bigState_resident {k : Nat} (hk : k < 131072) : resident (bigState free).task (bigState free).mm (4096 + k) = some 1 := by
  have hv : (4096 + k) / 4096 < 34 := by omega
  have hpte : (bigState free).mm.pte ((4096 + k) / 4096) = some ⟨257 + (4096 + k) / 4096, true⟩ := if_pos hv
  have hlim : ¬(bigState free).task.limit ≤ 4096 + k := by
    change ¬139264 ≤ 4096 + k
    omega
  rw [resident, if_neg hlim, pages, hpte]
  change some (if 257 + (4096 + k) / 4096 = 257 then _ else if 257 + (4096 + k) / 4096 < 290 then (1 : UInt8) else 0) = _
  rw [if_neg (by omega), if_pos (by omega)]

theorem bigString_nul : 0 ∉ bigString := fun h => absurd (List.eq_of_mem_replicate h) (by decide)

theorem bigState_string : Spells (resident (bigState free).task (bigState free).mm) 4096 (bigString ++ [0]) := by
  have h : Spells (resident (bigState free).task (bigState free).mm) 4096 bigString := spells_replicate fun k hk => bigState_resident hk
  refine spells_append.2 ⟨h, ?_⟩
  rw [bigString, List.length_replicate]
  exact ⟨rfl, trivial⟩

theorem bigState_given : Given (resident (bigState free).task (bigState free).mm) ⟨16, 0, 32⟩ [47, 105] [] [bigString] where
  name := by decide
  filename := ⟨rfl, rfl, rfl, trivial⟩
  argv := .inl ⟨rfl, rfl⟩
  envp := by
    refine .inr ⟨by decide, fun i hi => ?_, fun i hi h0 => ?_, ⟨rfl, rfl, rfl, rfl, trivial⟩⟩
    · cases Nat.lt_one_iff.1 hi
      exact ⟨bigString_nul, 4096, by decide, ⟨rfl, rfl, rfl, rfl, trivial⟩, bigState_string⟩
    · cases Nat.lt_one_iff.1 hi
      have h16 : resident (bigState free).task (bigState free).mm 33 = some 16 := rfl
      exact absurd (h16.symm.trans h0.2.1) (by decide)

theorem bigTask_found : found sampleWorld bigTask [47, 105] = some none := rfl

theorem newArgs_bigString : newArgs [47, 105] [] none ++ [bigString] = [bigString] := List.nil_append _

theorem bigString_length : (flat [bigString]).length = 131073 := by
  rw [flat_cons, flat_nil, List.length_append, bigString, List.length_replicate, List.length_singleton]

theorem bigString_tooBig : argTop < (flat (newArgs [47, 105] [] none ++ [bigString])).length := by
  rw [newArgs_bigString, bigString_length]
  decide

theorem bigState_free (hfree : free ≤ 3000) : freeFrames sampleWorld (bigState free).mm = free := by
  have hfilter : ((Finset.Ico 256 4096).filter fun n => (bigState free).mm.map n = 0) = Finset.Ico 291 (291 + free) := by
    ext n
    rw [Finset.mem_filter, bigState_map, Finset.mem_Ico, Finset.mem_Ico]
    omega
  exact (congrArg Finset.card hfilter).trans (by rw [Nat.card_Ico, Nat.add_sub_cancel_left])

/-- There are pages left, and the string has no part that ends at the end of the pages. -/
theorem bigState_not_short (hfree : free ≤ 3000) (hmany : 32 < free) :
    ¬Short sampleWorld (bigState free).task ((bigState free).begin (bigState free).kmem).mm [bigString] := by
  intro h
  rcases h with ⟨m', hq, he⟩ | ⟨zs, hs, hlen⟩
  · have hgrown := hq.grown
    rw [rest_eq_maps rfl] at hgrown
    have hrest := grown_eq (fun i hi => ?_) (fun v hv => ?_) hgrown
    · have := free_of_exhausted (m := (bigState free).mm) hrest hq.ok he
      rw [bigState_free hfree] at this
      omega
    · change 4194304 * i < 139264 at hi
      rw [show i = 0 by omega]
      exact Nat.succ_ne_zero 255
    · change 4096 * v < 139264 at hv
      change (if v < 34 then some (⟨257 + v, true⟩ : Entry) else none) ≠ none
      rw [if_pos (by omega)]
      exact Option.some_ne_none _
  · rcases List.suffix_cons_iff.1 hs with rfl | hnil
    · rw [bigString_length] at hlen
      exact absurd hlen (by decide)
    · rw [List.suffix_nil.1 hnil] at hlen
      exact absurd hlen (by decide)

end Big

end Linux011.Fs.Execve
