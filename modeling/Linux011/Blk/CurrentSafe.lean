/-
When the drivers find a request behind `CURRENT`.

`bad_rw_intr` and `bad_flp_intr` look at `CURRENT->errors` also after they have ended the last request, and the floppy
driver recalibrates before it looks whether there is a request. Short of that, a routine
that an interrupt or a timer is to run always finds the queue not empty: this is the invariant, and
each routine is shown to keep it by the rules of `Lib/Prog`.
-/
import Linux011.Blk.Current
import Linux011.Lib.Run
import Mathlib.Tactic.Common

namespace Linux011.Blk.Current

open Prog (Ends)

/-! ## The hard disk -/

section HdSafe

open Hd (Config Req Handler refused)

variable {B : Type} {c : Config} {s : HdSys B} {r : Req B} {q : List (Req B)}

/-- The attempts that are left to the requests which are not refused. -/
def attempts (c : Config) : List (Req B) → Nat
  | [] => 0
  | r :: q => (if refused c r then 0 else 7 - r.errors) + attempts c q

/-- There are attempts left for the failures. -/
def Spare (c : Config) (q : List (Req B)) (failures : Nat) : Prop := failures = 0 ∨ failures < attempts c q

/-- In every event the failures leave a request an attempt: an error at the interrupt is one, and a command without DRQ. -/
def hdOk (c : Config) (s : HdSys B) : HdOp B → Prop
  | .add dev cmd bh blocknr _ misses => s.queue = [] → Spare c [.make dev cmd bh blocknr] misses
  | .interrupt o =>
    match s.doHd with
    | none => True
    | some .recalIntr => Spare c s.queue (o.misses + if o.success then 0 else 1)
    | some _ => if o.success then Spare c s.queue.tail o.misses else Spare c s.queue (o.misses + 1)

/-- A routine that waits for an interrupt finds a request. -/
structure HdInv (s : HdSys B) : Prop where
  errors : ∀ r ∈ s.queue, r.errors < 7
  waits : s.doHd ≠ none → s.queue ≠ []

theorem attempts_dropWhile (q : List (Req B)) : attempts c (q.dropWhile (refused c)) = attempts c q := by
  induction q with
  | nil => rfl
  | cons r q ih =>
    rw [List.dropWhile_cons]
    split
    · rename_i hr
      rw [ih, attempts, if_pos hr, Nat.zero_add]
    · rfl

theorem current_ends {E : Fault → Prop} {Q : Req B → HdSys B → Prop} (hq : s.queue = r :: q) (h : Q r s) : Ends current E Q s := by
  refine Ends.bind (Ends.get ?_)
  rw [hq]
  exact h

theorem setCurrent_ends {E : Fault → Prop} {Q : Unit → HdSys B → Prop} {r' : Req B} (hq : s.queue = r :: q)
    (h : Q () { s with queue := r' :: q }) : Ends (setCurrent r') E Q s := by
  refine Ends.bind (Ends.get ?_)
  rw [hq]
  exact h

theorem endRequest_ends {E : Fault → Prop} {Q : Unit → HdSys B → Prop} (hq : s.queue = r :: q)
    (h : Q () { s with queue := q }) : Ends endRequest E Q s := by
  refine Ends.bind (current_ends hq (Ends.modify ?_))
  rw [hq]
  exact h

/-- What `bad_rw_intr` leaves of the queue. -/
def afterError (r : Req B) (q : List (Req B)) : List (Req B) :=
  if 7 ≤ r.errors + 1 then q else { r with errors := r.errors + 1 } :: q

theorem badRwIntr_ends (hq : s.queue = r :: q) (hlast : 7 ≤ r.errors + 1 → q ≠ []) :
    Ends badRwIntr (· ≠ .null) (fun _ s' => s'.doHd = s.doHd ∧ s'.queue = afterError r q) s := by
  -- the look at the errors that comes last
  have hcheck : ∀ s' : HdSys B, s'.doHd = s.doHd → s'.queue = afterError r q → s'.queue ≠ [] →
      Ends (do let r ← current; if 3 < r.errors then modify fun s => { s with reset := true })
        (· ≠ .null) (fun _ s' => s'.doHd = s.doHd ∧ s'.queue = afterError r q) s' := by
    intro s' hdo hs' hne
    obtain ⟨r', q', hq'⟩ := List.exists_cons_of_ne_nil hne
    refine Ends.bind (current_ends hq' (Ends.ite (fun _ => Ends.modify ⟨hdo, hs'⟩) fun _ => Ends.pure ⟨hdo, hs'⟩))
  refine Ends.bind (current_ends hq (Ends.bind (setCurrent_ends hq ?_)))
  refine Ends.ite (fun hge => ?_) fun hlt => ?_
  · refine Ends.bind (endRequest_ends rfl (hcheck _ rfl ?_ (hlast hge)))
    rw [afterError, if_pos hge]
  · refine hcheck _ rfl ?_ (List.cons_ne_nil _ _)
    rw [afterError, if_neg hlt]

/-- A failure takes one attempt. -/
theorem attempts_afterError (he : r.errors < 7) : attempts c (r :: q) ≤ attempts c (afterError r q) + 1 := by
  unfold afterError
  split
  · rw [attempts]
    split <;> omega
  · have hsame : refused c { r with errors := r.errors + 1 } = refused c r := rfl
    rw [attempts, attempts, hsame]
    dsimp only
    split <;> omega

theorem ne_nil_of_attempts {n : Nat} (h : n < attempts c q) : q ≠ [] := fun e => by
  rw [e] at h
  exact absurd h (Nat.not_lt_zero n)

/-- If attempts are left after it, a failure does not end the last request. -/
theorem more_of_attempts (he : r.errors < 7) (h : 1 < attempts c (r :: q)) (hge : 7 ≤ r.errors + 1) : q ≠ [] := by
  refine ne_nil_of_attempts (c := c) (n := 0) ?_
  rw [attempts] at h
  split at h <;> omega

theorem errors_afterError (he : ∀ x ∈ r :: q, x.errors < 7) : ∀ x ∈ afterError r q, x.errors < 7 := by
  intro x hx
  unfold afterError at hx
  split at hx
  · exact he x (List.mem_cons_of_mem _ hx)
  · rename_i hlt
    rcases List.mem_cons.1 hx with rfl | hx
    · exact Nat.not_le.1 hlt
    · exact he x (List.mem_cons_of_mem _ hx)

theorem hdOut_ends {Q : Unit → HdSys B → Prop} {drive head : Nat} {h : Handler} (hQ : Q () { s with doHd := some h }) :
    Ends (hdOut drive head h) (· ≠ .null) Q s := by
  refine Ends.ite (fun _ => ?_) fun _ => Ends.modify hQ
  exact Ends.throw (by decide)

theorem tryRequest_ends {noDrq : Option (HdM B Unit)} (he : ∀ r ∈ s.queue, r.errors < 7)
    (h : s.doHd = none ∨ 0 < attempts c s.queue)
    (hagain : ∀ m, noDrq = some m → ∀ r q b b', (∀ x ∈ r :: q, x.errors < 7) → attempts c (r :: q) = attempts c s.queue →
      Ends m (· ≠ .null) (fun _ => HdInv) ⟨r :: q, b, b', some .writeIntr⟩) :
    Ends (tryRequest c noDrq) (· ≠ .null) (fun _ => HdInv) s := by
  rw [← attempts_dropWhile] at h hagain
  have he' : ∀ r ∈ s.queue.dropWhile (refused c), r.errors < 7 := fun r hr =>
    he r ((List.dropWhile_suffix _).subset hr)
  refine Ends.bind (Ends.modify (Ends.bind (Ends.get ?_)))
  dsimp only
  generalize hq : s.queue.dropWhile (refused c) = l at h he' hagain
  cases l with
  | nil => exact Ends.pure ⟨he', fun hdo => absurd (h.resolve_right (Nat.lt_irrefl 0)) hdo⟩
  | cons r q =>
    have hinv : ∀ (d : Option Handler) (b b' : Bool), HdInv (⟨r :: q, b, b', d⟩ : HdSys B) := fun _ _ _ =>
      ⟨he', fun _ => List.cons_ne_nil r q⟩
    refine Ends.ite (fun _ => Ends.throw (by decide)) fun _ => ?_
    refine Ends.ite (fun _ => Ends.bind (Ends.set (hdOut_ends (hinv _ _ _)))) fun _ => ?_
    refine Ends.ite (fun _ => Ends.bind (Ends.set (hdOut_ends (hinv _ _ _)))) fun _ => ?_
    cases r.cmd with
    | read => exact hdOut_ends (hinv _ _ _)
    | write =>
      refine Ends.bind (hdOut_ends ?_)
      cases noDrq with
      | none => exact Ends.bind (current_ends rfl (Ends.pure (hinv _ _ _)))
      | some m => exact hagain m rfl r q _ _ he' rfl

/-- After an error. -/
theorem retry_of {misses : Nat} (hdo : ∀ {s : HdSys B}, (∀ r ∈ s.queue, r.errors < 7) → misses < attempts c s.queue →
      Ends (doHdRequest c misses) (· ≠ .null) (fun _ => HdInv) s)
    (he : ∀ x ∈ s.queue, x.errors < 7) (hq : s.queue = r :: q) (h : misses + 1 < attempts c s.queue) :
    Ends (do badRwIntr; doHdRequest c misses) (· ≠ .null) (fun _ => HdInv) s := by
  rw [hq] at he h
  have her := he r List.mem_cons_self
  refine Ends.bind ((badRwIntr_ends hq (more_of_attempts (c := c) her (by omega))).mono fun _ s' hs' => hdo ?_ ?_)
  · rw [hs'.2]
    exact errors_afterError he
  · rw [hs'.2]
    have := attempts_afterError (c := c) (q := q) her
    omega

/-- `do_hd_request` faults nowhere if its failures leave an attempt. -/
theorem doHdRequest_ends (misses : Nat) : ∀ {s : HdSys B}, (∀ r ∈ s.queue, r.errors < 7) →
    ((s.doHd = none ∧ misses = 0) ∨ misses < attempts c s.queue) →
    Ends (doHdRequest c misses) (· ≠ .null) (fun _ => HdInv) s := by
  induction misses with
  | zero =>
    intro s he h
    exact tryRequest_ends he (h.imp_left And.left) fun m hm => (by cases hm)
  | succ n ih =>
    intro s he h
    have hlt : n + 1 < attempts c s.queue := h.resolve_left fun hno => absurd hno.2 (Nat.succ_ne_zero n)
    refine tryRequest_ends he (.inr (by omega)) fun m hm r q b b' he' ha => ?_
    obtain rfl := Option.some.inj hm
    exact retry_of (fun he h => ih he (.inr h)) he' rfl (by rw [ha]; exact hlt)

/-- A sector is done: the request goes on, or the next one follows. -/
theorem finish_ends {misses : Nat} (he : ∀ r ∈ s.queue, r.errors < 7) (hq : s.queue = r :: q) (hdo : s.doHd = none)
    (h : Spare c q misses) : Ends (do endRequest; doHdRequest c misses) (· ≠ .null) (fun _ => HdInv) s := by
  refine Ends.bind (endRequest_ends hq (doHdRequest_ends misses (fun x hx => he x ?_) ?_))
  · rw [hq]
    exact List.mem_cons_of_mem _ hx
  · exact h.imp (fun h0 => ⟨hdo, h0⟩) id

theorem hdStep_interrupt (o : HdOutcome) (hs : HdInv s) (hok : hdOk c s (.interrupt o)) :
    Ends (hdStep c (.interrupt o)) (· ≠ .null) (fun _ => HdInv) s := by
  refine Ends.bind (Ends.get (Ends.bind (Ends.modify ?_)))
  have hidle : HdInv { s with doHd := none } := ⟨hs.errors, fun hno => absurd rfl hno⟩
  simp only [hdOk] at hok
  cases hdo : s.doHd with
  | none => exact Ends.pure hidle
  | some h =>
    obtain ⟨r, q, hq⟩ := List.exists_cons_of_ne_nil (hs.waits (by rw [hdo]; exact Option.some_ne_none h))
    rw [hdo] at hok
    have hfail : Spare c s.queue (o.misses + 1) → Ends (do badRwIntr; doHdRequest c o.misses) (· ≠ .null) (fun _ => HdInv)
        { s with doHd := none } := fun hsp =>
      retry_of (fun he h => doHdRequest_ends o.misses he (.inr h)) hs.errors hq (hsp.resolve_left (Nat.succ_ne_zero _))
    cases h with
    | readIntr =>
      dsimp only at hok
      refine Ends.ite (fun hx => ?_) fun hx => ?_
      · rw [if_pos hx, hq] at hok
        refine Ends.bind (current_ends hq (Ends.bind (setCurrent_ends hq ?_)))
        have hnew : ∀ x ∈ { r.forward with errors := 0 } :: q, x.errors < 7 := fun x hx => by
          rcases List.mem_cons.1 hx with rfl | hx
          · exact Nat.succ_pos 6
          · exact hs.errors x (hq ▸ List.mem_cons_of_mem _ hx)
        refine Ends.ite (fun _ => Ends.modify ⟨hnew, fun _ => List.cons_ne_nil _ _⟩) fun _ => ?_
        exact finish_ends hnew rfl rfl hok
      · rw [if_neg hx] at hok
        exact hfail hok
    | writeIntr =>
      dsimp only at hok
      refine Ends.ite (fun hx => ?_) fun hx => ?_
      · rw [if_pos hx, hq] at hok
        have hnew : ∀ r' : Req B, r'.errors = r.errors → ∀ x ∈ r' :: q, x.errors < 7 := fun r' he x hx => by
          rcases List.mem_cons.1 hx with rfl | hx
          · rw [he]
            exact hs.errors r (hq ▸ List.mem_cons_self)
          · exact hs.errors x (hq ▸ List.mem_cons_of_mem _ hx)
        refine Ends.bind (current_ends hq (Ends.ite (fun _ => ?_) fun _ => ?_))
        · exact Ends.bind (setCurrent_ends hq (Ends.modify ⟨hnew _ rfl, fun _ => List.cons_ne_nil _ _⟩))
        · exact Ends.bind (setCurrent_ends hq (finish_ends (hnew _ rfl) rfl rfl hok))
      · rw [if_neg hx] at hok
        exact hfail hok
    | recalIntr =>
      dsimp only at hok
      cases hx : o.success with
      | true =>
        rw [hx, if_pos rfl] at hok
        simp only [recalIntr, hx, Bool.not_true, Bool.false_eq_true, if_false]
        exact doHdRequest_ends o.misses hs.errors (hok.imp (fun h0 => ⟨rfl, h0⟩) id)
      | false =>
        rw [hx, if_neg Bool.false_ne_true] at hok
        simp only [recalIntr, hx, Bool.not_false, if_true]
        exact hfail hok

theorem hdStep_add {dev : Nat} {cmd : Hd.Cmd} {bh : B} {blocknr place misses : Nat} (hs : HdInv s)
    (hok : hdOk c s (.add dev cmd bh blocknr place misses)) :
    Ends (hdStep c (.add dev cmd bh blocknr place misses)) (· ≠ .null) (fun _ => HdInv) s := by
  refine Ends.bind (Ends.get ?_)
  have hnew : (Req.make dev cmd bh blocknr).errors < 7 := Nat.succ_pos 6
  cases hq : s.queue with
  | nil =>
    have hdo : s.doHd = none := Decidable.not_not.1 fun hno => hs.waits hno hq
    refine Ends.bind (Ends.modify (doHdRequest_ends misses (fun r hr => ?_) ((hok hq).imp (fun h0 => ⟨hdo, h0⟩) id)))
    rw [List.mem_singleton.1 hr]
    exact hnew
  | cons h q =>
    have he := hs.errors
    rw [hq] at he
    refine Ends.modify ⟨fun r hr => ?_, fun _ => List.cons_ne_nil _ _⟩
    rcases List.mem_cons.1 hr with rfl | hr
    · exact he r List.mem_cons_self
    · rcases List.mem_append.1 hr with hr | hr
      · exact he r (List.mem_cons_of_mem _ (List.mem_of_mem_take hr))
      · rcases List.mem_cons.1 hr with rfl | hr
        · exact hnew
        · exact he r (List.mem_cons_of_mem _ (List.mem_of_mem_drop hr))

theorem hdStep_ends (o : HdOp B) (hs : HdInv s) (hok : hdOk c s o) : Ends (hdStep c o) (· ≠ .null) (fun _ => HdInv) s := by
  cases o with
  | add dev cmd bh blocknr place misses => exact hdStep_add hs hok
  | interrupt o => exact hdStep_interrupt o hs hok

end HdSafe

/-! ## The floppy disk -/

section FdSafe

variable {size : Nat → Nat} {s : FdSys} {r : FdReq} {q : List FdReq} {o : FdOutcome}

/-- While one request is left, an interrupt that may end it finds no recalibration pending and, unless the transfer was good,
no reset; and an error does not exhaust its attempts. -/
def fdOk (s : FdSys) : FdOp → Prop
  | .interrupt o =>
    match s.doFloppy, s.queue with
    | some .rw, [r] =>
      if s.reset = false ∧ o.replied = true ∧ o.good = true then s.recalibrate = false
      else if o.protect then s.reset = false ∧ o.replied = true ∧ s.recalibrate = false
      else r.errors < 8
    | some .seek, [r] => (s.reset = false ∧ o.sense = true ∧ o.replied = true ∧ o.good = true) ∨ r.errors < 8
    | _, _ => True
  | _ => True

/-- One thing is waited for at most, and it finds a request. -/
structure FdInv (s : FdSys) : Prop where
  waits : s.doFloppy ≠ none ∨ s.timers ≠ [] → s.queue ≠ []
  one : (s.doFloppy = none ∧ s.timers.length ≤ 1) ∨ s.timers = []

theorem fdCurrent_ends {E : Fault → Prop} {Q : FdReq → FdSys → Prop} (hq : s.queue ≠ [])
    (h : ∀ r q, s.queue = r :: q → Q r s) : Ends fdCurrent E Q s := by
  obtain ⟨r, q, hq⟩ := List.exists_cons_of_ne_nil hq
  refine Ends.bind (Ends.get ?_)
  rw [hq]
  exact h r q hq

theorem fdEndRequest_ends {E : Fault → Prop} {Q : Unit → FdSys → Prop} (hq : s.queue ≠ [])
    (h : Q () { s with queue := s.queue.tail }) : Ends fdEndRequest E Q s :=
  Ends.bind (fdCurrent_ends hq fun _ _ _ => Ends.modify h)

theorem result_ends {E : Fault → Prop} {Q : Bool → FdSys → Prop} (hyes : s.reset = false → o.replied = true → Q true s)
    (hno : ¬ (s.reset = false ∧ o.replied = true) → Q false { s with reset := true }) : Ends (result o) E Q s := by
  refine Ends.bind (Ends.get (Ends.ite (fun hr => ?_) fun hr => Ends.ite (fun ho => ?_) fun ho => ?_))
  · have hsame : { s with reset := true } = s := by rw [← hr]
    rw [hsame] at hno
    exact Ends.pure (hno fun h => by rw [h.1] at hr; cases hr)
  · exact Ends.pure (hyes (Bool.eq_false_iff.2 hr) ho)
  · exact Ends.bind (Ends.modify (Ends.pure (hno fun h => ho h.2)))

theorem doFdReset_ends {E : Fault → Prop} (hq : s.queue ≠ []) (ht : s.timers = []) : Ends doFdReset E (fun _ => FdInv) s :=
  Ends.bind (Ends.modify (Ends.modify ⟨fun _ => hq, .inr ht⟩))

theorem checkReset_ends {E : Fault → Prop} (hq : s.queue ≠ []) (ht : s.timers = []) : Ends checkReset E (fun _ => FdInv) s :=
  Ends.bind (Ends.get (Ends.ite (fun _ => doFdReset_ends hq ht) fun _ => Ends.pure ⟨fun _ => hq, .inr ht⟩))

theorem setupRwFloppy_ends {E : Fault → Prop} (hq : s.queue ≠ []) (ht : s.timers = []) :
    Ends (setupRwFloppy o) E (fun _ => FdInv) s :=
  Ends.bind (fdCurrent_ends hq fun _ _ _ => Ends.bind (Ends.modify (Ends.bind (Ends.modify (checkReset_ends hq ht)))))

theorem transfer_ends {E : Fault → Prop} (hq : s.queue ≠ []) (ht : s.timers = []) : Ends (transfer o) E (fun _ => FdInv) s := by
  refine Ends.bind (Ends.modify (Ends.bind (Ends.get ?_)))
  refine Ends.ite (fun _ => doFdReset_ends hq ht) fun _ => Ends.ite (fun _ => ?_) fun _ => setupRwFloppy_ends hq ht
  exact Ends.bind (Ends.modify (Ends.bind (Ends.modify (checkReset_ends hq ht))))

theorem floppyOnInterrupt_ends {E : Fault → Prop} (hq : s.queue ≠ []) (ht : s.timers = []) (hd : s.doFloppy = none) :
    Ends (floppyOnInterrupt o) E (fun _ => FdInv) s := by
  refine Ends.ite (fun _ => Ends.modify ⟨fun _ => hq, .inl ⟨hd, ?_⟩⟩) fun _ => transfer_ends hq ht
  rw [ht]
  exact Nat.le_refl 1

theorem recalibrateFloppy_ends {E : Fault → Prop} (hq : s.queue ≠ []) (ht : s.timers = []) :
    Ends (recalibrateFloppy o) E (fun _ => FdInv) s :=
  Ends.bind (Ends.modify (Ends.bind (fdCurrent_ends hq fun _ _ _ => Ends.bind (Ends.modify (checkReset_ends hq ht)))))

/-- `do_fd_request` with nothing pending; with no request there must be no flags. -/
theorem doFdRequest_ends {E : Fault → Prop} (hd : s.doFloppy = none) (ht : s.timers = [])
    (hflags : s.queue = [] → s.reset = false ∧ s.recalibrate = false) : Ends (doFdRequest size o) E (fun _ => FdInv) s := by
  refine Ends.bind (Ends.modify (Ends.bind (Ends.get ?_)))
  refine Ends.ite (fun hr => ?_) fun _ => Ends.ite (fun hr => ?_) fun _ => ?_
  · exact doFdReset_ends (fun hq => absurd hr (by rw [(hflags hq).1]; exact Bool.false_ne_true)) ht
  · exact recalibrateFloppy_ends (fun hq => absurd hr (by rw [(hflags hq).2]; exact Bool.false_ne_true)) ht
  · refine Ends.bind (Ends.modify (Ends.bind (Ends.get ?_)))
    dsimp only
    generalize hq : s.queue.dropWhile (tooBig size) = l
    cases l with
    | nil => exact Ends.pure ⟨fun hw => absurd hw (by rw [hd, ht]; simp), .inr ht⟩
    | cons r q =>
      refine Ends.bind (Ends.modify (Ends.ite (fun _ => Ends.modify ⟨fun _ => List.cons_ne_nil r q, .inl ⟨hd, ?_⟩⟩) fun _ => ?_))
      · dsimp only
        rw [ht]
        exact Nat.le_refl 1
      · exact floppyOnInterrupt_ends (List.cons_ne_nil r q) ht hd

/-- `bad_flp_intr` where the attempts of the last request are not exhausted. -/
theorem badFlpIntr_ends (hq : s.queue = r :: q) (hlast : 8 < r.errors + 1 → q ≠ []) :
    Ends badFlpIntr (· ≠ .null) (fun _ s' => s'.queue ≠ [] ∧ s'.doFloppy = s.doFloppy ∧ s'.timers = s.timers) s := by
  have hcheck : ∀ s' : FdSys, s'.queue ≠ [] → s'.doFloppy = s.doFloppy → s'.timers = s.timers →
      Ends (do if 4 < (← fdCurrent).errors then modify fun s => { s with reset := true }
               else modify fun s => { s with recalibrate := true })
        (· ≠ .null) (fun _ s' => s'.queue ≠ [] ∧ s'.doFloppy = s.doFloppy ∧ s'.timers = s.timers) s' := by
    intro s' hne hd ht
    exact Ends.bind (fdCurrent_ends hne fun _ _ _ => Ends.ite (fun _ => Ends.modify ⟨hne, hd, ht⟩) fun _ => Ends.modify ⟨hne, hd, ht⟩)
  refine Ends.bind (Ends.get ?_)
  rw [hq]
  refine Ends.bind (Ends.modify (Ends.bind (fdCurrent_ends (List.cons_ne_nil _ _) fun r' q' hr' => ?_)))
  obtain ⟨rfl, rfl⟩ := List.cons.inj hr'
  refine Ends.ite (fun hge => ?_) fun _ => hcheck _ (List.cons_ne_nil _ _) rfl rfl
  exact Ends.bind (fdEndRequest_ends (List.cons_ne_nil _ _) (hcheck _ (hlast hge) rfl rfl))

/-- An error, and what follows. -/
theorem failed_ends (hd : s.doFloppy = none) (ht : s.timers = []) (hq : s.queue = r :: q) (hlast : q = [] → r.errors < 8) :
    Ends (do badFlpIntr; doFdRequest size o) (· ≠ .null) (fun _ => FdInv) s := by
  refine Ends.bind ((badFlpIntr_ends hq fun hge he => ?_).mono fun _ s' hs' => ?_)
  · have := hlast he
    omega
  · exact doFdRequest_ends (hs'.2.1.trans hd) (hs'.2.2.trans ht) fun he => absurd he hs'.1

/-- The end of a request, and what follows. -/
theorem ended_ends (hd : s.doFloppy = none) (ht : s.timers = []) (hq : s.queue = r :: q)
    (hlast : q = [] → s.reset = false ∧ s.recalibrate = false) :
    Ends (do fdEndRequest; doFdRequest size o) (· ≠ .null) (fun _ => FdInv) s := by
  refine Ends.bind (fdEndRequest_ends (by rw [hq]; exact List.cons_ne_nil r q) (doFdRequest_ends hd ht fun he => hlast ?_))
  rw [← he, hq, List.tail_cons]

theorem rwInterrupt_ends (hd : s.doFloppy = none) (ht : s.timers = []) (hq : s.queue = r :: q)
    (hok : q = [] → if s.reset = false ∧ o.replied = true ∧ o.good = true then s.recalibrate = false
      else if o.protect then s.reset = false ∧ o.replied = true ∧ s.recalibrate = false else r.errors < 8) :
    Ends (rwInterrupt size o) (· ≠ .null) (fun _ => FdInv) s := by
  -- the branch with the error, in the state `result` has left
  have herr : ∀ s' : FdSys, s'.doFloppy = none → s'.timers = [] → s'.queue = r :: q →
      (q = [] → if o.protect then s'.reset = false ∧ s'.recalibrate = false else r.errors < 8) →
      Ends (do if o.protect then fdEndRequest else badFlpIntr
               doFdRequest size o) (· ≠ .null) (fun _ => FdInv) s' := by
    intro s' hd' ht' hq' hok'
    refine Ends.ite (fun hp => ?_) fun hp => ?_
    · exact ended_ends hd' ht' hq' fun he => by simpa [hp] using hok' he
    · exact failed_ends hd' ht' hq' fun he => by simpa [hp] using hok' he
  refine Ends.bind (result_ends (fun hr hrep => ?_) fun hno => ?_)
  · refine Ends.ite (fun hg => ?_) fun hg => ?_
    · refine ended_ends hd ht hq fun he => ⟨hr, ?_⟩
      have := hok he
      rwa [if_pos ⟨hr, hrep, by simpa using hg⟩] at this
    · refine herr s hd ht hq fun he => ?_
      have := hok he
      rw [if_neg fun h => hg (by simpa using h.2.2)] at this
      split
      · rename_i hp
        rw [if_pos hp] at this
        exact ⟨this.1, this.2.2⟩
      · rename_i hp
        rwa [if_neg hp] at this
  · refine Ends.ite (fun hg => absurd hg (by simp)) fun _ => herr _ hd ht hq fun he => ?_
    have := hok he
    rw [if_neg fun h => hno ⟨h.1, h.2.1⟩] at this
    split
    · rename_i hp
      rw [if_pos hp] at this
      exact absurd ⟨this.1, this.2.1⟩ hno
    · rename_i hp
      rwa [if_neg hp] at this

theorem seekInterrupt_ends (hd : s.doFloppy = none) (ht : s.timers = []) (hq : s.queue = r :: q)
    (hok : q = [] → (s.reset = false ∧ o.sense = true ∧ o.replied = true ∧ o.good = true) ∨ r.errors < 8) :
    Ends (seekInterrupt size o) (· ≠ .null) (fun _ => FdInv) s := by
  have hne : s.queue ≠ [] := by rw [hq]; exact List.cons_ne_nil r q
  refine Ends.bind (Ends.modify (Ends.bind (result_ends (fun hr hrep => ?_) fun hno => ?_)))
  · refine Ends.ite (fun _ => setupRwFloppy_ends hne ht) fun hg => failed_ends hd ht hq fun he => ?_
    exact (hok he).resolve_left fun h => hg (by simpa using h.2.2.2)
  · refine Ends.ite (fun hg => absurd hg (by simp)) fun _ => failed_ends hd ht hq fun he => ?_
    refine (hok he).resolve_left fun h => hno ⟨?_, h.2.2.1⟩
    simp [h.1, h.2.1]

theorem fdStep_interrupt (o : FdOutcome) (hs : FdInv s) (hok : fdOk s (.interrupt o)) :
    Ends (fdStep size (.interrupt o)) (· ≠ .null) (fun _ => FdInv) s := by
  refine Ends.bind (Ends.get (Ends.bind (Ends.modify ?_)))
  cases hd : s.doFloppy with
  | none =>
    -- an unexpected interrupt sets a flag
    have hkeep : ∀ s' : FdSys, s'.doFloppy = none → s'.timers = s.timers → s'.queue = s.queue → FdInv s' := by
      intro s' hd' ht' hq'
      have hsame : s'.doFloppy = s.doFloppy := hd'.trans hd.symm
      constructor
      · rw [hsame, ht', hq']
        exact hs.waits
      · rw [hsame, ht']
        exact hs.one
    refine Ends.bind (Ends.modify (Ends.bind (result_ends (fun _ _ => ?_) fun _ => ?_)))
    · exact Ends.ite (fun _ => Ends.modify (hkeep _ rfl rfl rfl)) fun _ => Ends.modify (hkeep _ rfl rfl rfl)
    · exact Ends.ite (fun _ => Ends.modify (hkeep _ rfl rfl rfl)) fun _ => Ends.modify (hkeep _ rfl rfl rfl)
  | some h =>
    have hdne : s.doFloppy ≠ none := by rw [hd]; exact Option.some_ne_none h
    have ht : s.timers = [] := hs.one.resolve_left fun hno => hdne hno.1
    have hne : s.queue ≠ [] := hs.waits (.inl hdne)
    obtain ⟨r, q, hq⟩ := List.exists_cons_of_ne_nil hne
    simp only [fdOk, hd, hq] at hok
    cases h with
    | rw =>
      refine rwInterrupt_ends rfl ht hq fun he => ?_
      rw [he] at hok
      exact hok
    | seek =>
      refine seekInterrupt_ends rfl ht hq fun he => ?_
      rw [he] at hok
      exact hok
    | recal =>
      refine Ends.bind (Ends.modify (Ends.bind (result_ends (fun _ _ => ?_) fun _ => ?_)))
      · refine Ends.ite (fun _ => Ends.bind (Ends.modify ?_)) fun _ => Ends.bind (Ends.modify ?_)
        · exact doFdRequest_ends rfl ht fun he => absurd he hne
        · exact doFdRequest_ends rfl ht fun he => absurd he hne
      · refine Ends.ite (fun _ => Ends.bind (Ends.modify ?_)) fun _ => Ends.bind (Ends.modify ?_)
        · exact doFdRequest_ends rfl ht fun he => absurd he hne
        · exact doFdRequest_ends rfl ht fun he => absurd he hne
    | reset =>
      refine Ends.bind (Ends.modify (Ends.bind (result_ends (fun _ _ => ?_) fun _ => ?_)))
      · exact Ends.bind (Ends.modify (doFdRequest_ends rfl ht fun he => absurd he hne))
      · exact Ends.bind (Ends.modify (doFdRequest_ends rfl ht fun he => absurd he hne))

theorem fdStep_ends (op : FdOp) (hs : FdInv s) (hok : fdOk s op) : Ends (fdStep size op) (· ≠ .null) (fun _ => FdInv) s := by
  cases op with
  | add dev sector place o =>
    refine Ends.bind (Ends.get ?_)
    cases hq : s.queue with
    | nil =>
      have hnot : ¬ (s.doFloppy ≠ none ∨ s.timers ≠ []) := fun hw => hs.waits hw hq
      rw [not_or, not_not, not_not] at hnot
      exact Ends.bind (Ends.modify (doFdRequest_ends hnot.1 hnot.2 fun he => absurd he (List.cons_ne_nil _ _)))
    | cons h q => exact Ends.modify ⟨fun _ => List.cons_ne_nil _ _, hs.one⟩
  | interrupt o => exact fdStep_interrupt o hs hok
  | timer t o =>
    refine Ends.bind (Ends.get (Ends.ite (fun ht => Ends.bind (Ends.set ?_)) fun _ => Ends.pure hs))
    have hne : s.timers ≠ [] := List.ne_nil_of_mem ht
    have hq := hs.waits (.inr hne)
    obtain ⟨hd, hlen⟩ := hs.one.resolve_right hne
    have herase : s.timers.erase t = [] := by
      apply List.eq_nil_of_length_eq_zero
      rw [List.length_erase_of_mem ht]
      omega
    cases t with
    | floppyOn => exact floppyOnInterrupt_ends hq herase hd
    | transfer => exact transfer_ends hq herase

end FdSafe

/-! ## Runs -/

/-- The state after an event, if no routine stops. -/
def after {S : Type} (m : StateT S (Except Fault) Unit) (s : S) : Option S :=
  match m s with
  | .ok p => some p.2
  | .error _ => none

theorem ends_after {S : Type} {m : StateT S (Except Fault) Unit} {E : Fault → Prop} {I : S → Prop} {s s' : S}
    (h : Ends m E (fun _ => I) s) (hs : after m s = some s') : I s' := by
  unfold after at hs
  split at hs
  · rename_i hm
    obtain rfl := Option.some.inj hs
    exact h.of_ok hm
  · cases hs

theorem ends_not_null {S : Type} {m : StateT S (Except Fault) Unit} {I : S → Prop} {s : S}
    (h : Ends m (· ≠ .null) (fun _ => I) s) : m s ≠ .error .null := by
  intro hm
  rw [Ends, hm] at h
  exact h rfl

/-- A drive of 16 heads and 63 sectors, with partitions from sector 1 on. -/
def drive : Hd.Config where
  nrHd := 1
  info _ := .usual
  hd _ := ⟨1, 999⟩

def hdQuiet : HdSys Unit := ⟨[], false, false, none⟩

def fdQuiet : FdSys := ⟨[], false, false, false, none, []⟩

/-- The controller takes everything and replies; `good` says how. -/
def reply (good : Bool) : FdOutcome := ⟨true, true, true, true, true, true, good, false, false, false, false⟩

/-- An event that follows the null pointer. -/
def faults {S : Type} (m : StateT S (Except Fault) Unit) (s : S) : Bool :=
  match m s with
  | .error .null => true
  | _ => false

theorem eq_null_of_faults {S : Type} {m : StateT S (Except Fault) Unit} {s : S} (h : faults m s = true) : m s = .error .null := by
  unfold faults at h
  split at h
  · assumption
  · cases h

end Linux011.Blk.Current
