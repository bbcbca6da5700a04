/-
The order of a device's queue: `add_request`, `end_request` and the driver's progress at the
first request, for one device on its own.

`IN_ORDER` puts reads before writes, then goes by device and sector. The insertion of `add_request` is that of
an elevator (`Lib/Elevator`): the queue is one sweep, or two. Reads do not always overtake
writes: a read that belongs before the request in service waits for the next sweep,
and if none has begun in the queue it goes to the end, behind the writes.
-/
import Linux011.Blk.Queue
import Linux011.Lib.Elevator
import Mathlib.Data.List.Range

namespace Linux011.Blk

variable {T B : Type*}

/-- What `IN_ORDER` compares. -/
def Req.key (q : Req B) : Cmd × Int × Nat := (q.cmd, q.dev, q.sector)

theorem inOrder_trans {a b c : Req B} (hab : inOrder a b = true) (hbc : inOrder b c = true) : inOrder a c = true := by
  simp only [inOrder, Bool.or_eq_true, Bool.and_eq_true, decide_eq_true_eq] at hab hbc ⊢
  cases ha : a.cmd <;> cases hb : b.cmd <;> cases hc : c.cmd <;>
    simp only [ha, hb, hc, reduceCtorEq, and_self, and_true, and_false, true_and, false_and, or_false, false_or] at hab hbc ⊢
  all_goals omega

/-- Different requests are in order one way or the other. -/
theorem inOrder_total {a b : Req B} (hne : a.key ≠ b.key) (h : inOrder a b = false) : inOrder b a = true := by
  simp only [inOrder, Bool.or_eq_false_iff, Bool.and_eq_false_iff, decide_eq_false_iff_not] at h
  simp only [inOrder, Bool.or_eq_true, Bool.and_eq_true, decide_eq_true_eq]
  simp only [Req.key, ne_eq, Prod.mk.injEq] at hne
  cases ha : a.cmd <;> cases hb : b.cmd <;>
    simp only [ha, hb, reduceCtorEq, not_true_eq_false, not_false_eq_true, and_self, and_true, and_false, true_and, false_and,
      or_false, false_or, or_true, true_or, or_self, and_false] at h hne ⊢
  all_goals omega

theorem inOrder_of_read {a b : Req B} (ha : a.cmd = .read) (hb : b.cmd ≠ .read) : inOrder a b = true := by
  cases hbc : b.cmd with
  | read => exact absurd hbc hb
  | write => simp [inOrder, ha, hbc]

theorem inOrder_read {a b : Req B} (h : inOrder a b = true) (hb : b.cmd = .read) : a.cmd = .read := by
  cases ha : a.cmd with
  | read => rfl
  | write => simp [inOrder, ha, hb] at h

/-- Another sector of the same block compares in the same way to a request that differs from both. -/
theorem inOrder_advance {a b : Req B} {sector : Nat} (hblock : sector / 2 = a.sector / 2) (hne : a.key ≠ b.key)
    (hne' : { a with sector := sector }.key ≠ b.key) : inOrder { a with sector := sector } b = inOrder a b := by
  simp only [Req.key, ne_eq, Prod.mk.injEq] at hne hne'
  by_cases hc : a.cmd = b.cmd
  · by_cases hd : a.dev = b.dev
    · simp only [hc, hd, true_and] at hne hne'
      have hlt : sector < b.sector ↔ a.sector < b.sector := by omega
      simp only [inOrder, hlt]
    · simp [inOrder, hd]
  · simp [inOrder, hc]

/-! ## The operations -/

inductive DevOp (B : Type*)
  /-- A free slot is filled, and `add_request` links it in. -/
  | add (r : Nat) (dev : Nat) (cmd : Cmd) (sector : Nat) (b : B)
  | done (uptodate : Bool)
  | advance (sector : Nat)

/-- The queue of a device. -/
def Sys.queue (s : Sys T B) (m : Nat) : List Nat := Cells.walk s.next 32 (s.current m)

/-- The requests added and not ended. -/
def Sys.outstanding (s : Sys T B) : List Nat := (List.range 32).filter fun r => 0 ≤ (s.req r).dev

/-- `IN_ORDER` of two slots. -/
def Sys.before (s : Sys T B) (x z : Nat) : Bool := inOrder (s.req x) (s.req z)

def Sys.isRead (s : Sys T B) (r : Nat) : Bool := (s.req r).cmd = .read

section Code

variable [DecidableEq B]

def devStep (m : Nat) (s : Sys T B) : DevOp B → Option (Sys T B)
  | .add r dev cmd sector b =>
    if r < 32 ∧ (s.req r).dev < 0 then
      some ({ s with req := Function.update s.req r ⟨dev, cmd, sector, some b, (s.req r).id⟩ }.addRequest m b r)
    else none
  | .done uptodate => (s.current m).map fun r => s.endRequest m uptodate r
  | .advance sector =>
    (s.current m).map fun r => { s with req := Function.update s.req r { s.req r with sector := sector } }

end Code

/-- No outstanding request, `x` apart, has the key. -/
def Sys.fresh (s : Sys T B) (x : Option Nat) (k : Cmd × Int × Nat) : Bool :=
  s.outstanding.all fun i => some i = x || (s.req i).key ≠ k

/-- The outstanding requests stay distinct, and the head advances within its block. -/
def distinct (m : Nat) (s : Sys T B) : DevOp B → Bool
  | .add _ dev cmd sector _ => s.fresh none (cmd, dev, sector)
  | .done _ => true
  | .advance sector =>
    (s.current m).all fun r =>
      sector / 2 = (s.req r).sector / 2 && s.fresh (some r) { s.req r with sector := sector }.key

/-- A read comes in time to overtake: no write waits behind the request in service; or it differs from the reads that
wait, and is behind the request in service in the order, or the next sweep begins before the writes, or with them. -/
def timely (m : Nat) (s : Sys T B) : DevOp B → Bool
  | .add _ dev .read sector b =>
    match s.queue m with
    | [] => true
    | x :: l =>
      l.all s.isRead ||
        (l.all fun w => !s.isRead w || (s.req w).key ≠ (.read, (dev : Int), sector)) &&
          (inOrder (s.req x) ⟨dev, .read, sector, some b, 0⟩ || Elevator.broken s.before s.isRead x l)
  | _ => true

/-- A machine with no requests. -/
def quiet : Sys Unit Nat where
  req _ := ⟨-1, .read, 0, none, 0⟩
  next _ := none
  current _ := none
  lock _ := false
  dirt _ := false
  uptodate _ := false
  dev _ := 0
  blocknr _ := 0
  frame _ := .idle
  queued := 0
  ended := []

theorem quiet_start : quiet.Start :=
  ⟨fun _ => rfl, fun _ => rfl, fun _ => rfl, fun _ => rfl, rfl, rfl⟩

/-! ## The queue as a list -/

/-- The queue of the device is the list, and no other device has one. -/
structure Holds (m : Nat) (s : Sys T B) (l : List Nat) : Prop where
  links : Cells.Links s.next (s.current m) l
  others : ∀ m', m' ≠ m → s.current m' = none
  nodup : l.Nodup
  mem : ∀ r, r ∈ l ↔ r < 32 ∧ 0 ≤ (s.req r).dev

/-- What an operation does to the slots and to the queue. -/
inductive Change (s s' : Sys T B) (l : List Nat) : DevOp B → List Nat → Prop
  | add {r dev : Nat} {cmd sector b id} (hr : r ∉ l)
      (hreq : s'.req = Function.update s.req r ⟨dev, cmd, sector, some b, id⟩) :
      Change s s' l (.add r dev cmd sector b) (Cells.place (Elevator.stop s'.before r) r l)
  | done {r l' u} (hl : l = r :: l') (hreq : s'.req = Function.update s.req r { s.req r with dev := -1 }) :
      Change s s' l (.done u) l'
  | advance {r l' sector} (hl : l = r :: l') (hreq : s'.req = Function.update s.req r { s.req r with sector := sector }) :
      Change s s' l (.advance sector) l

section Lists

variable {m : Nat} {s s' : Sys T B} {l l' : List Nat} {o : DevOp B}

theorem Holds.length_le (h : Holds m s l) : l.length ≤ 32 := by
  have hsub : l.Subperm (List.range 32) := List.subperm_of_subset h.nodup fun x hx => List.mem_range.2 ((h.mem x).1 hx).1
  simpa using hsub.length_le

theorem Holds.queue_eq (h : Holds m s l) : s.queue m = l := h.links.walk_eq h.length_le

theorem Holds.mem_outstanding (h : Holds m s l) (r : Nat) : r ∈ s.outstanding ↔ r ∈ l := by
  simp [Sys.outstanding, h.mem]

theorem Holds.perm (h : Holds m s l) : l.Perm s.outstanding :=
  (List.perm_ext_iff_of_nodup h.nodup (List.nodup_range.filter _)).2 fun r => (h.mem_outstanding r).symm

theorem Holds.start (hs : s.Start) : Holds m s [] := by
  refine ⟨hs.current m, fun m' _ => hs.current m', List.nodup_nil, fun r => ?_⟩
  rw [hs.dev r]
  simp

theorem Holds.cons_of_current (h : Holds m s l) {r : Nat} (hr : s.current m = some r) :
    ∃ l', l = r :: l' ∧ Cells.Links s.next (s.next r) l' := by
  have hl := h.links
  rw [hr] at hl
  exact hl.eq_cons

variable [DecidableEq B]

theorem Holds.add (h : Holds m s l) {r dev sector : Nat} {cmd : Cmd} {b : B} (hr : r < 32) (hfree : (s.req r).dev < 0)
    (hs : s' = { s with req := Function.update s.req r ⟨dev, cmd, sector, some b, (s.req r).id⟩ }.addRequest m b r) :
    ∃ l', Holds m s' l' ∧ Change s s' l (.add r dev cmd sector b) l' := by
  have hnot : r ∉ l := fun hm => by
    have := ((h.mem r).1 hm).2
    omega
  obtain ⟨s₁, hs₁⟩ : ∃ s₁ : Sys T B, s₁ = { s with
      next := Function.update s.next r none
      dirt := Function.update s.dirt b false
      req := Function.update s.req r ⟨dev, cmd, sector, some b, s.queued⟩
      queued := s.queued + 1 } := ⟨_, rfl⟩
  have hlink : s' = s₁.link m r := by
    rw [hs, hs₁]
    simp [Sys.addRequest]
  have hreq₁ : s'.req = s₁.req := hlink ▸ (link_rest s₁ m r).1
  have hreq : s'.req = Function.update s.req r ⟨dev, cmd, sector, some b, s.queued⟩ := by rw [hreq₁, hs₁]
  have hstops : s₁.stops r = Elevator.stop s'.before r := by
    funext x z
    simp only [Sys.stops, Elevator.stop, Sys.before, hreq₁]
  -- the lists of all devices, of which this one's is the only one
  have hlinks : ∀ m', Cells.Links s₁.next (s₁.current m') (Function.update (fun _ => []) m l m') := by
    intro m'
    rw [hs₁]
    simp only [Function.update_apply]
    split
    · rename_i e
      subst e
      exact h.links.congr fun x hx => Function.update_of_ne (ne_of_mem_of_not_mem hx hnot) _ _
    · rename_i e
      exact h.others m' e
  have hupd : ∀ (P : List Nat → Prop), P [] → P l → ∀ m', P (Function.update (fun _ => []) m l m') := by
    intro P h0 h1 m'
    simp only [Function.update_apply]
    split
    · exact h1
    · exact h0
  have hnew := links_link (q := Function.update (fun _ => []) m l) (r := r) hlinks
    (hupd List.Nodup List.nodup_nil h.nodup) (hupd (·.length ≤ 32) (Nat.zero_le _) h.length_le)
    (fun m₁ m₂ x h1 h2 => by
      simp only [Function.update_apply] at h1 h2
      split at h1
      · split at h2
        · omega
        · cases h2
      · cases h1)
    (hupd (r ∉ ·) List.not_mem_nil hnot) (by rw [hs₁]; exact Function.update_self _ _ _) m
  have hplace : Cells.Links s'.next (s'.current m) (Cells.place (Elevator.stop s'.before r) r l) := by
    have := hnew m
    rwa [Function.update_self, Function.update_self, ← hlink, hstops] at this
  refine ⟨_, ⟨hplace, fun m' hm' => ?_, ?_, fun x => ?_⟩, .add hnot hreq⟩
  · have := hnew m'
    rwa [Function.update_of_ne hm', Function.update_of_ne hm', ← hlink] at this
  · exact (Cells.place_perm _ r l).nodup_iff.2 (List.nodup_cons.2 ⟨hnot, h.nodup⟩)
  · rw [(Cells.place_perm _ r l).mem_iff, List.mem_cons, h.mem, hreq]
    by_cases hx : x = r
    · subst hx
      simp [hr]
    · rw [Function.update_of_ne hx]
      simp [hx]

theorem endRequest_eq (s : Sys T B) (m : Nat) (u : Bool) (r : Nat) :
    (s.endRequest m u r).next = s.next ∧ (s.endRequest m u r).current = Function.update s.current m (s.next r) ∧
      (s.endRequest m u r).req = Function.update s.req r { s.req r with dev := -1 } := by
  unfold Sys.endRequest
  split <;> exact ⟨rfl, rfl, rfl⟩

theorem Holds.done (h : Holds m s l) {r : Nat} {u : Bool} (hr : s.current m = some r) :
    ∃ l', Holds m (s.endRequest m u r) l' ∧ Change s (s.endRequest m u r) l (.done u) l' := by
  obtain ⟨l', rfl, hl'⟩ := h.cons_of_current hr
  obtain ⟨hnext, hcur, hreq⟩ := endRequest_eq s m u r
  obtain ⟨hnot, hnd⟩ := List.nodup_cons.1 h.nodup
  refine ⟨l', ⟨?_, fun m' hm' => ?_, hnd, fun x => ?_⟩, .done rfl hreq⟩
  · rw [hnext, hcur, Function.update_self]
    exact hl'
  · rw [hcur, Function.update_of_ne hm']
    exact h.others m' hm'
  · rw [hreq]
    by_cases hx : x = r
    · subst hx
      simp [hnot]
    · rw [Function.update_of_ne hx, ← h.mem, List.mem_cons]
      simp [hx]

/-- An operation keeps the queue a list, and changes it as `Change` says. -/
theorem Holds.step (h : Holds m s l) (hst : devStep m s o = some s') : ∃ l', Holds m s' l' ∧ Change s s' l o l' := by
  cases o with
  | add r dev cmd sector b =>
    rw [devStep] at hst
    split at hst
    · rename_i hr
      exact h.add hr.1 hr.2 (Option.some.inj hst).symm
    · cases hst
  | done u =>
    obtain ⟨r, hr, rfl⟩ := Option.map_eq_some_iff.1 hst
    exact h.done hr
  | advance sector =>
    obtain ⟨r, hr, rfl⟩ := Option.map_eq_some_iff.1 hst
    obtain ⟨l', rfl, -⟩ := h.cons_of_current hr
    refine ⟨_, ⟨h.links, h.others, h.nodup, fun x => ?_⟩, .advance rfl rfl⟩
    rw [h.mem]
    by_cases hx : x = r
    · subst hx
      simp
    · simp [Function.update_of_ne hx]

/-! ## Two sweeps -/

/-- The queue, its requests distinct, with one pair out of order at most. -/
structure Sweeps (m : Nat) (s : Sys T B) (l : List Nat) : Prop extends Holds m s l where
  keys : ∀ x ∈ l, ∀ z ∈ l, (s.req x).key = (s.req z).key → x = z
  descents : Elevator.descents s.before l ≤ 1

omit [DecidableEq B] in
theorem Holds.key_ne (h : Holds m s l) {x : Option Nat} {k : Cmd × Int × Nat} (hf : s.fresh x k = true) {i : Nat}
    (hi : i ∈ l) (hx : some i ≠ x) : (s.req i).key ≠ k := by
  have := List.all_eq_true.1 hf i ((h.mem_outstanding i).2 hi)
  simpa [hx] using this

omit [DecidableEq B] in
/-- Only the slots of a list count for its order. -/
theorem descents_congr {l : List Nat} (h : ∀ x ∈ l, s'.req x = s.req x) :
    Elevator.descents s'.before l = Elevator.descents s.before l := by
  induction l with
  | nil => rfl
  | cons x l ih =>
    cases l with
    | nil => rfl
    | cons z l =>
      rw [Elevator.descents, Elevator.descents, ih fun w hw => h w (List.mem_cons_of_mem _ hw)]
      rw [Sys.before, Sys.before, h x List.mem_cons_self, h z (List.mem_cons_of_mem _ List.mem_cons_self)]

theorem Sweeps.step (h : Sweeps m s l) (hd : distinct m s o = true) (hst : devStep m s o = some s') :
    ∃ l', Sweeps m s' l' := by
  obtain ⟨l', hl', hc⟩ := h.toHolds.step hst
  suffices hboth : (∀ x ∈ l', ∀ z ∈ l', (s'.req x).key = (s'.req z).key → x = z) ∧ Elevator.descents s'.before l' ≤ 1 from
    ⟨l', hl', hboth.1, hboth.2⟩
  cases hc with
  | @add r dev cmd sector b id hr hreq =>
    have hold : ∀ x ∈ l, s'.req x = s.req x := fun x hx => by
      rw [hreq, Function.update_of_ne (ne_of_mem_of_not_mem hx hr)]
    have hnew : (s'.req r).key = (cmd, (dev : Int), sector) := by
      rw [hreq, Function.update_self]
      rfl
    have hne : ∀ x ∈ l, (s'.req x).key ≠ (s'.req r).key := fun x hx => by
      rw [hold x hx, hnew]
      exact h.key_ne hd hx (by simp)
    constructor
    · intro x hx z hz hk
      rw [(Cells.place_perm _ r l).mem_iff, List.mem_cons] at hx hz
      rcases hx with rfl | hx
      · rcases hz with rfl | hz
        · rfl
        · exact absurd hk.symm (hne z hz)
      · rcases hz with rfl | hz
        · exact absurd hk (hne x hx)
        · rw [hold x hx, hold z hz] at hk
          exact h.keys x hx z hz hk
    · refine Elevator.descents_place (fun w hw hlt => ?_) ?_
      · exact inOrder_total (hne w hw).symm hlt
      · rw [descents_congr hold]
        exact h.descents
  | @done r _ u hl hreq =>
    have hnot : r ∉ l' := (List.nodup_cons.1 (hl ▸ h.nodup)).1
    have hsub : ∀ x ∈ l', x ∈ l := fun x hx => hl ▸ List.mem_cons_of_mem _ hx
    have hold : ∀ x ∈ l', s'.req x = s.req x := fun x hx => by
      rw [hreq, Function.update_of_ne (ne_of_mem_of_not_mem hx hnot)]
    constructor
    · intro x hx z hz hk
      rw [hold x hx, hold z hz] at hk
      exact h.keys x (hsub x hx) z (hsub z hz) hk
    · rw [descents_congr hold]
      refine Nat.le_trans (Elevator.descents_tail_le _ r l') ?_
      rw [← hl]
      exact h.descents
  | @advance r l₁ sector hl hreq =>
    subst hl
    have hnot : r ∉ l₁ := (List.nodup_cons.1 h.nodup).1
    have hold : ∀ x ∈ l₁, s'.req x = s.req x := fun x hx => by
      rw [hreq, Function.update_of_ne (ne_of_mem_of_not_mem hx hnot)]
    have hr : s'.req r = { s.req r with sector := sector } := by rw [hreq, Function.update_self]
    simp only [distinct, h.links.1, Option.all_some, Bool.and_eq_true, decide_eq_true_eq] at hd
    have hne : ∀ x ∈ l₁, (s'.req r).key ≠ (s'.req x).key := fun x hx => by
      rw [hr, hold x hx]
      exact (h.key_ne hd.2 (List.mem_cons_of_mem _ hx) fun e => hnot (Option.some.inj e ▸ hx)).symm
    constructor
    · intro x hx z hz hk
      have hkeys := h.keys x hx z hz
      rw [List.mem_cons] at hx hz
      rcases hx with rfl | hx
      · rcases hz with rfl | hz
        · rfl
        · exact absurd hk (hne z hz)
      · rcases hz with rfl | hz
        · exact absurd hk.symm (hne x hx)
        · rw [hold x hx, hold z hz] at hk
          exact hkeys hk
    · have hdesc := h.descents
      cases l₁ with
      | nil => exact Nat.zero_le 1
      | cons z l₁ =>
        rw [Elevator.descents] at hdesc ⊢
        have hz := List.mem_cons_self (a := z) (l := l₁)
        have hrz : (s.req r).key ≠ (s.req z).key := fun hk =>
          hnot (h.keys r List.mem_cons_self z (List.mem_cons_of_mem _ hz) hk ▸ hz)
        have hsame : s'.before r z = s.before r z := by
          have hne := hne z hz
          rw [hr, hold z hz] at hne
          rw [Sys.before, Sys.before, hr, hold z hz]
          exact inOrder_advance hd.1 hrz hne
        rw [descents_congr hold, hsame]
        exact hdesc

/-- **The queue of a device is a permutation of its outstanding requests, in one or two sweeps.** -/
theorem queue_sweeps (m : Nat) {s₀ : Sys T B} (h₀ : s₀.Start)
    (h : Run.Reaches (Run.Under (fun s o => distinct m s o = true) (Run.Fires (devStep m))) s₀ s) :
    Cells.Links s.next (s.current m) (s.queue m) ∧ (s.queue m).Perm s.outstanding ∧
      Elevator.descents s.before (s.queue m) ≤ 1 ∧
      ∃ now later, s.queue m = now ++ later ∧ (now.Pairwise fun x z => s.before x z = true) ∧
        later.Pairwise fun x z => s.before x z = true := by
  have hinv : ∃ l, Sweeps m s l := by
    refine h.invariant (I := fun s => ∃ l, Sweeps m s l) (fun s o s' hs hst => ?_) ⟨[], .start h₀, ?_, Nat.zero_le 1⟩
    · obtain ⟨l, hl⟩ := hs
      exact hl.step hst.1 hst.2
    · intro x hx
      cases hx
  obtain ⟨l, hl⟩ := hinv
  rw [hl.queue_eq]
  obtain ⟨now, later, hsplit, hn, hla⟩ := Elevator.exists_runs s.before hl.descents
  have : IsTrans Nat fun x z => s.before x z = true := ⟨fun _ _ _ => inOrder_trans⟩
  exact ⟨hl.links, hl.perm, hl.descents, now, later, hsplit, List.isChain_iff_pairwise.1 hn, List.isChain_iff_pairwise.1 hla⟩

/-- A read behind the sweep waits for the next one. -/
theorem queue_sweeps_wraps : ∃ s : Sys Unit Nat, s.queue 3 = [31, 30, 29] ∧ s.outstanding = [29, 30, 31] ∧
    Elevator.descents s.before (s.queue 3) ≤ 1 ∧
    ∃ now later, s.queue 3 = now ++ later ∧ (now.Pairwise fun x z => s.before x z = true) ∧
      later.Pairwise fun x z => s.before x z = true := by
  obtain ⟨s, hs, hp⟩ := Run.reaches_of_exec (distinct 3) (devStep 3) quiet
    [.add 31 0x301 .read 4 0, .advance 5, .add 30 0x301 .read 2 1, .add 29 0x301 .read 8 2]
    (fun s => s.queue 3 = [31, 30, 29] ∧ s.outstanding = [29, 30, 31]) (by decide)
  obtain ⟨hq, ho⟩ := of_decide_eq_true hp
  exact ⟨s, hq, ho, (queue_sweeps 3 quiet_start hs).2.2⟩

/-! ## Reads and writes -/

/-- Behind the request in service no write precedes a read. -/
structure ReadsFirst (m : Nat) (s : Sys T B) (l : List Nat) : Prop extends Holds m s l where
  reads : Elevator.UrgentFirst s.isRead l.tail

omit [DecidableEq B] in
theorem urgentFirst_congr {l : List Nat} (hcmd : ∀ x ∈ l, (s'.req x).cmd = (s.req x).cmd)
    (h : Elevator.UrgentFirst s.isRead l) : Elevator.UrgentFirst s'.isRead l := by
  refine h.imp_of_mem fun {a c} ha hc hac => ?_
  simpa only [Sys.isRead, hcmd a ha, hcmd c hc] using hac

omit [DecidableEq B] in
theorem broken_congr {x : Nat} {l : List Nat} (h : ∀ w ∈ x :: l, s'.req w = s.req w) :
    Elevator.broken s'.before s'.isRead x l = Elevator.broken s.before s.isRead x l := by
  induction l generalizing x with
  | nil => rfl
  | cons z l ih =>
    have hz := h z (List.mem_cons_of_mem _ List.mem_cons_self)
    rw [Elevator.broken, Elevator.broken, ih fun w hw => h w (List.mem_cons_of_mem _ hw)]
    rw [Sys.before, Sys.before, Sys.isRead, Sys.isRead, h x List.mem_cons_self, hz]

omit [DecidableEq B] in
theorem ReadsFirst.add (h : ReadsFirst m s l) {r dev sector id : Nat} {cmd : Cmd} {b : B} (hr : r ∉ l)
    (hreq : s'.req = Function.update s.req r ⟨dev, cmd, sector, some b, id⟩)
    (ht : timely m s (.add r dev cmd sector b) = true) :
    Elevator.UrgentFirst s'.isRead (Cells.place (Elevator.stop s'.before r) r l).tail := by
  have hold : ∀ x ∈ l, s'.req x = s.req x := fun x hx => by
    rw [hreq, Function.update_of_ne (ne_of_mem_of_not_mem hx hr)]
  have hnew : s'.req r = ⟨dev, cmd, sector, some b, id⟩ := by rw [hreq, Function.update_self]
  cases l with
  | nil => exact List.Pairwise.nil
  | cons x l =>
    have hrest : ∀ w ∈ l, s'.req w = s.req w := fun w hw => hold w (List.mem_cons_of_mem _ hw)
    have hread : ∀ w ∈ l, s'.isRead w = s.isRead w := fun w hw => by rw [Sys.isRead, Sys.isRead, hrest w hw]
    have hu : Elevator.UrgentFirst s'.isRead l := urgentFirst_congr (fun w hw => by rw [hrest w hw]) h.reads
    suffices hplace : ∃ k, Cells.place (Elevator.stop s'.before r) r (x :: l) = x :: k ∧ Elevator.UrgentFirst s'.isRead k by
      obtain ⟨k, hk, hku⟩ := hplace
      rw [hk]
      exact hku
    cases cmd with
    | write =>
      have hlt : ∀ a c, s'.before a c = true → s'.isRead c = true → s'.isRead a = true := fun a c hac hc =>
        decide_eq_true (inOrder_read hac (of_decide_eq_true hc))
      exact hu.place_other hlt (by rw [Sys.isRead, hnew]; rfl)
    | read =>
      have hlt : ∀ a c, s'.isRead a = true → s'.isRead c = false → s'.before a c = true := fun a c ha hc =>
        inOrder_of_read (of_decide_eq_true ha) (of_decide_eq_false hc)
      have hr : s'.isRead r = true := by rw [Sys.isRead, hnew]; rfl
      simp only [timely, h.queue_eq, Bool.or_eq_true, Bool.and_eq_true, List.all_eq_true] at ht
      rcases ht with hall | ⟨hne, hin⟩
      · exact Elevator.UrgentFirst.place_all hr fun w hw => (hread w hw).trans (hall w hw)
      · refine hu.place_urgent hlt hr (fun w hw hwr hlt => ?_) (hin.imp (fun hx => ?_) fun hb => ?_)
        · refine inOrder_total (fun hk => ?_) hlt
          rw [hnew, hrest w hw] at hk
          rcases hne w hw with hnr | hne
          · rw [← hread w hw, hwr] at hnr
            cases hnr
          · exact of_decide_eq_true hne hk.symm
        · rw [Sys.before, hold x List.mem_cons_self, hnew]
          exact hx
        · rw [broken_congr hold]
          exact hb

theorem ReadsFirst.step (h : ReadsFirst m s l) (ht : timely m s o = true) (hst : devStep m s o = some s') :
    ∃ l', ReadsFirst m s' l' := by
  obtain ⟨l', hl', hc⟩ := h.toHolds.step hst
  refine ⟨l', hl', ?_⟩
  cases hc with
  | add hr hreq => exact h.add hr hreq ht
  | @done r _ u hl hreq =>
    subst hl
    have hnot : r ∉ l' := (List.nodup_cons.1 h.nodup).1
    have hreads : Elevator.UrgentFirst s.isRead l'.tail := List.Pairwise.tail h.reads
    refine urgentFirst_congr (fun x hx => ?_) hreads
    rw [hreq, Function.update_of_ne (ne_of_mem_of_not_mem (List.mem_of_mem_tail hx) hnot)]
  | @advance r l₁ sector hl hreq =>
    refine urgentFirst_congr (fun x _ => ?_) h.reads
    rw [hreq, Function.update_apply]
    split
    · rename_i e
      rw [e]
    · rfl

/-- **Reads overtake the writes that wait**, if each comes in time for it. -/
theorem reads_overtake (m : Nat) {s₀ : Sys T B} (h₀ : s₀.Start)
    (h : Run.Reaches (Run.Under (fun s o => timely m s o = true) (Run.Fires (devStep m))) s₀ s) :
    Cells.Links s.next (s.current m) (s.queue m) ∧
      (s.queue m).tail.Pairwise fun x z => (s.req z).cmd = .read → (s.req x).cmd = .read := by
  have hinv : ∃ l, ReadsFirst m s l := by
    refine h.invariant (I := fun s => ∃ l, ReadsFirst m s l) (fun s o s' hs hst => ?_) ⟨[], .start h₀, List.Pairwise.nil⟩
    obtain ⟨l, hl⟩ := hs
    exact hl.step hst.1 hst.2
  obtain ⟨l, hl⟩ := hinv
  rw [hl.queue_eq]
  refine ⟨hl.links, hl.reads.imp fun {a c} hac hc => ?_⟩
  exact of_decide_eq_true (hac (decide_eq_true hc))

/-- A read overtakes a write. -/
theorem reads_overtake_one : ∃ s : Sys Unit Nat, s.queue 3 = [31, 29, 20] ∧
    (s.queue 3).tail.Pairwise fun x z => (s.req z).cmd = .read → (s.req x).cmd = .read := by
  obtain ⟨s, hs, hp⟩ := Run.reaches_of_exec (timely 3) (devStep 3) quiet
    [.add 31 0x301 .read 4 0, .add 20 0x301 .write 2 1, .add 29 0x301 .read 8 2]
    (fun s => s.queue 3 = [31, 29, 20]) (by decide)
  exact ⟨s, of_decide_eq_true hp, (reads_overtake 3 quiet_start hs).2⟩

/-- A read of sector 2, while sector 4 is read and a write waits: it goes to the end. -/
theorem read_behind_write : ∃ s, Run.Reaches (Run.Fires (devStep 3)) quiet s ∧
    Cells.Links s.next (s.current 3) [31, 20, 29] ∧ (s.req 31).cmd = .read ∧ (s.req 20).cmd = .write ∧ (s.req 29).cmd = .read := by
  obtain ⟨s, hs, hp⟩ := Run.reaches_of_exec (fun _ _ => true) (devStep 3) quiet
    [.add 31 0x301 .read 4 0, .add 20 0x301 .write 6 1, .add 29 0x301 .read 2 2]
    (fun s => s.current 3 = some 31 ∧ s.next 31 = some 20 ∧ s.next 20 = some 29 ∧ s.next 29 = none ∧
      (s.req 31).cmd = .read ∧ (s.req 20).cmd = .write ∧ (s.req 29).cmd = .read) (by decide)
  obtain ⟨h1, h2, h3, h4, h5⟩ := of_decide_eq_true hp
  exact ⟨s, hs.of_under, ⟨h1, h2, h3, h4⟩, h5⟩

end Lists

end Linux011.Blk
