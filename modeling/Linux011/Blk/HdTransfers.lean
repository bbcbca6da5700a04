/-
What the hard-disk driver transfers, over any sequence of requests, failures, resets and recalibrations.

The first request of the queue has come to its sector `k`, with what is before it
transferred; every command goes to the sector it has come to. An error starts
again there, so progress is never undone, and a request ends well only
with both sectors done.
-/
import Linux011.Blk.Hd

namespace Linux011.Blk.Hd

variable {B σ : Type*} {c : Config}

/-- The first of a request's two sectors. -/
def Req.base (c : Config) (r : Req B) : Nat := (c.hd r.dev).start + 2 * r.blocknr

/-- A request that has come to its sector `k`. -/
structure Req.Ok (c : Config) (r : Req B) (k : Nat) : Prop where
  lt : k < 2
  sector : r.dev < 5 * c.nrHd → r.sector = 2 * r.blocknr + k
  nr : r.nr = 2 - k
  buf : r.buf = k
  errors : r.errors < 7
  fits : r.dev < 5 * c.nrHd → r.base c + 1 < 65536 * ((c.info (r.dev / 5)).head * (c.info (r.dev / 5)).sect)

/-- The sector `k` of a request is transferred. -/
def Done (c : Config) (disk : Nat → Nat → σ) (data sent : Nat → σ) (r : Req B) (k : Nat) : Prop :=
  match r.cmd with
  | .read => data k = disk (r.dev / 5) (r.base c + k)
  | .write => disk (r.dev / 5) (r.base c + k) = sent k

/-- The requests of the queue. -/
structure Queued (c : Config) (s : Sys B σ) : Prop where
  first : ∀ r q, s.queue = r :: q →
    ∃ k, r.Ok c k ∧ ∀ j < k, Done c s.disk (s.data r.bh) (s.sent r.bh) r j
  rest : ∀ r ∈ s.queue.tail, r.Ok c 0

/-- The histories. -/
structure Logged (c : Config) (s : Sys B σ) : Prop where
  ended : ∀ e ∈ s.ended, e.uptodate = true → ∀ k < 2, Done c e.disk e.data e.sent e.req k
  outs : ∀ o ∈ s.outs, o.drive = o.req.dev / 5 ∧
    (c.info o.drive).absolute o.cyl o.head o.sec = (c.hd o.req.dev).start + o.req.sector

/-- What the controller is at is what the driver waits for. -/
def CtlOk (c : Config) (s : Sys B σ) : Prop :=
  match s.ctl with
  | .idle => True
  | .other => s.doHd = some .recalIntr ∧ s.queue ≠ []
  | .wait _ _ _ => False
  | .read drive sector n => ∃ r q, s.queue = r :: q ∧ r.cmd = .read ∧ s.doHd = some .readIntr ∧ r.dev < 5 * c.nrHd ∧
      drive = r.dev / 5 ∧ sector = (c.hd r.dev).start + r.sector ∧ n = r.nr
  | .write drive sector n v => ∃ r q, s.queue = r :: q ∧ r.cmd = .write ∧ s.doHd = some .writeIntr ∧ r.dev < 5 * c.nrHd ∧
      drive = r.dev / 5 ∧ sector = (c.hd r.dev).start + r.sector ∧ n = r.nr ∧ v = s.sent r.bh r.buf

structure Inv (c : Config) (s : Sys B σ) : Prop where
  queued : Queued c s
  logged : Logged c s
  ctl : CtlOk c s

/-- With no request the controller has nothing to do. -/
theorem Inv.idle {s : Sys B σ} (h : Inv c s) (hq : s.queue = []) : s.ctl = .idle := by
  have hc := h.ctl
  unfold CtlOk at hc
  split at hc
  · assumption
  · exact absurd hq hc.2
  · exact hc.elim
  · obtain ⟨r, q, hr, -⟩ := hc
    rw [hq] at hr
    cases hr
  · obtain ⟨r, q, hr, -⟩ := hc
    rw [hq] at hr
    cases hr

/-- What the controller does depends on the first request only. -/
theorem CtlOk.of_head {s s' : Sys B σ} (h : CtlOk c s) {r : Req B} {q q' : List (Req B)} (hq : s.queue = r :: q)
    (hq' : s'.queue = r :: q') (hctl : s'.ctl = s.ctl) (hdo : s'.doHd = s.doHd) (hsent : s'.sent = s.sent) : CtlOk c s' := by
  unfold CtlOk at h ⊢
  rw [hctl, hdo, hsent, hq']
  rw [hq] at h
  split at h
  · trivial
  · exact ⟨h.1, List.cons_ne_nil r q'⟩
  · exact h
  · obtain ⟨r', q₁, hr, h⟩ := h
    obtain ⟨rfl, rfl⟩ := List.cons.inj hr
    exact ⟨r, q', rfl, h⟩
  · obtain ⟨r', q₁, hr, h⟩ := h
    obtain ⟨rfl, rfl⟩ := List.cons.inj hr
    exact ⟨r, q', rfl, h⟩

theorem Inv.start {s : Sys B σ} (h : s.Start) : Inv c s := by
  refine ⟨⟨fun r q hq => ?_, fun r hr => ?_⟩, ⟨fun e he => ?_, fun o ho => ?_⟩, ?_⟩
  · rw [h.queue] at hq
    cases hq
  · rw [h.queue] at hr
    cases hr
  · rw [h.ended] at he
    cases he
  · rw [h.outs] at ho
    cases ho
  · rw [CtlOk, h.ctl]
    trivial

/-! ## Ending and retrying -/

theorem Queued.of_eq {s s' : Sys B σ} (h : Queued c s) (hq : s'.queue = s.queue) (hd : s'.disk = s.disk)
    (hdata : s'.data = s.data) (hsent : s'.sent = s.sent) : Queued c s' := by
  obtain ⟨h1, h2⟩ := h
  rw [← hq, ← hd, ← hdata, ← hsent] at h1
  rw [← hq] at h2
  exact ⟨h1, h2⟩

theorem Logged.of_eq {s s' : Sys B σ} (h : Logged c s) (he : s'.ended = s.ended) (ho : s'.outs = s.outs) : Logged c s' := by
  obtain ⟨h1, h2⟩ := h
  rw [← he] at h1
  rw [← ho] at h2
  exact ⟨h1, h2⟩

/-- What the driver does between two commands leaves these as they are. -/
structure SameData (s s' : Sys B σ) : Prop where
  disk : s'.disk = s.disk
  data : s'.data = s.data

theorem SameData.refl (s : Sys B σ) : SameData s s := ⟨rfl, rfl⟩

theorem SameData.trans {s s' s'' : Sys B σ} (h : SameData s s') (h' : SameData s' s'') : SameData s s'' :=
  ⟨h'.disk.trans h.disk, h'.data.trans h.data⟩

/-- The request behind the first becomes the first. -/
theorem Queued.pop {s s' : Sys B σ} (h : Queued c s) (hq : s'.queue = s.queue.tail) : Queued c s' := by
  refine ⟨fun r q hr => ⟨0, h.rest r (by rw [← hq, hr]; exact List.mem_cons_self), fun j hj => by omega⟩, fun r hr => ?_⟩
  rw [hq] at hr
  exact h.rest r (List.mem_of_mem_tail hr)

theorem endRequest_queue (s : Sys B σ) (u : Bool) : (s.endRequest u).queue = s.queue.tail := by
  unfold Sys.endRequest
  split
  · rename_i hq
    rw [hq]
    rfl
  · rename_i hq
    rw [hq]
    rfl

theorem endRequest_rest (s : Sys B σ) (u : Bool) : SameData s (s.endRequest u) ∧ (s.endRequest u).sent = s.sent ∧
    (s.endRequest u).ctl = s.ctl ∧ (s.endRequest u).outs = s.outs := by
  unfold Sys.endRequest
  split <;> exact ⟨⟨rfl, rfl⟩, rfl, rfl, rfl⟩

/-- A request may end well when it is transferred. -/
theorem Logged.endRequest {s : Sys B σ} (h : Logged c s) {u : Bool}
    (hu : u = true → ∀ r q, s.queue = r :: q → ∀ k < 2, Done c s.disk (s.data r.bh) (s.sent r.bh) r k) :
    Logged c (s.endRequest u) := by
  refine ⟨fun e he hup => ?_, ?_⟩
  · unfold Sys.endRequest at he
    split at he
    · exact h.ended e he hup
    · rename_i r q hq
      rcases List.mem_append.1 he with he | he
      · exact h.ended e he hup
      · obtain rfl := List.mem_singleton.1 he
        exact hu hup r q hq
  · rw [(endRequest_rest s u).2.2.2]
    exact h.outs

theorem checkErrors_rest (junk : Bool) (s : Sys B σ) :
    (s.checkErrors junk).queue = s.queue ∧ SameData s (s.checkErrors junk) ∧ (s.checkErrors junk).sent = s.sent ∧
      (s.checkErrors junk).ctl = s.ctl ∧ (s.checkErrors junk).ended = s.ended ∧ (s.checkErrors junk).outs = s.outs := by
  unfold Sys.checkErrors
  split <;> exact ⟨rfl, ⟨rfl, rfl⟩, rfl, rfl, rfl, rfl⟩

/-- An error costs the request an attempt, or ends it. -/
theorem Queued.badRwIntr {s : Sys B σ} (h : Queued c s) (junk : Bool) : Queued c (s.badRwIntr junk) := by
  unfold Sys.badRwIntr
  split
  · exact h
  · rename_i r q hq
    obtain ⟨k, hk, hdone⟩ := h.first r q hq
    dsimp only
    have hboth : Queued c (if 7 ≤ r.errors + 1 then { s with queue := { r with errors := r.errors + 1 } :: q }.endRequest false
        else { s with queue := { r with errors := r.errors + 1 } :: q }) := by
      split
      · exact h.pop (by rw [endRequest_queue, hq]; rfl)
      · rename_i he
        refine ⟨fun r' q' hq' => ?_, fun r' hr' => h.rest r' (by rw [hq]; exact hr')⟩
        obtain ⟨rfl, rfl⟩ := List.cons.inj hq'
        exact ⟨k, ⟨hk.lt, hk.sector, hk.nr, hk.buf, Nat.lt_of_not_le he, hk.fits⟩, hdone⟩
    obtain ⟨hqueue, hd, hsent, -⟩ := checkErrors_rest junk _
    exact hboth.of_eq hqueue hd.disk hd.data hsent

theorem Logged.badRwIntr {s : Sys B σ} (h : Logged c s) (junk : Bool) : Logged c (s.badRwIntr junk) := by
  unfold Sys.badRwIntr
  split
  · exact h
  · rename_i r q hq
    dsimp only
    have hr : Logged c { s with queue := { r with errors := r.errors + 1 } :: q } := h.of_eq rfl rfl
    have hboth : Logged c (if 7 ≤ r.errors + 1 then { s with queue := { r with errors := r.errors + 1 } :: q }.endRequest false
        else { s with queue := { r with errors := r.errors + 1 } :: q }) := by
      split
      · exact hr.endRequest fun hu => (by cases hu)
      · exact hr
    obtain ⟨-, -, -, -, hended, houts⟩ := checkErrors_rest junk _
    exact hboth.of_eq hended houts

theorem badRwIntr_rest (s : Sys B σ) (junk : Bool) : SameData s (s.badRwIntr junk) ∧ (s.badRwIntr junk).ctl = s.ctl := by
  unfold Sys.badRwIntr
  split
  · exact ⟨.refl s, rfl⟩
  · rename_i r q hq
    dsimp only
    obtain ⟨-, hd, -, hc, -⟩ := checkErrors_rest junk
      (if 7 ≤ r.errors + 1 then { s with queue := { r with errors := r.errors + 1 } :: q }.endRequest false
        else { s with queue := { r with errors := r.errors + 1 } :: q })
    obtain ⟨hd', -, hc', -⟩ := endRequest_rest { s with queue := { r with errors := r.errors + 1 } :: q } false
    refine ⟨SameData.trans ?_ hd, hc.trans ?_⟩
    · split
      · exact ⟨hd'.disk, hd'.data⟩
      · exact ⟨rfl, rfl⟩
    · split
      · exact hc'
      · rfl

/-! ## The command -/

/-- A sector's triple, if its cylinder fits. -/
theorem Geometry.absolute_split (g : Geometry) (b : Nat) (hs : g.sect ≠ 0) (hb : b < 65536 * (g.head * g.sect)) :
    g.absolute (b / g.sect / g.head % 65536) (b / g.sect % g.head) ((b % g.sect + 1) % 256) = b := by
  have hle := g.sect_le
  have hlt := Nat.mod_lt b (Nat.pos_of_ne_zero hs)
  have hcyl : b / g.sect / g.head < 65536 := by
    rw [Nat.div_div_eq_div_mul]
    apply Nat.div_lt_of_lt_mul
    rw [Nat.mul_comm g.sect g.head, Nat.mul_comm]
    exact hb
  have hsec : b % g.sect + 1 < 256 := by omega
  rw [Nat.mod_eq_of_lt hcyl, Nat.mod_eq_of_lt hsec, Geometry.absolute]
  calc (b / g.sect / g.head * g.head + b / g.sect % g.head) * g.sect + (b % g.sect + 1) - 1
      = (g.head * (b / g.sect / g.head) + b / g.sect % g.head) * g.sect + b % g.sect := by rw [Nat.mul_comm g.head]; rfl
    _ = g.sect * (b / g.sect) + b % g.sect := by rw [Nat.div_add_mod, Nat.mul_comm]
    _ = b := Nat.div_add_mod b g.sect

theorem Req.Ok.nr_le {r : Req B} {k : Nat} (h : r.Ok c k) : r.nr ≤ 2 := by
  rw [h.nr]
  omega

/-- Where a request has come to, on the disk, is what `do_hd_request` computes. -/
theorem Req.Ok.block {r : Req B} {k : Nat} (h : r.Ok c k) (hdev : r.dev < 5 * c.nrHd) :
    (r.sector + (c.hd r.dev).start) % 4294967296 = (c.hd r.dev).start + r.sector ∧
      (c.hd r.dev).start + r.sector < 65536 * ((c.info (r.dev / 5)).head * (c.info (r.dev / 5)).sect) ∧
      (c.hd r.dev).start + r.sector = r.base c + k := by
  have hf := h.fits hdev
  have hs := h.sector hdev
  have hk := h.lt
  have hle : (c.info (r.dev / 5)).head * (c.info (r.dev / 5)).sect ≤ 255 * 255 :=
    Nat.mul_le_mul (c.info (r.dev / 5)).head_le (c.info (r.dev / 5)).sect_le
  unfold Req.base at *
  refine ⟨?_, by omega, by omega⟩
  rw [Nat.mod_eq_of_lt (by omega), Nat.add_comm]

/-- What `do_hd_request` sends for the request at the head, from the sector it has come to. -/
def Sys.sentOut (c : Config) (s : Sys B σ) (r : Req B) (h : Handler) (ctl : Ctl σ) : Sys B σ :=
  let g := c.info (r.dev / 5)
  let block := (c.hd r.dev).start + r.sector
  { s with
    outs := s.outs ++ [Out.mk r (r.dev / 5) (block / g.sect / g.head % 65536) (block / g.sect % g.head) ((block % g.sect + 1) % 256)]
    doHd := some h
    ctl := ctl }

theorem hdOut_eq {s s' : Sys B σ} {r : Req B} (hnr : r.nr ≤ 2) (hsect : (c.info (r.dev / 5)).sect ≠ 0)
    (hfits : (c.hd r.dev).start + r.sector < 65536 * ((c.info (r.dev / 5)).head * (c.info (r.dev / 5)).sect))
    (h : s.hdOut c r (r.dev / 5) r.nr (((c.hd r.dev).start + r.sector) % (c.info (r.dev / 5)).sect + 1)
      (((c.hd r.dev).start + r.sector) / (c.info (r.dev / 5)).sect % (c.info (r.dev / 5)).head)
      (((c.hd r.dev).start + r.sector) / (c.info (r.dev / 5)).sect / (c.info (r.dev / 5)).head) = some s') :
    s' = match r.cmd with
      | .read => s.sentOut c r .readIntr (.read (r.dev / 5) ((c.hd r.dev).start + r.sector) r.nr)
      | .write => s.sentOut c r .writeIntr (.wait (r.dev / 5) ((c.hd r.dev).start + r.sector) r.nr) := by
  unfold Sys.hdOut at h
  split at h
  · cases h
  · rw [Geometry.absolute_split _ _ hsect hfits, Nat.mod_eq_of_lt (Nat.lt_of_le_of_lt hnr (by decide))] at h
    cases hc : r.cmd <;> rw [hc] at h <;> exact (Option.some.inj h).symm

theorem Logged.sentOut {s : Sys B σ} (h : Logged c s) {r : Req B} {k : Nat} (hr : r.Ok c k) (hdev : r.dev < 5 * c.nrHd)
    (hsect : (c.info (r.dev / 5)).sect ≠ 0) (hd : Handler) (ctl : Ctl σ) : Logged c (s.sentOut c r hd ctl) := by
  refine ⟨h.ended, fun o ho => ?_⟩
  rcases List.mem_append.1 ho with ho | ho
  · exact h.outs o ho
  · obtain rfl := List.mem_singleton.1 ho
    exact ⟨rfl, Geometry.absolute_split _ _ hsect (hr.block hdev).2.1⟩

theorem hdOutOther_eq {s s' : Sys B σ} {drive head : Nat} (h : s.hdOutOther drive head = some s') :
    s' = { s with doHd := some .recalIntr, ctl := .other } := by
  unfold Sys.hdOutOther at h
  split at h
  · cases h
  · exact (Option.some.inj h).symm

variable [DecidableEq B]

/-- Sending a sector says nothing about those before it. -/
theorem Queued.portWrite {s : Sys B σ} {r : Req B} {q : List (Req B)} (h : Queued c s) (hq : s.queue = r :: q) :
    Queued c (s.portWrite r) := by
  unfold Sys.portWrite
  split
  · refine ⟨fun r' q' hq' => ?_, h.rest⟩
    rw [show r' = r from (List.cons.inj (hq'.symm.trans hq)).1]
    obtain ⟨k, hk, hdone⟩ := h.first r q hq
    refine ⟨k, hk, fun j hj => ?_⟩
    have hj' : j ≠ r.buf := by
      rw [hk.buf]
      omega
    have := hdone j hj
    unfold Done at this ⊢
    dsimp only
    rw [Function.update_self, Function.update_of_ne hj']
    exact this
  · exact h

theorem portWrite_wait {s : Sys B σ} {r : Req B} {drive sector n : Nat} (h : s.ctl = .wait drive sector n) :
    s.portWrite r = { s with
      ctl := .write drive sector n (s.data r.bh r.buf)
      sent := Function.update s.sent r.bh (Function.update (s.sent r.bh) r.buf (s.data r.bh r.buf)) } := by
  rw [Sys.portWrite, h]

/-- A sector sent to a controller that waits for it. -/
theorem Inv.portWrite {s : Sys B σ} {r : Req B} {q : List (Req B)} (hq : s.queue = r :: q) (h : Queued c s) (hl : Logged c s)
    (hcmd : r.cmd = .write) (hdo : s.doHd = some .writeIntr) (hdev : r.dev < 5 * c.nrHd)
    (hctl : s.ctl = .wait (r.dev / 5) ((c.hd r.dev).start + r.sector) r.nr) :
    Inv c (s.portWrite r) ∧ SameData s (s.portWrite r) := by
  have hqueued := h.portWrite hq
  rw [portWrite_wait hctl] at hqueued ⊢
  refine ⟨⟨hqueued, hl.of_eq rfl rfl, ?_⟩, rfl, rfl⟩
  refine ⟨r, q, hq, hcmd, hdo, hdev, rfl, rfl, rfl, ?_⟩
  dsimp only
  rw [Function.update_self, Function.update_self]

omit [DecidableEq B] in
theorem refused_dev {r : Req B} (h : ¬ refused c r = true) : r.dev < 5 * c.nrHd := by
  unfold refused at h
  rw [Bool.or_eq_true, not_or, decide_eq_true_eq] at h
  omega

/-- `do_hd_request` gives the controller the first request it does not refuse. -/
theorem doHdRequest_inv {drq : Nat → Bool} {junk : Bool} {fuel : Nat} : ∀ {k : Nat} {s s' : Sys B σ},
    Queued c s → Logged c s → s.ctl = .idle → doHdRequest c drq junk fuel k s = some s' → Inv c s' ∧ SameData s s' := by
  induction fuel with
  | zero =>
    intro k s s' _ _ _ h
    cases h
  | succ fuel ih =>
    intro k s s' hq hl hi h
    rw [doHdRequest] at h
    split at h
    · cases h
      refine ⟨⟨hq, hl, ?_⟩, .refl s⟩
      rw [CtlOk, hi]
      trivial
    rename_i r q hqueue
    obtain ⟨j, hj, hdone⟩ := hq.first r q hqueue
    split at h
    · -- refused
      obtain ⟨hd, -, hc, -⟩ := endRequest_rest s false
      obtain ⟨hinv, hd'⟩ := ih (hq.pop (endRequest_queue s false)) (hl.endRequest fun hu => by cases hu) (hc.trans hi) h
      exact ⟨hinv, hd.trans hd'⟩
    rename_i href
    have hdev := refused_dev href
    dsimp only at h
    rw [(hj.block hdev).1] at h
    split at h
    · cases h
    rename_i hgeo
    rw [not_or] at hgeo
    split at h
    · -- a reset
      rw [hdOutOther_eq h]
      exact ⟨⟨hq.of_eq rfl rfl rfl rfl, hl.of_eq rfl rfl, rfl, by rw [hqueue]; exact List.cons_ne_nil r q⟩, rfl, rfl⟩
    split at h
    · -- a recalibration
      rw [hdOutOther_eq h]
      exact ⟨⟨hq.of_eq rfl rfl rfl rfl, hl.of_eq rfl rfl, rfl, by rw [hqueue]; exact List.cons_ne_nil r q⟩, rfl, rfl⟩
    cases hcmd : r.cmd with
    | read =>
      rw [hcmd] at h
      have heq := hdOut_eq hj.nr_le hgeo.1 (hj.block hdev).2.1 h
      rw [hcmd] at heq
      subst heq
      exact ⟨⟨hq.of_eq rfl rfl rfl rfl, hl.sentOut hj hdev hgeo.1 _ _, r, q, hqueue, hcmd, rfl, hdev, rfl, rfl, rfl⟩, rfl, rfl⟩
    | write =>
      rw [hcmd] at h
      dsimp only at h
      split at h
      · cases h
      rename_i s₁ hout
      have heq := hdOut_eq hj.nr_le hgeo.1 (hj.block hdev).2.1 hout
      rw [hcmd] at heq
      have hq₁ : Queued c s₁ := by
        subst heq
        exact hq.of_eq rfl rfl rfl rfl
      have hl₁ : Logged c s₁ := by
        subst heq
        exact hl.sentOut hj hdev hgeo.1 _ _
      have hd₁ : SameData s s₁ := by
        subst heq
        exact ⟨rfl, rfl⟩
      split at h
      · cases h
        have hp : Inv c (s₁.portWrite r) ∧ SameData s₁ (s₁.portWrite r) := by
          subst heq
          exact Inv.portWrite hqueue hq₁ hl₁ hcmd rfl hdev rfl
        exact ⟨hp.1, hd₁.trans hp.2⟩
      · -- no DRQ
        obtain ⟨hd, hc⟩ := badRwIntr_rest { s₁ with ctl := .idle } junk
        have hq₂ : Queued c { s₁ with ctl := .idle } := hq₁.of_eq rfl rfl rfl rfl
        have hl₂ : Logged c { s₁ with ctl := .idle } := hl₁.of_eq rfl rfl
        obtain ⟨hinv, hd'⟩ := ih (hq₂.badRwIntr junk) (hl₂.badRwIntr junk) hc h
        exact ⟨hinv, hd₁.trans (SameData.trans ⟨hd.disk, hd.data⟩ hd')⟩

/-! ## How often a request is tried -/

omit [DecidableEq B] in
/-- What is left of the attempts. -/
def attempts : List (Req B) → Nat
  | [] => 0
  | r :: q => (8 - r.errors) + attempts q

omit [DecidableEq B] in
theorem attempts_le (q : List (Req B)) : attempts q ≤ 8 * q.length := by
  induction q with
  | nil => exact Nat.le_refl _
  | cons r q ih =>
    rw [attempts, List.length_cons]
    omega

omit [DecidableEq B] in
theorem attempts_badRwIntr {s : Sys B σ} {r : Req B} {q : List (Req B)} (hq : s.queue = r :: q) (he : r.errors < 7) (junk : Bool) :
    attempts (s.badRwIntr junk).queue < (8 - r.errors) + attempts q := by
  rw [Sys.badRwIntr, hq]
  dsimp only
  rw [(checkErrors_rest junk _).1]
  split
  · rw [endRequest_queue, List.tail_cons]
    omega
  · rw [attempts]
    dsimp only
    omega

omit [DecidableEq B] in
theorem hdOut_same {s s' : Sys B σ} {r : Req B} {drive nsect sec head cyl : Nat} (h : s.hdOut c r drive nsect sec head cyl = some s') :
    s'.queue = s.queue ∧ s'.disk = s.disk ∧ s'.data = s.data ∧ s'.sent = s.sent := by
  unfold Sys.hdOut at h
  split at h
  · cases h
  · cases hc : r.cmd <;> rw [hc] at h <;> cases h <;> exact ⟨rfl, rfl, rfl, rfl⟩

/-- The bound on the attempts is never what ends them. -/
theorem doHdRequest_fuel {drq : Nat → Bool} {junk : Bool} {fuel fuel' : Nat} : ∀ {k : Nat} {s : Sys B σ}, Queued c s →
    attempts s.queue < fuel → fuel ≤ fuel' → doHdRequest c drq junk fuel k s = doHdRequest c drq junk fuel' k s := by
  induction fuel generalizing fuel' with
  | zero =>
    intro k s _ hlt
    exact absurd hlt (Nat.not_lt_zero _)
  | succ fuel ih =>
    intro k s hq hlt hle
    obtain ⟨fuel', rfl⟩ : ∃ n, fuel' = n + 1 := ⟨fuel' - 1, by omega⟩
    rw [doHdRequest, doHdRequest]
    split
    · rfl
    rename_i r q hqueue
    obtain ⟨j, hj, -⟩ := hq.first r q hqueue
    have he := hj.errors
    rw [hqueue, attempts] at hlt
    have hend : doHdRequest c drq junk fuel k (s.endRequest false) = doHdRequest c drq junk fuel' k (s.endRequest false) := by
      refine ih (hq.pop (endRequest_queue s false)) ?_ (by omega)
      rw [endRequest_queue, hqueue, List.tail_cons]
      omega
    rw [hend]
    cases hcmd : r.cmd with
    | read => rfl
    | write =>
      dsimp only
      cases hout : s.hdOut c r (r.dev / 5) r.nr
          ((r.sector + (c.hd r.dev).start) % 4294967296 % (c.info (r.dev / 5)).sect + 1)
          ((r.sector + (c.hd r.dev).start) % 4294967296 / (c.info (r.dev / 5)).sect % (c.info (r.dev / 5)).head)
          ((r.sector + (c.hd r.dev).start) % 4294967296 / (c.info (r.dev / 5)).sect / (c.info (r.dev / 5)).head) with
      | none => rfl
      | some s₁ =>
        dsimp only
        obtain ⟨h1, h2, h3, h4⟩ := hdOut_same hout
        have hq₁ : Queued c { s₁ with ctl := .idle } := hq.of_eq h1 h2 h3 h4
        have hless := attempts_badRwIntr (s := { s₁ with ctl := .idle }) (h1.trans hqueue) he junk
        have hagain : doHdRequest c drq junk fuel (k + 1) ({ s₁ with ctl := .idle }.badRwIntr junk) =
            doHdRequest c drq junk fuel' (k + 1) ({ s₁ with ctl := .idle }.badRwIntr junk) :=
          ih (hq₁.badRwIntr junk) (by omega) (by omega)
        rw [hagain]

/-- With more fuel `do_hd_request` would do the same. -/
theorem doHdRequest_enough {drq : Nat → Bool} {junk : Bool} {fuel k : Nat} {s : Sys B σ} (hq : Queued c s) (hf : s.fuel ≤ fuel) :
    doHdRequest c drq junk s.fuel k s = doHdRequest c drq junk fuel k s :=
  doHdRequest_fuel hq (Nat.lt_succ_of_le (attempts_le s.queue)) hf

/-! ## Interrupts -/

omit [DecidableEq B] in
/-- A request that goes on to its second sector. -/
theorem Req.Ok.forward {r : Req B} (h : r.Ok c 0) (hdev : r.dev < 5 * c.nrHd) : r.forward.Ok c 1 := by
  have hs := h.sector hdev
  refine ⟨by decide, fun _ => ?_, ?_, ?_, h.errors, h.fits⟩
  · have hlt : r.sector + 1 < 4294967296 := by
      have hf := h.fits hdev
      have hle : (c.info (r.dev / 5)).head * (c.info (r.dev / 5)).sect ≤ 255 * 255 :=
        Nat.mul_le_mul (c.info (r.dev / 5)).head_le (c.info (r.dev / 5)).sect_le
      unfold Req.base at hf
      omega
    rw [Req.forward]
    dsimp only
    rw [Nat.mod_eq_of_lt hlt, hs]
  · rw [Req.forward, h.nr]
  · rw [Req.forward, h.buf]

omit [DecidableEq B] in
theorem Req.Ok.forgive {r : Req B} {k : Nat} (h : r.Ok c k) : Req.Ok c { r with errors := 0 } k :=
  ⟨h.lt, h.sector, h.nr, h.buf, Nat.succ_pos 6, h.fits⟩

omit [DecidableEq B] in
/-- The sectors before the one the controller writes stay done. -/
theorem Done.disk_update {disk : Nat → Nat → σ} {data sent : Nat → σ} {r : Req B} {j k : Nat} (h : Done c disk data sent r j)
    (hj : j ≠ k) (v : σ) :
    Done c (Function.update disk (r.dev / 5) (Function.update (disk (r.dev / 5)) (r.base c + k) v)) data sent r j := by
  have hne : r.base c + j ≠ r.base c + k := by omega
  unfold Done at h ⊢
  rw [Function.update_self, Function.update_of_ne hne]
  exact h

omit [DecidableEq B] in
theorem Done.of_written (disk : Nat → Nat → σ) (data sent : Nat → σ) {r : Req B} (hcmd : r.cmd = .write) (k : Nat) :
    Done c (Function.update disk (r.dev / 5) (Function.update (disk (r.dev / 5)) (r.base c + k) (sent k))) data sent r k := by
  unfold Done
  rw [hcmd]
  dsimp only
  rw [Function.update_self, Function.update_self]

omit [DecidableEq B] in
theorem Done.data_update {disk : Nat → Nat → σ} {data sent : Nat → σ} {r : Req B} {j k : Nat} (h : Done c disk data sent r j)
    (hj : j ≠ k) (v : σ) : Done c disk (Function.update data k v) sent r j := by
  unfold Done at h ⊢
  rw [Function.update_of_ne hj]
  exact h

omit [DecidableEq B] in
theorem Done.of_read (disk : Nat → Nat → σ) (data sent : Nat → σ) {r : Req B} (hcmd : r.cmd = .read) (k : Nat) :
    Done c disk (Function.update data k (disk (r.dev / 5) (r.base c + k))) sent r k := by
  unfold Done
  rw [hcmd]
  dsimp only
  rw [Function.update_self]

omit [DecidableEq B] in
theorem Done.congr {disk : Nat → Nat → σ} {data sent : Nat → σ} {r r' : Req B} {j : Nat} (h : Done c disk data sent r j)
    (hcmd : r'.cmd = r.cmd) (hdev : r'.dev = r.dev) (hb : r'.blocknr = r.blocknr) : Done c disk data sent r' j := by
  unfold Done Req.base at h ⊢
  rw [hcmd, hdev, hb]
  exact h

/-- A sector that the request at the head may change. -/
def Touches (c : Config) (s : Sys B σ) (d x : Nat) : Prop :=
  ∃ r q, s.queue = r :: q ∧ r.cmd = .write ∧ d = r.dev / 5 ∧ (x = r.base c ∨ x = r.base c + 1)

/-- After an error. -/
theorem Inv.retry {s s' : Sys B σ} {x : Outcome σ} {fuel : Nat}
    (h : doHdRequest c x.drq x.junk fuel 0 (s.badRwIntr x.junk) = some s') (hq : Queued c s) (hl : Logged c s)
    (hi : s.ctl = .idle) : Inv c s' ∧ SameData s s' := by
  obtain ⟨hd, hc⟩ := badRwIntr_rest s x.junk
  obtain ⟨hinv, hd'⟩ := doHdRequest_inv (hq.badRwIntr x.junk) (hl.badRwIntr x.junk) (hc.trans hi) h
  exact ⟨hinv, hd.trans hd'⟩

/-- After the second sector. -/
theorem Inv.finish {s s' : Sys B σ} {x : Outcome σ} {fuel : Nat} {r : Req B} {q : List (Req B)}
    (h : doHdRequest c x.drq x.junk fuel 0 (s.endRequest true) = some s') (hqueue : s.queue = r :: q)
    (hrest : ∀ r ∈ q, r.Ok c 0) (hl : Logged c s) (hi : s.ctl = .idle)
    (hdone : ∀ k < 2, Done c s.disk (s.data r.bh) (s.sent r.bh) r k) : Inv c s' ∧ SameData s s' := by
  obtain ⟨hd, -, hc, -⟩ := endRequest_rest s true
  have hq : Queued c (s.endRequest true) := by
    have he : (s.endRequest true).queue = q := by rw [endRequest_queue, hqueue]; rfl
    refine ⟨fun r' q' hr' => ⟨0, hrest r' ?_, fun j hj => absurd hj (Nat.not_lt_zero j)⟩, fun r' hr' => hrest r' ?_⟩
    · rw [← he, hr']
      exact List.mem_cons_self
    · rw [he] at hr'
      exact List.mem_of_mem_tail hr'
  have hl' : Logged c (s.endRequest true) := by
    apply hl.endRequest
    intro _ r' q' hr'
    rw [hqueue] at hr'
    obtain ⟨rfl, rfl⟩ := List.cons.inj hr'
    exact hdone
  obtain ⟨hinv, hd'⟩ := doHdRequest_inv hq hl' (hc.trans hi) h
  exact ⟨hinv, hd.trans hd'⟩

/-- The next request, or the sector after, once a sector has been read. -/
theorem readIntr_ok {s s' : Sys B σ} {x : Outcome σ} {r : Req B} {q : List (Req B)} {k : Nat} {v : σ}
    (h : readIntr c x (some v) s = some s') (hv : v = s.disk (r.dev / 5) (r.base c + k)) (hqueue : s.queue = r :: q)
    (hk : r.Ok c k) (hdone : ∀ j < k, Done c s.disk (s.data r.bh) (s.sent r.bh) r j) (hrest : ∀ r ∈ q, r.Ok c 0)
    (hl : Logged c s) (hcmd : r.cmd = .read) (hdev : r.dev < 5 * c.nrHd)
    (hctl : s.ctl = if r.nr = 1 then .idle else .read (r.dev / 5) ((c.hd r.dev).start + r.sector + 1) (r.nr - 1)) :
    Inv c s' ∧ s'.disk = s.disk := by
  have hnr := hk.nr
  have hlt := hk.lt
  have hnow : ∀ j < k + 1, Done c s.disk (Function.update (s.data r.bh) r.buf v) (s.sent r.bh) r j := by
    intro j hj
    rw [hk.buf, hv]
    rcases Nat.lt_succ_iff_lt_or_eq.1 hj with hj | rfl
    · exact (hdone j hj).data_update (Nat.ne_of_lt hj) _
    · exact Done.of_read s.disk _ _ hcmd j
  unfold readIntr at h
  rw [hqueue] at h
  dsimp only at h
  split at h
  · rename_i hmore
    cases h
    have hnz : r.nr - 1 ≠ 0 := hmore
    obtain rfl : k = 0 := by omega
    have hnext := (hk.forward hdev).forgive
    refine ⟨⟨⟨fun r' q' hq' => ?_, hrest⟩, hl.of_eq rfl rfl, ?_⟩, rfl⟩
    · obtain ⟨rfl, rfl⟩ := List.cons.inj hq'
      refine ⟨1, hnext, fun j hj => ?_⟩
      dsimp only [Req.forward]
      rw [Function.update_self]
      exact (hnow j hj).congr rfl rfl rfl
    · rw [if_neg (by omega)] at hctl
      rw [CtlOk]
      dsimp only
      rw [hctl]
      refine ⟨_, q, rfl, hcmd, rfl, hdev, rfl, ?_, rfl⟩
      rw [hnext.sector hdev, hk.sector hdev]
      rfl
  · rename_i hlast
    have hz : ¬ r.nr - 1 ≠ 0 := hlast
    obtain rfl : k = 1 := by omega
    rw [if_pos hnr] at hctl
    obtain ⟨hinv, hd⟩ := Inv.finish h rfl hrest (hl.of_eq rfl rfl) hctl (by
      intro j hj
      dsimp only [Req.forward]
      rw [Function.update_self]
      exact (hnow j hj).congr rfl rfl rfl)
    exact ⟨hinv, hd.disk⟩

theorem readIntr_none (x : Outcome σ) (s : Sys B σ) : readIntr c x none s =
    doHdRequest c x.drq x.junk (s.badRwIntr x.junk).fuel 0 (s.badRwIntr x.junk) := by
  unfold readIntr
  split
  · rename_i hv
    cases hv
  · rfl

/-- An interrupt while a sector is being read. -/
theorem Inv.read {s s' : Sys B σ} (h : Inv c s) {drive sector n : Nat} (hctl : s.ctl = .read drive sector n) {x : Outcome σ}
    (hs : readIntr c x (s.controller x).2 { (s.controller x).1 with doHd := none } = some s') : Inv c s' ∧ s'.disk = s.disk := by
  have hc := h.ctl
  rw [CtlOk, hctl] at hc
  obtain ⟨r, q, hqueue, hcmd, -, hdev, rfl, rfl, rfl⟩ := hc
  obtain ⟨k, hk, hdone⟩ := h.queued.first r q hqueue
  have hrest : ∀ r ∈ q, r.Ok c 0 := by
    have := h.queued.rest
    rw [hqueue] at this
    exact this
  rw [Sys.controller, hctl] at hs
  dsimp only at hs
  split at hs
  · dsimp only at hs
    rw [(hk.block hdev).2.2] at hs
    have hnext := readIntr_ok hs rfl hqueue hk hdone hrest (h.logged.of_eq rfl rfl) hcmd hdev (by
      dsimp only
      rw [(hk.block hdev).2.2])
    exact hnext
  · dsimp only at hs
    rw [readIntr_none] at hs
    obtain ⟨hinv, hd⟩ := Inv.retry hs (h.queued.of_eq rfl rfl rfl rfl) (h.logged.of_eq rfl rfl) rfl
    exact ⟨hinv, hd.disk⟩

/-- The next request, or the sector after, once a sector has been written. -/
theorem writeIntr_ok {s s' : Sys B σ} {x : Outcome σ} {r : Req B} {q : List (Req B)} {k : Nat}
    (h : writeIntr c x s = some s') (hx : x.success = true)
    (hqueue : s.queue = r :: q) (hk : r.Ok c k) (hdone : ∀ j < k + 1, Done c s.disk (s.data r.bh) (s.sent r.bh) r j)
    (hrest : ∀ r ∈ q, r.Ok c 0) (hl : Logged c s) (hcmd : r.cmd = .write) (hdev : r.dev < 5 * c.nrHd)
    (hctl : s.ctl = if r.nr = 1 then .idle else .wait (r.dev / 5) ((c.hd r.dev).start + r.sector + 1) (r.nr - 1)) :
    Inv c s' ∧ s'.disk = s.disk := by
  have hnr := hk.nr
  have hlt := hk.lt
  unfold writeIntr at h
  rw [hqueue, hx] at h
  dsimp only at h
  split at h
  · rename_i hmore
    cases h
    obtain rfl : k = 0 := by omega
    have hnext := hk.forward hdev
    rw [if_neg (by omega)] at hctl
    have hq : Queued c { s with queue := r.forward :: q, doHd := some .writeIntr } := by
      refine ⟨fun r' q' hq' => ?_, hrest⟩
      obtain ⟨rfl, rfl⟩ := List.cons.inj hq'
      exact ⟨1, hnext, fun j hj => (hdone j hj).congr rfl rfl rfl⟩
    have hwait : s.ctl = .wait (r.forward.dev / 5) ((c.hd r.forward.dev).start + r.forward.sector) r.forward.nr := by
      rw [hctl, hnext.sector hdev, hk.sector hdev]
      rfl
    obtain ⟨hinv, hd⟩ := Inv.portWrite (r := r.forward) rfl hq (hl.of_eq rfl rfl) hcmd rfl hdev hwait
    exact ⟨hinv, hd.disk⟩
  · rename_i hlast
    obtain rfl : k = 1 := by omega
    rw [if_pos hnr] at hctl
    obtain ⟨hinv, hd⟩ := Inv.finish h rfl hrest (hl.of_eq rfl rfl) hctl fun j hj => (hdone j hj).congr rfl rfl rfl
    exact ⟨hinv, hd.disk⟩

theorem writeIntr_fail {x : Outcome σ} (hx : x.success = false) (s : Sys B σ) : writeIntr c x s =
    doHdRequest c x.drq x.junk (s.badRwIntr x.junk).fuel 0 (s.badRwIntr x.junk) := by
  unfold writeIntr
  rw [hx]
  split
  · rename_i hv
    cases hv
  · rfl

/-- An interrupt while a sector is being written. -/
theorem Inv.write {s s' : Sys B σ} (h : Inv c s) {drive sector n : Nat} {v : σ} (hctl : s.ctl = .write drive sector n v)
    {x : Outcome σ} (hs : writeIntr c x { (s.controller x).1 with doHd := none } = some s') :
    Inv c s' ∧ ∀ d y, s'.disk d y ≠ s.disk d y → Touches c s d y := by
  have hc := h.ctl
  rw [CtlOk, hctl] at hc
  obtain ⟨r, q, hqueue, hcmd, -, hdev, rfl, rfl, rfl, rfl⟩ := hc
  obtain ⟨k, hk, hdone⟩ := h.queued.first r q hqueue
  have hrest : ∀ r ∈ q, r.Ok c 0 := by
    have := h.queued.rest
    rw [hqueue] at this
    exact this
  have hlt := hk.lt
  have htouch : ∀ w d y,
      Function.update s.disk (r.dev / 5) (Function.update (s.disk (r.dev / 5)) (r.base c + k) w) d y ≠ s.disk d y →
      Touches c s d y := by
    intro w d y hne
    by_cases hd : d = r.dev / 5
    · subst hd
      rw [Function.update_self] at hne
      by_cases hy : y = r.base c + k
      · exact ⟨r, q, hqueue, hcmd, rfl, by omega⟩
      · rw [Function.update_of_ne hy] at hne
        exact absurd rfl hne
    · rw [Function.update_of_ne hd] at hne
      exact absurd rfl hne
  rw [Sys.controller, hctl] at hs
  dsimp only at hs
  split at hs
  · rename_i hx
    dsimp only at hs
    rw [(hk.block hdev).2.2, hk.buf] at hs
    have hnow : ∀ j < k + 1, Done c
        (Function.update s.disk (r.dev / 5) (Function.update (s.disk (r.dev / 5)) (r.base c + k) (s.sent r.bh k)))
        (s.data r.bh) (s.sent r.bh) r j := by
      intro j hj
      rcases Nat.lt_succ_iff_lt_or_eq.1 hj with hj | rfl
      · exact (hdone j hj).disk_update (Nat.ne_of_lt hj) _
      · exact Done.of_written s.disk _ _ hcmd j
    obtain ⟨hinv, hd⟩ := writeIntr_ok hs hx hqueue hk hnow hrest (h.logged.of_eq rfl rfl) hcmd hdev (by
      dsimp only
      rw [(hk.block hdev).2.2])
    rw [hd]
    exact ⟨hinv, htouch _⟩
  · rename_i hx
    dsimp only at hs
    rw [(hk.block hdev).2.2] at hs
    rw [writeIntr_fail (Bool.not_eq_true _ ▸ hx)] at hs
    have hq : Queued c { s with
        ctl := .idle
        doHd := none
        disk := Function.update s.disk (r.dev / 5) (Function.update (s.disk (r.dev / 5)) (r.base c + k) x.left) } := by
      refine ⟨fun r' q' hq' => ?_, h.queued.rest⟩
      rw [show r' = r from (List.cons.inj (hq'.symm.trans hqueue)).1]
      exact ⟨k, hk, fun j hj => (hdone j hj).disk_update (Nat.ne_of_lt hj) _⟩
    obtain ⟨hinv, hd⟩ := Inv.retry hs hq (h.logged.of_eq rfl rfl) rfl
    rw [hd.disk]
    exact ⟨hinv, htouch _⟩

/-- An interrupt after a reset or a recalibration. -/
theorem Inv.recal {s s' : Sys B σ} (h : Inv c s) (hctl : s.ctl = .other) {x : Outcome σ}
    (hs : recalIntr c x { (s.controller x).1 with doHd := none } = some s') : Inv c s' ∧ s'.disk = s.disk := by
  rw [Sys.controller, hctl] at hs
  dsimp only [recalIntr] at hs
  have hq : Queued c { s with ctl := .idle, doHd := none } := h.queued.of_eq rfl rfl rfl rfl
  have hl : Logged c { s with ctl := .idle, doHd := none } := h.logged.of_eq rfl rfl
  split at hs
  · obtain ⟨hinv, hd⟩ := doHdRequest_inv hq hl rfl hs
    exact ⟨hinv, hd.disk⟩
  · obtain ⟨hinv, hd⟩ := Inv.retry hs hq hl rfl
    exact ⟨hinv, hd.disk⟩

/-! ## Runs -/

omit [DecidableEq B] in
theorem Req.make_ok {dev : Nat} {cmd : Cmd} {bh : B} {blocknr : Nat} (h : dev < 5 * c.nrHd →
    (c.hd dev).start + 2 * blocknr + 1 < 65536 * ((c.info (dev / 5)).head * (c.info (dev / 5)).sect)) :
    (Req.make dev cmd bh blocknr).Ok c 0 := by
  refine ⟨by decide, fun hdev => ?_, rfl, rfl, Nat.succ_pos 6, h⟩
  have hf := h hdev
  have hle : (c.info (dev / 5)).head * (c.info (dev / 5)).sect ≤ 255 * 255 :=
    Nat.mul_le_mul (c.info (dev / 5)).head_le (c.info (dev / 5)).sect_le
  exact Nat.mod_eq_of_lt (by omega)

/-- A request that comes in. -/
theorem Inv.add {s s' : Sys B σ} (h : Inv c s) {dev : Nat} {cmd : Cmd} {bh : B} {blocknr place : Nat} {x : Outcome σ}
    (hok : addressable c s (.add dev cmd bh blocknr place x)) (hs : step c s (.add dev cmd bh blocknr place x) = some s') :
    Inv c s' ∧ s'.disk = s.disk := by
  have hnew : (Req.make dev cmd bh blocknr).Ok c 0 := Req.make_ok hok
  unfold step at hs
  dsimp only at hs
  split at hs
  · rename_i hqueue
    have hidle : s.ctl = .idle := h.idle hqueue
    have hq : Queued c { s with queue := [.make dev cmd bh blocknr] } := by
      refine ⟨fun r q hr => ?_, fun r hr => absurd hr List.not_mem_nil⟩
      obtain ⟨rfl, rfl⟩ := List.cons.inj hr
      exact ⟨0, hnew, fun j hj => absurd hj (Nat.not_lt_zero j)⟩
    obtain ⟨hinv, hd⟩ := doHdRequest_inv hq (h.logged.of_eq rfl rfl) hidle hs
    exact ⟨hinv, hd.disk⟩
  · rename_i r q hqueue
    cases hs
    refine ⟨⟨⟨fun r' q' hr' => ?_, fun r' hr' => ?_⟩, h.logged.of_eq rfl rfl, ?_⟩, rfl⟩
    · rw [← (List.cons.inj hr').1]
      exact h.queued.first r q hqueue
    · have hrest := h.queued.rest
      rw [hqueue] at hrest
      rcases List.mem_append.1 hr' with hr' | hr'
      · exact hrest r' (List.mem_of_mem_take hr')
      · rcases List.mem_cons.1 hr' with rfl | hr'
        · exact hnew
        · exact hrest r' (List.mem_of_mem_drop hr')
    · exact h.ctl.of_head hqueue rfl rfl rfl rfl

/-- A task's store. -/
theorem Inv.store {s s' : Sys B σ} (h : Inv c s) {b : B} {k : Nat} {v : σ} (hs : step c s (.store b k v) = some s') :
    Inv c s' ∧ s'.disk = s.disk := by
  unfold step at hs
  dsimp only at hs
  split at hs
  · cases hs
  rename_i hany
  cases hs
  refine ⟨⟨⟨fun r q hr => ?_, h.queued.rest⟩, h.logged.of_eq rfl rfl, h.ctl⟩, rfl⟩
  obtain ⟨j, hj, hdone⟩ := h.queued.first r q hr
  refine ⟨j, hj, fun i hi => ?_⟩
  have hi := hdone i hi
  unfold Done at hi ⊢
  dsimp only
  cases hcmd : r.cmd with
  | read =>
    rw [hcmd] at hi
    have hne : r.bh ≠ b := by
      intro he
      apply hany
      rw [List.any_eq_true]
      refine ⟨r, ?_, ?_⟩
      · rw [show s.queue = r :: q from hr]
        exact List.mem_cons_self
      · rw [Bool.and_eq_true]
        exact ⟨decide_eq_true he, decide_eq_true hcmd⟩
    rw [Function.update_of_ne hne]
    exact hi
  | write =>
    rw [hcmd] at hi
    exact hi

/-- An interrupt. -/
theorem Inv.interrupt {s s' : Sys B σ} (h : Inv c s) {x : Outcome σ} (hs : step c s (.interrupt x) = some s') :
    Inv c s' ∧ ∀ d y, s'.disk d y ≠ s.disk d y → Touches c s d y := by
  have hc := h.ctl
  unfold CtlOk at hc
  unfold step at hs
  dsimp only at hs
  split at hc
  · rename_i hctl
    rw [hctl] at hs
    cases hs
  · rename_i hctl
    rw [hctl, hc.1] at hs
    obtain ⟨hinv, hd⟩ := h.recal hctl hs
    exact ⟨hinv, fun d y hne => absurd (by rw [hd]) hne⟩
  · exact hc.elim
  · rename_i hctl
    obtain ⟨r, q, -, -, hdo, -⟩ := hc
    rw [hctl, hdo] at hs
    obtain ⟨hinv, hd⟩ := h.read hctl hs
    exact ⟨hinv, fun d y hne => absurd (by rw [hd]) hne⟩
  · rename_i hctl
    obtain ⟨r, q, -, -, hdo, -⟩ := hc
    rw [hctl, hdo] at hs
    exact h.write hctl hs

theorem Inv.step {s s' : Sys B σ} {o : Op B σ} (h : Inv c s) (hok : addressable c s o) (hs : step c s o = some s') :
    Inv c s' ∧ ∀ d y, s'.disk d y ≠ s.disk d y → Touches c s d y := by
  cases o with
  | add dev cmd bh blocknr place x =>
    obtain ⟨hinv, hd⟩ := h.add hok hs
    exact ⟨hinv, fun d y hne => absurd (by rw [hd]) hne⟩
  | interrupt x => exact h.interrupt hs
  | store b k v =>
    obtain ⟨hinv, hd⟩ := h.store hs
    exact ⟨hinv, fun d y hne => absurd (by rw [hd]) hne⟩

/-- **Transfers are right** whatever fails on the way: a request that ends well has both its sectors, every
command goes to the sector the request has come to, and nothing else on the disk is changed. -/
theorem transfers_right {s₀ s : Sys B σ} (h₀ : s₀.Start)
    (h : Run.Reaches (Run.Under (addressable c) (Run.Fires (step c))) s₀ s) :
    (∀ e ∈ s.ended, e.uptodate = true → ∀ k < 2,
      (e.req.cmd = .read → e.data k = e.disk (e.req.dev / 5) ((c.hd e.req.dev).start + 2 * e.req.blocknr + k)) ∧
      (e.req.cmd = .write → e.disk (e.req.dev / 5) ((c.hd e.req.dev).start + 2 * e.req.blocknr + k) = e.sent k)) ∧
    (∀ o ∈ s.outs, o.drive = o.req.dev / 5 ∧
      (c.info o.drive).absolute o.cyl o.head o.sec = (c.hd o.req.dev).start + o.req.sector) ∧
    ∀ op s', addressable c s op → step c s op = some s' → ∀ d x, s'.disk d x ≠ s.disk d x →
      ∃ r q, s.queue = r :: q ∧ r.cmd = .write ∧ d = r.dev / 5 ∧
        (x = (c.hd r.dev).start + 2 * r.blocknr ∨ x = (c.hd r.dev).start + 2 * r.blocknr + 1) := by
  have hI : Inv c s := h.invariant (fun s o s' hs hst => (hs.step hst.1 hst.2).1) (.start h₀)
  refine ⟨fun e he hu k hk => ?_, hI.logged.outs, fun op s' hok hs => (hI.step hok hs).2⟩
  have hd := hI.logged.ended e he hu k hk
  unfold Done at hd
  refine ⟨fun hcmd => ?_, fun hcmd => ?_⟩
  · rw [hcmd] at hd
    exact hd
  · rw [hcmd] at hd
    exact hd

/-- A drive of 16 heads and 63 sectors; its partition starts with cylinder 60000 and has 5000. -/
def large : Config where
  nrHd := 1
  info _ := Geometry.usual
  hd _ := ⟨60480000, 5040000⟩

/-- One buffer with a 7 and an 8, and a disk of zeros. -/
def blank : Sys Unit Nat where
  queue := []
  reset := false
  recalibrate := false
  doHd := none
  ctl := .idle
  disk _ _ := 0
  data _ k := 7 + k
  sent _ _ := 0
  ended := []
  outs := []

theorem blank_start : blank.Start := ⟨rfl, rfl, rfl, rfl⟩

/-- The controller succeeds, or leaves a 9. -/
def outcome (success : Bool) : Outcome Nat := ⟨success, 9, fun _ => true, false⟩

/-- Requests for block 5 only. -/
def fifth : Op Unit Nat → Bool
  | .add _ _ _ n _ _ => decide (n = 5)
  | _ => true

theorem transfers_right_retried : ∃ s, Run.Reaches (Run.Under (addressable large) (Run.Fires (step large))) blank s ∧
    ∃ e ∈ s.ended, e.uptodate = true ∧ e.disk 0 60480010 = e.sent 0 ∧ e.disk 0 60480011 = e.sent 1 := by
  obtain ⟨s, hs, hp⟩ := Run.reaches_of_exec (fun _ o => fifth o) (step large) blank
    [.add 1 .write () 5 0 (outcome true), .interrupt (outcome false), .interrupt (outcome true), .interrupt (outcome false),
      .interrupt (outcome true)]
    (fun s => s.ended.any fun e => e.uptodate && decide (e.req.dev = 1 ∧ e.req.blocknr = 5 ∧ e.req.cmd = .write)) (by decide)
  have hs' : Run.Reaches (Run.Under (addressable large) (Run.Fires (step large))) blank s := by
    refine hs.under_mono fun s o ho => ?_
    cases o with
    | add dev cmd bh n place x =>
      intro _
      rw [of_decide_eq_true ho]
      exact (by decide : 60480000 + 2 * 5 + 1 < 65536 * (16 * 63))
    | _ => trivial
  obtain ⟨e, he, hp⟩ := List.any_eq_true.1 hp
  obtain ⟨hu, hp⟩ := Bool.and_eq_true_iff.1 hp
  obtain ⟨hdev, hn, hcmd⟩ := of_decide_eq_true hp
  have hright := (transfers_right blank_start hs').1 e he hu
  have h0 := (hright 0 (by decide)).2 hcmd
  have h1 := (hright 1 (by decide)).2 hcmd
  rw [hdev, hn] at h0 h1
  exact ⟨s, hs', e, he, hu, h0, h1⟩

/-- The cylinder of a sector past the 65536th loses its upper bits: the write goes to the start of the disk, and ends well. -/
theorem write_wraps : ∃ s, Run.Reaches (Run.Fires (step large)) blank s ∧ s.disk 0 0 = 7 ∧
    ∃ e ∈ s.ended, e.uptodate = true ∧ e.req.cmd = .write ∧
      e.disk (e.req.dev / 5) ((large.hd e.req.dev).start + 2 * e.req.blocknr) ≠ e.sent 0 := by
  obtain ⟨s, hs, hp⟩ := Run.reaches_of_exec (fun _ _ => true) (step large) blank
    [.add 1 .write () 2790144 0 (outcome true), .interrupt (outcome true), .interrupt (outcome true)]
    (fun s => decide (s.disk 0 0 = 7) && s.ended.any fun e => e.uptodate && decide (e.req.cmd = .write ∧
      e.disk (e.req.dev / 5) ((large.hd e.req.dev).start + 2 * e.req.blocknr) ≠ e.sent 0)) (by decide)
  obtain ⟨hd, hp⟩ := Bool.and_eq_true_iff.1 hp
  obtain ⟨e, he, hp⟩ := List.any_eq_true.1 hp
  obtain ⟨hu, hp⟩ := Bool.and_eq_true_iff.1 hp
  obtain ⟨hcmd, hne⟩ := of_decide_eq_true hp
  exact ⟨s, hs.of_under, of_decide_eq_true hd, e, he, hu, hcmd, hne⟩

end Linux011.Blk.Hd
