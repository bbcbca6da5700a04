/-
Partitions of the hard disk: which requests `do_hd_request` takes, and which sectors it lets them reach.

The test compares the sector, which is relative to the partition, with the partition's last sector on the
whole disk, less one. So it is right only where the two come to the same: for a partition
at sector 1, or by rounding at sector 0 or 2. Elsewhere a request may reach into
the next partition, or is refused at the end of its own; and for an empty entry the bound wraps around.
-/
import Linux011.Blk.HdTransfers

namespace Linux011.Blk.Hd

variable {B σ : Type*} {c : Config}

/-- The partition's bound comes to its size in blocks, and the controller can address it. -/
structure Exact (c : Config) (dev : Nat) : Prop where
  pos : 1 ≤ (c.hd dev).start + (c.hd dev).nr
  half : ((c.hd dev).start + (c.hd dev).nr - 1) / 2 = (c.hd dev).nr / 2
  fits : (c.hd dev).start + (c.hd dev).nr ≤ 65536 * ((c.info (dev / 5)).head * (c.info (dev / 5)).sect)

/-- Requests are for such partitions, and their sectors have 32 bits. -/
def confined (c : Config) (_ : Sys B σ) : Op B σ → Prop
  | .add dev _ _ blocknr _ _ => dev < 5 * c.nrHd → Exact c dev ∧ 2 * blocknr + 2 < 4294967296
  | _ => True

theorem Exact.lt {dev : Nat} (h : Exact c dev) : (c.hd dev).start + (c.hd dev).nr < 4294967296 := by
  have hfits := h.fits
  have hle : (c.info (dev / 5)).head * (c.info (dev / 5)).sect ≤ 255 * 255 :=
    Nat.mul_le_mul (c.info (dev / 5)).head_le (c.info (dev / 5)).sect_le
  omega

/-- A request of which some sectors are left. -/
structure Req.Whole (c : Config) (r : Req B) : Prop where
  part : r.dev < 5 * c.nrHd → Exact c r.dev ∧ r.sector + r.nr = 2 * r.blocknr + 2 ∧ 2 * r.blocknr + 2 < 4294967296
  nr : r.nr = 1 ∨ r.nr = 2

theorem Req.make_whole {dev : Nat} {cmd : Cmd} {bh : B} {blocknr : Nat}
    (h : dev < 5 * c.nrHd → Exact c dev ∧ 2 * blocknr + 2 < 4294967296) : (Req.make dev cmd bh blocknr).Whole c := by
  refine ⟨fun hdev => ⟨(h hdev).1, ?_, (h hdev).2⟩, .inr rfl⟩
  have hlt := (h hdev).2
  show 2 * blocknr % 4294967296 + 2 = 2 * blocknr + 2
  omega

/-- The rest of a request once a sector is done. -/
theorem Req.Whole.forward {r : Req B} (h : r.Whole c) (hnr : r.nr - 1 ≠ 0) : r.forward.Whole c := by
  have hn := h.nr
  refine ⟨fun hdev => ?_, .inl (show r.nr - 1 = 1 by omega)⟩
  obtain ⟨he, hsum, hlt⟩ := h.part hdev
  refine ⟨he, ?_, hlt⟩
  show (r.sector + 1) % 4294967296 + (r.nr - 1) = 2 * r.blocknr + 2
  omega

theorem Req.Whole.forgive {r : Req B} (h : r.Whole c) (n : Nat) : Req.Whole c { r with errors := n } := ⟨h.part, h.nr⟩

/-! ## The test -/

theorem refused_iff {r : Req B} (hdev : r.dev < 5 * c.nrHd) (he : Exact c r.dev) (hs : r.sector + 2 < 4294967296) :
    refused c r = false ↔ r.sector + 2 ≤ (c.hd r.dev).start + (c.hd r.dev).nr - 1 := by
  have hpos := he.pos
  have hlt := he.lt
  have hbound : ((c.hd r.dev).start + (c.hd r.dev).nr + 4294967295) % 4294967296 = (c.hd r.dev).start + (c.hd r.dev).nr - 1 := by
    omega
  unfold refused
  rw [Bool.or_eq_false_iff, decide_eq_false_iff_not, decide_eq_false_iff_not, hbound, Nat.mod_eq_of_lt hs]
  omega

/-- A block is taken if it lies in its partition, and only then. -/
theorem refused_block {r : Req B} (hdev : r.dev < 5 * c.nrHd) (he : Exact c r.dev) (hs : r.sector = 2 * r.blocknr)
    (hlt : 2 * r.blocknr + 2 < 4294967296) : refused c r = false ↔ r.sector + 2 ≤ (c.hd r.dev).nr := by
  rw [refused_iff hdev he (by omega)]
  have hhalf := he.half
  omega

/-- What is taken up again is inside as well. -/
theorem Req.Whole.inside {r : Req B} (h : r.Whole c) (hr : ¬ refused c r = true) : r.sector + r.nr ≤ (c.hd r.dev).nr := by
  have hdev := refused_dev hr
  obtain ⟨he, hsum, hlt⟩ := h.part hdev
  have hn := h.nr
  have hhalf := he.half
  by_cases hwrap : r.sector + 2 < 4294967296
  · have := (refused_iff hdev he hwrap).1 (Bool.eq_false_iff.2 hr)
    omega
  · omega

/-! ## Runs -/

/-- A command for the request, at the sector it has come to. -/
structure Serves (c : Config) (r : Req B) (drive sector n : Nat) : Prop where
  dev : r.dev < 5 * c.nrHd
  drive : drive = r.dev / 5
  sector : sector = (c.hd r.dev).start + r.sector
  n : n = r.nr
  inside : r.sector + r.nr ≤ (c.hd r.dev).nr

/-- What the controller is at is for the first request. -/
def CtlIn (c : Config) (s : Sys B σ) : Prop :=
  match s.ctl with
  | .idle => True
  | .other => s.doHd = some .recalIntr ∧ s.queue ≠ []
  | .wait _ _ _ => False
  | .read drive sector n => ∃ r q, s.queue = r :: q ∧ s.doHd = some .readIntr ∧ Serves c r drive sector n
  | .write drive sector n _ => ∃ r q, s.queue = r :: q ∧ s.doHd = some .writeIntr ∧ Serves c r drive sector n

/-- A command as sent goes to the request's partition. -/
def Out.Inside (c : Config) (o : Out B) : Prop :=
  o.drive = o.req.dev / 5 ∧ (c.hd o.req.dev).start ≤ (c.info o.drive).absolute o.cyl o.head o.sec ∧
    (c.info o.drive).absolute o.cyl o.head o.sec + o.req.nr ≤ (c.hd o.req.dev).start + (c.hd o.req.dev).nr

/-- The requests and the commands. -/
structure Bounded (c : Config) (s : Sys B σ) : Prop where
  queue : ∀ r ∈ s.queue, r.Whole c
  outs : ∀ o ∈ s.outs, o.Inside c

structure Confined (c : Config) (s : Sys B σ) : Prop extends Bounded c s where
  ctl : CtlIn c s

theorem Bounded.of_eq {s s' : Sys B σ} (h : Bounded c s) (hq : s'.queue = s.queue) (ho : s'.outs = s.outs) : Bounded c s' := by
  obtain ⟨h1, h2⟩ := h
  rw [← hq] at h1
  rw [← ho] at h2
  exact ⟨h1, h2⟩

theorem Bounded.endRequest {s : Sys B σ} (h : Bounded c s) (u : Bool) : Bounded c (s.endRequest u) := by
  refine ⟨fun r hr => ?_, ?_⟩
  · rw [endRequest_queue] at hr
    exact h.queue r (List.mem_of_mem_tail hr)
  · rw [(endRequest_rest s u).2.2.2]
    exact h.outs

theorem Bounded.badRwIntr {s : Sys B σ} (h : Bounded c s) (junk : Bool) : Bounded c (s.badRwIntr junk) := by
  unfold Sys.badRwIntr
  split
  · exact h
  · rename_i r q hq
    have hs : Bounded c { s with queue := { r with errors := r.errors + 1 } :: q } := by
      refine ⟨fun r' hr' => ?_, h.outs⟩
      rcases List.mem_cons.1 hr' with rfl | hr'
      · exact (h.queue r (hq ▸ List.mem_cons_self)).forgive _
      · exact h.queue r' (hq ▸ List.mem_cons_of_mem _ hr')
    have hend := hs.endRequest false
    unfold Sys.checkErrors
    dsimp only
    split <;> split <;> first | exact hend.of_eq rfl rfl | exact hs.of_eq rfl rfl

/-- The sector `do_hd_request` computes. -/
theorem Req.Whole.block {r : Req B} (h : r.Whole c) (hdev : r.dev < 5 * c.nrHd) (hin : r.sector + r.nr ≤ (c.hd r.dev).nr) :
    (r.sector + (c.hd r.dev).start) % 4294967296 = (c.hd r.dev).start + r.sector ∧
      (c.hd r.dev).start + r.sector < 65536 * ((c.info (r.dev / 5)).head * (c.info (r.dev / 5)).sect) := by
  have hn := h.nr
  obtain ⟨he, -, -⟩ := h.part hdev
  have hfits := he.fits
  have hlt := he.lt
  omega

theorem Bounded.sentOut {s : Sys B σ} (h : Bounded c s) {r : Req B} (hr : r.Whole c) (hdev : r.dev < 5 * c.nrHd)
    (hin : r.sector + r.nr ≤ (c.hd r.dev).nr) (hsect : (c.info (r.dev / 5)).sect ≠ 0) (hd : Handler) (ctl : Ctl σ) :
    Bounded c (s.sentOut c r hd ctl) := by
  refine ⟨h.queue, fun o ho => ?_⟩
  rcases List.mem_append.1 ho with ho | ho
  · exact h.outs o ho
  · obtain rfl := List.mem_singleton.1 ho
    have habs := Geometry.absolute_split _ _ hsect (hr.block hdev hin).2
    refine ⟨rfl, ?_, ?_⟩
    · dsimp only
      rw [habs]
      omega
    · dsimp only
      rw [habs]
      omega

variable [DecidableEq B]

/-- A sector sent to a controller that waits for it. -/
theorem Confined.portWrite {s : Sys B σ} {r : Req B} {q : List (Req B)} (hq : s.queue = r :: q) (h : Bounded c s)
    (hdo : s.doHd = some .writeIntr) {drive sector n : Nat} (hctl : s.ctl = .wait drive sector n)
    (hserve : Serves c r drive sector n) : Confined c (s.portWrite r) ∧ (s.portWrite r).disk = s.disk := by
  rw [portWrite_wait hctl]
  exact ⟨⟨h.of_eq rfl rfl, r, q, hq, hdo, hserve⟩, rfl⟩

/-- `do_hd_request` gives the controller the first request it does not refuse. -/
theorem doHdRequest_confined {drq : Nat → Bool} {junk : Bool} {fuel : Nat} : ∀ {k : Nat} {s s' : Sys B σ},
    doHdRequest c drq junk fuel k s = some s' → Bounded c s → s.ctl = .idle → Confined c s' ∧ s'.disk = s.disk := by
  induction fuel with
  | zero =>
    intro k s s' h
    cases h
  | succ fuel ih =>
    intro k s s' h hs hi
    rw [doHdRequest] at h
    split at h
    · cases h
      refine ⟨⟨hs, ?_⟩, rfl⟩
      rw [CtlIn, hi]
      trivial
    rename_i r q hqueue
    have hr : r.Whole c := hs.queue r (hqueue ▸ List.mem_cons_self)
    split at h
    · -- refused
      obtain ⟨hd, -, hc, -⟩ := endRequest_rest s false
      obtain ⟨hinv, hd'⟩ := ih h (hs.endRequest false) (hc.trans hi)
      exact ⟨hinv, hd'.trans hd.disk⟩
    rename_i href
    have hdev := refused_dev href
    have hin := hr.inside href
    have hnr : r.nr ≤ 2 := by
      have := hr.nr
      omega
    dsimp only at h
    rw [(hr.block hdev hin).1] at h
    split at h
    · cases h
    rename_i hgeo
    rw [not_or] at hgeo
    split at h
    · -- a reset
      rw [hdOutOther_eq h]
      exact ⟨⟨hs.of_eq rfl rfl, rfl, by rw [hqueue]; exact List.cons_ne_nil r q⟩, rfl⟩
    split at h
    · -- a recalibration
      rw [hdOutOther_eq h]
      exact ⟨⟨hs.of_eq rfl rfl, rfl, by rw [hqueue]; exact List.cons_ne_nil r q⟩, rfl⟩
    have hsent := hs.sentOut hr hdev hin hgeo.1
    cases hcmd : r.cmd with
    | read =>
      rw [hcmd] at h
      have heq := hdOut_eq hnr hgeo.1 (hr.block hdev hin).2 h
      rw [hcmd] at heq
      subst heq
      exact ⟨⟨hsent _ _, r, q, hqueue, rfl, hdev, rfl, rfl, rfl, hin⟩, rfl⟩
    | write =>
      rw [hcmd] at h
      dsimp only at h
      split at h
      · cases h
      rename_i s₁ hout
      have heq := hdOut_eq hnr hgeo.1 (hr.block hdev hin).2 hout
      rw [hcmd] at heq
      subst heq
      split at h
      · cases h
        exact Confined.portWrite hqueue (hsent _ _) rfl rfl ⟨hdev, rfl, rfl, rfl, hin⟩
      · -- no DRQ
        have hidle : Bounded c
            { s.sentOut c r .writeIntr (.wait (r.dev / 5) ((c.hd r.dev).start + r.sector) r.nr) with ctl := .idle } :=
          (hsent .writeIntr (.wait (r.dev / 5) ((c.hd r.dev).start + r.sector) r.nr)).of_eq rfl rfl
        obtain ⟨hd, hc⟩ := badRwIntr_rest
          { s.sentOut c r .writeIntr (.wait (r.dev / 5) ((c.hd r.dev).start + r.sector) r.nr) with ctl := .idle } junk
        obtain ⟨hinv, hd'⟩ := ih h (hidle.badRwIntr junk) hc
        exact ⟨hinv, hd'.trans hd.disk⟩

/-- After an error. -/
theorem Confined.retry {s s' : Sys B σ} {x : Outcome σ} {fuel : Nat}
    (h : doHdRequest c x.drq x.junk fuel 0 (s.badRwIntr x.junk) = some s') (hs : Bounded c s) (hi : s.ctl = .idle) :
    Confined c s' ∧ s'.disk = s.disk := by
  obtain ⟨hd, hc⟩ := badRwIntr_rest s x.junk
  obtain ⟨hinv, hd'⟩ := doHdRequest_confined h (hs.badRwIntr x.junk) (hc.trans hi)
  exact ⟨hinv, hd'.trans hd.disk⟩

omit [DecidableEq B] in
theorem Serves.forward {r : Req B} {drive sector n : Nat} (h : Serves c r drive sector n) (hr : r.Whole c) (hn : r.nr - 1 ≠ 0) :
    Serves c r.forward drive (sector + 1) (n - 1) := by
  have hin := h.inside
  have hlt := (hr.part h.dev).1.lt
  have hnext : r.forward.sector = r.sector + 1 := Nat.mod_eq_of_lt (by omega)
  refine ⟨h.dev, h.drive, ?_, by rw [h.n]; rfl, ?_⟩
  · rw [h.sector, hnext]
    rfl
  · rw [hnext]
    show r.sector + 1 + (r.nr - 1) ≤ (c.hd r.dev).nr
    omega

omit [DecidableEq B] in
/-- The request at the head goes on. -/
theorem Bounded.head {s s' : Sys B σ} (h : Bounded c s) {r r' : Req B} {q : List (Req B)} (hq : s.queue = r :: q)
    (hr : r'.Whole c) (hq' : s'.queue = r' :: q) (ho : s'.outs = s.outs) : Bounded c s' := by
  refine ⟨fun x hx => ?_, ho ▸ h.outs⟩
  rw [hq'] at hx
  rcases List.mem_cons.1 hx with rfl | hx
  · exact hr
  · exact h.queue x (hq ▸ List.mem_cons_of_mem _ hx)

/-- The controller has read the sector. -/
theorem Confined.readIntr {s s' : Sys B σ} {x : Outcome σ} {v : σ} (h : readIntr c x (some v) s = some s') (hs : Bounded c s)
    {r : Req B} {q : List (Req B)} (hq : s.queue = r :: q) {drive sector n : Nat} (hserve : Serves c r drive sector n)
    (hctl : s.ctl = if n = 1 then .idle else .read drive (sector + 1) (n - 1)) : Confined c s' ∧ s'.disk = s.disk := by
  have hr : r.Whole c := hs.queue r (hq ▸ List.mem_cons_self)
  have hnr := hr.nr
  have hn := hserve.n
  unfold Hd.readIntr at h
  rw [hq] at h
  dsimp only at h
  split at h
  · rename_i hmore
    have hmore : r.nr - 1 ≠ 0 := hmore
    cases h
    rw [if_neg (by omega)] at hctl
    have hnext := hserve.forward hr hmore
    refine ⟨⟨hs.head hq ((hr.forward hmore).forgive 0) rfl rfl, ?_⟩, rfl⟩
    rw [CtlIn]
    dsimp only
    rw [hctl]
    exact ⟨_, q, rfl, rfl, hnext.dev, hnext.drive, hnext.sector, hnext.n, hnext.inside⟩
  · rename_i hlast
    have hlast : ¬ r.nr - 1 ≠ 0 := hlast
    rw [if_pos (by omega)] at hctl
    obtain ⟨hd, -, hc, -⟩ := endRequest_rest { s with
      queue := { r.forward with errors := 0 } :: q
      data := Function.update s.data r.bh (Function.update (s.data r.bh) r.buf v) } true
    have hb := hs.endRequest true
    obtain ⟨hinv, hd'⟩ := doHdRequest_confined h (hb.of_eq (by simp only [endRequest_queue, hq, List.tail_cons]) (by
      rw [(endRequest_rest _ true).2.2.2, (endRequest_rest s true).2.2.2])) (hc.trans hctl)
    exact ⟨hinv, hd'.trans hd.disk⟩

/-- The controller has written the sector. -/
theorem Confined.writeIntr {s s' : Sys B σ} {x : Outcome σ} (h : writeIntr c x s = some s') (hx : x.success = true)
    (hs : Bounded c s) {r : Req B} {q : List (Req B)} (hq : s.queue = r :: q) {drive sector n : Nat}
    (hserve : Serves c r drive sector n) (hctl : s.ctl = if n = 1 then .idle else .wait drive (sector + 1) (n - 1)) :
    Confined c s' ∧ s'.disk = s.disk := by
  have hr : r.Whole c := hs.queue r (hq ▸ List.mem_cons_self)
  have hnr := hr.nr
  have hn := hserve.n
  unfold Hd.writeIntr at h
  rw [hq, hx] at h
  dsimp only at h
  split at h
  · rename_i hmore
    cases h
    rw [if_neg (by omega)] at hctl
    exact Confined.portWrite rfl (hs.head hq (hr.forward hmore) rfl rfl) rfl hctl (hserve.forward hr hmore)
  · rename_i hlast
    rw [if_pos (by omega)] at hctl
    obtain ⟨hd, -, hc, -⟩ := endRequest_rest { s with queue := { r with nr := r.nr - 1 } :: q } true
    have hb := hs.endRequest true
    obtain ⟨hinv, hd'⟩ := doHdRequest_confined h (hb.of_eq (by simp only [endRequest_queue, hq, List.tail_cons]) (by
      rw [(endRequest_rest _ true).2.2.2, (endRequest_rest s true).2.2.2])) (hc.trans hctl)
    exact ⟨hinv, hd'.trans hd.disk⟩

/-- A sector of the partition of the request in service. -/
def Reach (c : Config) (s : Sys B σ) (d x : Nat) : Prop :=
  ∃ r q, s.queue = r :: q ∧ d = r.dev / 5 ∧ (c.hd r.dev).start ≤ x ∧ x < (c.hd r.dev).start + (c.hd r.dev).nr

theorem Confined.interrupt {s s' : Sys B σ} (h : Confined c s) {x : Outcome σ} (hs : step c s (.interrupt x) = some s') :
    Confined c s' ∧ ∀ d y, s'.disk d y ≠ s.disk d y → Reach c s d y := by
  have hc := h.ctl
  unfold CtlIn at hc
  unfold step at hs
  dsimp only at hs
  split at hc
  · rename_i hctl
    rw [hctl] at hs
    cases hs
  · -- a reset or a recalibration
    rename_i hctl
    rw [hctl, hc.1] at hs
    simp only [Sys.controller, hctl, recalIntr] at hs
    have hb : Bounded c { s with ctl := .idle, doHd := none } := h.toBounded.of_eq rfl rfl
    suffices hboth : Confined c s' ∧ s'.disk = s.disk from ⟨hboth.1, fun d y hne => absurd (by rw [hboth.2]) hne⟩
    split at hs
    · obtain ⟨hinv, hd⟩ := doHdRequest_confined hs hb rfl
      exact ⟨hinv, hd⟩
    · obtain ⟨hinv, hd⟩ := Confined.retry hs hb rfl
      exact ⟨hinv, hd⟩
  · exact hc.elim
  · rename_i drive sector n hctl
    obtain ⟨r, q, hq, hdo, hserve⟩ := hc
    rw [hctl, hdo] at hs
    suffices hboth : Confined c s' ∧ s'.disk = s.disk from ⟨hboth.1, fun d y hne => absurd (by rw [hboth.2]) hne⟩
    simp only [Sys.controller, hctl] at hs
    split at hs
    · obtain ⟨hinv, hd⟩ := Confined.readIntr hs (h.toBounded.of_eq rfl rfl) hq hserve rfl
      exact ⟨hinv, hd⟩
    · dsimp only at hs
      rw [readIntr_none] at hs
      obtain ⟨hinv, hd⟩ := Confined.retry hs (h.toBounded.of_eq rfl rfl) rfl
      exact ⟨hinv, hd⟩
  · rename_i drive sector n v hctl
    obtain ⟨r, q, hq, hdo, hserve⟩ := hc
    rw [hctl, hdo] at hs
    have htouch : ∀ w d y, Function.update s.disk drive (Function.update (s.disk drive) sector w) d y ≠ s.disk d y →
        Reach c s d y := by
      intro w d y hne
      by_cases hd : d = drive
      · subst hd
        rw [Function.update_self] at hne
        by_cases hy : y = sector
        · have hnr := (h.queue r (hq ▸ List.mem_cons_self)).nr
          have hin := hserve.inside
          have hsec := hserve.sector
          exact ⟨r, q, hq, hserve.drive, by omega, by omega⟩
        · rw [Function.update_of_ne hy] at hne
          exact absurd rfl hne
      · rw [Function.update_of_ne hd] at hne
        exact absurd rfl hne
    simp only [Sys.controller, hctl] at hs
    split at hs
    · rename_i hx
      obtain ⟨hinv, hd⟩ := Confined.writeIntr hs hx (h.toBounded.of_eq rfl rfl) hq hserve rfl
      rw [hd]
      exact ⟨hinv, htouch _⟩
    · rename_i hx
      rw [writeIntr_fail (Bool.not_eq_true _ ▸ hx)] at hs
      obtain ⟨hinv, hd⟩ := Confined.retry hs (h.toBounded.of_eq rfl rfl) rfl
      rw [hd]
      exact ⟨hinv, htouch _⟩

omit [DecidableEq B] in
theorem CtlIn.of_head {s s' : Sys B σ} (h : CtlIn c s) {r : Req B} {q q' : List (Req B)} (hq : s.queue = r :: q)
    (hq' : s'.queue = r :: q') (hctl : s'.ctl = s.ctl) (hdo : s'.doHd = s.doHd) : CtlIn c s' := by
  unfold CtlIn at h ⊢
  rw [hctl, hdo, hq']
  rw [hq] at h
  split at h
  · trivial
  · exact ⟨h.1, List.cons_ne_nil r q'⟩
  · exact h
  · obtain ⟨r', q₁, hr, h⟩ := h
    obtain ⟨rfl, rfl⟩ := List.cons.inj hr
    exact ⟨r, q', rfl, h⟩
  · obtain ⟨r', q₁, hr, h⟩ := h
    obtain ⟨rfl, rfl⟩ := List.cons.inj hr
    exact ⟨r, q', rfl, h⟩

omit [DecidableEq B] in
theorem Confined.idle {s : Sys B σ} (h : Confined c s) (hq : s.queue = []) : s.ctl = .idle := by
  have hc := h.ctl
  unfold CtlIn at hc
  split at hc
  · assumption
  · exact absurd hq hc.2
  · exact hc.elim
  · obtain ⟨r, q, hr, -⟩ := hc
    rw [hq] at hr
    cases hr
  · obtain ⟨r, q, hr, -⟩ := hc
    rw [hq] at hr
    cases hr

theorem Confined.add {s s' : Sys B σ} (h : Confined c s) {dev : Nat} {cmd : Cmd} {bh : B} {blocknr place : Nat} {x : Outcome σ}
    (hok : confined c s (.add dev cmd bh blocknr place x)) (hs : step c s (.add dev cmd bh blocknr place x) = some s') :
    Confined c s' ∧ s'.disk = s.disk := by
  have hnew : (Req.make dev cmd bh blocknr).Whole c := Req.make_whole hok
  unfold step at hs
  dsimp only at hs
  split at hs
  · rename_i hqueue
    have hb : Bounded c { s with queue := [.make dev cmd bh blocknr] } :=
      ⟨fun r hr => List.mem_singleton.1 hr ▸ hnew, h.outs⟩
    obtain ⟨hinv, hd⟩ := doHdRequest_confined hs hb (h.idle hqueue)
    exact ⟨hinv, hd⟩
  · rename_i r q hqueue
    cases hs
    refine ⟨⟨⟨fun r' hr' => ?_, h.outs⟩, h.ctl.of_head hqueue rfl rfl rfl⟩, rfl⟩
    have hq := h.queue
    rw [hqueue] at hq
    rcases List.mem_cons.1 hr' with rfl | hr'
    · exact hq _ List.mem_cons_self
    · rcases List.mem_append.1 hr' with hr' | hr'
      · exact hq r' (List.mem_cons_of_mem _ (List.mem_of_mem_take hr'))
      · rcases List.mem_cons.1 hr' with rfl | hr'
        · exact hnew
        · exact hq r' (List.mem_cons_of_mem _ (List.mem_of_mem_drop hr'))

theorem Confined.step {s s' : Sys B σ} {o : Op B σ} (h : Confined c s) (hok : confined c s o) (hs : step c s o = some s') :
    Confined c s' ∧ ∀ d y, s'.disk d y ≠ s.disk d y → Reach c s d y := by
  cases o with
  | add dev cmd bh blocknr place x =>
    obtain ⟨hinv, hd⟩ := h.add hok hs
    exact ⟨hinv, fun d y hne => absurd (by rw [hd]) hne⟩
  | interrupt x => exact h.interrupt hs
  | store b k v =>
    unfold Hd.step at hs
    dsimp only at hs
    split at hs
    · cases hs
    · cases hs
      exact ⟨⟨h.toBounded.of_eq rfl rfl, h.ctl⟩, fun d y hne => absurd rfl hne⟩

omit [DecidableEq B] in
theorem Confined.start {s : Sys B σ} (h : s.Start) : Confined c s := by
  refine ⟨⟨fun r hr => ?_, fun o ho => ?_⟩, ?_⟩
  · rw [h.queue] at hr
    cases hr
  · rw [h.outs] at ho
    cases ho
  · rw [CtlIn, h.ctl]
    trivial

/-! ## Taken or refused -/

/-- `hd_out` accepts the heads, and the divisions do not trap. -/
structure Geometry.Sound (g : Geometry) : Prop where
  sect : 0 < g.sect
  head : 0 < g.head
  head_le : g.head ≤ 16

omit [DecidableEq B] in
theorem hdOut_some (c : Config) (s : Sys B σ) (r : Req B) {drive head : Nat} (nsect sec cyl : Nat) (hd : drive ≤ 1) (hh : head ≤ 15) :
    ∃ s' o, s.hdOut c r drive nsect sec head cyl = some s' ∧ s'.queue = s.queue ∧ o.req = r ∧ s'.outs = s.outs ++ [o] := by
  unfold Sys.hdOut
  rw [if_neg (by omega)]
  dsimp only
  split <;> exact ⟨_, _, rfl, rfl, rfl, rfl⟩

omit [DecidableEq B] in
theorem hdOutOther_some {s : Sys B σ} {drive head : Nat} (hd : drive ≤ 1) (hh : head ≤ 15) :
    ∃ s', s.hdOutOther drive head = some s' ∧ s'.queue = s.queue := by
  unfold Sys.hdOutOther
  rw [if_neg (by omega)]
  exact ⟨_, rfl, rfl⟩

theorem portWrite_same (s : Sys B σ) (r : Req B) : (s.portWrite r).queue = s.queue ∧ (s.portWrite r).outs = s.outs := by
  unfold Sys.portWrite
  split <;> exact ⟨rfl, rfl⟩

/-- A request that is not refused stays, and its command is sent unless the drive has to be reset first. -/
theorem doHdRequest_takes {s : Sys B σ} {r : Req B} {q : List (Req B)} (hq : s.queue = r :: q) (hr : refused c r = false)
    (hg : (c.info (r.dev / 5)).Sound) (hn : c.nrHd ≤ 2) {drq : Nat → Bool} {junk : Bool} {fuel k : Nat}
    (hdrq : r.cmd = .write → drq k = true) :
    ∃ s', doHdRequest c drq junk (fuel + 1) k s = some s' ∧ s'.queue = s.queue ∧
      (s.reset = false → s.recalibrate = false → ∃ o, o.req = r ∧ s'.outs = s.outs ++ [o]) := by
  have hdev : r.dev < 5 * c.nrHd := refused_dev (by rw [hr]; exact Bool.false_ne_true)
  have hdrive : r.dev / 5 ≤ 1 := by omega
  have hsect := hg.sect
  have hhead := hg.head
  have hle := hg.head_le
  rw [doHdRequest, hq]
  dsimp only
  rw [hr, if_neg Bool.false_ne_true, if_neg (by omega)]
  split
  · rename_i hreset
    obtain ⟨s', hs', hq'⟩ := hdOutOther_some (s := { s with queue := r :: q, reset := false, recalibrate := true }) hdrive
      (show (c.info (r.dev / 5)).head - 1 ≤ 15 by omega)
    exact ⟨s', hs', hq', fun hno => by rw [hreset] at hno; cases hno⟩
  split
  · rename_i hrecal
    obtain ⟨s', hs', hq'⟩ := hdOutOther_some (s := { s with queue := r :: q, recalibrate := false }) hdrive (Nat.zero_le 15)
    exact ⟨s', hs', hq', fun _ hno => by rw [hrecal] at hno; cases hno⟩
  have hmod : ∀ b, b % (c.info (r.dev / 5)).head ≤ 15 := fun b => by
    have := Nat.mod_lt b hhead
    omega
  cases hcmd : r.cmd with
  | read =>
    obtain ⟨s', o, hs', hq', ho, hout⟩ := hdOut_some c s r r.nr
      ((r.sector + (c.hd r.dev).start) % 4294967296 % (c.info (r.dev / 5)).sect + 1)
      ((r.sector + (c.hd r.dev).start) % 4294967296 / (c.info (r.dev / 5)).sect / (c.info (r.dev / 5)).head)
      hdrive (hmod ((r.sector + (c.hd r.dev).start) % 4294967296 / (c.info (r.dev / 5)).sect))
    exact ⟨s', hs', hq'.trans hq, fun _ _ => ⟨o, ho, hout⟩⟩
  | write =>
    obtain ⟨s', o, hs', hq', ho, hout⟩ := hdOut_some c s r r.nr
      ((r.sector + (c.hd r.dev).start) % 4294967296 % (c.info (r.dev / 5)).sect + 1)
      ((r.sector + (c.hd r.dev).start) % 4294967296 / (c.info (r.dev / 5)).sect / (c.info (r.dev / 5)).head)
      hdrive (hmod ((r.sector + (c.hd r.dev).start) % 4294967296 / (c.info (r.dev / 5)).sect))
    dsimp only
    rw [hs']
    dsimp only
    rw [if_pos (hdrq hcmd)]
    obtain ⟨hpq, hpo⟩ := portWrite_same s' r
    exact ⟨_, rfl, hpq.trans (hq'.trans hq), fun _ _ => ⟨o, ho, hpo.trans hout⟩⟩

/-- A drive of 16 heads and 63 sectors; one partition from its second sector on, and others of 100 sectors from sector 1000
on. -/
def small : Config where
  nrHd := 1
  info _ := .usual
  hd dev := if dev = 1 then ⟨1, 999⟩ else ⟨1000, 100⟩

/-- The first partition of `small`, and blocks with few digits. -/
def firstPart : Op Unit Nat → Bool
  | .add dev _ _ n _ _ => decide (dev = 1 ∧ n < 1000)
  | _ => true

end Linux011.Blk.Hd
