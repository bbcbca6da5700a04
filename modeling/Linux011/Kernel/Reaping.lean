/-
Zombies have a living father, and are reaped once.

The father of a task is always one that has not begun to exit: whoever begins to exit first hands its
children to init. So nobody is the child of a task that exits or is a zombie, and a slot that is
given up was nobody's father. A pid names one task of the table, zombies included, so `father` says which.
-/
import Linux011.Kernel.Process

namespace Linux011.Kernel.Process

open Schedule (TaskState)

/-- The task has not begun to exit. -/
def Proc.Alive (p : Proc) : Prop := p.state ≠ .zombie ∧ ∀ code, p.phase ≠ .exiting code

/-- Who is whose father. -/
structure Family (task : Table) : Prop where
  zero : ∃ p, task 0 = some p ∧ p.pid = 0 ∧ p.Alive
  init : ∃ p, task 1 = some p ∧ p.pid = 1 ∧ p.Alive
  pids : ∀ {i j p q}, task i = some p → task j = some q → p.pid = q.pid → i = j
  pos : ∀ {i p}, task i = some p → i ≠ 0 → (0 : Long).slt p.pid = true
  father : ∀ {i p}, task i = some p → i ≠ 0 → i ≠ 1 → ∃ j q, task j = some q ∧ j ≠ i ∧ q.pid = p.father ∧ q.Alive
  zombie : ∀ {i p}, task i = some p → p.state = .zombie → p.phase = .exiting p.exitCode ∧ p.father ≠ 0

/-- What the histories say. -/
structure History (s : Sys) : Prop where
  ids : ∀ {i j p q}, s.task i = some p → s.task j = some q → p.id = q.id → i = j
  lt : ∀ {i p}, s.task i = some p → p.id < s.born
  pid : ∀ {i p}, s.task i = some p → s.pidOf p.id = p.pid
  code : ∀ {i p c}, s.task i = some p → p.phase = .exiting c → s.codeOf p.id = some c
  nodup : s.reaped.Nodup
  gone : ∀ {x}, x ∈ s.reaped → x < s.born ∧ ∀ i p, s.task i = some p → p.id ≠ x
  keeps : ∀ {i p id pid c}, s.task i = some p → p.phase = .reporting id pid c →
    id ∈ s.reaped ∧ s.pidOf id = pid ∧ s.codeOf id = some c
  told : ∀ {r}, r ∈ s.reports → r.id ∈ s.reaped ∧ s.pidOf r.id = r.pid ∧ s.codeOf r.id = some r.code

/-! ## One task changes -/

section Set

variable {task : Table} {i : Slot} {p p' : Proc}

/-- A look into the table after an entry has changed. -/
theorem update_some {j : Slot} {q : Proc} (h : Function.update task i (some p') j = some q) :
    (j = i ∧ q = p') ∨ (j ≠ i ∧ task j = some q) := by
  by_cases hj : j = i
  · subst hj
    rw [Function.update_self] at h
    exact .inl ⟨rfl, (Option.some.inj h).symm⟩
  · rw [Function.update_of_ne hj] at h
    exact .inr ⟨hj, h⟩

theorem update_none {j : Slot} {q : Proc} (h : Function.update task i none j = some q) : j ≠ i ∧ task j = some q := by
  by_cases hj : j = i
  · subst hj
    rw [Function.update_self] at h
    cases h
  · rw [Function.update_of_ne hj] at h
    exact ⟨hj, h⟩

/-- A task that was alive is so still, and one that is a zombie has its code. -/
theorem Family.set (h : Family task) (hi : task i = some p) (hpid : p'.pid = p.pid) (hfather : p'.father = p.father)
    (halive : p.Alive → p'.Alive) (hz : p'.state = .zombie → p'.phase = .exiting p'.exitCode ∧ p'.father ≠ 0) :
    Family (Function.update task i (some p')) := by
  -- a task is found again in its slot, with its pid, alive if it was
  have hkeep : ∀ {j q}, task j = some q → q.Alive →
      ∃ q', Function.update task i (some p') j = some q' ∧ q'.pid = q.pid ∧ q'.Alive := by
    intro j q hq ha
    by_cases hj : j = i
    · subst hj
      obtain rfl := Option.some.inj (hi.symm.trans hq)
      exact ⟨p', Function.update_self _ _ _, hpid, halive ha⟩
    · exact ⟨q, by rw [Function.update_of_ne hj]; exact hq, rfl, ha⟩
  have hold : ∀ {j q}, Function.update task i (some p') j = some q →
      ∃ q₀, task j = some q₀ ∧ q.pid = q₀.pid ∧ q.father = q₀.father := by
    intro j q hq
    rcases update_some hq with ⟨rfl, rfl⟩ | ⟨-, hq⟩
    · exact ⟨p, hi, hpid, hfather⟩
    · exact ⟨q, hq, rfl, rfl⟩
  refine ⟨?_, ?_, fun hq hr e => ?_, fun hq hne => ?_, fun hq h0 h1 => ?_, fun hq hs => ?_⟩
  · obtain ⟨q, hq, h0, ha⟩ := h.zero
    obtain ⟨q', hq', hp', ha'⟩ := hkeep hq ha
    exact ⟨q', hq', hp'.trans h0, ha'⟩
  · obtain ⟨q, hq, h1, ha⟩ := h.init
    obtain ⟨q', hq', hp', ha'⟩ := hkeep hq ha
    exact ⟨q', hq', hp'.trans h1, ha'⟩
  · obtain ⟨q₀, hq₀, e₁, -⟩ := hold hq
    obtain ⟨r₀, hr₀, e₂, -⟩ := hold hr
    exact h.pids hq₀ hr₀ (by rw [← e₁, ← e₂, e])
  · obtain ⟨q₀, hq₀, e, -⟩ := hold hq
    rw [e]
    exact h.pos hq₀ hne
  · obtain ⟨q₀, hq₀, -, e⟩ := hold hq
    obtain ⟨k, f, hk, hne, hf, ha⟩ := h.father hq₀ h0 h1
    obtain ⟨f', hf', hp', ha'⟩ := hkeep hk ha
    exact ⟨k, f', hf', hne, by rw [hp', hf, e], ha'⟩
  · rcases update_some hq with ⟨rfl, rfl⟩ | ⟨-, hq⟩
    · exact hz hs
    · exact h.zombie hq hs

/-- A task that has begun to exit leaves the table. -/
theorem Family.remove (h : Family task) (hi : task i = some p) (hdead : ¬ p.Alive) : Family (Function.update task i none) := by
  have hkeep : ∀ {j q}, task j = some q → q.Alive → Function.update task i none j = some q := by
    intro j q hq ha
    rw [Function.update_of_ne]
    · exact hq
    · intro e
      subst e
      obtain rfl := Option.some.inj (hi.symm.trans hq)
      exact hdead ha
  refine ⟨?_, ?_, fun hq hr => h.pids (update_none hq).2 (update_none hr).2, fun hq => h.pos (update_none hq).2, fun hq h0 h1 => ?_,
    fun hq => h.zombie (update_none hq).2⟩
  · obtain ⟨q, hq, h0, ha⟩ := h.zero
    exact ⟨q, hkeep hq ha, h0, ha⟩
  · obtain ⟨q, hq, h1, ha⟩ := h.init
    exact ⟨q, hkeep hq ha, h1, ha⟩
  · obtain ⟨k, f, hk, hne, hf, ha⟩ := h.father (update_none hq).2 h0 h1
    exact ⟨k, f, hkeep hk ha, hne, hf, ha⟩

/-- A child comes into an empty slot. -/
theorem Family.insert (h : Family task) (hi : task i = none) (hpos : (0 : Long).slt p'.pid = true)
    (hfree : ∀ j q, task j = some q → q.pid ≠ p'.pid) (hfather : ∃ j q, task j = some q ∧ q.pid = p'.father ∧ q.Alive)
    (hstate : p'.state = .running) (hphase : p'.phase = .user) : Family (Function.update task i (some p')) := by
  have hne : ∀ {j q}, task j = some q → j ≠ i := fun hq e => by
    rw [e, hi] at hq
    cases hq
  have hkeep : ∀ {j q}, task j = some q → Function.update task i (some p') j = some q := fun hq => by
    rw [Function.update_of_ne (hne hq)]
    exact hq
  refine ⟨?_, ?_, fun {j k q r} hq hr e => ?_, fun hq h0 => ?_, fun hq h0 h1 => ?_, fun hq hz => ?_⟩
  · obtain ⟨q, hq, h0, ha⟩ := h.zero
    exact ⟨q, hkeep hq, h0, ha⟩
  · obtain ⟨q, hq, h1, ha⟩ := h.init
    exact ⟨q, hkeep hq, h1, ha⟩
  · rcases update_some hq with ⟨rfl, rfl⟩ | ⟨-, hq'⟩
    · rcases update_some hr with ⟨rfl, rfl⟩ | ⟨-, hr'⟩
      · rfl
      · exact absurd e.symm (hfree k r hr')
    · rcases update_some hr with ⟨rfl, rfl⟩ | ⟨-, hr'⟩
      · exact absurd e (hfree j q hq')
      · exact h.pids hq' hr' e
  · rcases update_some hq with ⟨rfl, rfl⟩ | ⟨-, hq'⟩
    · exact hpos
    · exact h.pos hq' h0
  · rcases update_some hq with ⟨rfl, rfl⟩ | ⟨-, hq'⟩
    · obtain ⟨k, f, hk, hf, ha⟩ := hfather
      exact ⟨k, f, hkeep hk, hne hk, hf, ha⟩
    · obtain ⟨k, f, hk, hkj, hf, ha⟩ := h.father hq' h0 h1
      exact ⟨k, f, hkeep hk, hkj, hf, ha⟩
  · rcases update_some hq with ⟨rfl, rfl⟩ | ⟨-, hq'⟩
    · rw [hstate] at hz
      cases hz
    · exact h.zombie hq' hz

/-- It is a process that was not there before. -/
theorem History.insert {s : Sys} (h : History s) {last : Long} (hi : s.task i = none) (hid : p'.id = s.born)
    (hphase : p'.phase = .user) : History { s with
      task := Function.update s.task i (some p')
      lastPid := last
      born := s.born + 1
      pidOf := Function.update s.pidOf s.born p'.pid } := by
  have hold : ∀ {j q}, s.task j = some q → q.id ≠ p'.id := fun hq e => Nat.ne_of_lt (h.lt hq) (e.trans hid)
  have hpidOf : ∀ {x}, x < s.born → Function.update s.pidOf s.born p'.pid x = s.pidOf x := fun hx =>
    Function.update_of_ne (Nat.ne_of_lt hx) _ _
  refine ⟨fun {j k q r} hq hr e => ?_, fun hq => ?_, fun hq => ?_, fun hq hc => ?_, h.nodup, fun hx => ?_, fun hq hc => ?_,
    fun hr => ?_⟩
  · rcases update_some hq with ⟨rfl, rfl⟩ | ⟨-, hq'⟩
    · rcases update_some hr with ⟨rfl, rfl⟩ | ⟨-, hr'⟩
      · rfl
      · exact absurd e.symm (hold hr')
    · rcases update_some hr with ⟨rfl, rfl⟩ | ⟨-, hr'⟩
      · exact absurd e (hold hq')
      · exact h.ids hq' hr' e
  · rcases update_some hq with ⟨rfl, rfl⟩ | ⟨-, hq'⟩
    · rw [hid]
      exact Nat.lt_succ_self _
    · exact Nat.lt_succ_of_lt (h.lt hq')
  · rcases update_some hq with ⟨rfl, rfl⟩ | ⟨-, hq'⟩
    · rw [hid]
      exact Function.update_self _ _ _
    · exact (hpidOf (h.lt hq')).trans (h.pid hq')
  · rcases update_some hq with ⟨rfl, rfl⟩ | ⟨-, hq'⟩
    · rw [hphase] at hc
      cases hc
    · exact h.code hq' hc
  · obtain ⟨hlt, hgone⟩ := h.gone hx
    refine ⟨Nat.lt_succ_of_lt hlt, fun j q hq => ?_⟩
    rcases update_some hq with ⟨rfl, rfl⟩ | ⟨-, hq'⟩
    · rw [hid]
      exact (Nat.ne_of_lt hlt).symm
    · exact hgone j q hq'
  · rcases update_some hq with ⟨rfl, rfl⟩ | ⟨-, hq'⟩
    · rw [hphase] at hc
      cases hc
    · obtain ⟨hm, hpid, hcode⟩ := h.keeps hq' hc
      exact ⟨hm, (hpidOf (h.gone hm).1).trans hpid, hcode⟩
  · obtain ⟨hm, hpid, hcode⟩ := h.told hr
    exact ⟨hm, (hpidOf (h.gone hm).1).trans hpid, hcode⟩

theorem History.set {s : Sys} (h : History s) (hi : s.task i = some p) (hid : p'.id = p.id) (hpid : p'.pid = p.pid)
    (hexit : ∀ c, p'.phase = .exiting c → p.phase = .exiting c)
    (hrep : ∀ id pid c, p'.phase = .reporting id pid c → id ∈ s.reaped ∧ s.pidOf id = pid ∧ s.codeOf id = some c) :
    History (s.set i p') := by
  have hold : ∀ {j q}, (s.set i p').task j = some q → ∃ q₀, s.task j = some q₀ ∧ q.id = q₀.id ∧ q.pid = q₀.pid ∧
      ∀ c, q.phase = .exiting c → q₀.phase = .exiting c := by
    intro j q hq
    rcases update_some hq with ⟨rfl, rfl⟩ | ⟨-, hq⟩
    · exact ⟨p, hi, hid, hpid, hexit⟩
    · exact ⟨q, hq, rfl, rfl, fun _ => id⟩
  refine ⟨fun hq hr e => ?_, fun hq => ?_, fun hq => ?_, fun hq he => ?_, h.nodup, fun hx => ?_, fun hq he => ?_, h.told⟩
  · obtain ⟨q₀, hq₀, e₁, -⟩ := hold hq
    obtain ⟨r₀, hr₀, e₂, -⟩ := hold hr
    exact h.ids hq₀ hr₀ (by rw [← e₁, ← e₂, e])
  · obtain ⟨q₀, hq₀, e, -⟩ := hold hq
    rw [e]
    exact h.lt hq₀
  · obtain ⟨q₀, hq₀, e, e', -⟩ := hold hq
    rw [e, e']
    exact h.pid hq₀
  · obtain ⟨q₀, hq₀, e, -, hx⟩ := hold hq
    rw [e]
    exact h.code hq₀ (hx _ he)
  · refine ⟨(h.gone hx).1, fun j q hq => ?_⟩
    obtain ⟨q₀, hq₀, e, -⟩ := hold hq
    rw [e]
    exact (h.gone hx).2 j q₀ hq₀
  · rcases update_some hq with ⟨rfl, rfl⟩ | ⟨-, hq'⟩
    · exact hrep _ _ _ he
    · exact h.keeps hq' he

/-- The table loses an entry. -/
theorem History.remove {s : Sys} (h : History s) : History { s with task := Function.update s.task i none } :=
  ⟨fun hq hr => h.ids (update_none hq).2 (update_none hr).2, fun hq => h.lt (update_none hq).2, fun hq => h.pid (update_none hq).2,
    fun hq => h.code (update_none hq).2, h.nodup, fun hx => ⟨(h.gone hx).1, fun j q hq => (h.gone hx).2 j q (update_none hq).2⟩,
    fun hq => h.keeps (update_none hq).2, h.told⟩

/-- It is reaped. -/
theorem History.reap {s : Sys} (h : History s) (hi : s.task i = some p) :
    History { s with task := Function.update s.task i none, reaped := s.reaped ++ [p.id] } := by
  have hr := h.remove (i := i)
  refine ⟨hr.ids, hr.lt, hr.pid, hr.code, ?_, fun {x} hx => ?_, fun hq he => ?_, fun hr' => ?_⟩
  · refine List.nodup_append.2 ⟨h.nodup, List.pairwise_singleton _ _, fun a ha b hb => ?_⟩
    rw [List.mem_singleton.1 hb]
    exact ((h.gone ha).2 i p hi).symm
  · rcases List.mem_append.1 hx with hx | hx
    · exact hr.gone hx
    · rw [List.mem_singleton.1 hx]
      exact ⟨h.lt hi, fun j q hq e => (update_none hq).1 (h.ids (update_none hq).2 hi e)⟩
  · obtain ⟨hm, hrest⟩ := hr.keeps hq he
    exact ⟨List.mem_append_left _ hm, hrest⟩
  · obtain ⟨hm, hrest⟩ := hr.told hr'
    exact ⟨List.mem_append_left _ hm, hrest⟩

end Set

/-- Both. -/
structure Inv (s : Sys) : Prop where
  family : Family s.task
  history : History s

section Steps

variable {s s' : Sys} {i : Slot} {p p' : Proc}

/-- A task that is not exiting goes on. -/
theorem Inv.set (h : Inv s) (hi : s.task i = some p) (hpid : p'.pid = p.pid) (hfather : p'.father = p.father) (hid : p'.id = p.id)
    (halive : p'.Alive) (hrep : ∀ id pid c, p'.phase = .reporting id pid c → p.phase = .reporting id pid c) : Inv (s.set i p') :=
  ⟨h.family.set hi hpid hfather (fun _ => halive) fun hz => absurd hz halive.1,
    h.history.set hi hid hpid (fun c hc => absurd hc (halive.2 c)) fun id pid c hc => h.history.keeps hi (hrep id pid c hc)⟩

theorem Inv.not_zombie (h : Inv s) (hi : s.task i = some p) (hp : ∀ c, p.phase ≠ .exiting c) : p.state ≠ .zombie :=
  fun hz => hp _ (h.family.zombie hi hz).1

/-! ## fork -/

theorem findPid_spec {task : Table} {n : Nat} {last r : Long} (h : findPid task n last = some r) :
    r.slt 0 = false ∧ ∀ i p, task i = some p → p.pid ≠ r := by
  induction n generalizing last with
  | zero => cases h
  | succ n ih =>
    rw [findPid] at h
    split at h
    · exact ih h
    · rename_i hfree
      obtain rfl := Option.some.inj h
      constructor
      · unfold nextPid
        split
        · decide
        · rename_i hneg
          exact Bool.eq_false_iff.2 hneg
      · intro i p hi hp
        exact hfree ⟨i, by rw [hi]; exact decide_eq_true hp⟩

theorem findSlot_spec {task : Table} {nr : Slot} (h : findSlot task = some nr) : task nr = none ∧ nr ≠ 0 := by
  have hnone := List.find?_some h
  refine ⟨Option.isNone_iff_eq_none.1 hnone, fun e => ?_⟩
  have hmem := List.mem_of_find?_eq_some h
  subst e
  exact absurd hmem (by decide)

theorem slt_of_not_slt {x : Long} (h : x.slt 0 = false) (h0 : x ≠ 0) : (0 : Long).slt x = true := by
  rw [BitVec.slt_iff_toInt_lt]
  have hge : ¬ x.toInt < (0 : Long).toInt := fun hlt => by
    rw [BitVec.slt_iff_toInt_lt.2 hlt] at h
    cases h
  have hne : x.toInt ≠ (0 : Long).toInt := fun he => h0 (BitVec.eq_of_toInt_eq he)
  omega

theorem Inv.fork (h : Inv s) (hi : s.task i = some p) (hp : p.phase = .user) {copied : Bool} (hs : s.fork p copied = some s') :
    Inv s' := by
  obtain ⟨last, hlast, rfl⟩ := Option.map_eq_some_iff.1 hs
  obtain ⟨hneg, hfree⟩ := findPid_spec hlast
  have hsame : Inv { s with lastPid := last } :=
    ⟨h.family, h.history.ids, h.history.lt, h.history.pid, h.history.code, h.history.nodup, h.history.gone, h.history.keeps,
      h.history.told⟩
  split
  · rename_i nr hnr
    obtain ⟨hnone, hnr0⟩ := findSlot_spec hnr
    split
    · have hexit : ∀ c, p.phase ≠ .exiting c := fun c hc => by
        rw [hp] at hc
        cases hc
      obtain ⟨z, hz, hz0, -⟩ := h.family.zero
      have hpos : (0 : Long).slt last = true := slt_of_not_slt hneg fun e => hfree 0 z hz (by rw [hz0, e])
      exact ⟨h.family.insert hnone hpos hfree ⟨i, p, hi, rfl, h.not_zombie hi hexit, hexit⟩ rfl rfl,
        h.history.insert hnone rfl rfl⟩
    · exact hsame
  · exact hsame

/-! ## do_exit -/

/-- The entries of the table after the loop over the children. -/
structure Handed (i : Slot) (old : Long) (code : Int) (j : Slot) (q q' : Proc) : Prop where
  pid : q'.pid = q.pid
  father : q'.father = if q.father = old then 1 else q.father
  state : q'.state = q.state
  exitCode : q'.exitCode = q.exitCode
  phase : q'.phase = if j = i then .exiting code else q.phase
  id : q'.id = q.id

theorem exitBegin_some {code : Int} {j : Slot} {q' : Proc} (h : (s.exitBegin i p code).task j = some q') :
    ∃ q, s.task j = some q ∧ Handed i p.pid code j q q' := by
  simp only [Sys.exitBegin, reparent, Option.map_map, Option.map_eq_some_iff, Function.comp_apply] at h
  obtain ⟨q, hq, rfl⟩ := h
  refine ⟨q, hq, ?_⟩
  split
  · rename_i e
    exact ⟨rfl, rfl, rfl, rfl, (if_pos e).symm, rfl⟩
  · rename_i e
    exact ⟨rfl, rfl, rfl, rfl, (if_neg e).symm, rfl⟩

theorem exitBegin_of_some (i : Slot) (p : Proc) (code : Int) {j : Slot} {q : Proc} (h : s.task j = some q) :
    ∃ q', (s.exitBegin i p code).task j = some q' ∧ Handed i p.pid code j q q' := by
  cases hq' : (s.exitBegin i p code).task j with
  | none =>
    simp only [Sys.exitBegin, reparent, h, Option.map_some] at hq'
    cases hq'
  | some q' =>
    obtain ⟨q₀, hq₀, hh⟩ := exitBegin_some hq'
    obtain rfl := Option.some.inj (h.symm.trans hq₀)
    exact ⟨q', rfl, hh⟩

/-- A task elsewhere is as alive as it was. -/
theorem Handed.alive {old : Long} {code : Int} {j : Slot} {q q' : Proc} (h : Handed i old code j q q') (hj : j ≠ i) (ha : q.Alive) :
    q'.Alive := by
  refine ⟨by rw [h.state]; exact ha.1, fun c hc => ?_⟩
  rw [h.phase, if_neg hj] at hc
  exact ha.2 c hc

theorem Family.exitBegin (h : Family s.task) (hi : s.task i = some p) (hp : p.state ≠ .zombie) (h0 : i ≠ 0) (h1 : i ≠ 1)
    (code : Int) : Family (s.exitBegin i p code).task := by
  refine ⟨?_, ?_, fun hq hr e => ?_, fun hq hne => ?_, fun {j q'} hq hj0 hj1 => ?_, fun {j q'} hq hz => ?_⟩
  · obtain ⟨q, hq, hpid, ha⟩ := h.zero
    obtain ⟨q', hq', hh⟩ := exitBegin_of_some i p code hq
    exact ⟨q', hq', hh.pid.trans hpid, hh.alive h0.symm ha⟩
  · obtain ⟨q, hq, hpid, ha⟩ := h.init
    obtain ⟨q', hq', hh⟩ := exitBegin_of_some i p code hq
    exact ⟨q', hq', hh.pid.trans hpid, hh.alive h1.symm ha⟩
  · obtain ⟨q₀, hq₀, hh⟩ := exitBegin_some hq
    obtain ⟨r₀, hr₀, hh'⟩ := exitBegin_some hr
    exact h.pids hq₀ hr₀ (by rw [← hh.pid, ← hh'.pid, e])
  · obtain ⟨q₀, hq₀, hh⟩ := exitBegin_some hq
    rw [hh.pid]
    exact h.pos hq₀ hne
  · obtain ⟨q, hq₀, hh⟩ := exitBegin_some hq
    by_cases hf : q.father = p.pid
    · -- one of its children, which is init's now
      obtain ⟨r, hr, hpid, ha⟩ := h.init
      obtain ⟨r', hr', hh'⟩ := exitBegin_of_some i p code hr
      refine ⟨1, r', hr', hj1.symm, ?_, hh'.alive h1.symm ha⟩
      rw [hh'.pid, hpid, hh.father, if_pos hf]
    · obtain ⟨k, r, hr, hkj, hpid, ha⟩ := h.father hq₀ hj0 hj1
      obtain ⟨r', hr', hh'⟩ := exitBegin_of_some i p code hr
      have hki : k ≠ i := fun e => by
        subst e
        obtain rfl := Option.some.inj (hi.symm.trans hr)
        exact hf hpid.symm
      refine ⟨k, r', hr', hkj, ?_, hh'.alive hki ha⟩
      rw [hh'.pid, hpid, hh.father, if_neg hf]
  · obtain ⟨q, hq₀, hh⟩ := exitBegin_some hq
    rw [hh.state] at hz
    have hji : j ≠ i := fun e => by
      subst e
      obtain rfl := Option.some.inj (hi.symm.trans hq₀)
      exact hp hz
    obtain ⟨hphase, hf⟩ := h.zombie hq₀ hz
    constructor
    · rw [hh.phase, if_neg hji, hphase, hh.exitCode]
    · rw [hh.father]
      split
      · decide
      · exact hf

theorem History.exitBegin (h : History s) (hi : s.task i = some p) (code : Int) : History (s.exitBegin i p code) := by
  have hgone : ∀ {x}, x ∈ s.reaped → Function.update s.codeOf p.id (some code) x = s.codeOf x := fun hx =>
    Function.update_of_ne (fun e => (h.gone hx).2 i p hi e.symm) _ _
  refine ⟨fun hq hr e => ?_, fun hq => ?_, fun hq => ?_, fun {j q c} hq he => ?_, h.nodup, fun hx => ?_, fun {j q id pid c} hq he => ?_,
    fun hr => ?_⟩
  · obtain ⟨q₀, hq₀, hh⟩ := exitBegin_some hq
    obtain ⟨r₀, hr₀, hh'⟩ := exitBegin_some hr
    exact h.ids hq₀ hr₀ (by rw [← hh.id, ← hh'.id, e])
  · obtain ⟨q₀, hq₀, hh⟩ := exitBegin_some hq
    rw [hh.id]
    exact h.lt hq₀
  · obtain ⟨q₀, hq₀, hh⟩ := exitBegin_some hq
    rw [hh.id, hh.pid]
    exact h.pid hq₀
  · obtain ⟨q₀, hq₀, hh⟩ := exitBegin_some hq
    show Function.update s.codeOf p.id (some code) q.id = some c
    rw [hh.phase] at he
    rw [hh.id]
    split at he
    · rename_i e
      subst e
      obtain rfl := Option.some.inj (hi.symm.trans hq₀)
      obtain rfl := Phase.exiting.inj he
      exact Function.update_self _ _ _
    · rename_i e
      rw [Function.update_of_ne fun e' => e (h.ids hq₀ hi e')]
      exact h.code hq₀ he
  · refine ⟨(h.gone hx).1, fun j q hq => ?_⟩
    obtain ⟨q₀, hq₀, hh⟩ := exitBegin_some hq
    rw [hh.id]
    exact (h.gone hx).2 j q₀ hq₀
  · obtain ⟨q₀, hq₀, hh⟩ := exitBegin_some hq
    rw [hh.phase] at he
    split at he
    · cases he
    · obtain ⟨hm, hpid, hcode⟩ := h.keeps hq₀ he
      exact ⟨hm, hpid, (hgone hm).trans hcode⟩
  · obtain ⟨hm, hpid, hcode⟩ := h.told hr
    exact ⟨hm, hpid, (hgone hm).trans hcode⟩

theorem findFather_spec {task : Table} {father : Long} {j : Slot} (h : findFather task father = some j) :
    father ≠ 0 ∧ ∃ q, task j = some q := by
  unfold findFather at h
  split at h
  · cases h
  · rename_i h0
    refine ⟨h0, ?_⟩
    have hj := List.find?_some h
    cases ht : task j with
    | none =>
      rw [ht] at hj
      cases hj
    | some q => exact ⟨q, rfl⟩

theorem Inv.exitEnd (h : Inv s) (hi : s.task i = some p) {code : Int} (hp : p.phase = .exiting code) :
    Inv (s.exitEnd i p code) := by
  have hdead : ¬ p.Alive := fun ha => ha.2 code hp
  unfold Sys.exitEnd
  dsimp only
  split
  · rename_i j hj
    obtain ⟨h0, q, hq⟩ := findFather_spec hj
    -- first a zombie, then the signal
    have hz : Inv (s.set i { p with state := .zombie, exitCode := code }) :=
      ⟨h.family.set hi rfl rfl (fun ha => absurd ha hdead) fun _ => ⟨hp, h0⟩,
        h.history.set hi rfl rfl (fun c hc => hc) fun id pid c hc => h.history.keeps hi hc⟩
    have hzq : q.state = .zombie → q.phase = .exiting q.exitCode ∧ q.father ≠ 0 := hz.family.zombie hq
    rw [hq, Option.map_some]
    exact ⟨hz.family.set hq rfl rfl (fun ha => ha) hzq,
      hz.history.set hq rfl rfl (fun c hc => hc) fun id pid c hc => hz.history.keeps hq hc⟩
  · rw [Function.update_idem]
    exact ⟨h.family.remove hi hdead, h.history.remove⟩

/-! ## sys_waitpid -/

/-- A zombie the loop has found is a child of the caller. -/
theorem scan_zombie {task : Table} {me z : Proc} {pid : Long} {options : Options} {l : List Slot} {flag : Bool} {j : Slot}
    (h : scan task i me pid options l flag = .zombie j z) : task j = some z ∧ j ≠ i ∧ z.father = me.pid ∧ z.state = .zombie := by
  induction l generalizing flag with
  | nil => cases h
  | cons k l ih =>
    rw [scan] at h
    split at h
    · exact ih h
    · rename_i q hq
      split at h
      · exact ih h
      · rename_i hsel
        rw [not_or, not_or, not_not] at hsel
        split at h
        · split at h
          · cases h
          · exact ih h
        · rename_i hstate
          obtain ⟨rfl, rfl⟩ := Scan.zombie.inj h
          exact ⟨hq, hsel.1, hsel.2.1, hstate⟩
        · exact ih h

theorem Inv.waitpid (h : Inv s) (hi : s.task i = some p) {pid : Long} {options : Options} (hp : p.phase = .waiting pid options) :
    Inv (s.waitpid i p pid options) := by
  have hexit : ∀ c, p.phase ≠ .exiting c := fun c hc => by
    rw [hp] at hc
    cases hc
  have hstate := h.not_zombie hi hexit
  have hback : Inv (s.set i { p with phase := .user }) :=
    h.set hi rfl rfl rfl ⟨hstate, fun c hc => by cases hc⟩ fun _ _ _ hc => by cases hc
  unfold Sys.waitpid
  split
  · exact hback
  · rename_i j z hscan
    obtain ⟨hj, hji, -, hz⟩ := scan_zombie hscan
    obtain ⟨hphase, -⟩ := h.family.zombie hj hz
    have hremoved : Function.update s.task j none i = some p := by rw [Function.update_of_ne hji.symm]; exact hi
    have hfam := h.family.remove hj fun ha => ha.1 hz
    have hhist := h.history.reap hj
    exact ⟨hfam.set hremoved rfl rfl (fun _ => ⟨hstate, fun c hc => by cases hc⟩) fun hs => absurd hs hstate,
      hhist.set hremoved rfl rfl (fun c hc => by cases hc) fun id' pid' c hc => by
        obtain ⟨rfl, rfl, rfl⟩ := Phase.reporting.inj hc
        exact ⟨List.mem_append_right _ (List.mem_singleton.2 rfl), h.history.pid hj, h.history.code hj hphase⟩⟩
  · split
    · split
      · exact hback
      · exact h.set hi rfl rfl rfl ⟨fun hs => (by cases hs), fun c hc => (by cases hc)⟩ fun _ _ _ hc => by cases hc
    · exact hback

/-! ## Steps and runs -/

/-- A phase that is not of `do_exit`, and brings no report. -/
theorem Inv.setPhase (h : Inv s) (hi : s.task i = some p) {phase : Phase} {state : TaskState} {signal : BitVec 32}
    (hs : state ≠ .zombie) (hexit : ∀ c, phase ≠ .exiting c) (hrep : ∀ id pid c, phase ≠ .reporting id pid c) :
    Inv (s.set i { p with phase := phase, state := state, signal := signal }) :=
  h.set hi rfl rfl rfl ⟨hs, hexit⟩ fun id pid c hc => absurd hc (hrep id pid c)

theorem Inv.step {o : Op} (h : Inv s) (hst : step s o = some s') : Inv s' := by
  cases o with
  | fork i copied =>
    obtain ⟨p, hi, hst⟩ := Option.bind_eq_some_iff.1 hst
    split at hst
    · rename_i hp
      exact h.fork hi hp hst
    · cases hst
  | exit i code =>
    obtain ⟨p, hi, hst⟩ := Option.bind_eq_some_iff.1 hst
    have hbegin : (∀ c, p.phase ≠ .exiting c) → (if i = 0 ∨ i = 1 then none else some (s.exitBegin i p code)) = some s' →
        Inv s' := by
      intro hexit hst
      split at hst
      · cases hst
      · rename_i hne
        rw [not_or] at hne
        obtain rfl := Option.some.inj hst
        exact ⟨h.family.exitBegin hi (h.not_zombie hi hexit) hne.1 hne.2 code, h.history.exitBegin hi code⟩
    split at hst
    · rename_i hp
      exact hbegin (fun c hc => by rw [hp] at hc; cases hc) hst
    · rename_i hp
      exact hbegin (fun c hc => by rw [hp] at hc; cases hc) hst
    · cases hst
  | closed i =>
    obtain ⟨p, hi, hst⟩ := Option.bind_eq_some_iff.1 hst
    split at hst
    · rename_i code hp
      split at hst
      · cases hst
      · obtain rfl := Option.some.inj hst
        exact h.exitEnd hi hp
    · cases hst
  | waitpid i pid options =>
    obtain ⟨p, hi, hst⟩ := Option.bind_eq_some_iff.1 hst
    split at hst
    · rename_i hp
      obtain rfl := Option.some.inj hst
      have hz := h.not_zombie hi fun c hc => by rw [hp] at hc; cases hc
      exact h.setPhase hi hz (fun c hc => by cases hc) fun _ _ _ hc => by cases hc
    · cases hst
  | look i =>
    obtain ⟨p, hi, hst⟩ := Option.bind_eq_some_iff.1 hst
    split at hst
    · rename_i pid options hp
      obtain rfl := Option.some.inj hst
      exact h.waitpid hi hp
    · cases hst
  | wake i =>
    obtain ⟨p, hi, hst⟩ := Option.bind_eq_some_iff.1 hst
    split at hst
    · rename_i pid options hp
      obtain rfl := Option.some.inj hst
      refine h.setPhase hi (fun hs => by cases hs) (fun c hc => ?_) fun _ _ _ hc => ?_
      · split at hc <;> cases hc
      · split at hc <;> cases hc
    · cases hst
  | report i =>
    obtain ⟨p, hi, hst⟩ := Option.bind_eq_some_iff.1 hst
    split at hst
    · rename_i id pid code hp
      obtain rfl := Option.some.inj hst
      have hz := h.not_zombie hi fun c hc => by rw [hp] at hc; cases hc
      have hset : Inv (s.set i { p with phase := .user }) :=
        h.setPhase hi hz (fun c hc => by cases hc) fun _ _ _ hc => by cases hc
      obtain ⟨hf, hh⟩ := hset
      refine ⟨hf, hh.ids, hh.lt, hh.pid, hh.code, hh.nodup, hh.gone, hh.keeps, fun {r} hr => ?_⟩
      rcases List.mem_append.1 hr with hr | hr
      · exact hh.told hr
      · rw [List.mem_singleton.1 hr]
        exact h.history.keeps hi hp
    · cases hst
  | block i state =>
    obtain ⟨p, hi, hst⟩ := Option.bind_eq_some_iff.1 hst
    split at hst
    · cases hst
    · rename_i hne
      rw [not_or] at hne
      obtain rfl := Option.some.inj hst
      exact ⟨h.family.set hi rfl rfl (fun ha => ⟨hne.2, ha.2⟩) fun hs => absurd hs hne.2,
        h.history.set hi rfl rfl (fun c hc => hc) fun id pid c hc => h.history.keeps hi hc⟩
  | kill i signal =>
    obtain ⟨p, hi, rfl⟩ := Option.map_eq_some_iff.1 hst
    have hz : p.state = .zombie → p.phase = .exiting p.exitCode ∧ p.father ≠ 0 := h.family.zombie hi
    exact ⟨h.family.set hi rfl rfl (fun ha => ha) hz,
      h.history.set hi rfl rfl (fun c hc => hc) fun id pid c hc => h.history.keeps hi hc⟩

theorem Inv.start (h : s.Start) : Inv s := by
  obtain ⟨p₀, h₀, hpid₀, hz₀, hph₀, hid₀⟩ := h.zero
  obtain ⟨p₁, h₁, hpid₁, hz₁, hph₁, hid₁⟩ := h.init
  have honly : ∀ {i p}, s.task i = some p → (i = 0 ∧ p = p₀) ∨ (i = 1 ∧ p = p₁) := by
    intro i p hi
    by_cases hi0 : i = 0
    · subst hi0
      exact .inl ⟨rfl, Option.some.inj (hi.symm.trans h₀)⟩
    · by_cases hi1 : i = 1
      · subst hi1
        exact .inr ⟨rfl, Option.some.inj (hi.symm.trans h₁)⟩
      · rw [h.rest i hi0 hi1] at hi
        cases hi
  have huser : ∀ {i p}, s.task i = some p → p.phase = .user := by
    intro i p hi
    rcases honly hi with ⟨-, rfl⟩ | ⟨-, rfl⟩
    · exact hph₀
    · exact hph₁
  have hexit : ∀ {i p}, s.task i = some p → ∀ c, p.phase ≠ .exiting c := fun hi c hc => by
    rw [huser hi] at hc
    cases hc
  refine ⟨⟨⟨p₀, h₀, hpid₀, hz₀, hexit h₀⟩, ⟨p₁, h₁, hpid₁, hz₁, hexit h₁⟩, fun hi hj e => ?_, fun hi hne => ?_, fun hi hi0 hi1 => ?_,
    fun hi hz => ?_⟩, ⟨fun hi hj e => ?_, fun hi => ?_, fun hi => ?_, fun hi hc => absurd hc (hexit hi _), ?_, fun hx => ?_, fun hi hc => ?_, fun hr => ?_⟩⟩
  · rcases honly hi with ⟨rfl, rfl⟩ | ⟨rfl, rfl⟩
    · rcases honly hj with ⟨rfl, rfl⟩ | ⟨rfl, rfl⟩
      · rfl
      · rw [hpid₀, hpid₁] at e
        exact absurd e (by decide)
    · rcases honly hj with ⟨rfl, rfl⟩ | ⟨rfl, rfl⟩
      · rw [hpid₀, hpid₁] at e
        exact absurd e (by decide)
      · rfl
  · rcases honly hi with ⟨rfl, rfl⟩ | ⟨rfl, rfl⟩
    · exact absurd rfl hne
    · rw [hpid₁]
      decide
  · rcases honly hi with ⟨rfl, -⟩ | ⟨rfl, -⟩
    · exact absurd rfl hi0
    · exact absurd rfl hi1
  · rcases honly hi with ⟨-, rfl⟩ | ⟨-, rfl⟩
    · exact absurd hz hz₀
    · exact absurd hz hz₁
  · rcases honly hi with ⟨rfl, rfl⟩ | ⟨rfl, rfl⟩
    · rcases honly hj with ⟨rfl, rfl⟩ | ⟨rfl, rfl⟩
      · rfl
      · rw [hid₀, hid₁] at e
        cases e
    · rcases honly hj with ⟨rfl, rfl⟩ | ⟨rfl, rfl⟩
      · rw [hid₀, hid₁] at e
        cases e
      · rfl
  · rw [h.born]
    rcases honly hi with ⟨-, rfl⟩ | ⟨-, rfl⟩
    · rw [hid₀]
      decide
    · rw [hid₁]
      decide
  · rcases honly hi with ⟨-, rfl⟩ | ⟨-, rfl⟩
    · rw [hid₀, hpid₀]
      exact h.pidOf.1
    · rw [hid₁, hpid₁]
      exact h.pidOf.2
  · rw [h.reaped]
    exact List.nodup_nil
  · rw [h.reaped] at hx
    cases hx
  · rw [huser hi] at hc
    cases hc
  · rw [h.reports] at hr
    cases hr

end Steps

/-! ## Every zombie can be reaped -/

section Reap

variable {s : Sys} {i j : Slot} {z q : Proc}

theorem mem_order : ∀ i : Slot, i ≠ 0 → i ∈ order := by decide

/-- The loop finds a zombie that is asked for by its pid. -/
theorem scan_finds (task : Table) (options : Options) {l : List Slot} (flag : Bool) (hi : task i = some z) (hz : z.state = .zombie)
    (hij : i ≠ j) (hf : z.father = q.pid) (hpos : (0 : Long).slt z.pid = true)
    (huniq : ∀ k p, task k = some p → p.pid = z.pid → k = i) (hmem : i ∈ l) :
    scan task j q z.pid options l flag = .zombie i z := by
  induction l generalizing flag with
  | nil => cases hmem
  | cons k l ih =>
    rw [scan]
    by_cases hk : k = i
    · subst hk
      rw [hi]
      dsimp only
      rw [if_neg, hz]
      rw [not_or, not_or, not_not, selects, if_pos hpos]
      exact ⟨hij, hf, fun e => of_decide_eq_false e rfl⟩
    · have hrest := ih flag ((List.mem_cons.1 hmem).resolve_left (Ne.symm hk))
      split
      · exact hrest
      · rename_i p hp
        rw [if_pos]
        · exact hrest
        · refine .inr (.inr ?_)
          rw [selects, if_pos hpos]
          exact decide_eq_false fun e => hk (huniq k p hp e)

theorem set_self (s : Sys) (j : Slot) (p : Proc) : (s.set j p).task j = some p := Function.update_self _ _ _

theorem set_of_ne (s : Sys) (p : Proc) (h : i ≠ j) : (s.set j p).task i = s.task i := Function.update_of_ne h _ _

theorem step_report (hj : s.task j = some q) {id : Nat} {pid : Long} {code : Int} (hp : q.phase = .reporting id pid code) :
    step s (.report j) = some { s.set j { q with phase := .user } with reports := s.reports ++ [⟨id, pid, code⟩] } := by
  simp only [step, hj, Option.bind_some, hp]

/-- The father asks for it. -/
theorem Inv.reap (h : Inv s) (hi : s.task i = some z) (hz : z.state = .zombie) (hj : s.task j = some q) (hf : q.pid = z.father)
    (hu : q.phase = .user) (options : Options) :
    ∃ s₁ s₂ s₃, Process.step s (.waitpid j z.pid options) = some s₁ ∧ Process.step s₁ (.look j) = some s₂ ∧ s₂.task i = none ∧
      Process.step s₂ (.report j) = some s₃ ∧ s₃.reaped = s.reaped ++ [z.id] ∧ s₃.reports = s.reports ++ [⟨z.id, z.pid, z.exitCode⟩] := by
  have hij : i ≠ j := fun e => by
    subst e
    obtain rfl := Option.some.inj (hi.symm.trans hj)
    rw [(h.family.zombie hi hz).1] at hu
    cases hu
  have hi0 : i ≠ 0 := fun e => by
    subst e
    obtain ⟨p, hp, -, ha⟩ := h.family.zero
    obtain rfl := Option.some.inj (hi.symm.trans hp)
    exact ha.1 hz
  have h₁ : Process.step s (.waitpid j z.pid options) = some (s.set j { q with phase := .waiting z.pid options }) := by
    simp [Process.step, hj, hu]
  have hi₁ : (s.set j { q with phase := .waiting z.pid options }).task i = some z := (set_of_ne s _ hij).trans hi
  have hj₁ := set_self s j { q with phase := .waiting z.pid options }
  have hinv := h.step h₁
  have hscan := scan_finds (s.set j { q with phase := .waiting z.pid options }).task options false
    (q := { q with phase := .waiting z.pid options }) hi₁ hz hij hf.symm (h.family.pos hi hi0)
    (fun k p hk e => hinv.family.pids hk hi₁ e) (mem_order i hi0)
  have h₂ : Process.step (s.set j { q with phase := .waiting z.pid options }) (.look j) =
      some ((s.set j { q with phase := .waiting z.pid options }).waitpid j { q with phase := .waiting z.pid options } z.pid options) := by
    simp [Process.step, hj₁]
  rw [Sys.waitpid, hscan] at h₂
  refine ⟨_, _, _, h₁, h₂, ?_, step_report (Function.update_self _ _ _) rfl, rfl, rfl⟩
  dsimp only
  rw [Function.update_of_ne hij, Function.update_self]

/-- A zombie and its father. -/
structure Waits (s : Sys) (i j : Slot) (z q : Proc) : Prop where
  inv : Inv s
  zombie : s.task i = some z
  state : z.state = .zombie
  father : s.task j = some q
  pid : q.pid = z.father
  ne : i ≠ j

theorem Waits.of_user (h : Waits s i j z q) (hu : q.phase = .user) : ∃ s', Run.Reaches (Run.Fires step) s s' ∧ z.id ∈ s'.reaped := by
  obtain ⟨s₁, s₂, s₃, h₁, h₂, -, h₃, hr, -⟩ := h.inv.reap h.zombie h.state h.father h.pid hu ⟨true, true⟩
  refine ⟨s₃, ((Run.Reaches.refl.snoc h₁).snoc h₂).snoc h₃, ?_⟩
  rw [hr]
  exact List.mem_append_right _ (List.mem_singleton.2 rfl)

/-- The father goes on by itself. -/
theorem Waits.next (h : Waits s i j z q) {o : Op} {s' : Sys} {q' : Proc} (hs : step s o = some s') (hi : s'.task i = some z)
    (hj : s'.task j = some q') (hpid : q'.pid = q.pid)
    (hnext : Waits s' i j z q' → ∃ s'', Run.Reaches (Run.Fires step) s' s'' ∧ z.id ∈ s''.reaped) :
    ∃ s'', Run.Reaches (Run.Fires step) s s'' ∧ z.id ∈ s''.reaped := by
  obtain ⟨s'', ⟨os, hr⟩, hm⟩ := hnext ⟨h.inv.step hs, hi, h.state, hj, hpid.trans h.pid, h.ne⟩
  exact ⟨s'', ⟨o :: os, .cons hs hr⟩, hm⟩

theorem Waits.set_zombie (h : Waits s i j z q) (q' : Proc) : (s.set j q').task i = some z := (set_of_ne s q' h.ne).trans h.zombie

theorem step_wake (hj : s.task j = some q) {pid : Long} {options : Options} (hp : q.phase = .sleeping pid options)
    (hsig : q.signal &&& ~~~Signal.bit sigchld ≠ 0) :
    step s (.wake j) = some (s.set j { q with state := .running, signal := q.signal &&& ~~~Signal.bit sigchld, phase := .user }) := by
  simp only [step, hj, Option.bind_some, hp]
  rw [if_neg hsig]

theorem Waits.of_reporting (h : Waits s i j z q) {id : Nat} {pid : Long} {code : Int} (hp : q.phase = .reporting id pid code) :
    ∃ s', Run.Reaches (Run.Fires step) s s' ∧ z.id ∈ s'.reaped := by
  exact h.next (step_report h.father hp) (h.set_zombie _) (set_self _ _ _) rfl fun hw => hw.of_user rfl

/-- A signal interrupts the sleep. -/
theorem Waits.of_sleeping (h : Waits s i j z q) {pid : Long} {options : Options} (hp : q.phase = .sleeping pid options) :
    ∃ s', Run.Reaches (Run.Fires step) s s' ∧ z.id ∈ s'.reaped := by
  have hk : step s (.kill j 1) = some (s.set j { q with signal := q.signal ||| 1 }) := by
    simp [step, h.father]
  refine h.next hk (h.set_zombie _) (set_self _ _ _) rfl fun hw => ?_
  have hsig : (q.signal ||| 1) &&& ~~~Signal.bit sigchld ≠ 0 := fun e => by
    have hbit := congrArg (fun w : BitVec 32 => w.getLsbD 0) e
    simp [Signal.bit, sigchld] at hbit
  exact hw.next (step_wake hw.father hp hsig) (hw.set_zombie _) (set_self _ _ _) rfl fun hw => hw.of_user rfl

theorem Waits.of_waiting (h : Waits s i j z q) {pid : Long} {options : Options} (hp : q.phase = .waiting pid options) :
    ∃ s', Run.Reaches (Run.Fires step) s s' ∧ z.id ∈ s'.reaped := by
  have hs : step s (.look j) = some (s.waitpid j q pid options) := by
    simp [step, h.father, hp]
  have hback : s.waitpid j q pid options = s.set j { q with phase := .user } →
      ∃ s', Run.Reaches (Run.Fires step) s s' ∧ z.id ∈ s'.reaped := by
    intro he
    rw [he] at hs
    exact h.next hs (h.set_zombie _) (set_self _ _ _) rfl fun hw => hw.of_user rfl
  unfold Sys.waitpid at hback hs
  split at hs
  · rename_i hscan
    rw [hscan] at hback
    exact hback rfl
  · rename_i k w hscan
    obtain ⟨hk, hkj, -, -⟩ := scan_zombie hscan
    by_cases hki : k = i
    · -- it is the one
      subst hki
      obtain rfl := Option.some.inj (hk.symm.trans h.zombie)
      exact ⟨_, Run.Reaches.refl.snoc hs, List.mem_append_right _ (List.mem_singleton.2 rfl)⟩
    · refine h.next hs ?_ (Function.update_self _ _ _) rfl fun hw => hw.of_reporting rfl
      dsimp only
      rw [Function.update_of_ne h.ne, Function.update_of_ne (Ne.symm hki)]
      exact h.zombie
  · rename_i flag hscan
    rw [hscan] at hback
    dsimp only at hback
    split at hs
    · rename_i hflag
      rw [if_pos hflag] at hback
      split at hs
      · rename_i hno
        rw [if_pos hno] at hback
        exact hback rfl
      · exact h.next hs (h.set_zombie _) (set_self _ _ _) rfl fun hw => hw.of_sleeping rfl
    · rename_i hflag
      rw [if_neg hflag] at hback
      exact hback rfl

/-- Whatever the father is doing, it can get to the zombie. -/
theorem Waits.reaped (h : Waits s i j z q) (ha : q.Alive) : ∃ s', Run.Reaches (Run.Fires step) s s' ∧ z.id ∈ s'.reaped := by
  cases hp : q.phase with
  | user => exact h.of_user hp
  | waiting pid options => exact h.of_waiting hp
  | sleeping pid options => exact h.of_sleeping hp
  | reporting id pid code => exact h.of_reporting hp
  | exiting code => exact absurd hp (ha.2 code)

end Reap

/-- **No zombie is orphaned**: the father of a task is another task of the table that has not begun to exit, from any state on it can
reap the task once that is a zombie, and each process is reaped once at most, with its own pid and code reported. -/
theorem zombies_reaped {s₀ s : Sys} (h₀ : s₀.Start) (h : Run.Reaches (Run.Fires step) s₀ s) :
    (∀ i p, s.task i = some p → i ≠ 0 → i ≠ 1 →
      ∃ j q, s.task j = some q ∧ j ≠ i ∧ q.pid = p.father ∧ q.state ≠ .zombie ∧ ∀ code, q.phase ≠ .exiting code) ∧
    (∀ i z, s.task i = some z → z.state = .zombie →
      (∃ s', Run.Reaches (Run.Fires step) s s' ∧ z.id ∈ s'.reaped) ∧
      ∀ j q options, s.task j = some q → q.pid = z.father → q.phase = .user →
        ∃ s₁ s₂ s₃, step s (.waitpid j z.pid options) = some s₁ ∧ step s₁ (.look j) = some s₂ ∧ s₂.task i = none ∧
          step s₂ (.report j) = some s₃ ∧ s₃.reports = s.reports ++ [⟨z.id, z.pid, z.exitCode⟩]) ∧
    s.reaped.Nodup ∧ (∀ x ∈ s.reaped, ∀ i p, s.task i = some p → p.id ≠ x) ∧
    ∀ r ∈ s.reports, r.id ∈ s.reaped ∧ r.pid = s.pidOf r.id ∧ some r.code = s.codeOf r.id := by
  have hI : Inv s := h.invariant (fun s o s' hs hst => hs.step hst) (.start h₀)
  refine ⟨fun i p hi h0 h1 => ?_, fun i z hi hz => ⟨?_, fun j q options hj hf hu => ?_⟩, hI.history.nodup,
    fun x hx => (hI.history.gone hx).2, fun r hr => ?_⟩
  · obtain ⟨j, q, hj, hne, hf, ha⟩ := hI.family.father hi h0 h1
    exact ⟨j, q, hj, hne, hf, ha.1, ha.2⟩
  · have hnot : ∀ {p}, s.task i = some p → ¬ p.Alive := fun hp ha => by
      obtain rfl := Option.some.inj (hi.symm.trans hp)
      exact ha.1 hz
    have h0 : i ≠ 0 := fun e => by
      subst e
      obtain ⟨p, hp, -, ha⟩ := hI.family.zero
      exact hnot hp ha
    have h1 : i ≠ 1 := fun e => by
      subst e
      obtain ⟨p, hp, -, ha⟩ := hI.family.init
      exact hnot hp ha
    obtain ⟨j, q, hj, hne, hf, ha⟩ := hI.family.father hi h0 h1
    exact Waits.reaped ⟨hI, hi, hz, hj, hf, hne.symm⟩ ha
  · obtain ⟨s₁, s₂, s₃, h₁, h₂, hn, h₃, -, hr⟩ := hI.reap hi hz hj hf hu options
    exact ⟨s₁, s₂, s₃, h₁, h₂, hn, h₃, hr⟩
  · obtain ⟨hm, hpid, hcode⟩ := hI.history.told hr
    exact ⟨hm, hpid.symm, hcode.symm⟩

/-- Task 0 and init. -/
def booted : Sys where
  task i :=
    if i = 0 then some ⟨0, 0, 0, .running, 0, 0, .user, 0⟩
    else if i = 1 then some ⟨1, 0, 0, .running, 0, 0, .user, 1⟩
    else none
  lastPid := 1
  born := 2
  pidOf n := if n = 0 then 0 else 1
  codeOf _ := none
  reaped := []
  reports := []

theorem booted_start : booted.Start := by
  refine ⟨⟨_, rfl, rfl, by decide, rfl, rfl⟩, ⟨_, rfl, rfl, by decide, rfl, rfl⟩, fun i h0 h1 => ?_, rfl, ⟨rfl, rfl⟩, rfl, rfl⟩
  simp [booted, h0, h1]

/-- A process forks, its child exits, it exits itself, and init reaps both. -/
theorem zombies_reaped_two : ∃ s, Run.Reaches (Run.Fires step) booted s ∧ s.reaped = [3, 2] ∧ s.reaped.Nodup ∧
    s.reports = [⟨3, 3, 7⟩, ⟨2, 2, 9⟩] ∧ ∀ r ∈ s.reports, r.pid = s.pidOf r.id ∧ some r.code = s.codeOf r.id := by
  obtain ⟨s, hs, hp⟩ := Run.reaches_of_exec (fun _ _ => true) step booted
    [.fork 1 true, .fork 2 true, .exit 3 7, .exit 2 9, .closed 3, .closed 2, .waitpid 1 (-1) ⟨false, false⟩, .look 1, .report 1,
      .waitpid 1 (-1) ⟨false, false⟩, .look 1, .report 1]
    (fun s => s.reaped = [3, 2] ∧ s.reports = [⟨3, 3, 7⟩, ⟨2, 2, 9⟩]) (by decide +kernel)
  obtain ⟨hr, hrep⟩ := of_decide_eq_true hp
  obtain ⟨-, -, hnd, -, htold⟩ := zombies_reaped booted_start hs.of_under
  exact ⟨s, hs.of_under, hr, hnd, hrep, fun r hr => (htold r hr).2⟩

end Linux011.Kernel.Process
