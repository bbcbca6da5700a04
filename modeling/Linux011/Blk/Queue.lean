/-
The lists of requests and the locks of buffers, over any interleaving of tasks
and completions.

A slot in use is on the list of its device, once, or a task has filled it and is about to link it
in. A locked buffer has one owner: a task inside `make_request`, or a request
on a list. What one step does to slots, lists and owners is said once for each
kind of step, and the rest follows.
-/
import Linux011.Blk.Request
import Mathlib.Data.List.Nodup

namespace Linux011.Blk

variable {T B : Type*}

/-- The request in a slot is on a list. -/
def Listed (q : Nat → List Nat) (r : Nat) : Prop := ∃ m, r ∈ q m

/-- The slots in use, with `q` the lists of the devices. -/
structure Slots (s : Sys T B) (q : Nat → List Nat) : Prop where
  links : ∀ m, Cells.Links s.next (s.current m) (q m)
  nodup : ∀ m, (q m).Nodup
  lt : ∀ r, Listed q r → r < 32
  used : ∀ m r, r ∈ q m → ∃ b, (s.req r).bh = some b ∧ (s.req r).dev = s.dev b ∧ s.dev b / 256 = m
  busy : ∀ r, r < 32 → 0 ≤ (s.req r).dev → Listed q r ∨ ∃ t, (s.frame t).slot = some r
  filled : ∀ t m b r, s.frame t = .filled m b r →
    r < 32 ∧ (s.req r).bh = some b ∧ (s.req r).dev = s.dev b ∧ ¬Listed q r
  one : ∀ t u r, (s.frame t).slot = some r → (s.frame u).slot = some r → t = u
  major : ∀ t m b, (s.frame t).call = some (m, b) → s.dev b / 256 = m
  reads : ∀ r, 32 * 2 / 3 ≤ r → r < 32 → 0 ≤ (s.req r).dev → (s.req r).cmd = .read

/-- The locked buffers and their owners. -/
structure Owners (s : Sys T B) (q : Nat → List Nat) : Prop where
  task : ∀ t b, (s.frame t).holds = some b → s.lock b = true
  request : ∀ r b, Listed q r → (s.req r).bh = some b → s.lock b = true
  owned : ∀ b, s.lock b = true → (∃ t, (s.frame t).holds = some b) ∨ ∃ r, Listed q r ∧ (s.req r).bh = some b
  tasks : ∀ t u b, (s.frame t).holds = some b → (s.frame u).holds = some b → t = u
  either : ∀ t r b, (s.frame t).holds = some b → Listed q r → (s.req r).bh ≠ some b
  requests : ∀ r r' b, Listed q r → Listed q r' → (s.req r).bh = some b → (s.req r').bh = some b → r = r'

/-- The requests queued so far are on the lists or ended, each once. -/
structure Served (s : Sys T B) (q : Nat → List Nat) : Prop where
  lt : ∀ r, Listed q r → (s.req r).id < s.queued
  fresh : ∀ r, Listed q r → (s.req r).id ∉ s.ended
  inj : ∀ r r', Listed q r → Listed q r' → (s.req r).id = (s.req r').id → r = r'
  ended : s.ended.Nodup
  past : ∀ i ∈ s.ended, i < s.queued
  all : ∀ i < s.queued, i ∈ s.ended ∨ ∃ r, Listed q r ∧ (s.req r).id = i

structure Inv (s : Sys T B) (q : Nat → List Nat) : Prop where
  slots : Slots s q
  owners : Owners s q
  served : Served s q

theorem Inv.start {s : Sys T B} (h : s.Start) : Inv s fun _ => [] := by
  have hnone : ∀ r, ¬Listed (fun _ => []) r := by
    intro r hr
    obtain ⟨m, hm⟩ := hr
    cases hm
  have hframe : ∀ t, (s.frame t).holds = none ∧ (s.frame t).slot = none ∧ (s.frame t).call = none := by
    intro t
    rw [h.frame t]
    exact ⟨rfl, rfl, rfl⟩
  refine ⟨?_, ?_, ?_⟩
  · refine ⟨fun m => h.current m, fun _ => List.nodup_nil, fun r hr => absurd hr (hnone r), fun m r hr => (by cases hr),
      fun r _ hd => ?_, fun t m b r hf => ?_, fun t u r hf => ?_, fun t m b hf => ?_, fun r _ _ hd => ?_⟩
    · rw [h.dev r] at hd
      omega
    · rw [h.frame t] at hf
      cases hf
    · rw [(hframe t).2.1] at hf
      cases hf
    · rw [(hframe t).2.2] at hf
      cases hf
    · rw [h.dev r] at hd
      omega
  · refine ⟨fun t b hf => ?_, fun r b hr => absurd hr (hnone r), fun b hb => ?_, fun t u b hf => ?_, fun t r b hf => ?_,
      fun r r' b hr => absurd hr (hnone r)⟩
    · rw [(hframe t).1] at hf
      cases hf
    · rw [h.lock b] at hb
      cases hb
    · rw [(hframe t).1] at hf
      cases hf
    · rw [(hframe t).1] at hf
      cases hf
  · refine ⟨fun r hr => absurd hr (hnone r), fun r hr => absurd hr (hnone r), fun r r' hr => absurd hr (hnone r), ?_, ?_, ?_⟩
    · rw [h.ended]
      exact List.nodup_nil
    · rw [h.ended]
      intro i hi
      cases hi
    · rw [h.queued]
      intro i hi
      omega

section Frames

variable {s s' : Sys T B} {q : Nat → List Nat}

theorem Slots.of_eq (h : Slots s q) (hreq : s'.req = s.req) (hnext : s'.next = s.next) (hcur : s'.current = s.current)
    (hdev : s'.dev = s.dev) (hframe : s'.frame = s.frame) : Slots s' q := by
  obtain ⟨h1, h2, h3, h4, h5, h6, h7, h8, h9⟩ := h
  rw [← hnext, ← hcur] at h1
  rw [← hreq, ← hdev] at h4
  rw [← hreq, ← hframe] at h5
  rw [← hreq, ← hdev, ← hframe] at h6
  rw [← hframe] at h7
  rw [← hdev, ← hframe] at h8
  rw [← hreq] at h9
  exact ⟨h1, h2, h3, h4, h5, h6, h7, h8, h9⟩

theorem Owners.of_eq (h : Owners s q) (hbh : ∀ r, Listed q r → (s'.req r).bh = (s.req r).bh) (hlock : s'.lock = s.lock)
    (hframe : s'.frame = s.frame) : Owners s' q := by
  refine ⟨fun t b ht => ?_, fun r b hr hb => ?_, fun b hb => ?_, fun t u b ht hu => ?_, fun t r b ht hr => ?_,
    fun r r' b hr hr' hb hb' => ?_⟩
  · rw [hframe] at ht
    rw [hlock]
    exact h.task t b ht
  · rw [hbh r hr] at hb
    rw [hlock]
    exact h.request r b hr hb
  · rw [hlock] at hb
    rw [hframe]
    rcases h.owned b hb with ht | ⟨r, hr, hb⟩
    · exact .inl ht
    · exact .inr ⟨r, hr, (hbh r hr).trans hb⟩
  · rw [hframe] at ht hu
    exact h.tasks t u b ht hu
  · rw [hframe] at ht
    rw [hbh r hr]
    exact h.either t r b ht hr
  · rw [hbh r hr] at hb
    rw [hbh r' hr'] at hb'
    exact h.requests r r' b hr hr' hb hb'

theorem Served.of_eq (h : Served s q) (hreq : ∀ r, Listed q r → (s'.req r).id = (s.req r).id) (hq : s'.queued = s.queued)
    (he : s'.ended = s.ended) : Served s' q := by
  refine ⟨fun r hr => ?_, fun r hr => ?_, fun r r' hr hr' e => ?_, ?_, fun i hi => ?_, fun i hi => ?_⟩
  · rw [hreq r hr, hq]
    exact h.lt r hr
  · rw [hreq r hr, he]
    exact h.fresh r hr
  · rw [hreq r hr, hreq r' hr'] at e
    exact h.inj r r' hr hr' e
  · rw [he]
    exact h.ended
  · rw [he] at hi
    rw [hq]
    exact h.past i hi
  · rw [hq] at hi
    rw [he]
    rcases h.all i hi with hi | ⟨r, hr, hid⟩
    · exact .inl hi
    · exact .inr ⟨r, hr, (hreq r hr).trans hid⟩

/-- A request on a list has a device. -/
theorem Slots.listed_dev (h : Slots s q) {r : Nat} (hr : Listed q r) : 0 ≤ (s.req r).dev := by
  obtain ⟨m, hm⟩ := hr
  obtain ⟨b, -, hd, -⟩ := h.used m r hm
  omega

/-- The lists of two devices have nothing in common. -/
theorem Slots.disjoint (h : Slots s q) {m m' r : Nat} (hm : r ∈ q m) (hm' : r ∈ q m') : m = m' := by
  obtain ⟨b, hb, -, hmaj⟩ := h.used m r hm
  obtain ⟨b', hb', -, hmaj'⟩ := h.used m' r hm'
  obtain rfl := Option.some.inj (hb.symm.trans hb')
  exact hmaj.symm.trans hmaj'

theorem Slots.length_le (h : Slots s q) (m : Nat) : (q m).length ≤ 32 := by
  have hsub : q m ⊆ List.range 32 := fun r hr => List.mem_range.2 (h.lt r ⟨m, hr⟩)
  simpa using (List.subperm_of_subset (h.nodup m) hsub).length_le

variable [DecidableEq T]

@[simp] theorem setFrame_frame (s : Sys T B) (t u : T) (f : Frame B) :
    (s.setFrame t f).frame u = if u = t then f else s.frame u := Function.update_apply _ _ _ _

/-- The task has filled no slot, before or after. -/
theorem Slots.setFrame (h : Slots s q) {t : T} {f : Frame B} (ht : (s.frame t).slot = none) (hf : f.slot = none)
    (hcall : ∀ m b, f.call = some (m, b) → s.dev b / 256 = m) : Slots (s.setFrame t f) q := by
  have hslot : ∀ u, ((s.setFrame t f).frame u).slot = (s.frame u).slot := by
    intro u
    rw [setFrame_frame]
    split
    · rename_i e
      rw [e, ht, hf]
    · rfl
  refine ⟨h.links, h.nodup, h.lt, h.used, fun r h1 h2 => ?_, fun u m b r hu => ?_, fun u v r hu hv => ?_, fun u m b hu => ?_,
    h.reads⟩
  · simp only [hslot]
    exact h.busy r h1 h2
  · rw [setFrame_frame] at hu
    split at hu
    · rw [hu] at hf
      cases hf
    · exact h.filled u m b r hu
  · rw [hslot] at hu hv
    exact h.one u v r hu hv
  · rw [setFrame_frame] at hu
    split at hu
    · exact hcall m b hu
    · exact h.major u m b hu

theorem Owners.setFrame (h : Owners s q) {t : T} {f : Frame B} (hf : f.holds = (s.frame t).holds) :
    Owners (s.setFrame t f) q := by
  have hholds : ∀ u, ((s.setFrame t f).frame u).holds = (s.frame u).holds := by
    intro u
    rw [setFrame_frame]
    split
    · rename_i e
      rw [e, hf]
    · rfl
  refine ⟨fun u b hu => ?_, h.request, fun b hb => ?_, fun u v b hu hv => ?_, fun u r b hu => ?_, h.requests⟩
  · rw [hholds] at hu
    exact h.task u b hu
  · simp only [hholds]
    exact h.owned b hb
  · rw [hholds] at hu hv
    exact h.tasks u v b hu hv
  · rw [hholds] at hu
    exact h.either u r b hu

variable [DecidableEq B]

/-- A task locks a buffer. -/
theorem Owners.lock (h : Owners s q) {t : T} {f : Frame B} {b : B} (ht : (s.frame t).holds = none) (hf : f.holds = some b)
    (hb : s.lock b = false) : Owners ((s.lockBuffer b).setFrame t f) q := by
  have hlock : ∀ c, ((s.lockBuffer b).setFrame t f).lock c = if c = b then true else s.lock c :=
    fun c => Function.update_apply _ _ _ _
  have hne : ∀ c, s.lock c = true → c ≠ b := by
    intro c hc e
    rw [e, hb] at hc
    cases hc
  refine ⟨fun u c hu => ?_, fun r c hr hc => ?_, fun c hc => ?_, fun u v c hu hv => ?_, fun u r c hu hr hc => ?_, h.requests⟩
  · rw [hlock]
    split
    · rfl
    · rename_i hcb
      rw [setFrame_frame] at hu
      split at hu
      · exact absurd (Option.some.inj (hu.symm.trans hf)) hcb
      · exact h.task u c hu
  · rw [hlock, if_neg (hne c (h.request r c hr hc))]
    exact h.request r c hr hc
  · rw [hlock] at hc
    split at hc
    · rename_i e
      exact .inl ⟨t, by rw [setFrame_frame, if_pos rfl, hf, e]⟩
    · rcases h.owned c hc with ⟨u, hu⟩ | hr
      · refine .inl ⟨u, ?_⟩
        rw [setFrame_frame, if_neg]
        · exact hu
        · intro e
          rw [e, ht] at hu
          cases hu
      · exact .inr hr
  · rw [setFrame_frame] at hu hv
    split at hu
    · rename_i hut
      split at hv
      · rename_i hvt
        exact hut.trans hvt.symm
      · obtain rfl := Option.some.inj (hf.symm.trans hu)
        exact absurd rfl (hne _ (h.task v _ hv))
    · split at hv
      · obtain rfl := Option.some.inj (hf.symm.trans hv)
        exact absurd rfl (hne _ (h.task u _ hu))
      · exact h.tasks u v c hu hv
  · rw [setFrame_frame] at hu
    split at hu
    · obtain rfl := Option.some.inj (hf.symm.trans hu)
      exact absurd rfl (hne _ (h.request r _ hr hc))
    · exact h.either u r c hu hr hc

/-- A task gives its lock up. -/
theorem Owners.unlock (h : Owners s q) {t : T} {f : Frame B} {b : B} (ht : (s.frame t).holds = some b) (hf : f.holds = none) :
    Owners ((s.unlockBuffer b).setFrame t f) q := by
  have hlock : ∀ c, ((s.unlockBuffer b).setFrame t f).lock c = if c = b then false else s.lock c :=
    fun c => Function.update_apply _ _ _ _
  have hother : ∀ u c, (((s.unlockBuffer b).setFrame t f).frame u).holds = some c →
      (s.frame u).holds = some c ∧ c ≠ b := by
    intro u c hu
    rw [setFrame_frame] at hu
    split at hu
    · rw [hf] at hu
      cases hu
    · rename_i hut
      refine ⟨hu, fun e => hut (h.tasks u t b (e ▸ hu) ht)⟩
  refine ⟨fun u c hu => ?_, fun r c hr hc => ?_, fun c hc => ?_, fun u v c hu hv => ?_, fun u r c hu => ?_, h.requests⟩
  · obtain ⟨hu, hcb⟩ := hother u c hu
    rw [hlock, if_neg hcb]
    exact h.task u c hu
  · rw [hlock, if_neg]
    · exact h.request r c hr hc
    · intro e
      exact h.either t r b ht hr (e ▸ hc)
  · rw [hlock] at hc
    split at hc
    · cases hc
    · rename_i hcb
      rcases h.owned c hc with ⟨u, hu⟩ | hr
      · refine .inl ⟨u, ?_⟩
        rw [setFrame_frame, if_neg]
        · exact hu
        · intro e
          rw [e] at hu
          exact hcb (Option.some.inj (hu.symm.trans ht))
      · exact .inr hr
  · exact h.tasks u v c (hother u c hu).1 (hother v c hv).1
  · exact h.either u r c (hother u c hu).1

end Frames

/-! ## The steps -/

section Steps

variable [DecidableEq T] [DecidableEq B] {s s' : Sys T B} {q : Nat → List Nat}

omit [DecidableEq B] in
theorem findSlot_some {req : Nat → Req B} {n r : Nat} (h : findSlot req n = some r) : r < n ∧ (req r).dev < 0 := by
  induction n with
  | zero => cases h
  | succ n ih =>
    simp only [findSlot] at h
    split at h
    · rename_i hd
      obtain rfl := Option.some.inj h
      exact ⟨Nat.lt_succ_self _, hd⟩
    · obtain ⟨h1, h2⟩ := ih h
      exact ⟨by omega, h2⟩

theorem slotsFor_le (rw : Cmd) : slotsFor rw ≤ 32 := by
  cases rw <;> decide

omit [DecidableEq B] in
/-- A free slot is filled. -/
theorem Inv.fill (h : Inv s q) {t : T} {m r : Nat} {rw : Cmd} {ahead : Bool} {b : B}
    (ht : s.frame t = .searching m rw ahead b) (hr : findSlot s.req (slotsFor rw) = some r) :
    Inv ((s.fill rw b r).setFrame t (.filled m b r)) q := by
  obtain ⟨hlt, hfree⟩ := findSlot_some hr
  have h32 : r < 32 := Nat.lt_of_lt_of_le hlt (slotsFor_le rw)
  have hnot : ¬Listed q r := fun hl => by
    have := h.slots.listed_dev hl
    omega
  have hne : ∀ r', Listed q r' → r' ≠ r := fun r' hl e => hnot (e ▸ hl)
  have hreq : ∀ r', r' ≠ r → (s.fill rw b r).req r' = s.req r' := fun r' hr' => Function.update_of_ne hr' _ _
  have hreqr : (s.fill rw b r).req r = { dev := s.dev b, cmd := rw, sector := 2 * s.blocknr b, bh := some b, id := (s.req r).id } :=
    Function.update_self _ _ _
  have hholds : ((Frame.filled m b r).holds) = (s.frame t).holds := by rw [ht]; rfl
  have hslot : ∀ u, (((s.fill rw b r).setFrame t (.filled m b r)).frame u).slot =
      if u = t then some r else (s.frame u).slot := by
    intro u
    rw [setFrame_frame]
    split <;> rfl
  have hold : ∀ u r', (s.frame u).slot = some r' → r' ≠ r ∧ u ≠ t := by
    intro u r' hu
    refine ⟨fun e => ?_, fun e => ?_⟩
    · cases hf : s.frame u with
      | filled m' b' r'' =>
        rw [hf] at hu
        obtain rfl := Option.some.inj hu
        obtain ⟨-, -, hd, -⟩ := h.slots.filled u m' b' r'' hf
        rw [e] at hd
        omega
      | _ => rw [hf] at hu; cases hu
    · rw [e, ht] at hu
      cases hu
  refine ⟨⟨fun m' => ?_, h.slots.nodup, h.slots.lt, fun m' r' hm' => ?_, fun r' h1 h2 => ?_, fun u m' b' r' hu => ?_,
    fun u v r' hu hv => ?_, fun u m' b' hu => ?_, fun r' h1 h2 h3 => ?_⟩, ?_, ?_⟩
  · refine (h.slots.links m').congr fun x hx => Function.update_of_ne (hne x ⟨m', hx⟩) _ _
  · show ∃ b', ((s.fill rw b r).req r').bh = some b' ∧ ((s.fill rw b r).req r').dev = s.dev b' ∧ s.dev b' / 256 = m'
    rw [hreq r' (hne r' ⟨m', hm'⟩)]
    exact h.slots.used m' r' hm'
  · simp only [hslot]
    by_cases e : r' = r
    · exact .inr ⟨t, by rw [if_pos rfl, e]⟩
    · have h2 : 0 ≤ ((s.fill rw b r).req r').dev := h2
      rw [hreq r' e] at h2
      rcases h.slots.busy r' h1 h2 with hl | ⟨u, hu⟩
      · exact .inl hl
      · exact .inr ⟨u, by rw [if_neg (hold u r' hu).2]; exact hu⟩
  · show r' < 32 ∧ ((s.fill rw b r).req r').bh = some b' ∧ ((s.fill rw b r).req r').dev = s.dev b' ∧ ¬Listed q r'
    rw [setFrame_frame] at hu
    split at hu
    · cases hu
      rw [hreqr]
      exact ⟨h32, rfl, rfl, hnot⟩
    · have hu : s.frame u = .filled m' b' r' := hu
      rw [hreq r' (hold u r' (by rw [hu]; rfl)).1]
      exact h.slots.filled u m' b' r' hu
  · rw [hslot] at hu hv
    split at hu
    · rename_i hut
      split at hv
      · rename_i hvt
        exact hut.trans hvt.symm
      · obtain rfl := Option.some.inj hu
        exact absurd rfl (hold v _ hv).1
    · split at hv
      · obtain rfl := Option.some.inj hv
        exact absurd rfl (hold u _ hu).1
      · exact h.slots.one u v r' hu hv
  · rw [setFrame_frame] at hu
    split at hu
    · obtain ⟨rfl, rfl⟩ := Prod.mk.inj (Option.some.inj hu)
      exact h.slots.major t m b (by rw [ht]; rfl)
    · exact h.slots.major u m' b' hu
  · have h3 : 0 ≤ ((s.fill rw b r).req r').dev := h3
    show ((s.fill rw b r).req r').cmd = .read
    by_cases e : r' = r
    · subst e
      rw [hreqr]
      cases rw with
      | read => rfl
      | write =>
        have : r' < 32 * 2 / 3 := hlt
        omega
    · rw [hreq r' e] at h3 ⊢
      exact h.slots.reads r' h1 h2 h3
  · have howners : Owners (s.fill rw b r) q := h.owners.of_eq (fun r' hl => by rw [hreq r' (hne r' hl)]) rfl rfl
    exact howners.setFrame hholds
  · exact h.served.of_eq (fun r' hl => congrArg Req.id (hreq r' (hne r' hl))) rfl rfl

omit [DecidableEq T] [DecidableEq B] in
/-- The lists after a request is linked in. -/
theorem links_link {r : Nat} (hlinks : ∀ m, Cells.Links s.next (s.current m) (q m)) (hnodup : ∀ m, (q m).Nodup)
    (hlen : ∀ m, (q m).length ≤ 32) (hdisj : ∀ m m' x, x ∈ q m → x ∈ q m' → m = m') (hr : ∀ m, r ∉ q m)
    (hnext : s.next r = none) (m m' : Nat) :
    Cells.Links (s.link m r).next ((s.link m r).current m') (Function.update q m (Cells.place (s.stops r) r (q m)) m') := by
  have hm := hlinks m
  unfold Sys.link
  split
  · rename_i hcur
    rw [hcur] at hm
    simp only [Function.update_apply]
    split
    · rw [hm.eq_none]
      exact ⟨rfl, hnext⟩
    · exact hlinks m'
  · rename_i x hcur
    rw [hcur] at hm
    obtain ⟨l, hl, -⟩ := hm.eq_cons
    rw [hl] at hm
    by_cases e : m' = m
    · subst e
      rw [Function.update_self, hl]
      simp only [hcur]
      refine Cells.links_insert hm (hl ▸ hnodup m') (hl ▸ hr m') ?_
      have := hlen m'
      rw [hl, List.length_cons] at this
      omega
    · rw [Function.update_of_ne e]
      refine (hlinks m').congr fun y hy => ?_
      have hseek := Cells.seek_mem (s.stops r) 32 hm
      rw [← hl] at hseek
      have hys : y ≠ Cells.seek (s.stops r) s.next 32 x := fun he => e (hdisj m' m y hy (he ▸ hseek))
      simp only [Cells.insertBehind]
      rw [Function.update_of_ne hys, Function.update_of_ne (ne_of_mem_of_not_mem hy (hr m'))]

omit [DecidableEq T] [DecidableEq B] in
theorem link_rest (s : Sys T B) (m r : Nat) :
    (s.link m r).req = s.req ∧ (s.link m r).lock = s.lock ∧ (s.link m r).dev = s.dev ∧ (s.link m r).frame = s.frame ∧
      (s.link m r).queued = s.queued ∧ (s.link m r).ended = s.ended := by
  unfold Sys.link
  split <;> exact ⟨rfl, rfl, rfl, rfl, rfl, rfl⟩

/-- The queues after a request is put into one. -/
def putIn (q : Nat → List Nat) (m : Nat) (stop : Nat → Nat → Bool) (r : Nat) : Nat → List Nat :=
  Function.update q m (Cells.place stop r (q m))

omit [DecidableEq T] [DecidableEq B] in
theorem mem_putIn {m m' r x : Nat} {stop : Nat → Nat → Bool} : x ∈ putIn q m stop r m' ↔ x ∈ q m' ∨ (x = r ∧ m' = m) := by
  simp only [putIn, Function.update_apply]
  split
  · rename_i e
    rw [(Cells.place_perm stop r (q m)).mem_iff, List.mem_cons, e]
    exact ⟨fun h => h.symm.imp_right fun h => ⟨h, rfl⟩, fun h => (h.imp_right And.left).symm⟩
  · rename_i e
    exact ⟨.inl, fun h => h.resolve_right fun h => e h.2⟩

omit [DecidableEq T] [DecidableEq B] in
theorem listed_putIn {m r x : Nat} {stop : Nat → Nat → Bool} : Listed (putIn q m stop r) x ↔ Listed q x ∨ x = r := by
  simp only [Listed, mem_putIn]
  constructor
  · intro h
    obtain ⟨m', h | h⟩ := h
    · exact .inl ⟨m', h⟩
    · exact .inr h.1
  · intro h
    rcases h with ⟨m', h⟩ | h
    · exact ⟨m', .inl h⟩
    · exact ⟨m, .inr ⟨h, rfl⟩⟩

section Add

variable {t : T} {m r : Nat} {b : B} {stop : Nat → Nat → Bool}

/-- The fields of a slot that linking leaves alone. -/
theorem add_req (s : Sys T B) (t : T) (m r : Nat) (b : B) (x : Nat) :
    (((s.addRequest m b r).setFrame t .idle).req x).bh = (s.req x).bh ∧
      (((s.addRequest m b r).setFrame t .idle).req x).dev = (s.req x).dev ∧
      (((s.addRequest m b r).setFrame t .idle).req x).cmd = (s.req x).cmd ∧
      (((s.addRequest m b r).setFrame t .idle).req x).id = if x = r then s.queued else (s.req x).id := by
  have hreq : (s.addRequest m b r).req = Function.update s.req r { s.req r with id := s.queued } := (link_rest _ m r).1
  show ((s.addRequest m b r).req x).bh = _ ∧ ((s.addRequest m b r).req x).dev = _ ∧ ((s.addRequest m b r).req x).cmd = _ ∧
    ((s.addRequest m b r).req x).id = _
  rw [hreq, Function.update_apply]
  split
  · rename_i e
    rw [e]
    exact ⟨rfl, rfl, rfl, rfl⟩
  · exact ⟨rfl, rfl, rfl, rfl⟩

theorem add_frame (s : Sys T B) (t u : T) (m r : Nat) (b : B) :
    ((s.addRequest m b r).setFrame t .idle).frame u = if u = t then .idle else s.frame u := by
  rw [setFrame_frame, show (s.addRequest m b r).frame = s.frame from (link_rest _ m r).2.2.2.1]

theorem Slots.add (h : Slots s q) (ht : s.frame t = .filled m b r)
    (hlinks : ∀ m', Cells.Links (s.addRequest m b r).next ((s.addRequest m b r).current m') (putIn q m stop r m')) :
    Slots ((s.addRequest m b r).setFrame t .idle) (putIn q m stop r) := by
  obtain ⟨h32, hbh, hdev, hnot⟩ := h.filled t m b r ht
  have hslot : (s.frame t).slot = some r := by rw [ht]; rfl
  have hdevs : ((s.addRequest m b r).setFrame t .idle).dev = s.dev := (link_rest _ m r).2.2.1
  have hreq := add_req s t m r b
  have hfr := fun u => add_frame s t u m r b
  refine ⟨hlinks, fun m' => ?_, fun x hx => ?_, fun m' x hx => ?_, fun x h1 h2 => ?_, fun u m' b' x hu => ?_,
    fun u v x hu hv => ?_, fun u m' b' hu => ?_, fun x h1 h2 h3 => ?_⟩
  · simp only [putIn, Function.update_apply]
    split
    · exact (Cells.place_perm stop r (q m)).nodup_iff.2 (List.nodup_cons.2 ⟨fun hm => hnot ⟨m, hm⟩, h.nodup m⟩)
    · exact h.nodup m'
  · rcases listed_putIn.1 hx with hx | rfl
    · exact h.lt x hx
    · exact h32
  · rw [(hreq x).1, (hreq x).2.1, hdevs]
    rcases mem_putIn.1 hx with hx | ⟨rfl, rfl⟩
    · exact h.used m' x hx
    · exact ⟨b, hbh, hdev, h.major t m' b (by rw [ht]; rfl)⟩
  · rw [(hreq x).2.1] at h2
    rw [listed_putIn]
    rcases h.busy x h1 h2 with hl | ⟨u, hu⟩
    · exact .inl (.inl hl)
    · by_cases e : u = t
      · rw [e, hslot] at hu
        exact .inl (.inr (Option.some.inj hu).symm)
      · exact .inr ⟨u, by rw [hfr, if_neg e]; exact hu⟩
  · rw [hfr] at hu
    split at hu
    · cases hu
    · rename_i e
      rw [(hreq x).1, (hreq x).2.1, hdevs, listed_putIn]
      obtain ⟨h1, h2, h3, h4⟩ := h.filled u m' b' x hu
      refine ⟨h1, h2, h3, fun hl => hl.elim h4 fun hx => e ?_⟩
      exact h.one u t r (by rw [hu, hx]; rfl) hslot
  · rw [hfr] at hu hv
    split at hu
    · cases hu
    · split at hv
      · cases hv
      · exact h.one u v x hu hv
  · rw [hfr] at hu
    rw [hdevs]
    split at hu
    · cases hu
    · exact h.major u m' b' hu
  · rw [(hreq x).2.1] at h3
    rw [(hreq x).2.2.1]
    exact h.reads x h1 h2 h3

/-- The lock goes from the task to the request. -/
theorem Owners.add (h : Owners s q) (ht : s.frame t = .filled m b r) (hbh : (s.req r).bh = some b) :
    Owners ((s.addRequest m b r).setFrame t .idle) (putIn q m stop r) := by
  have hholds : (s.frame t).holds = some b := by rw [ht]; rfl
  have hlock : ((s.addRequest m b r).setFrame t .idle).lock = s.lock := (link_rest _ m r).2.1
  have hreq := fun x => (add_req s t m r b x).1
  have hfr : ∀ u c, (((s.addRequest m b r).setFrame t .idle).frame u).holds = some c →
      (s.frame u).holds = some c ∧ c ≠ b := by
    intro u c hu
    rw [add_frame] at hu
    split at hu
    · cases hu
    · rename_i e
      exact ⟨hu, fun hc => e (h.tasks u t b (hc ▸ hu) hholds)⟩
  refine ⟨fun u c hu => ?_, fun x c hx hc => ?_, fun c hc => ?_, fun u v c hu hv => ?_, fun u x c hu hx => ?_,
    fun x x' c hx hx' hc hc' => ?_⟩
  · rw [hlock]
    exact h.task u c (hfr u c hu).1
  · rw [hreq] at hc
    rw [hlock]
    rcases listed_putIn.1 hx with hx | rfl
    · exact h.request x c hx hc
    · rw [← Option.some.inj (hbh.symm.trans hc)]
      exact h.task t b hholds
  · rw [hlock] at hc
    simp only [hreq, listed_putIn]
    rcases h.owned c hc with ⟨u, hu⟩ | ⟨x, hx, hxc⟩
    · by_cases e : u = t
      · rw [e, hholds] at hu
        exact .inr ⟨r, .inr rfl, hbh.trans hu⟩
      · exact .inl ⟨u, by rw [add_frame, if_neg e]; exact hu⟩
    · exact .inr ⟨x, .inl hx, hxc⟩
  · exact h.tasks u v c (hfr u c hu).1 (hfr v c hv).1
  · rw [hreq]
    rcases listed_putIn.1 hx with hx | rfl
    · exact h.either u x c (hfr u c hu).1 hx
    · rw [hbh]
      exact fun e => (hfr u c hu).2 (Option.some.inj e).symm
  · rw [hreq] at hc hc'
    rcases listed_putIn.1 hx with hx | hx
    · rcases listed_putIn.1 hx' with hx' | hx'
      · exact h.requests x x' c hx hx' hc hc'
      · rw [hx', hbh] at hc'
        exact absurd (hc.trans hc'.symm) (h.either t x b hholds hx)
    · rcases listed_putIn.1 hx' with hx' | hx'
      · rw [hx, hbh] at hc
        exact absurd (hc'.trans hc.symm) (h.either t x' b hholds hx')
      · exact hx.trans hx'.symm

theorem Served.add (h : Served s q) (hnot : ¬Listed q r) :
    Served ((s.addRequest m b r).setFrame t .idle) (putIn q m stop r) := by
  have hq : ((s.addRequest m b r).setFrame t .idle).queued = s.queued + 1 := (link_rest _ m r).2.2.2.2.1
  have he : ((s.addRequest m b r).setFrame t .idle).ended = s.ended := (link_rest _ m r).2.2.2.2.2
  have hid : ∀ x, Listed q x → (((s.addRequest m b r).setFrame t .idle).req x).id = (s.req x).id := by
    intro x hx
    rw [(add_req s t m r b x).2.2.2, if_neg fun e : x = r => hnot (e ▸ hx)]
  have hidr : (((s.addRequest m b r).setFrame t .idle).req r).id = s.queued := by
    rw [(add_req s t m r b r).2.2.2, if_pos rfl]
  refine ⟨fun x hx => ?_, fun x hx => ?_, fun x x' hx hx' e => ?_, ?_, fun i hi => ?_, fun i hi => ?_⟩
  · rw [hq]
    rcases listed_putIn.1 hx with hx | rfl
    · rw [hid x hx]
      exact Nat.lt_succ_of_lt (h.lt x hx)
    · rw [hidr]
      exact Nat.lt_succ_self _
  · rw [he]
    rcases listed_putIn.1 hx with hx | rfl
    · rw [hid x hx]
      exact h.fresh x hx
    · rw [hidr]
      exact fun hm => Nat.lt_irrefl _ (h.past _ hm)
  · rcases listed_putIn.1 hx with hx | hx
    · have hlt := h.lt x hx
      rcases listed_putIn.1 hx' with hx' | hx'
      · rw [hid x hx, hid x' hx'] at e
        exact h.inj x x' hx hx' e
      · rw [hid x hx, hx', hidr] at e
        omega
    · rcases listed_putIn.1 hx' with hx' | hx'
      · have hlt := h.lt x' hx'
        rw [hid x' hx', hx, hidr] at e
        omega
      · exact hx.trans hx'.symm
  · rw [he]
    exact h.ended
  · rw [he] at hi
    rw [hq]
    exact Nat.lt_succ_of_lt (h.past i hi)
  · rw [hq] at hi
    rw [he]
    rcases Nat.lt_succ_iff_lt_or_eq.1 hi with hi | rfl
    · rcases h.all i hi with hi | ⟨x, hx, hxi⟩
      · exact .inl hi
      · exact .inr ⟨x, listed_putIn.2 (.inl hx), (hid x hx).trans hxi⟩
    · exact .inr ⟨r, listed_putIn.2 (.inr rfl), hidr⟩

/-- A filled slot is linked in. -/
theorem Inv.add (h : Inv s q) (ht : s.frame t = .filled m b r) :
    ∃ q', Inv ((s.addRequest m b r).setFrame t .idle) q' := by
  obtain ⟨-, hbh, -, hnot⟩ := h.slots.filled t m b r ht
  have hnr : ∀ m', r ∉ q m' := fun m' hm' => hnot ⟨m', hm'⟩
  have hlinks := fun m' => links_link (s := { s with
      next := Function.update s.next r none
      dirt := Function.update s.dirt b false
      req := Function.update s.req r { s.req r with id := s.queued }
      queued := s.queued + 1 })
    (fun m' => (h.slots.links m').congr fun x hx => Function.update_of_ne (ne_of_mem_of_not_mem hx (hnr m')) _ _)
    h.slots.nodup h.slots.length_le (fun _ _ _ => h.slots.disjoint) hnr (Function.update_self _ _ _) m m'
  exact ⟨_, h.slots.add ht hlinks, h.owners.add ht hbh, h.served.add hnot⟩

end Add

omit [DecidableEq T] in
/-- The current request of a device ends. -/
theorem Inv.endRequest (h : Inv s q) {m r : Nat} {uptodate : Bool} (hcur : s.current m = some r) :
    ∃ q', Inv (s.endRequest m uptodate r) q' := by
  have hlm := h.slots.links m
  rw [hcur] at hlm
  obtain ⟨l, hl, hrest⟩ := hlm.eq_cons
  have hrm : r ∈ q m := by rw [hl]; exact List.mem_cons_self
  have hr : Listed q r := ⟨m, hrm⟩
  obtain ⟨b, hbh, hdev, hmaj⟩ := h.slots.used m r hrm
  have hnd := h.slots.nodup m
  rw [hl] at hnd
  obtain ⟨hrl, hnd⟩ := List.nodup_cons.1 hnd
  have hs : s.endRequest m uptodate r =
      { s with
        uptodate := Function.update s.uptodate b uptodate
        lock := Function.update s.lock b false
        req := Function.update s.req r { s.req r with dev := -1 }
        current := Function.update s.current m (s.next r)
        ended := s.ended ++ [(s.req r).id] } := by
    unfold Sys.endRequest
    rw [hbh]
    rfl
  have hq : ∀ m' x, x ∈ Function.update q m l m' ↔ x ∈ q m' ∧ x ≠ r := by
    intro m' x
    simp only [Function.update_apply]
    split
    · rename_i e
      rw [e, hl, List.mem_cons]
      exact ⟨fun hx => ⟨.inr hx, ne_of_mem_of_not_mem hx hrl⟩, fun hx => hx.1.resolve_left hx.2⟩
    · rename_i e
      exact ⟨fun hx => ⟨hx, fun hxr => e (h.slots.disjoint (hxr ▸ hx) hrm)⟩, And.left⟩
  have hlist : ∀ x, Listed (Function.update q m l) x ↔ Listed q x ∧ x ≠ r := by
    intro x
    simp only [Listed, hq, exists_and_right]
  have hreq : ∀ x, x ≠ r → Function.update s.req r { s.req r with dev := -1 } x = s.req x :=
    fun x hx => Function.update_of_ne hx _ _
  have hlock : ∀ c, c ≠ b → Function.update s.lock b false c = s.lock c := fun c hc => Function.update_of_ne hc _ _
  have hnb : ∀ x, Listed q x → x ≠ r → (s.req x).bh ≠ some b := fun x hx hxr hb =>
    hxr (h.owners.requests x r b hx hr hb hbh)
  rw [hs]
  refine ⟨Function.update q m l, ⟨fun m' => ?_, fun m' => ?_, fun x hx => h.slots.lt x ((hlist x).1 hx).1, fun m' x hx => ?_,
    fun x h1 h2 => ?_, fun u m' b' x hu => ?_, h.slots.one, h.slots.major, fun x h1 h2 h3 => ?_⟩,
    ⟨fun u c hu => ?_, fun x c hx hc => ?_, fun c hc => ?_, h.owners.tasks, fun u x c hu hx => ?_,
      fun x x' c hx hx' hc hc' => ?_⟩,
    ⟨fun x hx => ?_, fun x hx => ?_, fun x x' hx hx' e => ?_, ?_, fun i hi => ?_, fun i hi => ?_⟩⟩
  · simp only [Function.update_apply]
    split
    · exact hrest
    · exact h.slots.links m'
  · simp only [Function.update_apply]
    split
    · exact hnd
    · exact h.slots.nodup m'
  · obtain ⟨hx, hxr⟩ := (hq m' x).1 hx
    simp only [hreq x hxr]
    exact h.slots.used m' x hx
  · by_cases hxr : x = r
    · simp [hxr] at h2
    · simp only [hreq x hxr] at h2
      exact (h.slots.busy x h1 h2).imp_left fun hx => (hlist x).2 ⟨hx, hxr⟩
  · obtain ⟨h1, h2, h3, h4⟩ := h.slots.filled u m' b' x hu
    have hxr : x ≠ r := fun e => h4 (e ▸ hr)
    simp only [hreq x hxr]
    exact ⟨h1, h2, h3, fun hx => h4 ((hlist x).1 hx).1⟩
  · by_cases hxr : x = r
    · simp [hxr] at h3
    · simp only [hreq x hxr] at h3 ⊢
      exact h.slots.reads x h1 h2 h3
  · have hcb : c ≠ b := fun e => h.owners.either u r b (e ▸ hu) hr hbh
    simp only [hlock c hcb]
    exact h.owners.task u c hu
  · obtain ⟨hx, hxr⟩ := (hlist x).1 hx
    simp only [hreq x hxr] at hc
    have hcb : c ≠ b := fun e => hnb x hx hxr (e ▸ hc)
    simp only [hlock c hcb]
    exact h.owners.request x c hx hc
  · by_cases hcb : c = b
    · simp [hcb] at hc
    · simp only [hlock c hcb] at hc
      rcases h.owners.owned c hc with hu | ⟨x, hx, hxc⟩
      · exact .inl hu
      · have hxr : x ≠ r := fun e => hcb (Option.some.inj (hxc.symm.trans (e ▸ hbh)))
        exact .inr ⟨x, (hlist x).2 ⟨hx, hxr⟩, by simp only [hreq x hxr]; exact hxc⟩
  · obtain ⟨hx, hxr⟩ := (hlist x).1 hx
    simp only [hreq x hxr]
    exact h.owners.either u x c hu hx
  · obtain ⟨hx, hxr⟩ := (hlist x).1 hx
    obtain ⟨hx', hxr'⟩ := (hlist x').1 hx'
    simp only [hreq x hxr] at hc
    simp only [hreq x' hxr'] at hc'
    exact h.owners.requests x x' c hx hx' hc hc'
  · obtain ⟨hx, hxr⟩ := (hlist x).1 hx
    simp only [hreq x hxr]
    exact h.served.lt x hx
  · obtain ⟨hx, hxr⟩ := (hlist x).1 hx
    simp only [hreq x hxr, List.mem_append, List.mem_singleton, not_or]
    exact ⟨h.served.fresh x hx, fun e => hxr (h.served.inj x r hx hr e)⟩
  · obtain ⟨hx, hxr⟩ := (hlist x).1 hx
    obtain ⟨hx', hxr'⟩ := (hlist x').1 hx'
    simp only [hreq x hxr, hreq x' hxr'] at e
    exact h.served.inj x x' hx hx' e
  · refine List.nodup_append.2 ⟨h.served.ended, List.pairwise_singleton _ _, fun i hi j hj => ?_⟩
    rw [List.mem_singleton] at hj
    exact fun e => h.served.fresh r hr (by rw [← hj, ← e]; exact hi)
  · rcases List.mem_append.1 hi with hi | hi
    · exact h.served.past i hi
    · rw [List.mem_singleton.1 hi]
      exact h.served.lt r hr
  · rcases h.served.all i hi with hi | ⟨x, hx, hxi⟩
    · exact .inl (List.mem_append_left _ hi)
    · by_cases hxr : x = r
      · exact .inl (List.mem_append_right _ (List.mem_singleton.2 (by rw [← hxi, hxr])))
      · exact .inr ⟨x, (hlist x).2 ⟨hx, hxr⟩, by simp only [hreq x hxr]; exact hxi⟩

omit [DecidableEq T] in
/-- A buffer that nobody uses gets another block. -/
theorem Inv.getblk (h : Inv s q) {b : B} {dev blocknr : Nat} (hb : s.lock b = false)
    (hcall : ∀ t m, (s.frame t).call ≠ some (m, b)) :
    Inv { s with
      dev := Function.update s.dev b dev
      blocknr := Function.update s.blocknr b blocknr
      dirt := Function.update s.dirt b false
      uptodate := Function.update s.uptodate b false } q := by
  have hdev : ∀ c, c ≠ b → Function.update s.dev b dev c = s.dev c := fun c hc => Function.update_of_ne hc _ _
  have hlocked : ∀ c, s.lock c = true → c ≠ b := by
    intro c hc e
    rw [e, hb] at hc
    cases hc
  refine ⟨⟨h.slots.links, h.slots.nodup, h.slots.lt, fun m r hr => ?_, h.slots.busy, fun t m c r ht => ?_, h.slots.one,
    fun t m c ht => ?_, h.slots.reads⟩, h.owners.of_eq (fun _ _ => rfl) rfl rfl, h.served.of_eq (fun _ _ => rfl) rfl rfl⟩
  · obtain ⟨c, hc, h1, h2⟩ := h.slots.used m r hr
    refine ⟨c, hc, ?_⟩
    simp only [hdev c (hlocked c (h.owners.request r c ⟨m, hr⟩ hc))]
    exact ⟨h1, h2⟩
  · simp only [hdev c fun e => hcall t m (by rw [ht, e]; rfl)]
    exact h.slots.filled t m c r ht
  · simp only [hdev c fun e => hcall t m (by rw [ht, e])]
    exact h.slots.major t m c ht

omit [DecidableEq T] [DecidableEq B] in
/-- The driver moves on in its current request. -/
theorem Inv.advance (h : Inv s q) (r sector : Nat) :
    Inv { s with req := Function.update s.req r { s.req r with sector := sector } } q := by
  have hreq : ∀ x, (Function.update s.req r { s.req r with sector := sector } x).bh = (s.req x).bh ∧
      (Function.update s.req r { s.req r with sector := sector } x).dev = (s.req x).dev ∧
      (Function.update s.req r { s.req r with sector := sector } x).cmd = (s.req x).cmd ∧
      (Function.update s.req r { s.req r with sector := sector } x).id = (s.req x).id := by
    intro x
    rw [Function.update_apply]
    split
    · rename_i e
      rw [e]
      exact ⟨rfl, rfl, rfl, rfl⟩
    · exact ⟨rfl, rfl, rfl, rfl⟩
  refine ⟨⟨h.slots.links, h.slots.nodup, h.slots.lt, fun m x hx => ?_, fun x h1 h2 => ?_, fun t m c x ht => ?_, h.slots.one,
    h.slots.major, fun x h1 h2 h3 => ?_⟩, h.owners.of_eq (fun x _ => (hreq x).1) rfl rfl,
    h.served.of_eq (fun x _ => (hreq x).2.2.2) rfl rfl⟩
  · simp only [hreq x]
    exact h.slots.used m x hx
  · simp only [hreq x] at h2
    exact h.slots.busy x h1 h2
  · simp only [hreq x]
    exact h.slots.filled t m c x ht
  · simp only [hreq x] at h3 ⊢
    exact h.slots.reads x h1 h2 h3

omit [DecidableEq B] in
/-- A frame that changes neither lock nor slot. -/
theorem Inv.setFrame (h : Inv s q) {t : T} {f : Frame B} (ht : (s.frame t).slot = none) (hf : f.slot = none)
    (hholds : f.holds = (s.frame t).holds) (hcall : ∀ m b, f.call = some (m, b) → s.dev b / 256 = m) :
    Inv (s.setFrame t f) q :=
  ⟨h.slots.setFrame ht hf hcall, h.owners.setFrame hholds, h.served.of_eq (fun _ _ => rfl) rfl rfl⟩

theorem Inv.unlock (h : Inv s q) {t : T} {b : B} (ht : (s.frame t).slot = none) (hb : (s.frame t).holds = some b) :
    Inv ((s.unlockBuffer b).setFrame t .idle) q := by
  have hslots : Slots (s.unlockBuffer b) q := h.slots.of_eq rfl rfl rfl rfl rfl
  exact ⟨hslots.setFrame ht rfl fun _ _ e => (by cases e), h.owners.unlock hb rfl, h.served.of_eq (fun _ _ => rfl) rfl rfl⟩

theorem Inv.step (h : Inv s q) {o : Op T B} (ho : keepsBuffers s o) (hst : step s o = some s') : ∃ q', Inv s' q' := by
  cases o with
  | call t rw ahead b =>
    simp only [Blk.step] at hst
    split at hst
    · rename_i ht
      split at hst
      · obtain rfl := Option.some.inj hst
        exact ⟨q, h⟩
      · obtain rfl := Option.some.inj hst
        refine ⟨q, h.setFrame (by rw [ht]; rfl) rfl (by rw [ht]; rfl) fun m c e => ?_⟩
        obtain ⟨rfl, rfl⟩ := Prod.mk.inj (Option.some.inj e)
        rfl
    · cases hst
  | lock t =>
    simp only [Blk.step] at hst
    split at hst
    · rename_i m rw ahead b ht
      split at hst
      · cases hst
      · rename_i hb
        obtain rfl := Option.some.inj hst
        have hslots : Slots (s.lockBuffer b) q := h.slots.of_eq rfl rfl rfl rfl rfl
        refine ⟨q, hslots.setFrame (by rw [show (s.lockBuffer b).frame t = _ from ht]; rfl) rfl
          fun m' c e => ?_, h.owners.lock (by rw [ht]; rfl) rfl (by simpa using hb), h.served.of_eq (fun _ _ => rfl) rfl rfl⟩
        obtain ⟨rfl, rfl⟩ := Prod.mk.inj (Option.some.inj e)
        exact h.slots.major t m b (by rw [ht]; rfl)
    · cases hst
  | check t =>
    simp only [Blk.step] at hst
    split at hst
    · rename_i m rw ahead b ht
      split at hst
      · obtain rfl := Option.some.inj hst
        exact ⟨q, h.unlock (by rw [ht]; rfl) (by rw [ht]; rfl)⟩
      · obtain rfl := Option.some.inj hst
        refine ⟨q, h.setFrame (by rw [ht]; rfl) rfl (by rw [ht]; rfl) fun m' c e => ?_⟩
        obtain ⟨rfl, rfl⟩ := Prod.mk.inj (Option.some.inj e)
        exact h.slots.major t m b (by rw [ht]; rfl)
    · cases hst
  | search t =>
    simp only [Blk.step] at hst
    split at hst
    · rename_i m rw ahead b ht
      split at hst
      · rename_i r hr
        obtain rfl := Option.some.inj hst
        exact ⟨q, h.fill ht hr⟩
      · split at hst
        · obtain rfl := Option.some.inj hst
          exact ⟨q, h.unlock (by rw [ht]; rfl) (by rw [ht]; rfl)⟩
        · obtain rfl := Option.some.inj hst
          exact ⟨q, h⟩
    · cases hst
  | add t =>
    simp only [Blk.step] at hst
    split at hst
    · rename_i m b r ht
      obtain rfl := Option.some.inj hst
      exact h.add ht
    · cases hst
  | endRequest m uptodate =>
    obtain ⟨r, hr, rfl⟩ := Option.map_eq_some_iff.1 hst
    exact h.endRequest hr
  | advance m sector =>
    obtain ⟨r, hr, rfl⟩ := Option.map_eq_some_iff.1 hst
    exact ⟨q, h.advance r sector⟩
  | modify b =>
    obtain rfl := Option.some.inj hst
    exact ⟨q, h.slots.of_eq rfl rfl rfl rfl rfl, h.owners.of_eq (fun _ _ => rfl) rfl rfl, h.served.of_eq (fun _ _ => rfl) rfl rfl⟩
  | getblk b dev blocknr =>
    simp only [Blk.step] at hst
    split at hst
    · cases hst
    · rename_i hb
      obtain rfl := Option.some.inj hst
      exact ⟨q, h.getblk (by simpa using hb) ho⟩

end Steps

/-- Who owns the lock of a buffer: a task between `lock_buffer` and `add_request` or `unlock_buffer`, or a request on
a list. -/
def Owns (s : Sys T B) (q : Nat → List Nat) (b : B) : T ⊕ Nat → Prop
  | .inl t => (s.frame t).holds = some b
  | .inr r => Listed q r ∧ (s.req r).bh = some b

section Main

variable {s s' : Sys T B} {q : Nat → List Nat}

theorem Slots.mem_iff (h : Slots s q) {m r : Nat} : r ∈ q m ↔
    r < 32 ∧ 0 ≤ (s.req r).dev ∧ (s.req r).dev.toNat / 256 = m ∧ ∀ t, (s.frame t).slot ≠ some r := by
  have hmaj : ∀ m', r ∈ q m' → (s.req r).dev.toNat / 256 = m' := by
    intro m' hm'
    obtain ⟨b, -, hd, hb⟩ := h.used m' r hm'
    rw [hd]
    exact hb
  constructor
  · intro hr
    refine ⟨h.lt r ⟨m, hr⟩, h.listed_dev ⟨m, hr⟩, hmaj m hr, fun t ht => ?_⟩
    cases hf : s.frame t with
    | filled m' b r' =>
      rw [hf] at ht
      obtain rfl := Option.some.inj ht
      exact (h.filled t m' b r' hf).2.2.2 ⟨m, hr⟩
    | _ => rw [hf] at ht; cases ht
  · intro hr
    obtain ⟨h1, h2, h3, h4⟩ := hr
    rcases h.busy r h1 h2 with ⟨m', hm'⟩ | ⟨t, ht⟩
    · rwa [← h3, hmaj m' hm']
    · exact absurd ht (h4 t)

theorem Owners.lock_iff (h : Owners s q) (b : B) : s.lock b = true ↔ ∃! o, Owns s q b o := by
  constructor
  · intro hb
    rcases h.owned b hb with ⟨t, ht⟩ | ⟨r, hr, hrb⟩
    · refine ⟨.inl t, ht, fun o ho => ?_⟩
      cases o with
      | inl u => rw [h.tasks u t b ho ht]
      | inr r => exact absurd ho.2 (h.either t r b ht ho.1)
    · refine ⟨.inr r, ⟨hr, hrb⟩, fun o ho => ?_⟩
      cases o with
      | inl t => exact absurd hrb (h.either t r b ho hr)
      | inr r' => rw [h.requests r' r b ho.1 hr ho.2 hrb]
  · intro hb
    obtain ⟨o, ho, -⟩ := hb
    cases o with
    | inl t => exact h.task t b ho
    | inr r => exact h.request r b ho.1 ho.2

theorem Inv.initRequest (h : Inv s q) (m : Nat) : s.initRequest m = .ok () := by
  unfold Sys.initRequest
  split
  · rfl
  · rename_i r hcur
    have hl := h.slots.links m
    rw [hcur] at hl
    obtain ⟨l, hq, -⟩ := hl.eq_cons
    have hr : r ∈ q m := by rw [hq]; exact List.mem_cons_self
    rw [if_neg (fun hne => hne (h.slots.mem_iff.1 hr).2.2.1)]
    split
    · rfl
    · rename_i b hb
      rw [if_pos (h.owners.request r b ⟨m, hr⟩ hb)]

/-- Each request is on a list, once, or has ended, once. -/
theorem Served.once (h : Served s q) {i : Nat} (hi : i < s.queued) :
    (s.ended.count i = 1 ∧ ∀ r, Listed q r → (s.req r).id ≠ i) ∨
      (s.ended.count i = 0 ∧ ∃! r, Listed q r ∧ (s.req r).id = i) := by
  rcases h.all i hi with hm | ⟨r, hr, hri⟩
  · exact .inl ⟨List.count_eq_one_of_mem h.ended hm, fun r hr e => h.fresh r hr (e ▸ hm)⟩
  · refine .inr ⟨List.count_eq_zero.2 (hri ▸ h.fresh r hr), r, ⟨hr, hri⟩, fun r' hr' => ?_⟩
    exact h.inj r' r hr'.1 hr (hr'.2.trans hri.symm)

variable [DecidableEq T] [DecidableEq B]

/-- **The queues and the locks keep their integrity** in every interleaving of tasks and completions. -/
theorem queue_integrity {s₀ : Sys T B} (h₀ : s₀.Start) (h : Run.Reaches (Run.Under keepsBuffers (Run.Fires step)) s₀ s) :
    ∃ q : Nat → List Nat,
      (∀ m, Cells.Links s.next (s.current m) (q m) ∧ (q m).Nodup ∧ ∀ r, r ∈ q m ↔
        r < 32 ∧ 0 ≤ (s.req r).dev ∧ (s.req r).dev.toNat / 256 = m ∧ ∀ t, (s.frame t).slot ≠ some r) ∧
      (∀ b, s.lock b = true ↔ ∃! o, Owns s q b o) ∧
      (∀ r, 32 * 2 / 3 ≤ r → r < 32 → 0 ≤ (s.req r).dev → (s.req r).cmd = .read) ∧
      (∀ m, s.initRequest m = .ok ()) ∧
      ∀ i < s.queued, (s.ended.count i = 1 ∧ ∀ r, Listed q r → (s.req r).id ≠ i) ∨
        (s.ended.count i = 0 ∧ ∃! r, Listed q r ∧ (s.req r).id = i) := by
  have hI : ∃ q, Inv s q := by
    refine h.invariant (I := fun s => ∃ q, Inv s q) (fun s o s' hs hst => ?_) ⟨_, .start h₀⟩
    obtain ⟨q, hq⟩ := hs
    exact hq.step hst.1 hst.2
  obtain ⟨q, hq⟩ := hI
  exact ⟨q, fun m => ⟨hq.slots.links m, hq.slots.nodup m, fun r => hq.slots.mem_iff⟩, hq.owners.lock_iff, hq.slots.reads,
    hq.initRequest, fun i hi => hq.served.once hi⟩

end Main

/-- One task, and one buffer of block 5 on the first partition. -/
def small : Sys Unit Unit where
  req _ := { dev := -1, cmd := .read, sector := 0, bh := none, id := 0 }
  next _ := none
  current _ := none
  lock _ := false
  dirt _ := false
  uptodate _ := false
  dev _ := 0x301
  blocknr _ := 5
  frame _ := .idle
  queued := 0
  ended := []

theorem small_start : small.Start := ⟨fun _ => rfl, fun _ => rfl, fun _ => rfl, fun _ => rfl, rfl, rfl⟩

/-- No buffer gets another block. -/
def keepsAll : Op Unit Unit → Bool
  | .getblk _ _ _ => false
  | _ => true

theorem queue_integrity_one : ∃ s q, Run.Reaches (Run.Under keepsBuffers (Run.Fires step)) small s ∧ s.queued = 1 ∧
    s.current 3 = some 31 ∧ Cells.Links s.next (s.current 3) (q 3) ∧ (s.lock () = true ↔ ∃! o, Owns s q () o) := by
  obtain ⟨s, hs, hp⟩ := Run.reaches_of_exec (fun _ o => keepsAll o) step small
    [.call () .read false (), .lock (), .check (), .search (), .add ()]
    (fun s => decide (s.queued = 1 ∧ s.current 3 = some 31)) (by decide)
  obtain ⟨hq, hc⟩ := of_decide_eq_true hp
  have hs' : Run.Reaches (Run.Under keepsBuffers (Run.Fires step)) small s := by
    refine hs.under_mono fun s o ho => ?_
    cases o with
    | getblk b dev blocknr => cases ho
    | _ => trivial
  obtain ⟨q, hlists, hlock, -⟩ := queue_integrity small_start hs'
  exact ⟨s, q, hs', hq, hc, (hlists 3).1, hlock ()⟩

/-- A slot that a task has filled and not yet linked in is in use, and on no list. -/
theorem filled_unlisted : ∃ s, Run.Reaches (Run.Under keepsBuffers (Run.Fires step)) small s ∧ 0 ≤ (s.req 31).dev ∧
    (s.req 31).dev.toNat / 256 = 3 ∧ ∀ l, Cells.Links s.next (s.current 3) l → 31 ∉ l := by
  obtain ⟨s, hs, hp⟩ := Run.reaches_of_exec (fun _ o => keepsAll o) step small
    [.call () .read false (), .lock (), .check (), .search ()]
    (fun s => decide (0 ≤ (s.req 31).dev ∧ (s.req 31).dev.toNat / 256 = 3 ∧ s.current 3 = none)) (by decide)
  obtain ⟨h1, h2, h3⟩ := of_decide_eq_true hp
  refine ⟨s, hs.under_mono fun s o ho => ?_, h1, h2, fun l hl hm => ?_⟩
  · cases o with
    | getblk b dev blocknr => cases ho
    | _ => trivial
  · rw [h3] at hl
    rw [hl.eq_none] at hm
    cases hm

end Linux011.Blk
