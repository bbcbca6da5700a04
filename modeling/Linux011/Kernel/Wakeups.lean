/-
What the pointers of a sleep queue lead to.

`Once` is the discipline under which a wake-up hits only waiters: whoever is
remembered, by a queue or by a sleeper, is asleep on that queue and remembered
once. Every routine keeps it by itself; a signal keeps it when it goes to a
sleeper that nobody remembers. `Kept` is that every sleeper is known: it
follows `*p`, or a runnable task of the call. A task that goes back to sleep
in `interruptible_sleep_on` keeps it if it is behind the head it woke up.
-/
import Linux011.Kernel.Sleep

namespace Linux011.Kernel.Sleep

variable {T Q : Type*} {s s' : Sys T Q}

theorem Sys.In.unique {q q' : Q} {t : T} {u u' : Option T} (h : s.In q t u) (h' : s.In q' t u') : q = q' ∧ u = u' := by
  obtain ⟨i, h⟩ := h
  obtain ⟨i', h'⟩ := h'
  rw [h] at h'
  cases h'
  exact ⟨rfl, rfl⟩

/-- A task whose place did not change. -/
theorem Sys.In.congr {q : Q} {t : T} {u : Option T} (h : s'.place t = s.place t) : s'.In q t u ↔ s.In q t u := by
  unfold Sys.In
  rw [h]

theorem Sys.In.not_user {q : Q} {t : T} {u : Option T} (h : s.In q t u) : s.place t ≠ .user := by
  obtain ⟨i, h⟩ := h
  intro he
  rw [h] at he
  cases he

/-! ## Wake-ups that hit only waiters -/

/-- Who is remembered is asleep on the queue, and remembered once. -/
structure Once (s : Sys T Q) : Prop where
  head : ∀ q h, s.head q = some h → (∃ tmp, s.In q h tmp) ∧ s.state h ≠ .running
  tmp : ∀ q t u, s.In q t (some u) → (∃ v, s.In q u v) ∧ s.state u ≠ .running ∧ s.head q ≠ some u
  inj : ∀ q t t' u, s.In q t (some u) → s.In q t' (some u) → t = t'

/-- A queue, or a sleeper, remembers `t`. -/
def Sys.Remembered (s : Sys T Q) (t : T) : Prop := (∃ q, s.head q = some t) ∨ ∃ q u, s.In q u (some t)

namespace Once

theorem start (h : s.Start) : Once s := by
  have hin : ∀ q t u, ¬s.In q t u := by
    intro q t u hi
    obtain ⟨i, hi⟩ := hi
    rcases h.2 t with hp | hp <;> · rw [hp] at hi; cases hi
  refine ⟨fun q t ht => ?_, fun q t u hi => absurd hi (hin _ _ _), fun q t t' u hi => absurd hi (hin _ _ _)⟩
  rw [h.1 q] at ht
  cases ht

/-- Who runs is not remembered, and neither is who is outside every sleep. -/
theorem not_remembered (hs : Once s) {t : T} (h : s.state t = .running ∨ ∀ q u, ¬s.In q t u) : ¬s.Remembered t := by
  intro hr
  rcases hr with ⟨q, hq⟩ | ⟨q, u, hi⟩
  · obtain ⟨⟨tmp, hin⟩, hst⟩ := hs.head q t hq
    exact h.elim hst fun h => h q tmp hin
  · obtain ⟨⟨v, hin⟩, hst, -⟩ := hs.tmp q u t hi
    exact h.elim hst fun h => h q v hin

/-- Changes that keep every pointer or drop it, and wake nobody who is still remembered. -/
theorem mono (hs : Once s) (hhead : ∀ q h, s'.head q = some h → s.head q = some h)
    (hin : ∀ q t u, s'.In q t (some u) → s.In q t (some u))
    (hplace : ∀ t, s'.Remembered t → s'.place t = s.place t)
    (hstate : ∀ t, s'.Remembered t → s.state t ≠ .running → s'.state t ≠ .running) : Once s' where
  head q h hq := by
    obtain ⟨⟨tmp, hi⟩, hst⟩ := hs.head q h (hhead q h hq)
    have hr : s'.Remembered h := .inl ⟨q, hq⟩
    exact ⟨⟨tmp, (Sys.In.congr (hplace h hr)).2 hi⟩, hstate h hr hst⟩
  tmp q t u hi := by
    obtain ⟨⟨v, hv⟩, hst, hne⟩ := hs.tmp q t u (hin q t u hi)
    have hr : s'.Remembered u := .inr ⟨q, t, hi⟩
    exact ⟨⟨v, (Sys.In.congr (hplace u hr)).2 hv⟩, hstate u hr hst, fun h => hne (hhead q u h)⟩
  inj q t t' u hi hi' := hs.inj q t t' u (hin q t u hi) (hin q t' u hi')

variable [DecidableEq T] [DecidableEq Q]

theorem lieDown (hs : Once s) {t : T} (ht : s.place t = .user) (q : Q) (intr : Bool) {st : TaskState}
    (hst : st ≠ .running) : Once (s.lieDown t q intr st) := by
  have hout : ∀ q u, ¬s.In q t u := fun q u h => h.not_user ht
  have hpt : (s.lieDown t q intr st).place t = .asleep q intr (s.head q) := by rw [lieDown_place, if_pos rfl]
  have hin : ∀ {x}, x ≠ t → ∀ q' u, (s.lieDown t q intr st).In q' x u ↔ s.In q' x u :=
    fun hx q' u => Sys.In.congr (by rw [lieDown_place, if_neg hx])
  have hint : ∀ {q' u}, (s.lieDown t q intr st).In q' t u → q' = q ∧ u = s.head q :=
    fun h => Sys.In.unique h ⟨intr, hpt⟩
  have hstate : ∀ {x}, x ≠ t → (s.lieDown t q intr st).state x = s.state x :=
    fun hx => by rw [lieDown_state, if_neg hx.symm]
  refine ⟨fun q' h hq => ?_, fun q' x u hi => ?_, fun q' x x' u hi hi' => ?_⟩
  · rw [lieDown_head] at hq
    split at hq
    · rename_i hqq
      obtain rfl := Option.some.inj hq
      refine ⟨⟨_, intr, by rw [hqq, hpt]⟩, ?_⟩
      rw [lieDown_state, if_pos rfl]
      exact hst
    · obtain ⟨⟨tmp, hh⟩, hr⟩ := hs.head q' h hq
      have hne : h ≠ t := fun he => hout q' tmp (he ▸ hh)
      exact ⟨⟨tmp, (hin hne q' tmp).2 hh⟩, by rw [hstate hne]; exact hr⟩
  · by_cases hx : x = t
    · -- the sleeper that was the head is remembered by the new one
      subst hx
      obtain ⟨rfl, hu⟩ := hint hi
      obtain ⟨⟨tmp, hh⟩, hr⟩ := hs.head q' u hu.symm
      have hne : u ≠ x := fun he => hout q' tmp (he ▸ hh)
      refine ⟨⟨tmp, (hin hne q' tmp).2 hh⟩, by rw [hstate hne]; exact hr, ?_⟩
      rw [lieDown_head, if_pos rfl]
      exact fun he => hne (Option.some.inj he).symm
    · obtain ⟨⟨v, hv⟩, hr, hh⟩ := hs.tmp q' x u ((hin hx q' (some u)).1 hi)
      have hne : u ≠ t := fun he => hout q' v (he ▸ hv)
      refine ⟨⟨v, (hin hne q' v).2 hv⟩, by rw [hstate hne]; exact hr, ?_⟩
      rw [lieDown_head]
      split
      · exact fun he => hne (Option.some.inj he).symm
      · exact hh
  · by_cases hx : x = t
    · by_cases hx' : x' = t
      · rw [hx, hx']
      · subst hx
        obtain ⟨rfl, hu⟩ := hint hi
        exact absurd hu.symm (hs.tmp q' x' u ((hin hx' q' (some u)).1 hi')).2.2
    · by_cases hx' : x' = t
      · subst hx'
        obtain ⟨rfl, hu⟩ := hint hi'
        exact absurd hu.symm (hs.tmp q' x u ((hin hx q' (some u)).1 hi)).2.2
      · exact hs.inj q' x x' u ((hin hx q' (some u)).1 hi) ((hin hx' q' (some u)).1 hi')

omit [DecidableEq T] in
/-- Forgetting the head of a queue. -/
theorem setHead_none (hs : Once s) (q : Q) : Once (s.setHead q none) := by
  refine hs.mono (fun q' h hq => ?_) (fun q' t u hi => hi) (fun t _ => rfl) (fun t _ h => h)
  rw [setHead_head] at hq
  split at hq
  · cases hq
  · exact hq

omit [DecidableEq Q] in
/-- Waking up somebody nobody remembers. -/
theorem setState (hs : Once s) {t : Option T} (ht : ∀ u, t = some u → ¬s.Remembered u) (st : TaskState) :
    Once (s.setState t st) := by
  have hr : ∀ u, (s.setState t st).Remembered u → s.Remembered u := by
    intro u hu
    simpa [Sys.Remembered, Sys.In] using hu
  refine hs.mono (fun q h hq => by simpa using hq) (fun q x u hi => by simpa [Sys.In] using hi)
    (fun u _ => by simp) fun u hu hst => ?_
  rw [setState_state, if_neg fun he => ht u he (hr u hu)]
  exact hst

theorem wakeUp (hs : Once s) (q : Q) : Once (s.wakeUp q) := by
  refine hs.mono (fun q' h hq => ?_) (fun q' t u hi => ?_) (fun t _ => by simp) fun t ht hst => ?_
  · rw [wakeUp_head] at hq
    split at hq
    · cases hq
    · exact hq
  · exact (Sys.In.congr (by simp)).1 hi
  · rw [wakeUp_state]
    split
    · rename_i hq
      obtain ⟨⟨tmp, hin⟩, -⟩ := hs.head q t hq
      exfalso
      rcases ht with ⟨q', hq'⟩ | ⟨q', u, hi⟩
      · rw [wakeUp_head] at hq'
        split at hq'
        · cases hq'
        · rename_i hne
          obtain ⟨⟨tmp', hin'⟩, -⟩ := hs.head q' t hq'
          exact hne (hin'.unique hin).1
      · have hi' : s.In q' u (some t) := (Sys.In.congr (by simp)).1 hi
        obtain ⟨⟨v, hv⟩, -, hne⟩ := hs.tmp q' u t hi'
        obtain ⟨rfl, -⟩ := hv.unique hin
        exact hne hq
    · exact hst

omit [DecidableEq Q] in
theorem leave (hs : Once s) {t : T} {q : Q} {intr : Bool} {tmp : Option T} (hp : s.place t = .asleep q intr tmp)
    (hr : s.state t = .running) : Once (s.leave t tmp) := by
  have hnot : ¬s.Remembered t := hs.not_remembered (.inl hr)
  have hin : ∀ q' x u, (s.leave t tmp).In q' x u → x ≠ t ∧ s.In q' x u := by
    intro q' x u hi
    have hx : x ≠ t := by
      intro hx
      refine hi.not_user ?_
      rw [leave_place, if_pos hx]
    exact ⟨hx, (Sys.In.congr (by rw [leave_place, if_neg hx])).1 hi⟩
  have hrem : ∀ u, (s.leave t tmp).Remembered u → s.Remembered u ∧ tmp ≠ some u := by
    intro u hu
    rcases hu with ⟨q', hq'⟩ | ⟨q', x, hi⟩
    · rw [leave_head] at hq'
      refine ⟨.inl ⟨q', hq'⟩, fun he => ?_⟩
      obtain ⟨⟨v, hv⟩, -, hne⟩ := hs.tmp q t u ⟨intr, he ▸ hp⟩
      obtain ⟨⟨v', hv'⟩, -⟩ := hs.head q' u hq'
      obtain ⟨rfl, -⟩ := hv.unique hv'
      exact hne hq'
    · obtain ⟨hx, hi⟩ := hin q' x (some u) hi
      refine ⟨.inr ⟨q', x, hi⟩, fun he => ?_⟩
      have hi' : s.In q t (some u) := ⟨intr, he ▸ hp⟩
      obtain ⟨⟨v, hv⟩, -⟩ := hs.tmp q t u hi'
      obtain ⟨⟨v', hv'⟩, -⟩ := hs.tmp q' x u hi
      obtain ⟨rfl, -⟩ := hv.unique hv'
      exact hx (hs.inj q x t u hi hi')
  refine hs.mono (fun q' h hq => by simpa using hq) (fun q' x u hi => (hin q' x _ hi).2) (fun u hu => ?_) fun u hu hst => ?_
  · have hne : u ≠ t := fun he => hnot (he ▸ (hrem u hu).1)
    rw [leave_place, if_neg hne]
  · rw [leave_state, if_neg (hrem u hu).2]
    exact hst

omit [DecidableEq Q] in
/-- A task outside every sleep. -/
theorem other (hs : Once s) {t : T} {p : Place T Q} {st : TaskState} (ht : ∀ q intr tmp, s.place t ≠ .asleep q intr tmp)
    (hp : ∀ q intr tmp, p ≠ .asleep q intr tmp) : Once ((s.setPlace t p).setState (some t) st) := by
  have hin : ∀ q x u, (s.setPlace t p).In q x u ↔ s.In q x u := by
    intro q x u
    by_cases hx : x = t
    · subst hx
      have h1 : ¬(s.setPlace x p).In q x u := by
        intro h
        obtain ⟨i, h⟩ := h
        rw [setPlace_place, if_pos rfl] at h
        exact hp q i u h
      exact iff_of_false h1 fun h => ht q h.choose u h.choose_spec
    · exact Sys.In.congr (by rw [setPlace_place, if_neg hx])
  have hnot : ¬s.Remembered t := hs.not_remembered (.inr fun q u h => ht q h.choose u h.choose_spec)
  have hrem : ∀ u, (s.setPlace t p).Remembered u → s.Remembered u := by
    intro u hu
    rcases hu with ⟨q, hq⟩ | ⟨q, x, hi⟩
    · exact .inl ⟨q, hq⟩
    · exact .inr ⟨q, x, (hin q x _).1 hi⟩
  have h1 : Once (s.setPlace t p) := by
    refine hs.mono (fun q h hq => hq) (fun q x u hi => (hin q x _).1 hi) (fun u hu => ?_) (fun u _ h => h)
    have hne : u ≠ t := fun he => hnot (he ▸ hrem u hu)
    rw [setPlace_place, if_neg hne]
  refine h1.setState (fun u hu h => ?_) st
  obtain rfl := Option.some.inj hu
  exact hnot (hrem t h)

end Once

/-- A signal goes to a sleeper only if neither its queue nor another sleeper
remembers it. -/
def signalsForgotten (s : Sys T Q) : Op T Q → Prop
  | .signal t => ¬s.Remembered t
  | _ => True

variable [DecidableEq T] [DecidableEq Q]

theorem Once.step (hs : Once s) {o : Op T Q} (hok : signalsForgotten s o) (h : step s o = some s') : Once s' := by
  cases Effect.of_step h with
  | lieDown hp hst _ => exact hs.lieDown hp _ _ hst
  | raced hp => exact (hs.lieDown hp _ _ (by decide)).setHead_none _
  | leave hp hr _ => exact hs.leave hp hr
  | @back t q tmp x hp hr hx hne =>
    refine (hs.wakeUp q).setState (fun u hu => ?_) _
    obtain rfl := Option.some.inj hu
    refine (hs.wakeUp q).not_remembered (.inl ?_)
    rw [wakeUp_state]
    split
    · rfl
    · exact hr
  | wakeUp => exact hs.wakeUp _
  | @signal t _ =>
    refine hs.setState (fun u hu => ?_) _
    obtain rfl := Option.some.inj hu
    exact hok
  | other ht hp => exact hs.other ht hp

/-- `t` is about to leave its sleep on `q` and to run `tmp->state = TASK_RUNNING`
with `tmp` at `u`. -/
def Sys.WakesTmp (s : Sys T Q) (t : T) (q : Q) (u : T) : Prop :=
  s.state t = .running ∧ ∃ intr, s.place t = .asleep q intr (some u) ∧
    (intr = true → s.head q = none ∨ s.head q = some t)

/-- Nobody sleeps, and everybody runs. -/
def awake : Sys Bool Unit := { head := fun _ => none, state := fun _ => .running, place := fun _ => .user }

theorem awake_start : awake.Start := ⟨fun _ => rfl, fun _ => .inl rfl⟩

/-- From `x`, following `tmp` through tasks asleep on `q`. -/
inductive Chain (s : Sys T Q) (q : Q) (x : T) : T → Prop
  | here {tmp} : s.In q x tmp → Chain s q x x
  | next {y z tmp} : Chain s q x y → s.In q y (some z) → s.In q z tmp → Chain s q x z

/-- `t` follows `*p`, or a runnable task of the call. -/
def Sys.Known (s : Sys T Q) (q : Q) (t : T) : Prop :=
  (∃ h, s.head q = some h ∧ Chain s q h t) ∨ ∃ r, s.state r = .running ∧ Chain s q r t

/-- Every task asleep on the queue is known. -/
def Kept (s : Sys T Q) (q : Q) : Prop := ∀ t tmp, s.In q t tmp → s.Known q t

section Chains

variable {q : Q}

omit [DecidableEq T] [DecidableEq Q] in
theorem Chain.trans {x y z : T} (h : Chain s q x y) (h' : Chain s q y z) : Chain s q x z := by
  induction h' with
  | here _ => exact h
  | next _ hy hz ih => exact .next ih hy hz

omit [DecidableEq T] [DecidableEq Q] in
theorem Chain.start_in {x y : T} (h : Chain s q x y) : ∃ tmp, s.In q x tmp := by
  induction h with
  | here hx => exact ⟨_, hx⟩
  | next _ _ _ ih => exact ih

omit [DecidableEq T] [DecidableEq Q] in
theorem Chain.mono (hin : ∀ x tmp, s.In q x tmp → s'.In q x tmp) {x y : T} (h : Chain s q x y) : Chain s' q x y := by
  induction h with
  | here hx => exact .here (hin _ _ hx)
  | next _ hy hz ih => exact .next ih (hin _ _ hy) (hin _ _ hz)

omit [DecidableEq T] [DecidableEq Q] in
theorem Sys.Known.next {y z : T} {tmp : Option T} (h : s.Known q y) (hy : s.In q y (some z)) (hz : s.In q z tmp) :
    s.Known q z := by
  rcases h with ⟨x, hx, hc⟩ | ⟨r, hr, hc⟩
  · exact .inl ⟨x, hx, hc.next hy hz⟩
  · exact .inr ⟨r, hr, hc.next hy hz⟩

omit [DecidableEq Q] in
/-- What follows a task that has left its call follows the task it woke up. -/
theorem Chain.leave {t : T} {intr : Bool} {q' : Q} {tmp : Option T} (hp : s.place t = .asleep q' intr tmp) {x y : T}
    (h : Chain s q x y) (hx : x ≠ t → (s.leave t tmp).Known q x) (hy : y ≠ t) : (s.leave t tmp).Known q y := by
  have hin : ∀ {z u}, z ≠ t → s.In q z u → (s.leave t tmp).In q z u := fun hz hi =>
    (Sys.In.congr (by rw [leave_place, if_neg hz])).2 hi
  induction h with
  | here _ => exact hx hy
  | @next y z u _ hyz hz ih =>
    by_cases hyt : y = t
    · subst hyt
      have htmp : tmp = some z := (Sys.In.unique ⟨intr, hp⟩ hyz).2
      exact .inr ⟨z, by rw [leave_state, if_pos htmp], .here (hin hy hz)⟩
    · exact (ih hyt).next (hin hyt hyz) (hin hy hz)

end Chains

/-- Whoever finds `*p` on another task, in `interruptible_sleep_on(q)`, follows
that task; and no interrupt comes between the stores of `sleep_on(q)`. -/
def followsHead (q : Q) (s : Sys T Q) : Op T Q → Prop
  | .sleepOn _ q' raced => q' = q → raced = false
  | .resume t => ∀ tmp h, s.place t = .asleep q true tmp → s.head q = some h → h ≠ t → Chain s q h t
  | _ => True

namespace Kept

variable {q : Q}

omit [DecidableEq T] [DecidableEq Q] in
/-- The queue stays as it is, and who runs in the call runs on. -/
theorem same (hs : Kept s q) (hhead : s'.head q = s.head q) (hin : ∀ x tmp, s'.In q x tmp ↔ s.In q x tmp)
    (hrun : ∀ x tmp, s.In q x tmp → s.state x = .running → s'.state x = .running) : Kept s' q := by
  intro t tmp ht
  rcases hs t tmp ((hin t tmp).1 ht) with ⟨x, hx, hc⟩ | ⟨r, hr, hc⟩
  · exact .inl ⟨x, hhead.trans hx, hc.mono fun x u => (hin x u).2⟩
  · obtain ⟨u, hu⟩ := hc.start_in
    exact .inr ⟨r, hrun r u hu hr, hc.mono fun x u => (hin x u).2⟩

theorem lieDown (hs : Kept s q) {t : T} (ht : s.place t = .user) (q' : Q) (intr : Bool) (st : TaskState) :
    Kept (s.lieDown t q' intr st) q := by
  have hne : ∀ {x u}, s.In q x u → x ≠ t := fun hi he => hi.not_user (he ▸ ht)
  have hin : ∀ x u, s.In q x u → (s.lieDown t q' intr st).In q x u := fun x u hi =>
    (Sys.In.congr (by rw [lieDown_place, if_neg (hne hi)])).2 hi
  have hrun : ∀ {x u}, s.In q x u → (s.lieDown t q' intr st).state x = s.state x := fun hi => by
    rw [lieDown_state, if_neg (hne hi).symm]
  intro x u hx
  by_cases hxt : x = t
  · subst hxt
    have hq : q = q' := by
      obtain ⟨i, hx⟩ := hx
      rw [lieDown_place, if_pos rfl] at hx
      cases hx
      rfl
    exact .inl ⟨x, by rw [lieDown_head, if_pos hq], .here hx⟩
  · have hxs : s.In q x u := (Sys.In.congr (by rw [lieDown_place, if_neg hxt])).1 hx
    rcases hs x u hxs with ⟨y, hy, hc⟩ | ⟨r, hr, hc⟩
    · obtain ⟨v, hv⟩ := hc.start_in
      by_cases hq : q = q'
      · -- the old head follows the new one
        subst hq
        have ht' : (s.lieDown t q intr st).In q t (some y) := ⟨intr, by rw [lieDown_place, if_pos rfl, hy]⟩
        refine .inl ⟨t, by rw [lieDown_head, if_pos rfl], Chain.trans ?_ (hc.mono hin)⟩
        exact .next (.here ht') ht' (hin y v hv)
      · exact .inl ⟨y, by rw [lieDown_head, if_neg hq, hy], hc.mono hin⟩
    · obtain ⟨v, hv⟩ := hc.start_in
      exact .inr ⟨r, by rw [hrun hv, hr], hc.mono hin⟩

omit [DecidableEq Q] in
theorem leave (hs : Kept s q) {t : T} {q' : Q} {intr : Bool} {tmp : Option T} (hp : s.place t = .asleep q' intr tmp) :
    Kept (s.leave t tmp) q := by
  intro x u hx
  have hxt : x ≠ t := by
    intro he
    exact hx.not_user (by rw [leave_place, if_pos he])
  have hstay : ∀ {y v}, y ≠ t → s.In q y v → (s.leave t tmp).In q y v := fun hy hi =>
    (Sys.In.congr (by rw [leave_place, if_neg hy])).2 hi
  rcases hs x u ((Sys.In.congr (by rw [leave_place, if_neg hxt])).1 hx) with ⟨y, hy, hc⟩ | ⟨r, hr, hc⟩
  · obtain ⟨v, hv⟩ := hc.start_in
    exact hc.leave hp (fun hne => .inl ⟨y, by simpa using hy, .here (hstay hne hv)⟩) hxt
  · obtain ⟨v, hv⟩ := hc.start_in
    refine hc.leave hp (fun hne => .inr ⟨r, ?_, .here (hstay hne hv)⟩) hxt
    rw [leave_state]
    split
    · rfl
    · exact hr

theorem wakeUp (hs : Kept s q) (q' : Q) : Kept (s.wakeUp q') q := by
  have hin : ∀ x u, (s.wakeUp q').In q x u ↔ s.In q x u := fun x u => Sys.In.congr (by simp)
  have hrun : ∀ {x}, s.state x = .running → (s.wakeUp q').state x = .running := by
    intro x hx
    rw [wakeUp_state]
    split
    · rfl
    · exact hx
  by_cases hq : q = q'
  · subst hq
    intro x u hx
    rcases hs x u ((hin x u).1 hx) with ⟨y, hy, hc⟩ | ⟨r, hr, hc⟩
    · exact .inr ⟨y, by rw [wakeUp_state, if_pos hy], hc.mono fun x u => (hin x u).2⟩
    · exact .inr ⟨r, hrun hr, hc.mono fun x u => (hin x u).2⟩
  · exact hs.same (by rw [wakeUp_head, if_neg hq]) hin fun x _ _ h => hrun h

/-- The waker goes back to sleep behind the head it woke up. -/
theorem back (hs : Kept s q) {t h : T} {q' : Q} {tmp : Option T} (hp : s.place t = .asleep q' true tmp)
    (hh : s.head q' = some h) (hne : h ≠ t) (hchain : q' = q → Chain s q h t) :
    Kept ((s.wakeUp q').setState (some t) .interruptible) q := by
  have hin : ∀ x u, ((s.wakeUp q').setState (some t) .interruptible).In q x u ↔ s.In q x u :=
    fun x u => Sys.In.congr (by simp)
  have hrun : ∀ {x}, x ≠ t → s.state x = .running ∨ s.head q' = some x →
      ((s.wakeUp q').setState (some t) .interruptible).state x = .running := by
    intro x hx hr
    rw [setState_state, if_neg fun he => hx (Option.some.inj he).symm, wakeUp_state]
    split
    · rfl
    · rename_i hno
      exact hr.resolve_right hno
  by_cases hq : q' = q
  · subst hq
    have hhead : ∀ {x}, Chain s q' h x → ((s.wakeUp q').setState (some t) .interruptible).Known q' x := fun hc =>
      .inr ⟨h, hrun hne (.inr hh), hc.mono fun x u => (hin x u).2⟩
    intro x u hx
    rcases hs x u ((hin x u).1 hx) with ⟨y, hy, hc⟩ | ⟨r, hr, hc⟩
    · obtain rfl := Option.some.inj (hh.symm.trans hy)
      exact hhead hc
    · by_cases hrt : r = t
      · subst hrt
        exact hhead ((hchain rfl).trans hc)
      · exact .inr ⟨r, hrun hrt (.inl hr), hc.mono fun x u => (hin x u).2⟩
  · refine hs.same ?_ hin fun x u hx hr => hrun (fun hxt => ?_) (.inl hr)
    · rw [setState_head, wakeUp_head, if_neg fun he => hq he.symm]
    · subst hxt
      exact hq (Sys.In.unique ⟨true, hp⟩ hx).1

omit [DecidableEq Q] in
theorem other (hs : Kept s q) {t : T} {p : Place T Q} {st : TaskState} (ht : ∀ q intr tmp, s.place t ≠ .asleep q intr tmp)
    (hp : ∀ q intr tmp, p ≠ .asleep q intr tmp) : Kept ((s.setPlace t p).setState (some t) st) q := by
  have hne : ∀ {x u}, s.In q x u → x ≠ t := by
    intro x u hi he
    subst he
    obtain ⟨i, hi⟩ := hi
    exact ht q i u hi
  refine hs.same (by simp) (fun x u => ?_) fun x u hx hr => ?_
  · by_cases hx : x = t
    · subst hx
      refine iff_of_false (fun h => ?_) fun h => hne h rfl
      obtain ⟨i, h⟩ := h
      rw [setState_place, setPlace_place, if_pos rfl] at h
      exact hp q i u h
    · exact Sys.In.congr (by rw [setState_place, setPlace_place, if_neg hx])
  · rw [setState_state, if_neg fun he => hne hx (Option.some.inj he).symm]
    exact hr

theorem step (hs : Kept s q) {o : Op T Q} (hok : followsHead q s o) (h : step s o = some s') : Kept s' q := by
  cases Effect.of_step h with
  | lieDown hp _ _ => exact hs.lieDown hp _ _ _
  | @raced t q' hp =>
    have hne : q' ≠ q := fun he => by cases hok he
    refine (hs.lieDown hp q' false .uninterruptible).same ?_ (fun x u => Iff.rfl) fun x _ _ h => h
    rw [setHead_head, if_neg hne.symm]
  | leave hp _ _ => exact hs.leave hp
  | @back t q' tmp x hp hr hx hne =>
    exact hs.back hp hx hne fun he => hok tmp x (he ▸ hp) (he ▸ hx) hne
  | wakeUp => exact hs.wakeUp _
  | @signal t _ =>
    refine hs.same (by simp) (fun x u => Sys.In.congr (by simp)) fun x u _ hr => ?_
    rw [setState_state]
    split
    · rfl
    · exact hr
  | other ht hp => exact hs.other ht hp

omit [DecidableEq T] [DecidableEq Q] in
theorem start (h : s.Start) : Kept s q := by
  intro t tmp ht
  obtain ⟨i, ht⟩ := ht
  rcases h.2 t with hp | hp <;> · rw [hp] at ht; cases ht

end Kept

/-! ### After a wake-up -/

/-- `*p` leads only into `F`. -/
structure LeadsInto (s : Sys T Q) (q : Q) (F : Set T) : Prop where
  head : ∀ h, s.head q = some h → h ∈ F
  tmp : ∀ x y, x ∈ F → s.In q x (some y) → y ∈ F

section After

variable {q : Q} {F : Set T}

omit [DecidableEq T] [DecidableEq Q] in
theorem LeadsInto.chain (hF : LeadsInto s q F) {x y : T} (hx : x ∈ F) (h : Chain s q x y) : y ∈ F := by
  induction h with
  | here _ => exact hx
  | next _ hy _ ih => exact hF.tmp _ _ ih hy

omit [DecidableEq T] [DecidableEq Q] in
theorem LeadsInto.mono (hF : LeadsInto s q F) (hhead : ∀ h, s'.head q = some h → s.head q = some h)
    (hin : ∀ x u, s'.In q x u → s.In q x u) : LeadsInto s' q F :=
  ⟨fun h hq => hF.head h (hhead h hq), fun x y hx hy => hF.tmp x y hx (hin x _ hy)⟩

theorem LeadsInto.lieDown (hF : LeadsInto s q F) {t : T} (q' : Q) (intr : Bool) (st : TaskState) :
    LeadsInto (s.lieDown t q' intr st) q (insert t F) := by
  refine ⟨fun h hq => ?_, fun x y hx hy => ?_⟩
  · rw [lieDown_head] at hq
    split at hq
    · exact .inl (Option.some.inj hq).symm
    · exact .inr (hF.head h hq)
  · by_cases hxt : x = t
    · obtain ⟨i, hy⟩ := hy
      rw [lieDown_place, if_pos hxt] at hy
      injection hy with hq _ hhead
      subst hq
      exact .inr (hF.head y hhead)
    · exact .inr (hF.tmp x y (hx.resolve_left hxt) ((Sys.In.congr (by rw [lieDown_place, if_neg hxt])).1 hy))

/-- A step while `t` sleeps on: `t` stays where it is, and what `*p` leads into
grows by tasks that lie down. -/
theorem LeadsInto.step (hF : LeadsInto s q F) {o : Op T Q} (h : Sleep.step s o = some s') {t : T} {tmp : Option T}
    (ht : s.In q t tmp) (hr : s.state t ≠ .running) (htF : t ∉ F) :
    s'.In q t tmp ∧ ∃ F', LeadsInto s' q F' ∧ t ∉ F' := by
  have hne : ∀ {u}, s.place u = .user → t ≠ u := fun hu he => ht.not_user (he ▸ hu)
  cases Effect.of_step h with
  | @lieDown _ u q' intr st hu _ _ =>
    refine ⟨(Sys.In.congr (by rw [lieDown_place, if_neg (hne hu)])).2 ht, _, hF.lieDown q' intr st, ?_⟩
    exact fun hm => hm.elim (hne hu) htF
  | @raced u q' hu =>
    refine ⟨(Sys.In.congr (by rw [setHead_place, lieDown_place, if_neg (hne hu)])).2 ht, _,
      (hF.lieDown q' false .uninterruptible).mono (fun x hx => ?_) (fun x u hx => hx), fun hm => hm.elim (hne hu) htF⟩
    rw [setHead_head] at hx
    split at hx
    · cases hx
    · exact hx
  | @leave u q' intr tmp' hu hru _ =>
    have hut : t ≠ u := fun he => hr (he ▸ hru)
    refine ⟨(Sys.In.congr (by rw [leave_place, if_neg hut])).2 ht, F, hF.mono (fun x hx => by simpa using hx) ?_, htF⟩
    intro x v hx
    have hxu : x ≠ u := fun he => hx.not_user (by rw [leave_place, if_pos he])
    exact (Sys.In.congr (by rw [leave_place, if_neg hxu])).1 hx
  | @back u q' tmp' x hu hru hx hne' =>
    refine ⟨(Sys.In.congr (by simp)).2 ht, F, hF.mono (fun y hy => ?_) (fun y v hy => (Sys.In.congr (by simp)).1 hy), htF⟩
    rw [setState_head, wakeUp_head] at hy
    split at hy
    · cases hy
    · exact hy
  | @wakeUp q' =>
    refine ⟨(Sys.In.congr (by simp)).2 ht, F, hF.mono (fun y hy => ?_) (fun y v hy => (Sys.In.congr (by simp)).1 hy), htF⟩
    rw [wakeUp_head] at hy
    split at hy
    · cases hy
    · exact hy
  | signal _ =>
    exact ⟨(Sys.In.congr (by simp)).2 ht, F,
      hF.mono (fun y hy => by simpa using hy) (fun y v hy => (Sys.In.congr (by simp)).1 hy), htF⟩
  | @other _ u st p hu hp =>
    have htu : t ≠ u := by
      intro he
      obtain ⟨i, ht⟩ := ht
      exact hu q i tmp (he ▸ ht)
    refine ⟨(Sys.In.congr (by rw [setState_place, setPlace_place, if_neg htu])).2 ht, F,
      hF.mono (fun y hy => by simpa using hy) (fun x v hx => ?_), htF⟩
    have hxu : x ≠ u := by
      intro he
      obtain ⟨i, hx⟩ := hx
      rw [setState_place, setPlace_place, if_pos he] at hx
      exact hp q i v hx
    exact (Sys.In.congr (by rw [setState_place, setPlace_place, if_neg hxu])).1 hx

/-- The steps of runs in which every woken task follows the head it finds. -/
abbrev Step (q : Q) : Sys T Q → Op T Q → Sys T Q → Prop := Run.Under (followsHead q) (Run.Fires step)

/-- Some state of the run with the labels `os` has `t` runnable. -/
def RunsIn (q : Q) (t : T) (s : Sys T Q) (os : List (Op T Q)) : Prop :=
  ∃ os₁ os₂ s₁, os = os₁ ++ os₂ ∧ Run.Steps (Step q) s os₁ s₁ ∧ s₁.state t = .running

/-- A task that sleeps through a run which ends with nobody runnable in the call follows `*p`
at the end, so `*p` led to it from the start. -/
theorem RunsIn.of_run {os : List (Op T Q)} (h : Run.Steps (Step q) s os s') (hs : Kept s q) {t : T} {tmp : Option T}
    (ht : s.In q t tmp) (hF : LeadsInto s q F) (htF : t ∉ F)
    (hend : ∀ r u, s'.In q r u → s'.state r ≠ .running) : RunsIn q t s os := by
  induction h generalizing F with
  | @nil s =>
    rcases hs t tmp ht with ⟨x, hx, hc⟩ | ⟨r, hr, hc⟩
    · exact absurd (hF.chain (hF.head x hx) hc) htF
    · obtain ⟨u, hu⟩ := hc.start_in
      exact absurd hr (hend r u hu)
  | @cons s o s₁ os s' hst _ ih =>
    by_cases hr : s.state t = .running
    · exact ⟨[], o :: os, s, rfl, .nil, hr⟩
    · obtain ⟨ht₁, F₁, hF₁, htF₁⟩ := hF.step hst.2 ht hr htF
      obtain ⟨os₁, os₂, s₂, rfl, hrun, hr₂⟩ := ih (hs.step hst.1 hst.2) ht₁ hF₁ htF₁ hend
      exact ⟨o :: os₁, os₂, s₂, rfl, .cons hst hrun, hr₂⟩

end After

/-- Two tasks asleep, `true` behind `false`. -/
def twoAsleep : Sys Bool Unit := (awake.lieDown false () true .interruptible).lieDown true () true .interruptible

end Linux011.Kernel.Sleep
