/-
`tty_write` (kernel/chr_drv/tty_io.c), by several tasks on the three terminals.

A newline takes two turns of the loop: the first puts a carriage return, sets `cr_flag` and leaves the byte where it is, the
second puts the newline. `cr_flag` is static, one for all terminals and all calls. A call gives the processor up where
`write_q` is full, after `tty->write`, and where the page with its bytes has to be loaded; it comes back early if there is a
signal, and the caller then writes the rest. So a call may find the flag set by another one.

The kernel is not preempted: between these points only interrupts come in.
-/
import Mathlib.Logic.Function.Basic
import Linux011.Chr.TtyQueues

namespace Linux011.Chr

/-! ## The calls -/

/-- Where a task is in `tty_write`. -/
inductive Place
  /-- not in it -/
  | user
  /-- at `while (nr>0)` -/
  | outer
  /-- in `sleep_if_full`, at its loop -/
  | full
  /-- at `if (current->signal)` -/
  | awake
  /-- at `while (nr>0 && !FULL(tty->write_q))` -/
  | inner
  /-- in `get_fs_byte` -/
  | fetch
  deriving DecidableEq, Repr

/-- A call that has come back with nothing left, with its continuations: what it was given, and what it has put. -/
structure Written where
  input : List UInt8
  out : List UInt8
  deriving DecidableEq

/-- A task that writes: where it is, what it has been given, what of it is left (`b` and `nr`), and what it has put. -/
structure Writer where
  place : Place
  channel : Fin 3
  input : List UInt8
  rest : List UInt8
  out : List UInt8
  finished : List Written

/-- `return (b-buf)`. -/
def Writer.returns (w : Writer) : Writer :=
  if w.rest = [] then { w with place := .user, input := [], out := [], finished := w.finished ++ [⟨w.input, w.out⟩] }
  else { w with place := .user }

/-- The terminals, the flag, and the tasks. Whose carriage return set the flag is not in the machine. -/
structure Writing (T : Type*) where
  tty : Fin 3 → Tty
  crFlag : Bool
  setBy : Option T
  writer : T → Writer
  /-- The task that has the processor and is in `tty_write`. -/
  running : Option T

/-- `\r` and `\n` of the output. -/
def Termios.mapOut (tm : Termios) (c : UInt8) : UInt8 :=
  if c = 13 && tm.ocrnl then 10 else if c = 10 && tm.onlret then 13 else c

/-- What is put is a carriage return in front of `c`. -/
def Termios.addsReturn (tm : Termios) (c : UInt8) (crFlag : Bool) : Bool :=
  tm.opost && tm.mapOut c = 10 && !crFlag && tm.onlcr

/-- `OPOST | ONLCR`, and no other output flag. -/
def Termios.onlyNewlines (tm : Termios) : Bool := tm.opost && tm.onlcr && !tm.ocrnl && !tm.onlret && !tm.olcuc

/-- What interrupts and the other calls do to a terminal. Its output flags are left as they are. -/
def Op.others : Op → Bool
  | .arrive _ => true
  | .interrupt _ => true
  | .put _ _ => false
  | .write _ => false
  | .transmit => true
  | .read => true
  | .setTermios tm => tm.onlyNewlines

inductive Event (T : Type*)
  /-- a task calls `tty_write` -/
  | call (i : T) (channel : Fin 3) (bytes : List UInt8)
  /-- with what was left -/
  | again (i : T)
  /-- the scheduler takes a task that is in it -/
  | resume (i : T)
  /-- the task that has the processor goes on; it may have a signal -/
  | turn (signal : Bool) (depth : Nat)
  /-- its byte is in a page that has to be loaded -/
  | fault
  | other (channel : Fin 3) (o : Op)

/-! ## The settings stay -/

/-- The result, if there is one, has the settings of `t`. -/
def SameTermios (t : Tty) (r : Option Tty) : Prop := ∀ t', r = some t' → t'.termios = t.termios

theorem SameTermios.some {t t' : Tty} (h : t'.termios = t.termios) : SameTermios t (some t') := by
  intro t'' h'
  cases h'
  exact h

theorem SameTermios.bind {t : Tty} {r : Option Tty} {f : Tty → Option Tty} (h : SameTermios t r)
    (hf : ∀ t', t'.termios = t.termios → SameTermios t (f t')) : SameTermios t (r.bind f) := by
  intro t' h'
  obtain ⟨t₁, h₁, h₂⟩ := Option.bind_eq_some_iff.1 h'
  exact hf t₁ (h t₁ h₁) t' h₂

section SameTermios

variable {v : Video} {isupper islower : UInt8 → Bool} {call : Call → Tty → Option Tty} {t : Tty}
  (hcall : ∀ c t, SameTermios t (call c t))

include hcall

theorem call_sameTermios {t' : Tty} (c : Call) (h : t'.termios = t.termios) : SameTermios t (call c t') :=
  fun t'' h'' => (hcall c t' t'' h'').trans h

theorem echo_sameTermios (cs : List UInt8) : SameTermios t (echo call t cs) := by
  unfold echo
  split
  · exact call_sameTermios hcall .write rfl
  · exact .some rfl

theorem takeBack_sameTermios (c : UInt8) : SameTermios t (takeBack call t c) :=
  (echo_sameTermios hcall _).bind fun _ h => .some h

theorem cook_sameTermios (c : UInt8) : SameTermios t (cook call t c) := by
  unfold cook
  dsimp only
  split
  · exact hcall _ _
  split
  · cases t.erasable with
    | none => exact .some rfl
    | some d => exact takeBack_sameTermios hcall d
  split
  · exact .some rfl
  split
  · exact .some rfl
  · have hcount : SameTermios (t.countUp c) (echo call (t.countUp c) (t.termios.echoOf c)) := echo_sameTermios hcall _
    exact hcount.bind fun _ h => .some h

theorem body_sameTermios (c : Call) (t : Tty) : SameTermios t (body v isupper call c t) := by
  unfold body
  split
  · unfold copyTurn
    split
    · exact .some rfl
    · dsimp only
      split
      · exact call_sameTermios hcall .copyToCooked rfl
      · refine SameTermios.bind (fun t' h => ?_) fun _ h => call_sameTermios hcall .copyToCooked h
        exact cook_sameTermios (t := { t with readQ := t.readQ.getch }) hcall _ t' h
  · unfold killTurn
    split
    · exact .some rfl
    · exact (takeBack_sameTermios hcall _).bind fun _ h => call_sameTermios hcall .killLine h
  · split
    · exact hcall _ _
    · exact .some rfl
  · exact .some rfl
  · unfold conTurn
    dsimp only
    split
    · exact SameTermios.bind (call_sameTermios hcall .copyToCooked rfl) fun _ h => call_sameTermios hcall (.conWrite _) h
    · exact call_sameTermios hcall (.conWrite _) rfl

end SameTermios

theorem run_sameTermios {v : Video} {isupper : UInt8 → Bool} (n : Nat) (c : Call) (t : Tty) :
    SameTermios t (Depth.run (body v isupper) n c t) := by
  induction n generalizing c t with
  | zero =>
    intro _ h
    cases h
  | succ n ih => exact body_sameTermios ih c t

namespace Writing

variable {T : Type*} [DecidableEq T] (v : Video) (isupper islower : UInt8 → Bool)

def place (s : Writing T) (i : T) (p : Place) : Writing T :=
  { s with writer := Function.update s.writer i { s.writer i with place := p } }

/-- It gives the processor up. -/
def sleeps (s : Writing T) : Writing T := { s with running := none }

def leaves (s : Writing T) (i : T) : Writing T :=
  { s with writer := Function.update s.writer i (s.writer i).returns, running := none }

/-- It calls `tty_write`. -/
def enters (s : Writing T) (i : T) (channel : Fin 3) (bytes : List UInt8) : Writing T :=
  { s with writer := Function.update s.writer i
            { s.writer i with place := .outer, channel := channel, input := bytes, rest := bytes, out := [] } }

/-- A byte is fetched and one is put. -/
def puts (s : Writing T) (i : T) (c : UInt8) (rest : List UInt8) : Writing T :=
  let w := s.writer i
  let t := s.tty w.channel
  let b := t.termios.output islower c s.crFlag
  let again := t.termios.addsReturn c s.crFlag
  { s with
    tty := Function.update s.tty w.channel { t with writeQ := t.writeQ.putch b }
    crFlag := again
    setBy := if again then some i else none
    writer := Function.update s.writer i
      { w with place := .inner, rest := if again then w.rest else rest, out := w.out ++ [b] } }

/-- The next piece of `tty_write`. -/
def turn (s : Writing T) (i : T) (signal : Bool) (depth : Nat) : Option (Writing T) :=
  let w := s.writer i
  let t := s.tty w.channel
  match w.place with
  | .user => none
  | .outer =>
    if w.rest = [] then some (s.leaves i)
    else if t.writeQ.isFull then some (s.place i .full)
    else some (s.place i .awake)
  | .full => if !signal && t.writeQ.ring.left < 128 then some s.sleeps else some (s.place i .awake)
  | .awake => if signal then some (s.leaves i) else some (s.place i .inner)
  | .inner =>
    if w.rest ≠ [] && !t.writeQ.isFull then some (s.place i .fetch)
    else (Depth.run (body v isupper) depth .write t).bind fun t =>
      let s := { s.place i .outer with tty := Function.update s.tty w.channel t }
      -- `schedule()`
      if w.rest ≠ [] then some s.sleeps else some s
  | .fetch =>
    match w.rest with
    | [] => none
    | c :: rest => some (s.puts islower i c rest)

def step (s : Writing T) : Event T → Option (Writing T)
  | .call i channel bytes =>
    if s.running = none && (s.writer i).place = .user && (s.writer i).rest = [] then
      some { s.enters i channel bytes with running := some i }
    else none
  | .again i =>
    if s.running = none && (s.writer i).place = .user && (s.writer i).rest ≠ [] then some { s.place i .outer with running := some i }
    else none
  | .resume i => if s.running = none && (s.writer i).place ≠ .user then some { s with running := some i } else none
  | .turn signal depth => s.running.bind fun i => s.turn v isupper islower i signal depth
  | .fault => s.running.bind fun i => if (s.writer i).place = .fetch then some s.sleeps else none
  | .other channel o =>
    if o.others then
      (Chr.step v isupper islower (s.tty channel) o).map fun t => { s with tty := Function.update s.tty channel t }
    else none

/-- Nothing has been written; the queues may hold anything. -/
structure Start (s : Writing T) : Prop where
  flags : ∀ ch, (s.tty ch).termios.onlyNewlines = true
  crFlag : s.crFlag = false
  writer : ∀ i, (s.writer i).rest = [] ∧ (s.writer i).input = [] ∧ (s.writer i).out = [] ∧ (s.writer i).finished = []

/-- The task that has the processor is about to put a byte. -/
def fetching (s : Writing T) : Bool := s.running.any fun i => (s.writer i).place = .fetch

/-- A task that puts a byte with the flag set has set it. -/
def OwnFlag (s : Writing T) : Event T → Prop
  | .turn _ _ => s.fetching = true → s.crFlag = true → s.setBy = s.running
  | _ => True

instance (s : Writing T) : ∀ e : Event T, Decidable (s.OwnFlag e)
  | .turn _ _ => inferInstanceAs (Decidable (s.fetching = true → s.crFlag = true → s.setBy = s.running))
  | .call _ _ _ => .isTrue trivial
  | .again _ => .isTrue trivial
  | .resume _ => .isTrue trivial
  | .fault => .isTrue trivial
  | .other _ _ => .isTrue trivial

/-! ## What the calls put -/

/-- Every newline after a carriage return. -/
def crlf (l : List UInt8) : List UInt8 := l.flatMap fun c => if c = 10 then [13, 10] else [c]

/-- The carriage return of `i` has been put, and its newline has not. -/
def pending (s : Writing T) (i : T) : Bool := s.crFlag && s.setBy = some i

theorem crlf_concat (l : List UInt8) (c : UInt8) : crlf (l ++ [c]) = crlf l ++ if c = 10 then [13, 10] else [c] := by
  unfold crlf
  rw [List.flatMap_append, List.flatMap_singleton]

/-- What a task has put of its call. -/
structure Text (s : Writing T) (i : T) : Prop where
  finished : ∀ j ∈ (s.writer i).finished, j.out = crlf j.input
  text : ∃ done, (s.writer i).input = done ++ (s.writer i).rest ∧
    (s.writer i).out = crlf done ++ if s.pending i then [13] else []
  newline : s.pending i = true → ∃ rest, (s.writer i).rest = 10 :: rest

structure Inv (s : Writing T) : Prop where
  flags : ∀ ch, (s.tty ch).termios.onlyNewlines = true
  text : ∀ i, s.Text i

theorem Start.inv {s : Writing T} (h : s.Start) : s.Inv := by
  have hp (i : T) : s.pending i = false := by
    unfold pending
    rw [h.crFlag, Bool.false_and]
  refine ⟨h.flags, fun i => ?_⟩
  obtain ⟨hr, hi, ho, hf⟩ := h.writer i
  refine ⟨fun j hj => ?_, ⟨[], ?_, ?_⟩, fun hpi => ?_⟩
  · rw [hf] at hj
    cases hj
  · rw [hi, hr]
    rfl
  · rw [ho, hp]
    rfl
  · rw [hp] at hpi
    cases hpi

/-- A task whose bytes are as they were, with the flag as it was. -/
theorem Text.same {s s' : Writing T} {i : T} (h : s.Text i) (hp : s'.pending i = s.pending i)
    (hf : (s'.writer i).finished = (s.writer i).finished) (hi : (s'.writer i).input = (s.writer i).input)
    (hr : (s'.writer i).rest = (s.writer i).rest) (ho : (s'.writer i).out = (s.writer i).out) : s'.Text i := by
  refine ⟨?_, ?_, ?_⟩
  · rw [hf]
    exact h.finished
  · rw [hi, hr, ho, hp]
    exact h.text
  · rw [hp, hr]
    exact h.newline

/-- The flag and all bytes are as they were, and the output flags. -/
structure SameBytes (s s' : Writing T) : Prop where
  flags : ∀ ch, (s'.tty ch).termios.onlyNewlines = true
  crFlag : s'.crFlag = s.crFlag
  setBy : s'.setBy = s.setBy
  writer : ∀ i, (s'.writer i).finished = (s.writer i).finished ∧ (s'.writer i).input = (s.writer i).input ∧
    (s'.writer i).rest = (s.writer i).rest ∧ (s'.writer i).out = (s.writer i).out

theorem Inv.same {s s' : Writing T} (h : s.Inv) (hs : SameBytes s s') : s'.Inv := by
  refine ⟨hs.flags, fun i => ?_⟩
  obtain ⟨hf, hi, hr, ho⟩ := hs.writer i
  refine (h.text i).same ?_ hf hi hr ho
  unfold pending
  rw [hs.crFlag, hs.setBy]

/-- One of the tasks changes, and the others keep their bytes. -/
theorem Inv.update {s s' : Writing T} (h : s.Inv) (i : T) (w : Writer) (hflags : ∀ ch, (s'.tty ch).termios.onlyNewlines = true)
    (hw : s'.writer = Function.update s.writer i w) (hp : ∀ j, j ≠ i → s'.pending j = s.pending j) (ht : s'.Text i) : s'.Inv := by
  refine ⟨hflags, fun j => ?_⟩
  by_cases hj : j = i
  · rw [hj]
    exact ht
  · have hsame : s'.writer j = s.writer j := by
      rw [hw, Function.update_of_ne hj]
    refine (h.text j).same (hp j hj) ?_ ?_ ?_ ?_ <;> rw [hsame]

/-- The task moves on with its bytes. -/
theorem Inv.place {s : Writing T} (h : s.Inv) (i : T) (p : Place) : (s.place i p).Inv := by
  refine h.update i _ h.flags rfl (fun _ _ => rfl) ((h.text i).same rfl ?_ ?_ ?_ ?_) <;>
    simp only [Writing.place, Function.update_self]

/-- With nothing left, there is no newline to come. -/
theorem Text.not_pending {s : Writing T} {i : T} (h : s.Text i) (hr : (s.writer i).rest = []) : s.pending i = false := by
  cases hp : s.pending i with
  | false => rfl
  | true =>
    obtain ⟨rest, hrest⟩ := h.newline hp
    rw [hr] at hrest
    cases hrest

/-- A call that comes back. -/
theorem Inv.leaves {s : Writing T} (h : s.Inv) (i : T) : (s.leaves i).Inv := by
  have hi := h.text i
  have hw : (s.leaves i).writer i = (s.writer i).returns := Function.update_self ..
  refine h.update i _ h.flags rfl (fun _ _ => rfl) ?_
  by_cases hr : (s.writer i).rest = []
  · -- with everything put
    have hp := hi.not_pending hr
    obtain ⟨done, hin, hout⟩ := hi.text
    rw [hr, List.append_nil] at hin
    rw [hp, if_neg Bool.false_ne_true, List.append_nil, ← hin] at hout
    have hp' : (s.leaves i).pending i = false := hp
    rw [Writer.returns, if_pos hr] at hw
    refine ⟨?_, ⟨[], ?_, ?_⟩, fun ht => ?_⟩
    · rw [hw]
      intro j hj
      rcases List.mem_append.1 hj with hj | hj
      · exact hi.finished j hj
      · rw [List.mem_singleton.1 hj]
        exact hout
    · rw [hw]
      exact hr.symm
    · rw [hw, hp']
      rfl
    · rw [hp'] at ht
      cases ht
  · rw [Writer.returns, if_neg hr] at hw
    refine hi.same rfl ?_ ?_ ?_ ?_ <;> rw [hw]

/-- Only newlines are changed. -/
theorem onlyNewlines_eq {tm : Termios} (h : tm.onlyNewlines = true) (c : UInt8) (f : Bool) :
    tm.output islower c f = (if c = 10 && !f then 13 else c) ∧ tm.addsReturn c f = (decide (c = 10) && !f) := by
  simp only [Termios.onlyNewlines, Bool.and_eq_true, Bool.not_eq_true'] at h
  obtain ⟨⟨⟨⟨h₁, h₂⟩, h₃⟩, h₄⟩, h₅⟩ := h
  simp only [Termios.output, Termios.addsReturn, Termios.mapOut, h₁, h₂, h₃, h₄, h₅]
  simp

section Puts

variable {islower} {s : Writing T} {i : T} {c : UInt8} {rest : List UInt8} (h : s.Inv)

include h

theorem puts_crFlag : (s.puts islower i c rest).crFlag = (decide (c = 10) && !s.crFlag) :=
  (onlyNewlines_eq islower (h.flags _) c s.crFlag).2

theorem puts_setBy : (s.puts islower i c rest).setBy = if decide (c = 10) && !s.crFlag then some i else none := by
  have hflag : (s.puts islower i c rest).crFlag = _ := puts_crFlag h
  rw [← hflag]
  rfl

theorem puts_writer : (s.puts islower i c rest).writer i = { s.writer i with
    place := .inner
    rest := if decide (c = 10) && !s.crFlag then (s.writer i).rest else rest
    out := (s.writer i).out ++ [if c = 10 && !s.crFlag then 13 else c] } := by
  obtain ⟨hout, hadd⟩ := onlyNewlines_eq islower (h.flags (s.writer i).channel) c s.crFlag
  rw [← hout, ← hadd]
  exact Function.update_self ..

theorem puts_flags (ch : Fin 3) : ((s.puts islower i c rest).tty ch).termios.onlyNewlines = true := by
  show (Function.update s.tty _ _ ch).termios.onlyNewlines = true
  by_cases hch : ch = (s.writer i).channel
  · rw [hch, Function.update_self]
    exact h.flags _
  · rw [Function.update_of_ne hch]
    exact h.flags ch

/-- Before and after, no other task has a newline to come. -/
theorem puts_others (hown : s.crFlag = true → s.setBy = some i) (j : T) (hj : j ≠ i) :
    (s.puts islower i c rest).pending j = s.pending j := by
  have h₁ : s.pending j = false := by
    unfold pending
    cases hf : s.crFlag with
    | false => rfl
    | true =>
      rw [hown hf, Bool.true_and, decide_eq_false_iff_not]
      exact fun he => hj (Option.some.inj he).symm
  have h₂ : (s.puts islower i c rest).pending j = false := by
    unfold pending
    rw [puts_crFlag h, puts_setBy h]
    cases decide (c = 10) && !s.crFlag with
    | false => rfl
    | true => simpa using fun he : i = j => hj he.symm
  rw [h₁, h₂]

/-- The newline after its carriage return. -/
theorem puts_newline (hr : (s.writer i).rest = c :: rest) (hf : s.crFlag = true) (hown : s.setBy = some i) :
    (s.puts islower i c rest).Text i := by
  have hi := h.text i
  obtain ⟨done, hin, htext⟩ := hi.text
  have hp : s.pending i = true := by
    unfold pending
    rw [hf, hown]
    simp
  have hp' : (s.puts islower i c rest).pending i = false := by
    unfold pending
    rw [puts_crFlag h, hf]
    simp
  obtain ⟨rest', hrest⟩ := hi.newline hp
  rw [hr] at hrest hin
  have hc : c = 10 := (List.cons.inj hrest).1
  have hw : (s.puts islower i c rest).writer i = _ := puts_writer h
  rw [hf] at hw
  rw [hp, if_pos rfl] at htext
  refine ⟨?_, ⟨done ++ [c], ?_, ?_⟩, fun ht => ?_⟩
  · rw [hw]
    exact hi.finished
  · rw [hw, hin, List.append_assoc]
    simp
  · rw [hw, hp', crlf_concat, htext, if_pos hc, hc, List.append_assoc]
    simp
  · rw [hp'] at ht
    cases ht

/-- The carriage return in front of a newline. -/
theorem puts_return (hr : (s.writer i).rest = c :: rest) (hf : s.crFlag = false) (hc : c = 10) : (s.puts islower i c rest).Text i := by
  have hi := h.text i
  obtain ⟨done, hin, htext⟩ := hi.text
  have hp : s.pending i = false := by
    unfold pending
    rw [hf]
    rfl
  have hp' : (s.puts islower i c rest).pending i = true := by
    unfold pending
    rw [puts_crFlag h, puts_setBy h, hf, hc]
    simp
  have hw : (s.puts islower i c rest).writer i = _ := puts_writer h
  rw [hf, hc] at hw
  rw [hp, if_neg Bool.false_ne_true, List.append_nil] at htext
  rw [hc] at hp' hr ⊢
  refine ⟨?_, ⟨done, ?_, ?_⟩, fun _ => ⟨rest, ?_⟩⟩
  · rw [hw]
    exact hi.finished
  · rw [hw]
    exact hin
  · rw [hw, hp', htext]
    rfl
  · rw [hw]
    exact hr

/-- Any other byte. -/
theorem puts_byte (hr : (s.writer i).rest = c :: rest) (hf : s.crFlag = false) (hc : c ≠ 10) : (s.puts islower i c rest).Text i := by
  have hi := h.text i
  obtain ⟨done, hin, htext⟩ := hi.text
  have hp : s.pending i = false := by
    unfold pending
    rw [hf]
    rfl
  have hp' : (s.puts islower i c rest).pending i = false := by
    unfold pending
    rw [puts_crFlag h]
    simp [hc]
  have hw : (s.puts islower i c rest).writer i = _ := puts_writer h
  rw [hr] at hin
  rw [hp, if_neg Bool.false_ne_true, List.append_nil] at htext
  refine ⟨?_, ⟨done ++ [c], ?_, ?_⟩, fun ht => ?_⟩
  · rw [hw]
    exact hi.finished
  · rw [hw, hin, List.append_assoc]
    simp [hc]
  · rw [hw, hp', crlf_concat, htext]
    simp [hc]
  · rw [hp'] at ht
    cases ht

/-- A byte is put with the flag not set by another. -/
theorem Inv.puts (hr : (s.writer i).rest = c :: rest) (hown : s.crFlag = true → s.setBy = some i) :
    (s.puts islower i c rest).Inv := by
  refine h.update i _ (puts_flags h) rfl (puts_others h hown) ?_
  cases hf : s.crFlag with
  | true => exact puts_newline h hr hf (hown hf)
  | false =>
    by_cases hc : c = 10
    · exact puts_return h hr hf hc
    · exact puts_byte h hr hf hc

end Puts

variable {v isupper islower}

/-- A terminal changes, with the output flags kept. -/
theorem Inv.tty {s : Writing T} (h : s.Inv) (ch : Fin 3) {t : Tty} (ht : t.termios.onlyNewlines = true) :
    ({ s with tty := Function.update s.tty ch t } : Writing T).Inv := by
  refine h.same ⟨fun ch' => ?_, rfl, rfl, fun _ => ⟨rfl, rfl, rfl, rfl⟩⟩
  show (Function.update s.tty ch t ch').termios.onlyNewlines = true
  by_cases hch : ch' = ch
  · rw [hch, Function.update_self]
    exact ht
  · rw [Function.update_of_ne hch]
    exact h.flags ch'

/-- Who has the processor does not matter. -/
theorem Inv.gives {s : Writing T} (h : s.Inv) (r : Option T) : ({ s with running := r } : Writing T).Inv :=
  h.same ⟨h.flags, rfl, rfl, fun _ => ⟨rfl, rfl, rfl, rfl⟩⟩

/-- A turn of a task, if it does not put a byte with the flag of another. -/
theorem Inv.turn {s s' : Writing T} {i : T} {signal : Bool} {depth : Nat} (h : s.Inv)
    (hown : (s.writer i).place = .fetch → s.crFlag = true → s.setBy = some i)
    (hs : s.turn v isupper islower i signal depth = some s') : s'.Inv := by
  unfold Writing.turn at hs
  cases hp : (s.writer i).place with
  | user =>
    simp only [hp] at hs
    cases hs
  | outer =>
    simp only [hp] at hs
    split at hs
    · cases hs
      exact h.leaves i
    split at hs
    · cases hs
      exact h.place i _
    · cases hs
      exact h.place i _
  | full =>
    simp only [hp] at hs
    split at hs
    · cases hs
      exact h.gives none
    · cases hs
      exact h.place i _
  | awake =>
    simp only [hp] at hs
    split at hs
    · cases hs
      exact h.leaves i
    · cases hs
      exact h.place i _
  | inner =>
    simp only [hp] at hs
    split at hs
    · cases hs
      exact h.place i _
    · obtain ⟨t, ht, hs⟩ := Option.bind_eq_some_iff.1 hs
      have hflags : t.termios.onlyNewlines = true := by
        rw [run_sameTermios depth .write _ t ht]
        exact h.flags _
      have hnext := (h.place i .outer).tty (s.writer i).channel hflags
      split at hs
      · cases hs
        exact hnext.gives none
      · cases hs
        exact hnext
  | fetch =>
    simp only [hp] at hs
    cases hr : (s.writer i).rest with
    | nil =>
      rw [hr] at hs
      cases hs
    | cons c rest =>
      rw [hr] at hs
      cases hs
      exact h.puts hr (hown hp)

theorem Inv.enters {s : Writing T} (h : s.Inv) {i : T} (hr : (s.writer i).rest = []) (ch : Fin 3) (bytes : List UInt8) :
    (s.enters i ch bytes).Inv := by
  have hp : (s.enters i ch bytes).pending i = false := (h.text i).not_pending hr
  have hw : (s.enters i ch bytes).writer i =
      { s.writer i with place := .outer, channel := ch, input := bytes, rest := bytes, out := [] } := Function.update_self ..
  refine h.update i _ h.flags rfl (fun _ _ => rfl) ⟨?_, ⟨[], ?_, ?_⟩, fun ht => ?_⟩
  · rw [hw]
    exact (h.text i).finished
  · rw [hw]
    rfl
  · rw [hw, hp]
    rfl
  · cases hp.symm.trans ht

/-- What others do to a terminal. -/
theorem others_onlyNewlines {t t' : Tty} {o : Op} (ho : o.others = true) (ht : t.termios.onlyNewlines = true)
    (hs : Chr.step v isupper islower t o = some t') : t'.termios.onlyNewlines = true := by
  cases o with
  | arrive cs =>
    cases hs
    split
    · exact ht
    · exact ht
  | interrupt n =>
    rw [run_sameTermios n .copyToCooked t t' hs]
    exact ht
  | put c f => cases ho
  | write n => cases ho
  | transmit =>
    simp only [Chr.step] at hs
    split at hs
    · cases hs
    · cases hs
      split
      · exact ht
      · exact ht
  | read =>
    simp only [Chr.step] at hs
    split at hs
    · cases hs
    · cases hs
      exact ht
  | setTermios tm =>
    cases hs
    exact ho

theorem Inv.step {s s' : Writing T} {e : Event T} (h : s.Inv) (hown : s.OwnFlag e)
    (hs : s.step v isupper islower e = some s') : s'.Inv := by
  cases e with
  | call i ch bytes =>
    simp only [Writing.step] at hs
    split at hs
    · rename_i hif
      cases hs
      simp only [Bool.and_eq_true, decide_eq_true_eq] at hif
      exact (h.enters hif.2 ch bytes).gives (some i)
    · cases hs
  | again i =>
    simp only [Writing.step] at hs
    split at hs
    · cases hs
      exact (h.place i .outer).gives (some i)
    · cases hs
  | resume i =>
    simp only [Writing.step] at hs
    split at hs
    · cases hs
      exact h.gives (some i)
    · cases hs
  | turn signal depth =>
    obtain ⟨i, hi, hs⟩ := Option.bind_eq_some_iff.1 hs
    refine h.turn (fun hp hf => ?_) hs
    rw [← hi]
    refine hown ?_ hf
    unfold fetching
    rw [hi]
    exact decide_eq_true hp
  | fault =>
    obtain ⟨i, hi, hs⟩ := Option.bind_eq_some_iff.1 hs
    split at hs
    · cases hs
      exact h.gives none
    · cases hs
  | other ch o =>
    simp only [Writing.step] at hs
    split at hs
    · rename_i ho
      obtain ⟨t, ht, hs⟩ := Option.map_eq_some_iff.1 hs
      cases hs
      exact h.tty ch (others_onlyNewlines ho (h.flags ch) ht)
    · cases hs

/-- In every run of any number of tasks that write to the three terminals, with the interrupts and the other calls in between,
in which a call that puts a byte with `cr_flag` set has set it: each call, with its continuations, has put its bytes with
every newline after one carriage return, and one that is not done a beginning of that. -/
theorem newlines_per_call {s₀ s : Writing T} (h₀ : s₀.Start)
    (h : Run.Reaches (Run.Under OwnFlag (Run.Fires (Writing.step v isupper islower))) s₀ s) (i : T) :
    (∀ j ∈ (s.writer i).finished, j.out = crlf j.input) ∧
    (∃ done, (s.writer i).input = done ++ (s.writer i).rest ∧
      (s.writer i).out = crlf done ++ if s.pending i then [13] else []) ∧
    ((s.writer i).rest = [] → (s.writer i).out = crlf (s.writer i).input) := by
  have hinv : s.Inv := h.invariant (I := Inv) (fun _ _ _ hi hst => hi.step hst.1 hst.2) h₀.inv
  have ht := hinv.text i
  refine ⟨ht.finished, ht.text, fun hr => ?_⟩
  obtain ⟨done, hin, hout⟩ := ht.text
  rw [hr, List.append_nil] at hin
  rw [hin, hout, ht.not_pending hr]
  exact List.append_nil _

end Writing

/-- A line with these output flags, and `n` bytes that have not been sent. -/
def newlineTty (n : Nat) (h : n < 1024) : Tty :=
  { serialLine with
    termios := { serialTermios with opost := true, onlcr := true }
    writeQ := { emptyQueue with ring := ⟨fun _ => 97, n, 0, h, emptyQueue.ring.tail_lt⟩ } }

theorem almostFull : 1022 < 1024 := by decide

/-- Two tasks outside of `tty_write`; the first serial line has one place left. -/
def twoWriters : Writing Bool :=
  ⟨fun ch => if ch = 1 then newlineTty 1022 almostFull else newlineTty 0 emptyQueue.ring.head_lt, false, none,
    fun _ => ⟨.user, 1, [], [], [], []⟩, none⟩

theorem twoWriters_start : twoWriters.Start := by
  refine ⟨fun ch => ?_, rfl, fun i => ⟨rfl, rfl, rfl, rfl⟩⟩
  show (if ch = 1 then newlineTty 1022 almostFull else newlineTty 0 emptyQueue.ring.head_lt).termios.onlyNewlines = true
  split <;> rfl

/-- As many turns. -/
def turns (n : Nat) : List (Event Bool) := List.replicate n (.turn false 1)

/-- Two calls at a time: one waits for a place for its second byte while the other one writes a newline. -/
theorem newlines_per_call_two :
    ∃ s, Run.Reaches (Run.Under Writing.OwnFlag (Run.Fires (Writing.step smallDisplay (fun _ => false) fun _ => false))) twoWriters s ∧
      (∀ j ∈ (s.writer false).finished, j.out = Writing.crlf j.input) ∧ (s.writer false).finished.length = 1 ∧
      (s.writer true).rest = [10] := by
  obtain ⟨s, hs, hp⟩ := Run.reaches_of_exec (fun s e => decide (Writing.OwnFlag s e))
    (Writing.step smallDisplay (fun _ => false) fun _ => false) twoWriters
    ([.call true 1 [97, 10]] ++ turns 5 ++ [.call false 2 [10]] ++ turns 8)
    (fun s => (s.writer false).finished.length = 1 && (s.writer true).rest = [10]) (by decide +kernel)
  rw [Bool.and_eq_true, decide_eq_true_eq, decide_eq_true_eq] at hp
  have hs' : Run.Reaches (Run.Under Writing.OwnFlag (Run.Fires (Writing.step smallDisplay (fun _ => false) fun _ => false))) twoWriters s :=
    hs.under_mono fun _ _ => of_decide_eq_true
  exact ⟨s, hs', (Writing.newlines_per_call twoWriters_start hs' false).1, hp⟩

/-- A newline to the first line, whose queue is full after the carriage return; a newline to the second, by the other task, gets
none; and the first gets another one. -/
theorem returns_missing_and_doubled :
    ∃ s, Run.Reaches (Run.Fires (Writing.step smallDisplay (fun _ => false) fun _ => false)) twoWriters s ∧
      (s.writer true).finished = [⟨[10], [13, 13, 10]⟩] ∧ (s.writer false).finished = [⟨[10], [10]⟩] := by
  obtain ⟨s, hs, hp⟩ := Run.reaches_of_exec (fun _ _ => true) (Writing.step smallDisplay (fun _ => false) fun _ => false) twoWriters
    ([.call true 1 [10]] ++ turns 5 ++ [.call false 2 [10]] ++ turns 6 ++ [.other 1 .transmit, .other 1 .transmit, .resume true] ++
      turns 8)
    (fun s => (s.writer true).finished = [⟨[10], [13, 13, 10]⟩] && (s.writer false).finished = [⟨[10], [10]⟩]) (by decide +kernel)
  rw [Bool.and_eq_true, decide_eq_true_eq, decide_eq_true_eq] at hp
  exact ⟨s, hs.of_under, hp⟩

end Linux011.Chr
