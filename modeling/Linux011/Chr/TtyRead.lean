/-
`tty_read`, with input coming in between any two of its steps.

The call waits at the head of its loop until there is a line, and then takes bytes until its count is reached, an
end-of-file character comes, or `secondary` is empty. A newline does not stop it: with more in `secondary`, or more coming in
before it looks, it goes on into the next line, ended or not.
-/
import Linux011.Chr.LineCount

namespace Linux011.Chr

/-! ## The code -/

/-- A call: `nr` as it was given, `minimum`, and the bytes stored. -/
structure Read where
  nr : Nat
  minimum : Nat
  got : List UInt8

/-- Where a call is: at the head of `while (nr>0)`, before `GETCH`, or at `while (nr>0 && !EMPTY(...))`. -/
inductive Point
  | wait
  | take
  | check
  deriving DecidableEq

/-- The terminal, the call that is being made, and those that have returned; `true` for one ended by an end-of-file character. -/
structure Session where
  tty : Tty
  call : Option (Point × Read)
  returned : List (Read × Bool)

namespace Session

def leave (s : Session) (r : Read) (eof : Bool) : Session := { s with call := none, returned := s.returned ++ [(r, eof)] }

def goto (s : Session) (p : Point) (r : Read) : Session := { s with call := some (p, r) }

/-- There is nothing to read: the test of `tty_read`. -/
def blocked (t : Tty) : Bool := t.secondary.isEmpty || (t.termios.icanon && t.data = 0 && 20 < t.secondary.ring.left)

/-- One step of the call. Without signals, `sleep_if_empty` only lets time pass. -/
def turn (s : Session) : Point → Read → Session
  | .wait, r =>
    if r.got.length = r.nr then s.leave r false
    else if blocked s.tty then s
    else s.goto .take r
  | .take, r =>
    let c := s.tty.secondary.ring.first
    let s := { s with tty := { s.tty with secondary := s.tty.secondary.getch }.countDown c }
    if sameChar c s.tty.termios.eof && s.tty.termios.icanon then s.leave r true
    else s.goto .check { r with got := r.got ++ [c] }
  | .check, r =>
    if r.got.length ≠ r.nr ∧ s.tty.secondary.isEmpty = false then s.goto .take r
    else if s.tty.termios.icanon then
      if r.got ≠ [] then s.leave r false else s.goto .wait r
    else if r.minimum ≤ r.got.length then s.leave r false
    else s.goto .wait r

inductive Act
  /-- Something happens to the terminal. -/
  | tty (o : Op)
  /-- A call, when the one before has returned. -/
  | read (nr minimum : Nat)
  | turn

def step (v : Video) (isupper islower : UInt8 → Bool) (s : Session) : Act → Option Session
  | .tty o => (Chr.step v isupper islower s.tty o).map fun t => { s with tty := t }
  | .read nr minimum =>
    match s.call with
    | some _ => none
    | none => some (s.goto .wait ⟨nr, minimum, []⟩)
  | .turn => s.call.map fun c => s.turn c.1 c.2

/-- Input comes in, with no query answered, and `secondary` stays more than 20 bytes away from full. -/
def Ample (s : Session) : Act → Prop
  | .tty o => Typing s.tty o
  | .read _ _ => True
  | .turn => 20 < s.tty.secondary.ring.left

instance (s : Session) : (a : Act) → Decidable (s.Ample a)
  | .tty o => inferInstanceAs (Decidable (Typing s.tty o))
  | .read _ _ => isTrue trivial
  | .turn => inferInstanceAs (Decidable (_ < _))

/-- A call that has taken a newline has reached its count, or finds `secondary` empty when it looks. -/
def stopsAtNewline (s : Session) : Bool :=
  match s.call with
  | some (.check, r) => r.got.getLast? != some 10 || r.got.length = r.nr || s.tty.secondary.isEmpty
  | _ => true

def Orderly (s : Session) (a : Act) : Prop := s.Ample a ∧ s.stopsAtNewline = true

instance (s : Session) (a : Act) : Decidable (s.Orderly a) := inferInstanceAs (Decidable (_ ∧ _))

/-- The bytes that have been returned, and those of the call that is being made. -/
def delivered (s : Session) : List UInt8 :=
  (s.returned.map fun r => r.1.got).flatten ++ ((s.call.map fun c => c.2.got).getD [])

end Session

/-! ## Input while lines are read -/

namespace Editor

variable {tm : Termios} {e : Editor}

/-- Text in front of it. -/
def prepend (a : List UInt8) (e : Editor) : Editor := ⟨a ++ e.done, e.line⟩

theorem type_prepend (a : List UInt8) (c : UInt8) : (e.prepend a).type tm c = (e.type tm c).prepend a := by
  unfold type
  split
  · rfl
  split
  · rfl
  split
  · rfl
  split
  · show (⟨a ++ e.done ++ e.line ++ [c], []⟩ : Editor) = ⟨a ++ (e.done ++ e.line ++ [c]), []⟩
    rw [List.append_assoc a, List.append_assoc a]
  · rfl

theorem foldl_prepend (a cs : List UInt8) : cs.foldl (type tm) (e.prepend a) = (cs.foldl (type tm) e).prepend a := by
  induction cs generalizing e with
  | nil => rfl
  | cons c cs ih =>
    rw [List.foldl_cons, List.foldl_cons, type_prepend]
    exact ih

/-- A line that is ended stays. -/
theorem done_foldl (cs : List UInt8) : ∃ l, (cs.foldl (type tm) e).done = e.done ++ l := by
  induction cs generalizing e with
  | nil => exact ⟨[], (List.append_nil _).symm⟩
  | cons c cs ih =>
    obtain ⟨l, hl⟩ := ih (e := e.type tm c)
    have hc : ∃ m, (e.type tm c).done = e.done ++ m := by
      unfold type
      split
      · exact ⟨[], (List.append_nil _).symm⟩
      split
      · exact ⟨[], (List.append_nil _).symm⟩
      split
      · exact ⟨[], (List.append_nil _).symm⟩
      split
      · exact ⟨e.line ++ [c], List.append_assoc ..⟩
      · exact ⟨[], (List.append_nil _).symm⟩
    obtain ⟨m, hm⟩ := hc
    exact ⟨m ++ l, by rw [List.foldl_cons, hl, hm, List.append_assoc]⟩

/-- What is left of the lines when some of the text has been taken. -/
theorem Ok.rest (h : e.Ok tm) {a d : List UInt8} (hd : e.done = a ++ d) : Editor.Ok tm ⟨d, e.line⟩ := by
  refine ⟨?_, h.line⟩
  rcases List.eq_nil_or_concat' d with h0 | ⟨d', x, hx⟩
  · exact .inl h0
  · refine .inr ⟨d', x, hx, ?_⟩
    rcases h.done with h0 | ⟨l, c, hl, hc⟩
    · rw [hd, hx, ← List.append_assoc] at h0
      exact absurd h0 (List.concat_ne_nil _ _)
    · rw [hd, hx, ← List.append_assoc] at hl
      obtain ⟨-, hxc⟩ := List.append_inj' hl rfl
      cases hxc
      exact hc

end Editor

/-- The input that has been typed. -/
def Tty.edited (tm : Termios) (isupper : UInt8 → Bool) (t : Tty) : Editor := Editor.typeAll tm (tm.mapped isupper t.readQ.taken)

variable {v : Video} {isupper islower : UInt8 → Bool} {tm : Termios} {t t' : Tty}

/-- `d` is what is left of the lines that are ended. -/
structure Rest (isupper : UInt8 → Bool) (tm : Termios) (t : Tty) (d : List UInt8) : Prop where
  done : (t.edited tm isupper).done = t.secondary.taken ++ d
  list : t.secondary.ring.list = d ++ (t.edited tm isupper).line

/-- The terminal between two steps. -/
structure Served (isupper : UInt8 → Bool) (tm : Termios) (t : Tty) : Prop where
  termios : t.termios = tm
  readQ : t.readQ.Kept
  secondary : t.secondary.Kept
  ahead : t.ahead = 0
  rest : ∃ d, Rest isupper tm t d

theorem lines_append (l m : List UInt8) : tm.lines (l ++ m) = tm.lines l + tm.lines m := List.countP_append

theorem lines_eq_zero {l : List UInt8} (h : ∀ c ∈ l, tm.endsLine c = false) : tm.lines l = 0 :=
  List.countP_eq_zero.2 fun c hc => by rw [h c hc]; exact Bool.false_ne_true

section Served

variable (hp : tm.plain) (hcanon : tm.icanon = true)

include hp hcanon

theorem edited_ok (t : Tty) : (t.edited tm isupper).Ok tm := (Editor.ok_typeAll hp hcanon _).1

/-- The line that is not ended has nothing that ends it. -/
theorem Rest.lines {d : List UInt8} (h : Rest isupper tm t d) : tm.lines t.secondary.ring.list = tm.lines d := by
  rw [h.list, lines_append, lines_eq_zero (edited_ok hp hcanon t).line, Nat.add_zero]

/-- `copy_to_cooked` edits behind the lines that are ended. -/
theorem Served.cooked {bs : List UInt8} (h : Served isupper tm t) (hc : Cooked isupper t bs t') :
    Served isupper tm t' ∧ tm.lines t.secondary.ring.list ≤ tm.lines t'.secondary.ring.list := by
  obtain ⟨d, hd⟩ := h.rest
  have hok := (edited_ok hp hcanon t).rest hd.done
  obtain ⟨-, htext⟩ := hok.text_foldl hp hcanon (tm.mapped isupper bs)
  obtain ⟨l, hl⟩ : ∃ l, ((tm.mapped isupper bs).foldl (Editor.type tm) ⟨d, (t.edited tm isupper).line⟩).done = d ++ l :=
    Editor.done_foldl _
  have hwhole : t.edited tm isupper = Editor.prepend t.secondary.taken ⟨d, (t.edited tm isupper).line⟩ := by
    rw [Editor.prepend, ← hd.done]
  have hnew : t'.edited tm isupper =
      ((tm.mapped isupper bs).foldl (Editor.type tm) ⟨d, (t.edited tm isupper).line⟩).prepend t.secondary.taken := by
    rw [Tty.edited, hc.eaten, mapped_append, Editor.typeAll, List.foldl_append, ← Editor.foldl_prepend, ← hwhole]
    rfl
  generalize (tm.mapped isupper bs).foldl (Editor.type tm) ⟨d, (t.edited tm isupper).line⟩ = e at htext hl hnew
  have hlist : t'.secondary.ring.list = e.done ++ e.line := by
    rw [hc.list, h.termios, hd.list]
    exact htext.symm
  have hrest : Rest isupper tm t' e.done := by
    refine ⟨?_, ?_⟩
    · rw [hnew, hc.taken]
      rfl
    · rw [hnew]
      exact hlist
  refine ⟨⟨hc.termios.trans h.termios, hc.readKept h.readQ, hc.kept h.secondary, hc.ahead.trans h.ahead, _, hrest⟩, ?_⟩
  rw [hd.lines hp hcanon, hrest.lines hp hcanon, hl, lines_append]
  exact Nat.le_add_right _ _

/-- There is a line: the next byte is of one that is ended. -/
theorem Served.getch (h : Served isupper tm t) (hl : 0 < tm.lines t.secondary.ring.list) :
    Served isupper tm ({ t with secondary := t.secondary.getch }.countDown t.secondary.ring.first) ∧
      t.secondary.ring.list = t.secondary.ring.first :: t.secondary.getch.ring.list := by
  obtain ⟨d, hd⟩ := h.rest
  have hc : 0 < t.secondary.ring.chars := by
    have := List.countP_le_length (p := tm.endsLine) (l := t.secondary.ring.list)
    rw [Fifo.length_list] at this
    exact Nat.lt_of_lt_of_le hl this
  have hne : t.secondary.isEmpty = false := by
    rw [Bool.eq_false_iff, Ne, TtyQueue.isEmpty_iff]
    omega
  have hlist : t.secondary.ring.list = t.secondary.ring.first :: t.secondary.getch.ring.list := t.secondary.ring.list_getch hc
  refine ⟨⟨h.termios, h.readQ, h.secondary.getch hc, (ahead_read hne).trans h.ahead, ?_⟩, hlist⟩
  cases d with
  | nil =>
    rw [hd.lines hp hcanon] at hl
    exact absurd hl (Nat.lt_irrefl 0)
  | cons x d =>
    have hx := hd.list
    rw [hlist, List.cons_append] at hx
    obtain ⟨hx, htail⟩ := List.cons.inj hx
    refine ⟨d, ?_, htail⟩
    show (t.edited tm isupper).done = t.secondary.taken ++ [t.secondary.ring.first] ++ d
    rw [hd.done, hx, List.append_assoc, List.singleton_append]

end Served

theorem Served.arrive (h : Served isupper tm t) {cs : List UInt8} (hl : cs.length ≤ t.readQ.ring.left) :
    Served isupper tm { t with readQ := t.readQ.putAll cs } := by
  obtain ⟨d, hd⟩ := h.rest
  have he : ({ t with readQ := t.readQ.putAll cs } : Tty).edited tm isupper = t.edited tm isupper := by
    show Editor.typeAll tm (tm.mapped isupper (t.readQ.putAll cs).taken) = _
    rw [TtyQueue.taken_putAll]
    rfl
  refine ⟨h.termios, (h.readQ.putAll cs hl).1, h.secondary, h.ahead, d, ?_, ?_⟩
  · rw [he]
    exact hd.done
  · rw [he]
    exact hd.list

/-! ## The call -/

/-- A call that has returned: the bytes are of one line, and the call ended at a newline, at an end-of-file character, which is not
among them, or at its count. -/
structure Whole (tm : Termios) (r : Read × Bool) : Prop where
  line : 10 ∉ r.1.got.dropLast
  eof : tm.eof ∉ r.1.got
  ends : r.1.got.length = r.1.nr ∨ r.1.got.getLast? = some 10 ∨ r.2 = true

/-- A call that is being made. -/
def Read.Ok (tm : Termios) (t : Tty) (r : Read) : Point → Prop
  | .wait => r.got = []
  | .take => 0 < tm.lines t.secondary.ring.list ∧ (∀ c ∈ r.got, tm.endsLine c = false) ∧ r.got.length < r.nr
  | .check => ∃ l c, r.got = l ++ [c] ∧ (∀ x ∈ l, tm.endsLine x = false) ∧ r.got.length ≤ r.nr ∧ c ≠ tm.eof ∧
      (c = 10 ∨ tm.endsLine c = false ∧ 0 < tm.lines t.secondary.ring.list)

namespace Session

variable {s s' : Session} {r : Read} {p : Point}

structure Inv (isupper : UInt8 → Bool) (tm : Termios) (s : Session) : Prop where
  served : Served isupper tm s.tty
  call : ∀ p r, s.call = some (p, r) → r.Ok tm s.tty p
  delivered : s.delivered = s.tty.secondary.taken.filter fun c => c ≠ tm.eof
  returned : ∀ r ∈ s.returned, Whole tm r

theorem delivered_call (h : s.call = some (p, r)) : s.delivered = (s.returned.map fun r => r.1.got).flatten ++ r.got := by
  rw [delivered, h]
  rfl

theorem delivered_leave (s : Session) (r : Read) (eof : Bool) :
    (s.leave r eof).delivered = (s.returned.map fun r => r.1.got).flatten ++ r.got := by
  show ((s.returned ++ [(r, eof)]).map fun r => r.1.got).flatten ++ [] = _
  rw [List.map_append, List.flatten_append, List.append_nil]
  show _ ++ (r.got ++ []) = _
  rw [List.append_nil]

/-- A call returns. -/
theorem Inv.leave {eof : Bool} (h : Inv isupper tm s) (hs : Served isupper tm t) (hw : Whole tm (r, eof))
    (hd : (s.returned.map fun r => r.1.got).flatten ++ r.got = t.secondary.taken.filter fun c => c ≠ tm.eof) :
    Inv isupper tm (({ s with tty := t } : Session).leave r eof) := by
  refine ⟨hs, fun _ _ hc => (by cases hc), (delivered_leave _ r eof).trans hd, fun r' hr' => ?_⟩
  rcases List.mem_append.1 hr' with hr' | hr'
  · exact h.returned r' hr'
  · rw [List.mem_singleton.1 hr']
    exact hw

/-- A call goes on. -/
theorem Inv.goto (h : Inv isupper tm s) (hs : Served isupper tm t) (hr : r.Ok tm t p)
    (hd : (s.returned.map fun r => r.1.got).flatten ++ r.got = t.secondary.taken.filter fun c => c ≠ tm.eof) :
    Inv isupper tm (({ s with tty := t } : Session).goto p r) := by
  refine ⟨hs, fun p' r' hc => ?_, hd, h.returned⟩
  cases hc
  exact hr

theorem not_mem_of_endsLine (hp : tm.plain) {l : List UInt8} (h : ∀ c ∈ l, tm.endsLine c = false) : 10 ∉ l ∧ tm.eof ∉ l := by
  refine ⟨fun hm => ?_, fun hm => ?_⟩
  · exact Bool.false_ne_true ((h _ hm).symm.trans ((endsLine_iff hp).2 (.inl rfl)))
  · exact Bool.false_ne_true ((h _ hm).symm.trans ((endsLine_iff hp).2 (.inr rfl)))

/-- There is a line if `data` is not 0. -/
theorem Inv.lines_pos (h : Inv isupper tm s) (hcanon : tm.icanon = true) (hleft : 20 < s.tty.secondary.ring.left)
    (hb : blocked s.tty = false) : 0 < tm.lines s.tty.secondary.ring.list := by
  refine Nat.pos_of_ne_zero fun h0 => ?_
  have hd := h.served.ahead
  rw [Tty.ahead, h.served.termios, h0] at hd
  have hdata : s.tty.data = 0 := by bv_omega
  unfold blocked at hb
  rw [h.served.termios, hcanon, hdata] at hb
  simp [hleft] at hb

theorem Inv.wait (h : Inv isupper tm s) (hcanon : tm.icanon = true) (hleft : 20 < s.tty.secondary.ring.left)
    (hc : s.call = some (.wait, r)) : Inv isupper tm (s.turn .wait r) := by
  have h0 : r.got = [] := h.call _ _ hc
  have hd := (delivered_call hc).symm.trans h.delivered
  rw [turn]
  split
  · rename_i hnr
    refine h.leave h.served ⟨?_, ?_, .inl hnr⟩ hd
    · rw [h0]
      exact List.not_mem_nil
    · rw [h0]
      exact List.not_mem_nil
  split
  · exact h
  · rename_i hnr hb
    refine h.goto h.served ⟨h.lines_pos hcanon hleft (Bool.eq_false_iff.2 hb), ?_, ?_⟩ hd
    · rw [h0]
      exact fun _ hm => absurd hm List.not_mem_nil
    · rw [h0] at hnr ⊢
      exact Nat.pos_of_ne_zero fun e => hnr e.symm

theorem Inv.take (h : Inv isupper tm s) (hp : tm.plain) (hcanon : tm.icanon = true) (hc : s.call = some (.take, r)) :
    Inv isupper tm (s.turn .take r) := by
  obtain ⟨hl, hgot, hlen⟩ := h.call _ _ hc
  have hd := (delivered_call hc).symm.trans h.delivered
  obtain ⟨hs, hlist⟩ := h.served.getch hp hcanon hl
  obtain ⟨hnl, heof⟩ := not_mem_of_endsLine hp hgot
  have htaken : s.tty.secondary.getch.taken = s.tty.secondary.taken ++ [s.tty.secondary.ring.first] := rfl
  rw [turn]
  dsimp only
  split
  · -- the end-of-file character
    rename_i he
    have hc : s.tty.secondary.ring.first = tm.eof := by
      rw [Bool.and_eq_true] at he
      exact (sameChar_iff hp.2.2.2.2.1).1 (h.served.termios ▸ he.1)
    refine h.leave hs ⟨fun hm => hnl ((List.dropLast_sublist _).subset hm), heof, .inr (.inr rfl)⟩ ?_
    show _ = s.tty.secondary.getch.taken.filter _
    rw [htaken, List.filter_append, hc, List.filter_singleton, decide_eq_false (fun hne => hne rfl), hd]
    exact (List.append_nil _).symm
  · rename_i he
    have hne : s.tty.secondary.ring.first ≠ tm.eof := by
      intro e
      refine he ?_
      rw [Bool.and_eq_true]
      exact ⟨(sameChar_iff (h.served.termios ▸ hp.2.2.2.2.1)).2 (h.served.termios ▸ e), h.served.termios ▸ hcanon⟩
    refine h.goto hs ⟨r.got, _, rfl, hgot, ?_, hne, ?_⟩ ?_
    · rw [List.length_append]
      exact hlen
    · by_cases h10 : s.tty.secondary.ring.first = 10
      · exact .inl h10
      · have hend : tm.endsLine s.tty.secondary.ring.first = false := by
          rw [Bool.eq_false_iff, Ne, endsLine_iff hp]
          exact fun h' => h'.elim h10 hne
        refine .inr ⟨hend, ?_⟩
        rw [hlist, Termios.lines, List.countP_cons, hend] at hl
        exact hl
    · show _ ++ (r.got ++ [s.tty.secondary.ring.first]) = s.tty.secondary.getch.taken.filter _
      rw [htaken, List.filter_append, ← hd, List.filter_singleton, decide_eq_true hne, List.append_assoc]
      rfl

theorem Inv.check (h : Inv isupper tm s) (hp : tm.plain) (hcanon : tm.icanon = true) (hc : s.call = some (.check, r))
    (hnl : r.got.getLast? = some 10 → r.got.length = r.nr ∨ s.tty.secondary.isEmpty = true) : Inv isupper tm (s.turn .check r) := by
  obtain ⟨l, c, hgot, hl, hlen, hne, hlast⟩ := h.call _ _ hc
  have hd := (delivered_call hc).symm.trans h.delivered
  have hc' : r.got.getLast? = some c := by rw [hgot, List.getLast?_concat]
  have hne' : r.got ≠ [] := by
    rw [hgot]
    exact List.concat_ne_nil _ _
  obtain ⟨hl10, hleof⟩ := not_mem_of_endsLine hp hl
  rw [turn]
  split
  · rename_i hmore
    obtain ⟨hcount, hempty⟩ := hmore
    refine h.goto h.served ?_ hd
    have hlast' := hlast.resolve_left fun h10 => by
      rcases hnl (h10 ▸ hc') with h' | h'
      · exact hcount h'
      · exact Bool.false_ne_true (hempty.symm.trans h')
    refine ⟨hlast'.2, fun x hx => ?_, Nat.lt_of_le_of_ne hlen hcount⟩
    rw [hgot] at hx
    rcases List.mem_append.1 hx with hx | hx
    · exact hl x hx
    · rw [List.mem_singleton.1 hx]
      exact hlast'.1
  · rename_i hmore
    have hcanon' : s.tty.termios.icanon = true := by rw [h.served.termios, hcanon]
    rw [if_pos hcanon']
    refine h.leave h.served ⟨?_, ?_, ?_⟩ hd
    · rw [hgot, List.dropLast_concat]
      exact hl10
    · rw [hgot]
      intro hm
      rcases List.mem_append.1 hm with hm | hm
      · exact hleof hm
      · exact hne (List.mem_singleton.1 hm).symm
    · by_cases hcount : r.got.length = r.nr
      · exact .inl hcount
      · refine .inr (.inl ?_)
        rcases hlast with h10 | ⟨-, hpos⟩
        · rw [hc', h10]
        · -- a line that is not at its end is still in `secondary`
          have hempty : s.tty.secondary.isEmpty = true := by
            by_contra h'
            exact hmore ⟨hcount, Bool.eq_false_iff.2 h'⟩
          rw [s.tty.secondary.ring.list_eq_nil (TtyQueue.isEmpty_iff.1 hempty)] at hpos
          exact absurd hpos (Nat.lt_irrefl 0)

theorem newline_of_stops (hc : s.call = some (.check, r)) (h : s.stopsAtNewline = true) (hnl : r.got.getLast? = some 10) :
    r.got.length = r.nr ∨ s.tty.secondary.isEmpty = true := by
  unfold stopsAtNewline at h
  rw [hc] at h
  simpa [hnl] using h

/-- Something comes in. -/
theorem Inv.input (h : Inv isupper tm s) (hs : Served isupper tm t) (htaken : t.secondary.taken = s.tty.secondary.taken)
    (hl : tm.lines s.tty.secondary.ring.list ≤ tm.lines t.secondary.ring.list) : Inv isupper tm { s with tty := t } := by
  refine ⟨hs, fun p r hc => ?_, ?_, h.returned⟩
  · have hr := h.call p r hc
    cases p with
    | wait => exact hr
    | take => exact ⟨Nat.lt_of_lt_of_le hr.1 hl, hr.2⟩
    | check =>
      obtain ⟨l, c, h₁, h₂, h₃, h₄, h₅⟩ := hr
      exact ⟨l, c, h₁, h₂, h₃, h₄, h₅.imp_right fun h' => ⟨h'.1, Nat.lt_of_lt_of_le h'.2 hl⟩⟩
  · show s.delivered = t.secondary.taken.filter _
    rw [htaken]
    exact h.delivered

theorem Inv.step (h : Inv isupper tm s) (hp : tm.plain) (hcanon : tm.icanon = true) {a : Act} (ha : Orderly s a)
    (hs : step v isupper islower s a = some s') : Inv isupper tm s' := by
  cases a with
  | tty o =>
    obtain ⟨t, ht, rfl⟩ := Option.map_eq_some_iff.1 hs
    cases o with
    | arrive cs =>
      cases ht
      split
      · exact h.input (h.served.arrive ‹_›) rfl (Nat.le_refl _)
      · exact h
    | interrupt n =>
      obtain ⟨-, ⟨bs, hbs⟩, -⟩ := (copyToCooked_cooks ha.1).of_run (body_monotone v isupper) ht
      obtain ⟨hserved, hl⟩ := h.served.cooked hp hcanon hbs
      exact h.input hserved hbs.taken hl
    | put | write | transmit | read | setTermios => exact ha.1.elim
  | read nr minimum =>
    cases hc : s.call with
    | some c =>
      rw [Session.step, hc] at hs
      cases hs
    | none =>
      rw [Session.step, hc] at hs
      cases hs
      refine h.goto h.served rfl ?_
      have hd := h.delivered
      rw [Session.delivered, hc] at hd
      exact hd
  | turn =>
    obtain ⟨⟨p, r⟩, hc, rfl⟩ := Option.map_eq_some_iff.1 hs
    cases p with
    | wait => exact h.wait hcanon ha.1 hc
    | take => exact h.take hp hcanon hc
    | check => exact h.check hp hcanon hc (newline_of_stops hc ha.2)

end Session

end Linux011.Chr
