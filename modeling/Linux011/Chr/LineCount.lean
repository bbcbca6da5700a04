/-
The line counter: `secondary.data` counts the characters in `secondary` that end a line.

`copy_to_cooked` counts up before it echoes and puts, `tty_read` down after it has taken. The comparison is with the
end-of-file character at that time: if it is changed with bytes in `secondary` that are the old or the new one, the count is
wrong from then on. `tty_ioctl` flushes `read_q` and `write_q` only.
-/
import Linux011.Chr.LineEditing

namespace Linux011.Chr

variable {v : Video} {isupper islower : UInt8 → Bool} {t t' : Tty}

/-- `flush`: what was put and not taken is gone. -/
def TtyQueue.flush (q : TtyQueue) : TtyQueue :=
  { q with ring := { q.ring with head := q.ring.tail, head_lt := q.ring.tail_lt }, put := q.taken }

/-- What happens to a terminal, with the requests of `tty_ioctl` that change it. -/
inductive Request
  /-- Input, output, and `TCSETS` or `TCSETA`. -/
  | op (o : Op)
  /-- `TCFLSH`; before the settings are changed by `TCSETSF` or `TCSETAF`, of `read_q`. -/
  | flush (input output : Bool)

def request (v : Video) (isupper islower : UInt8 → Bool) (t : Tty) : Request → Option Tty
  | .op o => step v isupper islower t o
  | .flush input output => some
    { t with
      readQ := if input then t.readQ.flush else t.readQ
      writeQ := if output then t.writeQ.flush else t.writeQ }

/-- The bytes in `secondary` that end a line. -/
def Tty.lines (t : Tty) : Nat := t.secondary.ring.list.countP fun c => c = 10 || c = t.termios.eof

/-- No query is answered while a character is being echoed; the end-of-file character stays below 128, and is changed only if none of
the bytes in `secondary` but newlines is the old one or the new one. -/
def Regular (t : Tty) : Request → Prop
  | .op (.interrupt _) => Undisturbed t
  | .op (.write _) => t.termios.echo = true → t.isConsole = true → t.queries [] = 0
  | .op (.setTermios tm) => tm.eof < 128 ∧
      (tm.eof = t.termios.eof ∨ ∀ c ∈ t.secondary.ring.list, c ≠ 10 → c ≠ tm.eof ∧ c ≠ t.termios.eof)
  | _ => True

instance (t : Tty) : (r : Request) → Decidable (Regular t r)
  | .op (.interrupt _) => inferInstanceAs (Decidable (Undisturbed t))
  | .op (.write _) => inferInstanceAs (Decidable (_ → _ → _ = _))
  | .op (.setTermios _) => inferInstanceAs (Decidable (_ ∧ (_ ∨ _)))
  | .op (.arrive _) | .op (.put _ _) | .op .transmit | .op .read | .flush _ _ => isTrue trivial

/-- The count is exact. -/
structure Counted (t : Tty) : Prop where
  eof : t.termios.eof < 128
  exact : t.ahead = 0

/-- Nothing that the count depends on has changed. -/
structure SameCount (t t' : Tty) : Prop where
  termios : t'.termios = t.termios
  ahead : t'.ahead = t.ahead

theorem Counted.same (h : Counted t) (h' : SameCount t t') : Counted t' := ⟨h'.termios ▸ h.eof, h'.ahead.trans h.exact⟩

/-- `con_write` without echo: what it answers is typed. -/
theorem conWrite_sameCount (hoff : t.termios.echo = false) (nr : Nat) :
    Depth.Ends (body v isupper) (fun call => call (.conWrite nr) t) (SameCount t) := by
  induction nr generalizing t with
  | zero => exact Depth.Ends.call (.result ⟨rfl, rfl⟩)
  | succ nr ih =>
    refine Depth.Ends.call ?_
    simp only [body, conTurn]
    by_cases hask : t.asks t.writeQ.ring.first = true
    · simp only [if_pos hask]
      have hu : Undisturbed { t.shown v with readQ := t.readQ.putAll response } := fun hon =>
        absurd (hoff.symm.trans hon) (by decide)
      refine Depth.Ends.bind ((copyToCooked_cooks hu).mono fun t₁ h₁ => ?_)
      obtain ⟨-, ⟨bs, hbs⟩, -⟩ := h₁
      have htm : t₁.termios = t.termios := hbs.termios
      refine (ih (htm ▸ hoff)).mono fun t₂ h₂ => ⟨h₂.termios.trans htm, h₂.ahead.trans hbs.ahead⟩
    · simp only [if_neg hask]
      exact (ih (t := t.shown v) hoff).mono fun t₂ h₂ => ⟨h₂.termios, h₂.ahead⟩

theorem write_sameCount (h : t.termios.echo = true → t.isConsole = true → t.queries [] = 0) :
    Depth.Ends (body v isupper) (fun call => call .write t) (SameCount t) := by
  refine Depth.Ends.call ?_
  by_cases hcon : t.isConsole = true
  · simp only [body, if_pos hcon]
    by_cases hon : t.termios.echo = true
    · refine (conWrite_quiet (h hon hcon)).mono fun t' h' => ⟨h'.termios, ?_⟩
      rw [Tty.ahead, h'.data, h'.termios, h'.secondary]
      rfl
    · exact conWrite_sameCount (Bool.eq_false_iff.2 hon) _
  · simp only [body, if_neg hcon]
    exact .result ⟨rfl, rfl⟩

/-- A byte is taken, and counted down. -/
theorem ahead_read (hne : t.secondary.isEmpty = false) :
    ({ t with secondary := t.secondary.getch }.countDown t.secondary.ring.first : Tty).ahead = t.ahead := by
  have hc : 0 < t.secondary.ring.chars := by
    rw [Bool.eq_false_iff, Ne, TtyQueue.isEmpty_iff] at hne
    omega
  have hlist : t.secondary.ring.list = t.secondary.ring.first :: t.secondary.getch.ring.list := t.secondary.ring.list_getch hc
  show (if t.termios.endsLine t.secondary.ring.first then t.data - 1 else t.data) -
    BitVec.ofNat 32 (t.termios.lines t.secondary.getch.ring.list) = t.ahead
  rw [Tty.ahead, hlist, Termios.lines, Termios.lines, List.countP_cons]
  split
  · bv_omega
  · rw [Nat.add_zero]

/-- The count with another end-of-file character. -/
theorem lines_setEof {tm tm' : Termios} {l : List UInt8} (h : tm'.eof = tm.eof ∨ ∀ c ∈ l, c ≠ 10 → c ≠ tm'.eof ∧ c ≠ tm.eof) :
    tm'.lines l = tm.lines l := by
  unfold Termios.lines
  refine List.countP_congr fun c hc => ?_
  unfold Termios.endsLine
  rcases h with h | h
  · rw [h]
  · by_cases h10 : c = 10
    · simp [h10]
    · obtain ⟨h₁, h₂⟩ := h c hc h10
      simp [h10, sameChar, h₁, h₂]

theorem Counted.request {r : Request} (h : Counted t) (hr : Regular t r) (hs : request v isupper islower t r = some t') : Counted t' := by
  cases r with
  | flush input output =>
    cases hs
    exact h.same ⟨rfl, rfl⟩
  | op o =>
    cases o with
    | arrive cs =>
      cases hs
      split
      · exact h.same ⟨rfl, rfl⟩
      · exact h
    | interrupt n =>
      obtain ⟨-, ⟨bs, hbs⟩, -⟩ := (copyToCooked_cooks hr).of_run (body_monotone v isupper) hs
      exact h.same ⟨hbs.termios, hbs.ahead⟩
    | put c crFlag =>
      simp only [Chr.request, step] at hs
      split at hs
      · cases hs
      · cases hs
        exact h.same ⟨rfl, rfl⟩
    | write n => exact h.same ((write_sameCount hr).of_run (body_monotone v isupper) hs)
    | transmit =>
      simp only [Chr.request, step] at hs
      split at hs
      · cases hs
      · cases hs
        split
        · exact h
        · exact h.same ⟨rfl, rfl⟩
    | read =>
      simp only [Chr.request, step] at hs
      split at hs
      · cases hs
      · cases hs
        exact h.same ⟨rfl, ahead_read (Bool.eq_false_iff.2 ‹_›)⟩
    | setTermios tm =>
      cases hs
      refine ⟨hr.1, ?_⟩
      show t.data - BitVec.ofNat 32 (tm.lines t.secondary.ring.list) = 0
      rw [lines_setEof hr.2]
      exact h.exact

theorem Counted.lines_eq (h : Counted t) : t.lines = t.termios.lines t.secondary.ring.list := by
  unfold Tty.lines Termios.lines
  refine List.countP_congr fun c _ => ?_
  rw [Bool.or_eq_true, decide_eq_true_iff, decide_eq_true_iff, Termios.endsLine, Bool.or_eq_true, decide_eq_true_iff,
    sameChar_iff h.eof]

/-- The count as a number. -/
theorem Counted.toNat_data (h : Counted t) : t.data.toNat = t.lines := by
  have hle : t.termios.lines t.secondary.ring.list ≤ 1023 := by
    have h₁ := List.countP_le_length (p := t.termios.endsLine) (l := t.secondary.ring.list)
    have h₂ := t.secondary.ring.chars_lt
    rw [Fifo.length_list] at h₁
    unfold Termios.lines
    omega
  have hd := h.exact
  unfold Tty.ahead at hd
  rw [h.lines_eq]
  bv_omega

/-- The same line without canonical mode, and with this end-of-file character. -/
def rawTermios (eof : UInt8) : Termios := { serialTermios with echo := false, eof := eof }

end Linux011.Chr
