/-
Line editing: what `copy_to_cooked` makes of the bytes in `read_q`.

`secondary` is a text whose last line may still be taken back. Each byte is mapped and then appended, taken for a command
to the text, or dropped (`Termios.cookText`). An echo in between leaves both queues alone, unless it goes to the screen and
completes a query there: the answer is put into `read_q`, and a second `copy_to_cooked` is run in the middle of the first.

The reference is an `Editor` with the lines that are ended and the one that is not.
-/
import Linux011.Chr.TtyQueues
import Mathlib.Data.List.DropRight

namespace Linux011.Chr

variable {v : Video} {isupper islower : UInt8 → Bool}

/-! ## The text in secondary -/

namespace Termios

/-- The last character goes, unless a line ends there. -/
def eraseLast (tm : Termios) (l : List UInt8) : List UInt8 :=
  match l.getLast? with
  | none => l
  | some c => if tm.endsLine c then l else l.dropLast

/-- The last line goes. -/
def dropLine (tm : Termios) (l : List UInt8) : List UInt8 := l.rdropWhile fun c => !tm.endsLine c

/-- What a character does to the text. -/
def cookText (tm : Termios) (l : List UInt8) (c : UInt8) : List UInt8 :=
  if tm.icanon && sameChar c tm.kill then tm.dropLine l
  else if tm.icanon && sameChar c tm.erase then tm.eraseLast l
  else if tm.icanon && (sameChar c tm.stop || sameChar c tm.start) then l
  else if tm.isig && (sameChar c tm.intr || sameChar c tm.quit) then l
  else l ++ [c]

/-- The input as it is mapped. -/
def mapped (tm : Termios) (isupper : UInt8 → Bool) (bs : List UInt8) : List UInt8 :=
  bs.filterMap fun b => (tm.mapCrNl b).map (tm.mapCase isupper)

/-- The number of lines that end in the text. -/
def lines (tm : Termios) (l : List UInt8) : Nat := l.countP tm.endsLine

end Termios

/-- How far `secondary.data` is ahead of the lines in `secondary`. -/
def Tty.ahead (t : Tty) : BitVec 32 := t.data - BitVec.ofNat 32 (t.termios.lines t.secondary.ring.list)

theorem eraseLast_concat (tm : Termios) (l : List UInt8) (c : UInt8) :
    tm.eraseLast (l ++ [c]) = if tm.endsLine c then l ++ [c] else l := by
  unfold Termios.eraseLast
  rw [List.getLast?_concat]
  dsimp only
  rw [List.dropLast_concat]

theorem dropLine_concat (tm : Termios) (l : List UInt8) (c : UInt8) :
    tm.dropLine (l ++ [c]) = if tm.endsLine c then l ++ [c] else tm.dropLine l := by
  unfold Termios.dropLine
  cases hc : tm.endsLine c with
  | true => exact List.rdropWhile_concat_neg _ _ _ (by simp [hc])
  | false => exact List.rdropWhile_concat_pos _ _ _ (by simp [hc])

/-- The last character may go. -/
theorem list_of_erasable {t : Tty} {c : UInt8} (h : t.erasable = some c) :
    t.secondary.ring.list = t.secondary.dec.ring.list ++ [c] ∧ t.termios.endsLine c = false := by
  have hc := Regime.erasable_pos h
  unfold Tty.erasable at h
  split at h
  · cases h
  · split at h
    · cases h
    · cases h
      exact ⟨t.secondary.ring.list_dec hc, Bool.eq_false_iff.2 ‹_›⟩

/-- It may not. -/
theorem list_of_not_erasable {t : Tty} (h : t.erasable = none) :
    t.termios.eraseLast t.secondary.ring.list = t.secondary.ring.list ∧
      t.termios.dropLine t.secondary.ring.list = t.secondary.ring.list := by
  unfold Tty.erasable at h
  split at h
  · rename_i he
    rw [TtyQueue.isEmpty_iff] at he
    rw [t.secondary.ring.list_eq_nil he]
    exact ⟨rfl, rfl⟩
  · rename_i he
    rw [TtyQueue.isEmpty_iff] at he
    split at h
    · rename_i hl
      rw [t.secondary.ring.list_dec (Nat.pos_of_ne_zero he), eraseLast_concat, dropLine_concat, if_pos hl, if_pos hl]
      exact ⟨rfl, rfl⟩
    · cases h

/-! ## What an echo leaves alone -/

/-- No echo goes to the screen, or none of those there can be completes a query. -/
def Undisturbed (t : Tty) : Prop :=
  t.termios.echo = true → t.isConsole = true →
    2 ≤ t.writeQ.ring.left ∧ t.queries [90] = 0 ∧ ∀ c ∈ t.readQ.ring.list, c ≠ 219 ∧ c ≠ 187

instance (t : Tty) : Decidable (Undisturbed t) := inferInstanceAs (Decidable (_ → _ → _ ∧ _ ∧ _))

/-- Only `write_q` and the screen have changed. -/
structure Echoed (t t' : Tty) : Prop where
  termios : t'.termios = t.termios
  isConsole : t'.isConsole = t.isConsole
  readQ : t'.readQ = t.readQ
  secondary : t'.secondary = t.secondary
  data : t'.data = t.data

theorem Undisturbed.hush {t : Tty} (h : Undisturbed t) (hon : t.termios.echo = true) (hcon : t.isConsole = true) : Hush t := by
  obtain ⟨hleft, hquiet, hbytes⟩ := h hon hcon
  exact ⟨hon, hcon, hleft, hquiet, hbytes⟩

theorem Undisturbed.take {t : Tty} (h : Undisturbed t) (hc : 0 < t.readQ.ring.chars) : Undisturbed { t with readQ := t.readQ.getch } :=
  fun hon hcon =>
    have h' := (h.hush hon hcon).take hc
    ⟨h'.left, h'.quiet, h'.bytes⟩

theorem Undisturbed.echo {t : Tty} (h : Undisturbed t) {cs : List UInt8} (hlen : cs.length ≤ 2)
    (hcs : t.termios.echo = true → t.isConsole = true → ∀ c ∈ cs, c ≠ 27) :
    Depth.Ends (body v isupper) (fun call => echo call t cs) fun t' =>
      Echoed t t' ∧ ∀ q d, Undisturbed { t' with secondary := q, data := d } := by
  cases hon : t.termios.echo with
  | false =>
    simp only [echo_off hon]
    exact .result ⟨⟨rfl, rfl, rfl, rfl, rfl⟩, fun _ _ => h⟩
  | true =>
    cases hcon : t.isConsole with
    | false =>
      exact echo_serial hon hcon cs ⟨⟨rfl, rfl, rfl, rfl, rfl⟩, fun _ _ _ hc => nomatch hcon.symm.trans hc⟩
    | true =>
      refine ((h.hush hon hcon).echo hlen (hcs hon hcon)).mono fun t' h' => ?_
      refine ⟨⟨h'.termios, h'.isConsole, h'.readQ, h'.secondary, h'.data⟩, fun q d _ _ => ?_⟩
      have hq := h'.hush (h.hush hon hcon) q
      exact ⟨hq.left, hq.quiet, hq.bytes⟩

/-! ## The routines on the text -/

/-- The text in `secondary` has become `l`; nothing has been taken from it, nor from `read_q`. -/
structure Edited (t : Tty) (l : List UInt8) (t' : Tty) : Prop where
  termios : t'.termios = t.termios
  isConsole : t'.isConsole = t.isConsole
  readQ : t'.readQ = t.readQ
  list : t'.secondary.ring.list = l
  taken : t'.secondary.taken = t.secondary.taken
  kept : t.secondary.Kept → t'.secondary.Kept
  ahead : t'.ahead = t.ahead

theorem Edited.refl (t : Tty) : Edited t t.secondary.ring.list t := ⟨rfl, rfl, rfl, rfl, rfl, id, rfl⟩

theorem Edited.trans {t t' t'' : Tty} {l l' : List UInt8} (h : Edited t l t') (h' : Edited t' l' t'') : Edited t l' t'' where
  termios := h'.termios.trans h.termios
  isConsole := h'.isConsole.trans h.isConsole
  readQ := h'.readQ.trans h.readQ
  list := h'.list
  taken := h'.taken.trans h.taken
  kept := h'.kept ∘ h.kept
  ahead := h'.ahead.trans h.ahead

theorem takeBack_edits {t : Tty} {c : UInt8} (h : Undisturbed t) (he : t.erasable = some c) :
    Depth.Ends (body v isupper) (fun call => takeBack call t c) fun t' =>
      Undisturbed t' ∧ Edited t t.secondary.dec.ring.list t' := by
  have hpos := Regime.erasable_pos he
  obtain ⟨hlist, hend⟩ := list_of_erasable he
  refine Depth.Ends.bind ((h.echo (ruboutOf_length c) fun _ _ => ruboutOf_ne c).mono fun t' h' => .result ?_)
  obtain ⟨h', hu⟩ := h'
  refine ⟨hu _ _, ⟨h'.termios, h'.isConsole, h'.readQ, ?_, ?_, fun hk => ?_, ?_⟩⟩
  · show t'.secondary.dec.ring.list = _
    rw [h'.secondary]
  · dsimp only [TtyQueue.dec]
    rw [h'.secondary]
  · show t'.secondary.dec.Kept
    rw [h'.secondary]
    exact hk.dec hpos
  · show t'.data - BitVec.ofNat 32 (t'.termios.lines t'.secondary.dec.ring.list) = t.ahead
    rw [h'.data, h'.termios, h'.secondary, Tty.ahead, hlist, Termios.lines, Termios.lines, List.countP_append,
      List.countP_singleton, hend, if_neg Bool.false_ne_true, Nat.add_zero]

/-- The loop that takes back a line. -/
theorem killLine_edits {t : Tty} (h : Undisturbed t) :
    Depth.Ends (body v isupper) (fun call => call .killLine t) fun t' =>
      Undisturbed t' ∧ Edited t (t.termios.dropLine t.secondary.ring.list) t' := by
  induction hn : t.secondary.ring.chars using Nat.strongRecOn generalizing t with
  | ind n ih =>
    refine Depth.Ends.call ?_
    show Depth.Ends _ (fun call => killTurn call t) _
    unfold killTurn
    cases he : t.erasable with
    | none =>
      rw [(list_of_not_erasable he).2]
      exact .result ⟨h, .refl t⟩
    | some c =>
      refine Depth.Ends.bind ((takeBack_edits h he).mono fun t' h' => ?_)
      obtain ⟨hu, hed⟩ := h'
      obtain ⟨hlist, hend⟩ := list_of_erasable he
      have hless : t'.secondary.ring.chars < n := by
        have hlen := congrArg List.length hlist
        rw [← hn, ← Fifo.length_list, ← Fifo.length_list, hed.list, hlen, List.length_append]
        exact Nat.lt_succ_self _
      refine (ih _ hless hu rfl).mono fun t'' h'' => ⟨h''.1, ?_⟩
      have htext : t'.termios.dropLine t'.secondary.ring.list = t.termios.dropLine t.secondary.ring.list := by
        rw [hed.termios, hed.list, hlist, dropLine_concat, hend, if_neg Bool.false_ne_true]
      exact htext ▸ hed.trans h''.2

/-- A character that has been taken and mapped. -/
theorem cook_edits {t : Tty} {c : UInt8} (h : Undisturbed t) (hc : t.termios.echo = true → t.isConsole = true → c ≠ 219)
    (hs : 0 < t.secondary.ring.left) :
    Depth.Ends (body v isupper) (fun call => cook call t c) fun t' =>
      Undisturbed t' ∧ Edited t (t.termios.cookText t.secondary.ring.list c) t' := by
  unfold cook Termios.cookText
  dsimp only
  split
  · exact killLine_edits h
  split
  · cases he : t.erasable with
    | none =>
      rw [(list_of_not_erasable he).1]
      exact .result ⟨h, .refl t⟩
    | some c =>
      obtain ⟨hlist, hend⟩ := list_of_erasable he
      have htext : t.termios.eraseLast t.secondary.ring.list = t.secondary.dec.ring.list := by
        rw [hlist, eraseLast_concat, hend, if_neg Bool.false_ne_true]
      rw [htext]
      exact takeBack_edits h he
  split
  · exact .result ⟨h, .refl t⟩
  split
  · exact .result ⟨h, .refl t⟩
  · have hu : Undisturbed (t.countUp c) := h
    refine Depth.Ends.bind ((hu.echo (t.termios.echoOf_length c) fun hon hcon => t.termios.echoOf_ne (hc hon hcon)).mono
      fun t' h' => .result ?_)
    obtain ⟨h', hu'⟩ := h'
    have hs' : t'.secondary = t.secondary := h'.secondary
    refine ⟨hu' _ _, ⟨h'.termios, h'.isConsole, h'.readQ, ?_, ?_, fun hk => ?_, ?_⟩⟩
    · rw [hs']
      exact t.secondary.ring.list_putch c hs
    · show (t'.secondary.putch c).taken = _
      rw [hs']
      rfl
    · exact hs' ▸ hk.putch hs c
    · show t'.data - BitVec.ofNat 32 (t'.termios.lines (t'.secondary.putch c).ring.list) = t.ahead
      have hlist : (t.secondary.putch c).ring.list = t.secondary.ring.list ++ [c] := t.secondary.ring.list_putch c hs
      have hdata : t'.data = if t.termios.endsLine c then t.data + 1 else t.data := h'.data
      have htm : t'.termios = t.termios := h'.termios
      rw [hdata, htm, hs', hlist, Tty.ahead, Termios.lines, Termios.lines, List.countP_append, List.countP_singleton]
      split
      · bv_omega
      · rw [Nat.add_zero]

/-- The bytes `bs` have been taken from `read_q` and typed into `secondary`. -/
structure Cooked (isupper : UInt8 → Bool) (t : Tty) (bs : List UInt8) (t' : Tty) : Prop where
  termios : t'.termios = t.termios
  isConsole : t'.isConsole = t.isConsole
  input : t.readQ.ring.list = bs ++ t'.readQ.ring.list
  eaten : t'.readQ.taken = t.readQ.taken ++ bs
  put : t'.readQ.put = t.readQ.put
  overrun : t'.readQ.overrun = t.readQ.overrun
  list : t'.secondary.ring.list = (t.termios.mapped isupper bs).foldl t.termios.cookText t.secondary.ring.list
  taken : t'.secondary.taken = t.secondary.taken
  kept : t.secondary.Kept → t'.secondary.Kept
  ahead : t'.ahead = t.ahead

theorem mapped_append (tm : Termios) (bs bs' : List UInt8) :
    tm.mapped isupper (bs ++ bs') = tm.mapped isupper bs ++ tm.mapped isupper bs' := List.filterMap_append

theorem Cooked.refl (t : Tty) : Cooked isupper t [] t := ⟨rfl, rfl, rfl, (List.append_nil _).symm, rfl, rfl, rfl, rfl, id, rfl⟩

theorem Cooked.trans {t t' t'' : Tty} {bs bs' : List UInt8} (h : Cooked isupper t bs t') (h' : Cooked isupper t' bs' t'') :
    Cooked isupper t (bs ++ bs') t'' where
  termios := h'.termios.trans h.termios
  isConsole := h'.isConsole.trans h.isConsole
  input := by rw [h.input, h'.input, List.append_assoc]
  eaten := by rw [h'.eaten, h.eaten, List.append_assoc]
  put := h'.put.trans h.put
  overrun := h'.overrun.trans h.overrun
  list := by rw [h'.list, h.list, h.termios, mapped_append, List.foldl_append]
  taken := h'.taken.trans h.taken
  kept := h'.kept ∘ h.kept
  ahead := h'.ahead.trans h.ahead

/-- A byte that is dropped. -/
theorem Cooked.drop {t : Tty} (hc : 0 < t.readQ.ring.chars) (hm : t.termios.mapCrNl t.readQ.ring.first = none) :
    Cooked isupper t [t.readQ.ring.first] { t with readQ := t.readQ.getch } where
  termios := rfl
  isConsole := rfl
  input := t.readQ.ring.list_getch hc
  eaten := rfl
  put := rfl
  overrun := rfl
  list := by
    rw [Termios.mapped, List.filterMap_cons, hm]
    rfl
  taken := rfl
  kept := id
  ahead := rfl

/-- A byte that is typed. -/
theorem Cooked.typed {t t' : Tty} {c : UInt8} (hc : 0 < t.readQ.ring.chars) (hm : t.termios.mapCrNl t.readQ.ring.first = some c)
    (h : Edited { t with readQ := t.readQ.getch } (t.termios.cookText t.secondary.ring.list (t.termios.mapCase isupper c)) t') :
    Cooked isupper t [t.readQ.ring.first] t' where
  termios := h.termios
  isConsole := h.isConsole
  input := by
    rw [h.readQ]
    exact t.readQ.ring.list_getch hc
  eaten := by
    rw [h.readQ]
    rfl
  put := by
    rw [h.readQ]
    rfl
  overrun := by
    rw [h.readQ]
    rfl
  list := by
    rw [Termios.mapped, List.filterMap_cons, hm]
    exact h.list
  taken := h.taken
  kept := h.kept
  ahead := h.ahead

/-- **`copy_to_cooked`** types what is in `read_q`, unless `secondary` gets full. -/
theorem copyToCooked_cooks {t : Tty} (h : Undisturbed t) :
    Depth.Ends (body v isupper) (fun call => call .copyToCooked t) fun t' =>
      Undisturbed t' ∧ (∃ bs, Cooked isupper t bs t') ∧ (t'.readQ.ring.list = [] ∨ t'.secondary.isFull = true) := by
  induction hn : t.readQ.ring.chars using Nat.strongRecOn generalizing t with
  | ind n ih =>
    refine Depth.Ends.call ?_
    show Depth.Ends _ (fun call => copyTurn isupper call t) _
    unfold copyTurn
    by_cases hstop : (t.readQ.isEmpty || t.secondary.isFull) = true
    · simp only [if_pos hstop]
      refine .result ⟨h, ⟨[], .refl t⟩, ?_⟩
      rw [Bool.or_eq_true, TtyQueue.isEmpty_iff] at hstop
      exact hstop.imp_left t.readQ.ring.list_eq_nil
    simp only [if_neg hstop]
    rw [Bool.or_eq_true, TtyQueue.isEmpty_iff, TtyQueue.isFull_iff, not_or] at hstop
    have hc : 0 < t.readQ.ring.chars := by omega
    have hless : t.readQ.getch.ring.chars + 1 = t.readQ.ring.chars := t.readQ.ring.chars_getch hc
    -- what the rest of the loop does is added to the first byte
    have hrest {t' : Tty} (hu : Undisturbed t') (hr : t'.readQ = t.readQ.getch) (h' : Cooked isupper t [t.readQ.ring.first] t') :
        Depth.Ends (body v isupper) (fun call => call .copyToCooked t') fun t'' =>
          Undisturbed t'' ∧ (∃ bs, Cooked isupper t bs t'') ∧ (t''.readQ.ring.list = [] ∨ t''.secondary.isFull = true) := by
      refine (ih t'.readQ.ring.chars (by rw [hr]; omega) hu rfl).mono fun t'' h'' => ?_
      obtain ⟨hu'', ⟨bs, hbs⟩, hend⟩ := h''
      exact ⟨hu'', ⟨_, h'.trans hbs⟩, hend⟩
    cases hm : t.termios.mapCrNl t.readQ.ring.first with
    | none => exact hrest (h.take hc) rfl (.drop hc hm)
    | some c =>
      have hchar (hon : t.termios.echo = true) (hcon : t.isConsole = true) : t.termios.mapCase isupper c ≠ 219 :=
        (h.hush hon hcon).char hc hm
      refine Depth.Ends.bind ((cook_edits (h.take hc) hchar (show 0 < t.secondary.ring.left by omega)).mono fun t' h' => ?_)
      exact hrest h'.1 h'.2.readQ (.typed hc hm h'.2)

/-! ## The reference -/

/-- The lines that are ended, with the characters that end them, and the line that is not. -/
structure Editor where
  done : List UInt8
  line : List UInt8

namespace Editor

def text (e : Editor) : List UInt8 := e.done ++ e.line

/-- What a character does, by the control characters of `tm`; two of them count if there are to be signals. -/
def type (tm : Termios) (e : Editor) (c : UInt8) : Editor :=
  if c = tm.kill then { e with line := [] }
  else if c = tm.erase then { e with line := e.line.dropLast }
  else if c = tm.stop ∨ c = tm.start ∨ tm.isig = true ∧ (c = tm.intr ∨ c = tm.quit) then e
  else if c = 10 ∨ c = tm.eof then { done := e.done ++ e.line ++ [c], line := [] }
  else { e with line := e.line ++ [c] }

def typeAll (tm : Termios) (cs : List UInt8) : Editor := cs.foldl (type tm) ⟨[], []⟩

end Editor

/-- The control characters are such that a `signed char` can be one. -/
def Termios.plain (tm : Termios) : Prop :=
  tm.intr < 128 ∧ tm.quit < 128 ∧ tm.erase < 128 ∧ tm.kill < 128 ∧ tm.eof < 128 ∧ tm.start < 128 ∧ tm.stop < 128

instance (tm : Termios) : Decidable tm.plain := inferInstanceAs (Decidable (_ ∧ _))

theorem sameChar_iff {c cc : UInt8} (h : cc < 128) : sameChar c cc = true ↔ c = cc := by
  unfold sameChar
  rw [Bool.and_eq_true, decide_eq_true_iff, decide_eq_true_iff, and_iff_right_iff_imp]
  exact fun e => e ▸ h

theorem endsLine_iff {tm : Termios} (h : tm.plain) {c : UInt8} : tm.endsLine c = true ↔ c = 10 ∨ c = tm.eof := by
  unfold Termios.endsLine
  rw [Bool.or_eq_true, decide_eq_true_iff, sameChar_iff h.2.2.2.2.1]

/-- What is between two characters typed: a line ends with its last character. -/
structure Editor.Ok (tm : Termios) (e : Editor) : Prop where
  done : e.done = [] ∨ ∃ l c, e.done = l ++ [c] ∧ tm.endsLine c = true
  line : ∀ c ∈ e.line, tm.endsLine c = false

namespace Editor.Ok

variable {tm : Termios} {e : Editor} {c : UInt8}

theorem dropLine_append {l m : List UInt8} (hm : ∀ c ∈ m, tm.endsLine c = false) : tm.dropLine (l ++ m) = tm.dropLine l := by
  induction m using List.reverseRecOn with
  | nil => rw [List.append_nil]
  | append_singleton m c ih =>
    have hc := hm c (List.mem_append_right m List.mem_cons_self)
    rw [← List.append_assoc, dropLine_concat, hc, if_neg Bool.false_ne_true]
    exact ih fun d hd => hm d (List.mem_append_left [c] hd)

theorem dropLine (h : e.Ok tm) : tm.dropLine e.text = e.done := by
  rw [text, dropLine_append h.line]
  rcases h.done with h0 | ⟨l, c, hl, hc⟩
  · rw [h0]
    rfl
  · rw [hl, dropLine_concat, if_pos hc]

theorem eraseLast (h : e.Ok tm) : tm.eraseLast e.text = e.done ++ e.line.dropLast := by
  rcases List.eq_nil_or_concat' e.line with h0 | ⟨l, c, hl⟩
  · rw [text, h0, List.append_nil, List.dropLast_nil, List.append_nil]
    rcases h.done with h0 | ⟨l, c, hl, hc⟩
    · rw [h0]
      rfl
    · rw [hl, eraseLast_concat, if_pos hc]
  · have hc := h.line c (hl ▸ List.mem_append_right l List.mem_cons_self)
    rw [text, hl, List.dropLast_concat, ← List.append_assoc, eraseLast_concat, hc, if_neg Bool.false_ne_true]

theorem type (h : e.Ok tm) (hp : tm.plain) (c : UInt8) : (e.type tm c).Ok tm := by
  unfold Editor.type
  split
  · exact ⟨h.done, fun _ hd => absurd hd List.not_mem_nil⟩
  split
  · exact ⟨h.done, fun d hd => h.line d ((List.dropLast_sublist _).subset hd)⟩
  split
  · exact h
  split
  · exact ⟨.inr ⟨_, c, rfl, (endsLine_iff hp).2 ‹_›⟩, fun _ hd => absurd hd List.not_mem_nil⟩
  · rename_i hend
    refine ⟨h.done, fun d hd => ?_⟩
    rcases List.mem_append.1 hd with hd | hd
    · exact h.line d hd
    · rw [List.mem_singleton.1 hd, Bool.eq_false_iff]
      exact fun he => hend ((endsLine_iff hp).1 he)

/-- A character does to the text what it does to the reference. -/
theorem text_type (h : e.Ok tm) (hp : tm.plain) (hcanon : tm.icanon = true) (c : UInt8) :
    (e.type tm c).text = tm.cookText e.text c := by
  obtain ⟨hintr, hquit, herase, hkill, -, hstart, hstop⟩ := hp
  unfold Termios.cookText Editor.type
  simp only [hcanon, Bool.true_and, Bool.and_eq_true, Bool.or_eq_true, sameChar_iff hkill, sameChar_iff herase, sameChar_iff hstop,
    sameChar_iff hstart, sameChar_iff hintr, sameChar_iff hquit]
  by_cases hk : c = tm.kill
  · rw [if_pos hk, if_pos hk, h.dropLine]
    exact List.append_nil _
  rw [if_neg hk, if_neg hk]
  by_cases he : c = tm.erase
  · rw [if_pos he, if_pos he, h.eraseLast]
    rfl
  rw [if_neg he, if_neg he]
  by_cases hs : c = tm.stop ∨ c = tm.start
  · rw [if_pos hs, if_pos (hs.elim .inl fun h' => .inr (.inl h'))]
  by_cases hi : tm.isig = true ∧ (c = tm.intr ∨ c = tm.quit)
  · rw [if_neg hs, if_pos hi, if_pos (.inr (.inr hi))]
  rw [if_neg hs, if_neg hi, if_neg fun h' => h'.elim (hs ∘ .inl) fun h' => h'.elim (hs ∘ .inr) hi]
  split
  · show e.done ++ e.line ++ [c] ++ [] = _
    rw [List.append_nil]
    rfl
  · exact (List.append_assoc ..).symm

/-- And so do many. -/
theorem text_foldl (hp : tm.plain) (hcanon : tm.icanon = true) (cs : List UInt8) (h : e.Ok tm) :
    (cs.foldl (Editor.type tm) e).Ok tm ∧ (cs.foldl (Editor.type tm) e).text = cs.foldl tm.cookText e.text := by
  induction cs generalizing e with
  | nil => exact ⟨h, rfl⟩
  | cons c cs ih =>
    rw [List.foldl_cons, List.foldl_cons, ← h.text_type hp hcanon c]
    exact ih (h.type hp c)

end Editor.Ok

/-! ## Every run of input -/

/-- Bytes come in, and `copy_to_cooked` is run. -/
def Typing (t : Tty) : Op → Prop
  | .arrive _ => True
  | .interrupt _ => Undisturbed t
  | _ => False

instance (t : Tty) : (o : Op) → Decidable (Typing t o)
  | .arrive _ => isTrue trivial
  | .interrupt _ => inferInstanceAs (Decidable (Undisturbed t))
  | .put _ _ | .write _ | .transmit | .read | .setTermios _ => isFalse id

/-- What holds in between: all that has come in has been typed, or is in `read_q`. -/
structure Typed (isupper : UInt8 → Bool) (tm : Termios) (t : Tty) : Prop where
  termios : t.termios = tm
  readQ : t.readQ.Kept
  secondary : t.secondary.Kept
  text : t.secondary.ring.list = (Editor.typeAll tm (tm.mapped isupper t.readQ.taken)).text

section Typed

variable {tm : Termios} {t₀ t t' : Tty}

theorem Editor.ok_typeAll (hp : tm.plain) (hcanon : tm.icanon = true) (cs : List UInt8) :
    (Editor.typeAll tm cs).Ok tm ∧ (Editor.typeAll tm cs).text = cs.foldl tm.cookText [] :=
  Editor.Ok.text_foldl hp hcanon cs ⟨.inl rfl, fun _ h => absurd h List.not_mem_nil⟩

theorem Cooked.readKept {bs : List UInt8} (h : Cooked isupper t bs t') (hk : t.readQ.Kept) : t'.readQ.Kept where
  overrun := h.overrun.trans hk.overrun
  put := by rw [h.put, hk.put, h.input, h.eaten, List.append_assoc]

theorem Typed.cooked {bs : List UInt8} (ht : Typed isupper tm t) (hp : tm.plain) (hcanon : tm.icanon = true)
    (h : Cooked isupper t bs t') : Typed isupper tm t' where
  termios := h.termios.trans ht.termios
  readQ := h.readKept ht.readQ
  secondary := h.kept ht.secondary
  text := by
    rw [h.list, ht.text, ht.termios, (Editor.ok_typeAll hp hcanon _).2, (Editor.ok_typeAll hp hcanon _).2, h.eaten,
      mapped_append, List.foldl_append]

theorem TtyQueue.taken_putAll (q : TtyQueue) (cs : List UInt8) : (q.putAll cs).taken = q.taken := by
  induction cs generalizing q with
  | nil => rfl
  | cons c cs ih => exact ih (q.putch c)

theorem Typed.arrive (h : Typed isupper tm t) {cs : List UInt8} (hl : cs.length ≤ t.readQ.ring.left) :
    Typed isupper tm { t with readQ := t.readQ.putAll cs } := by
  refine ⟨h.termios, (h.readQ.putAll cs hl).1, h.secondary, ?_⟩
  show t.secondary.ring.list = (Editor.typeAll tm (tm.mapped isupper (t.readQ.putAll cs).taken)).text
  rw [TtyQueue.taken_putAll]
  exact h.text

theorem Typed.step {o : Op} (h : Typed isupper tm t) (hp : tm.plain) (hcanon : tm.icanon = true)
    (ho : Typing t o) (hs : step v isupper islower t o = some t') : Typed isupper tm t' := by
  cases o with
  | arrive cs =>
    cases hs
    split
    · exact h.arrive ‹_›
    · exact h
  | interrupt n =>
    obtain ⟨-, ⟨bs, hbs⟩, -⟩ := (copyToCooked_cooks ho).of_run (body_monotone v isupper) hs
    exact h.cooked hp hcanon hbs
  | put | write | transmit | read | setTermios => exact ho.elim

theorem Tty.Start.typed (h : t₀.Start) : Typed isupper t₀.termios t₀ := by
  refine ⟨rfl, h.readQ.kept, h.secondary.kept, ?_⟩
  have hempty : t₀.secondary.ring.chars = 0 := TtyQueue.isEmpty_iff.1 (decide_eq_true h.secondary.1)
  rw [t₀.secondary.ring.list_eq_nil hempty, h.readQ.2.2.1]
  rfl

/-- A line in canonical mode without echo, with this character to erase. -/
def canonLine (erase : UInt8) : Tty :=
  { serialLine with termios := { serialTermios with isig := true, icanon := true, echo := false, erase := erase } }

theorem canonLine_start (erase : UInt8) : (canonLine erase).Start := ⟨serialLine_start.readQ, serialLine_start.writeQ, serialLine_start.secondary⟩

end Typed

end Linux011.Chr
