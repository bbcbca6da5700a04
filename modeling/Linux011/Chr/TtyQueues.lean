/-
The queues of a terminal under echo.

`tty_write` looks whether there is room before it puts a character, and `copy_to_cooked` before it puts one into
`secondary`. Nobody looks before an echo is put into `write_q`, or an answer into `read_q`. On a serial line `write_q` is
only drained by the transmit interrupt; on the console every echo is followed by `con_write`, which empties it.

`Regime` is what a turn of `copy_to_cooked` needs of an invariant, whatever the echo does. There are three: no echo,
a serial line with room for all that may be echoed, and the console, with no query on its way to `con_write`.
-/
import Linux011.Chr.Tty

namespace Linux011.Chr

variable {v : Video} {isupper islower : UInt8 → Bool}

/-! ## Queues -/

namespace TtyQueue

/-- Nothing was put when it was full, and all that was put has been taken or is there. -/
structure Kept (q : TtyQueue) : Prop where
  overrun : q.overrun = false
  put : q.put = q.taken ++ q.ring.list

variable {q : TtyQueue}

theorem isFull_iff : q.isFull = true ↔ q.ring.left = 0 := decide_eq_true_iff

theorem isEmpty_iff : q.isEmpty = true ↔ q.ring.chars = 0 := by
  have hh := q.ring.head_lt
  have ht := q.ring.tail_lt
  unfold isEmpty
  rw [decide_eq_true_iff, Fifo.chars_eq]
  split <;> omega

theorem Kept.putch (h : q.Kept) (hl : 0 < q.ring.left) (c : UInt8) : (q.putch c).Kept := by
  refine ⟨?_, ?_⟩
  · show (q.overrun || q.isFull) = false
    have hf : q.isFull = false := by
      rw [Bool.eq_false_iff, Ne, isFull_iff]
      omega
    rw [h.overrun, hf]
    rfl
  · show q.put ++ [c] = q.taken ++ (q.ring.putch c).list
    rw [h.put, q.ring.list_putch c hl, List.append_assoc]

theorem Kept.getch (h : q.Kept) (hc : 0 < q.ring.chars) : q.getch.Kept := by
  refine ⟨?_, ?_⟩
  · dsimp only [TtyQueue.getch]
    exact h.overrun
  dsimp only [TtyQueue.getch]
  rw [h.put, q.ring.list_getch hc, List.append_assoc, List.singleton_append]

theorem Kept.dec (h : q.Kept) (hc : 0 < q.ring.chars) : q.dec.Kept := by
  refine ⟨?_, ?_⟩
  · dsimp only [TtyQueue.dec]
    exact h.overrun
  dsimp only [TtyQueue.dec]
  rw [h.put, q.ring.list_dec hc, ← List.append_assoc, List.dropLast_concat]

theorem left_putch (hl : 0 < q.ring.left) (c : UInt8) : (q.putch c).ring.left + 1 = q.ring.left := by
  have h₁ := q.ring.chars_add_left
  have h₂ := (q.putch c).ring.chars_add_left
  have h₃ : (q.putch c).ring.chars = q.ring.chars + 1 := q.ring.chars_putch c hl
  omega

theorem list_putAll (q : TtyQueue) (cs : List UInt8) (hl : cs.length ≤ q.ring.left) :
    (q.putAll cs).ring.left + cs.length = q.ring.left ∧ (q.putAll cs).ring.list = q.ring.list ++ cs := by
  induction cs generalizing q with
  | nil => exact ⟨rfl, (List.append_nil _).symm⟩
  | cons c cs ih =>
    rw [List.length_cons] at hl ⊢
    have hpos : 0 < q.ring.left := by omega
    have hleft := left_putch hpos c
    obtain ⟨h₁, h₂⟩ := ih (q.putch c) (by omega)
    refine ⟨?_, ?_⟩
    · show ((q.putch c).putAll cs).ring.left + _ = _
      omega
    · show ((q.putch c).putAll cs).ring.list = _
      rw [h₂]
      show (q.ring.putch c).list ++ cs = _
      rw [q.ring.list_putch c hpos, List.append_assoc, List.singleton_append]

theorem Kept.putAll (h : q.Kept) (cs : List UInt8) (hl : cs.length ≤ q.ring.left) :
    (q.putAll cs).Kept ∧ (q.putAll cs).ring.left + cs.length = q.ring.left ∧
      (q.putAll cs).ring.list = q.ring.list ++ cs := by
  refine ⟨?_, q.list_putAll cs hl⟩
  induction cs generalizing q with
  | nil => exact h
  | cons c cs ih =>
    rw [List.length_cons] at hl
    have hpos : 0 < q.ring.left := by omega
    have hleft := left_putch hpos c
    exact ih (h.putch hpos c) (by omega)

theorem left_getch (hc : 0 < q.ring.chars) : q.getch.ring.left = q.ring.left + 1 := by
  have h₁ := q.ring.chars_add_left
  have h₂ := q.getch.ring.chars_add_left
  have h₃ : q.getch.ring.chars + 1 = q.ring.chars := q.ring.chars_getch hc
  omega

theorem Fresh.kept (h : q.Fresh) : q.Kept := by
  obtain ⟨he, hp, ht, ho⟩ := h
  refine ⟨ho, ?_⟩
  have hc : q.ring.chars = 0 := by
    rw [Fifo.chars_eq, he, if_pos (Nat.le_refl _), Nat.sub_self]
  rw [hp, ht, q.ring.list_eq_nil hc]
  rfl

end TtyQueue

/-! ## The routines -/

theorem body_monotone (v : Video) (isupper : UInt8 → Bool) : Depth.Monotone (body v isupper) := by
  intro f g hfg
  have hecho : ∀ t cs, Depth.Le (echo f t cs) (echo g t cs) := by
    intro t cs
    unfold echo
    split
    · exact hfg _ _
    · exact .refl _
  have hback : ∀ t c, Depth.Le (takeBack f t c) (takeBack g t c) := fun t c => (hecho t _).bind fun _ => .refl _
  have hcook : ∀ t c, Depth.Le (cook f t c) (cook g t c) := by
    intro t c
    unfold cook
    dsimp only
    split
    · exact hfg _ _
    split
    · split
      · exact .refl _
      · exact hback _ _
    split
    · exact .refl _
    split
    · exact .refl _
    · exact (hecho _ _).bind fun _ => .refl _
  intro c t
  unfold body
  split
  · unfold copyTurn
    split
    · exact .refl _
    · dsimp only
      split
      · exact hfg _ _
      · exact (hcook _ _).bind fun _ => hfg _ _
  · unfold killTurn
    split
    · exact .refl _
    · exact (hback _ _).bind fun _ => hfg _ _
  · split
    · exact hfg _ _
    · exact .refl _
  · exact .refl _
  · unfold conTurn
    dsimp only
    split
    · exact (hfg _ _).bind fun _ => hfg _ _
    · exact hfg _ _

/-- All three queues. -/
structure Tty.Good (t : Tty) : Prop where
  readQ : t.readQ.Kept
  writeQ : t.writeQ.Kept
  secondary : t.secondary.Kept

theorem Tty.Start.good {t : Tty} (h : t.Start) : t.Good := ⟨h.readQ.kept, h.writeQ.kept, h.secondary.kept⟩

/-- What a turn of `copy_to_cooked` needs: `I` between the turns, and `K` for a character that has been taken. -/
structure Regime (v : Video) (isupper : UInt8 → Bool) (I : Tty → Prop) (K : Tty → UInt8 → Prop) : Prop where
  /-- a carriage return is dropped -/
  drop : ∀ {t}, I t → 0 < t.readQ.ring.chars → I { t with readQ := t.readQ.getch }
  take : ∀ {t c}, I t → 0 < t.readQ.ring.chars → 0 < t.secondary.ring.left →
    t.termios.mapCrNl t.readQ.ring.first = some c →
    K { t with readQ := t.readQ.getch } (t.termios.mapCase isupper c)
  keep : ∀ {t c}, K t c → I t
  back : ∀ {t c}, I t → t.erasable = some c → Depth.Ends (body v isupper) (fun call => echo call t (ruboutOf c)) fun t' =>
    t'.readQ = t.readQ ∧ t'.secondary = t.secondary ∧ I { t' with secondary := t'.secondary.dec }
  own : ∀ {t c}, K t c → Depth.Ends (body v isupper) (fun call => echo call (t.countUp c) (t.termios.echoOf c)) fun t' =>
    t'.readQ = t.readQ ∧ I { t' with secondary := t'.secondary.putch c }

namespace Regime

variable {I : Tty → Prop} {K : Tty → UInt8 → Prop}

theorem erasable_pos {t : Tty} {c : UInt8} (h : t.erasable = some c) : 0 < t.secondary.ring.chars := by
  unfold Tty.erasable at h
  split at h
  · cases h
  · rename_i he
    rw [TtyQueue.isEmpty_iff] at he
    omega

theorem takeBack (hR : Regime v isupper I K) {t : Tty} {c : UInt8} (h : I t) (he : t.erasable = some c) :
    Depth.Ends (body v isupper) (fun call => takeBack call t c) fun t' =>
      I t' ∧ t'.readQ = t.readQ ∧ t'.secondary.ring.chars + 1 = t.secondary.ring.chars := by
  have hc := erasable_pos he
  refine Depth.Ends.bind ((hR.back h he).mono fun t' h' => .result ?_)
  obtain ⟨hr, hs, hI⟩ := h'
  refine ⟨hI, hr, ?_⟩
  show t'.secondary.ring.dec.chars + 1 = _
  rw [hs]
  exact t.secondary.ring.chars_dec hc

/-- The loop ends: `secondary` gets shorter. -/
theorem killLine (hR : Regime v isupper I K) {t : Tty} (h : I t) :
    Depth.Ends (body v isupper) (fun call => call .killLine t) fun t' => I t' ∧ t'.readQ = t.readQ := by
  induction hn : t.secondary.ring.chars using Nat.strongRecOn generalizing t with
  | ind n ih =>
    refine Depth.Ends.call ?_
    show Depth.Ends _ (fun call => killTurn call t) _
    unfold killTurn
    cases he : t.erasable with
    | none => exact .result ⟨h, rfl⟩
    | some c =>
      refine Depth.Ends.bind ((hR.takeBack h he).mono fun t' h' => ?_)
      obtain ⟨hI, hr, hs⟩ := h'
      refine (ih t'.secondary.ring.chars (by omega) hI rfl).mono fun t'' h'' => ?_
      exact ⟨h''.1, h''.2.trans hr⟩

theorem cook (hR : Regime v isupper I K) {t : Tty} {c : UInt8} (h : K t c) :
    Depth.Ends (body v isupper) (fun call => cook call t c) fun t' => I t' ∧ t'.readQ = t.readQ := by
  have hI := hR.keep h
  unfold Chr.cook
  dsimp only
  split
  · exact hR.killLine hI
  split
  · cases he : t.erasable with
    | none => exact .result ⟨hI, rfl⟩
    | some c => exact (hR.takeBack hI he).mono fun t' h' => ⟨h'.1, h'.2.1⟩
  split
  · exact .result ⟨hI, rfl⟩
  split
  · exact .result ⟨hI, rfl⟩
  · exact Depth.Ends.bind ((hR.own h).mono fun t' h' => .result ⟨h'.2, h'.1⟩)

/-- The loop ends: `read_q` gets shorter. -/
theorem copyToCooked (hR : Regime v isupper I K) {t : Tty} (h : I t) :
    Depth.Ends (body v isupper) (fun call => call .copyToCooked t) I := by
  induction hn : t.readQ.ring.chars using Nat.strongRecOn generalizing t with
  | ind n ih =>
    refine Depth.Ends.call ?_
    show Depth.Ends _ (fun call => copyTurn isupper call t) _
    unfold copyTurn
    by_cases hstop : (t.readQ.isEmpty || t.secondary.isFull) = true
    · simp only [if_pos hstop]
      exact .result h
    simp only [if_neg hstop]
    rw [Bool.or_eq_true, TtyQueue.isEmpty_iff, TtyQueue.isFull_iff, not_or] at hstop
    have hc : 0 < t.readQ.ring.chars := by omega
    have hless : t.readQ.getch.ring.chars + 1 = t.readQ.ring.chars := t.readQ.ring.chars_getch hc
    cases hm : t.termios.mapCrNl t.readQ.ring.first with
    | none =>
      refine ih t.readQ.getch.ring.chars ?_ (hR.drop h hc) rfl
      omega
    | some c =>
      refine Depth.Ends.bind ((hR.cook (hR.take h hc (by omega) hm)).mono fun t' h' => ?_)
      obtain ⟨hI, hr⟩ := h'
      refine ih t'.readQ.ring.chars ?_ hI rfl
      rw [hr]
      dsimp only
      omega

end Regime

theorem ruboutOf_length (c : UInt8) : (ruboutOf c).length ≤ 2 := by
  unfold ruboutOf
  split <;> decide

theorem Termios.echoOf_length (tm : Termios) (c : UInt8) : (tm.echoOf c).length ≤ 2 := by
  unfold Termios.echoOf
  split
  · exact Nat.le_refl 2
  split
  · split
    · exact Nat.le_refl 2
    · exact Nat.zero_le 2
  · exact Nat.le_succ 1

/-! ## Without echo -/

/-- What `copy_to_cooked` leaves alone if there is no echo; in `read_q` there is no less room. -/
structure NoEcho (t₀ t : Tty) : Prop where
  good : t.Good
  off : t.termios.echo = false
  writeQ : t.writeQ = t₀.writeQ
  con : t.con = t₀.con
  termios : t.termios = t₀.termios
  isConsole : t.isConsole = t₀.isConsole
  left : t₀.readQ.ring.left ≤ t.readQ.ring.left

theorem echo_off {t : Tty} (h : t.termios.echo = false) (call : Call → Tty → Option Tty) (cs : List UInt8) :
    echo call t cs = some t := by
  unfold echo
  rw [h]
  rfl

theorem NoEcho.regime (v : Video) (isupper : UInt8 → Bool) (t₀ : Tty) :
    Regime v isupper (NoEcho t₀) fun t _ => NoEcho t₀ t ∧ 0 < t.secondary.ring.left where
  drop h hc := by
    refine ⟨⟨h.good.readQ.getch hc, h.good.writeQ, h.good.secondary⟩, h.off, h.writeQ, h.con, h.termios, h.isConsole, ?_⟩
    have := h.left
    have := TtyQueue.left_getch hc
    dsimp only
    omega
  take h hc hs _ := by
    refine ⟨⟨⟨h.good.readQ.getch hc, h.good.writeQ, h.good.secondary⟩, h.off, h.writeQ, h.con, h.termios, h.isConsole, ?_⟩,
      hs⟩
    have := h.left
    have := TtyQueue.left_getch hc
    dsimp only
    omega
  keep h := h.1
  back h he := by
    simp only [echo_off h.off]
    exact .result ⟨rfl, rfl, ⟨h.good.readQ, h.good.writeQ, h.good.secondary.dec (Regime.erasable_pos he)⟩, h.off, h.writeQ,
      h.con, h.termios, h.isConsole, h.left⟩
  own h := by
    obtain ⟨h, hs⟩ := h
    rename_i t c
    simp only [echo_off (t := t.countUp c) h.off]
    exact .result ⟨rfl, ⟨h.good.readQ, h.good.writeQ, h.good.secondary.putch hs _⟩, h.off, h.writeQ, h.con, h.termios,
      h.isConsole, h.left⟩

/-! ## A serial line -/

/-- Each character in `read_q` may be echoed as two, and taken back as two; each one in `secondary` taken back. -/
structure Roomy (t : Tty) (spare : Nat) : Prop where
  good : t.Good
  on : t.termios.echo = true
  serial : t.isConsole = false
  room : 4 * t.readQ.ring.chars + 2 * t.secondary.ring.chars + spare ≤ t.writeQ.ring.left

theorem echo_serial {t : Tty} (hon : t.termios.echo = true) (hs : t.isConsole = false) (cs : List UInt8) {P : Tty → Prop}
    (h : P { t with writeQ := t.writeQ.putAll cs }) : Depth.Ends (body v isupper) (fun call => echo call t cs) P := by
  unfold echo
  simp only [if_pos hon]
  have hs' : ¬ t.isConsole = true := by
    rw [hs]
    exact Bool.false_ne_true
  refine Depth.Ends.call ?_
  simp only [body, if_neg hs']
  exact .result h

theorem Roomy.take {t : Tty} {k : Nat} (h : Roomy t k) (hc : 0 < t.readQ.ring.chars) :
    Roomy { t with readQ := t.readQ.getch } (k + 4) := by
  refine ⟨⟨h.good.readQ.getch hc, h.good.writeQ, h.good.secondary⟩, h.on, h.serial, ?_⟩
  have hr := h.room
  have hless : t.readQ.getch.ring.chars + 1 = t.readQ.ring.chars := t.readQ.ring.chars_getch hc
  dsimp only
  omega

theorem Roomy.weaken {t : Tty} {k j : Nat} (h : Roomy t k) (hj : j ≤ k) : Roomy t j :=
  ⟨h.good, h.on, h.serial, by have := h.room; omega⟩

theorem Roomy.regime (v : Video) (isupper : UInt8 → Bool) :
    Regime v isupper (fun t => Roomy t 0) fun t _ => Roomy t 4 ∧ 0 < t.secondary.ring.left where
  drop h hc := (h.take hc).weaken (Nat.zero_le _)
  take h hc hs _ := ⟨h.take hc, hs⟩
  keep h := h.1.weaken (Nat.zero_le _)
  back := by
    intro t c h he
    have hc := Regime.erasable_pos he
    have hr := h.room
    have hlen := ruboutOf_length c
    obtain ⟨hk, hl, -⟩ := h.good.writeQ.putAll (ruboutOf c) (by omega)
    have hless : t.secondary.dec.ring.chars + 1 = t.secondary.ring.chars := t.secondary.ring.chars_dec hc
    refine echo_serial h.on h.serial _ ⟨rfl, rfl, ⟨h.good.readQ, hk, h.good.secondary.dec hc⟩, h.on, h.serial, ?_⟩
    dsimp only
    omega
  own := by
    intro t c h
    obtain ⟨h, hs⟩ := h
    have hr := h.room
    have hlen := t.termios.echoOf_length c
    obtain ⟨hk, hl, -⟩ := h.good.writeQ.putAll (t.termios.echoOf c) (by omega)
    have hmore : (t.secondary.putch c).ring.chars = t.secondary.ring.chars + 1 := t.secondary.ring.chars_putch c hs
    refine echo_serial (t := t.countUp c) h.on h.serial _ ⟨rfl, ⟨h.good.readQ, hk, h.good.secondary.putch hs c⟩, h.on, h.serial, ?_⟩
    dsimp only [Tty.countUp]
    omega

/-! ## The console -/

/-- How many queries there are among bytes for `con_write`; `e` says whether an escape came before. -/
def queries : Bool → List UInt8 → Nat
  | _, [] => 0
  | e, c :: cs => (if e && c = 90 then 1 else 0) + queries (c = 27) cs

theorem queries_false_le (e : Bool) (cs : List UInt8) : queries false cs ≤ queries e cs := by
  cases cs with
  | nil => exact Nat.le_refl _
  | cons c cs =>
    unfold queries
    rw [Bool.false_and, if_neg Bool.false_ne_true]
    omega

/-- After a byte other than an escape, and a Z before or not. -/
theorem queries_put {e : Bool} {cs : List UInt8} {c : UInt8} (h : queries e (cs ++ [90]) = 0) (hc : c ≠ 27) :
    queries e (cs ++ [c] ++ [90]) = 0 := by
  induction cs generalizing e with
  | nil =>
    simp only [List.nil_append, List.singleton_append, queries] at h ⊢
    simp_all
  | cons d cs ih =>
    simp only [List.cons_append, queries, Nat.add_eq_zero_iff] at h ⊢
    exact ⟨h.1, ih h.2⟩

theorem queries_putAll {e : Bool} {cs ds : List UInt8} (h : queries e (cs ++ [90]) = 0) (hd : ∀ d ∈ ds, d ≠ 27) :
    queries e (cs ++ ds ++ [90]) = 0 := by
  induction ds generalizing cs with
  | nil => rwa [List.append_nil]
  | cons d ds ih =>
    have h' := ih (queries_put h (hd d List.mem_cons_self)) fun x hx => hd x (List.mem_cons_of_mem _ hx)
    rwa [List.append_assoc cs, List.singleton_append] at h'

/-- An escape has been seen, and its sequence not yet begun. -/
def Tty.escaped (t : Tty) : Bool := t.con.state = .escape

/-- The queries in `write_q`, with the bytes `cs` after it. -/
def Tty.queries (t : Tty) (cs : List UInt8) : Nat := Chr.queries t.escaped (t.writeQ.ring.list ++ cs)

/-- The terminal after `con_write` has taken a character. -/
def Tty.shown (v : Video) (t : Tty) : Tty :=
  { t with writeQ := t.writeQ.getch, con := conChar v t.termios.erase.toNat t.con t.writeQ.ring.first }

/-- A character is taken: if it asks, that was one query. -/
theorem Tty.queries_shown (v : Video) {t : Tty} (hc : 0 < t.writeQ.ring.chars) (cs : List UInt8) :
    (if t.asks t.writeQ.ring.first then 1 else 0) + (t.shown v).queries cs ≤ t.queries cs := by
  have hle : (t.shown v).queries cs ≤ Chr.queries (t.writeQ.ring.first = 27) (t.writeQ.ring.getch.list ++ cs) := by
    show Chr.queries (t.shown v).escaped (t.writeQ.ring.getch.list ++ cs) ≤ _
    cases he : (t.shown v).escaped with
    | false => exact queries_false_le _ _
    | true =>
      have hs : (t.shown v).con.state = .escape := of_decide_eq_true he
      have hd := decide_eq_true (eq_escape_of_conChar _ _ _ hs)
      exact Nat.le_of_eq (congrArg (fun e => Chr.queries e _) hd.symm)
  have heq : t.queries cs = (if t.asks t.writeQ.ring.first then 1 else 0) +
      Chr.queries (t.writeQ.ring.first = 27) (t.writeQ.ring.getch.list ++ cs) := by
    unfold Tty.queries
    rw [t.writeQ.ring.list_getch hc, List.cons_append, Chr.queries]
    rfl
  rw [heq]
  exact Nat.add_le_add_left hle _

theorem Tty.Good.shown {t : Tty} (h : t.Good) (hc : 0 < t.writeQ.ring.chars) : (t.shown v).Good :=
  ⟨h.readQ, h.writeQ.getch hc, h.secondary⟩

/-- `con_write` with no query in sight: it empties `write_q`, and touches nothing else but the screen. -/
structure Shown (t₀ t : Tty) (cs : List UInt8) : Prop where
  kept : t₀.writeQ.Kept → t.writeQ.Kept
  empty : t.writeQ.ring.chars = 0
  quiet : t.queries cs = 0
  readQ : t.readQ = t₀.readQ
  secondary : t.secondary = t₀.secondary
  termios : t.termios = t₀.termios
  isConsole : t.isConsole = t₀.isConsole
  data : t.data = t₀.data

theorem Shown.good {t₀ t : Tty} {cs : List UInt8} (h : Shown t₀ t cs) (hg : t₀.Good) : t.Good :=
  ⟨h.readQ ▸ hg.readQ, h.kept hg.writeQ, h.secondary ▸ hg.secondary⟩

theorem conWrite_quiet {t : Tty} {cs : List UInt8} (hq : t.queries cs = 0) :
    Depth.Ends (body v isupper) (fun call => call (.conWrite t.writeQ.ring.chars) t) fun t' => Shown t t' cs := by
  induction hn : t.writeQ.ring.chars generalizing t with
  | zero =>
    refine Depth.Ends.call ?_
    exact .result ⟨id, hn, hq, rfl, rfl, rfl, rfl, rfl⟩
  | succ n ih =>
    have hc : 0 < t.writeQ.ring.chars := by omega
    have hless : (t.shown v).writeQ.ring.chars + 1 = t.writeQ.ring.chars := t.writeQ.ring.chars_getch hc
    have hle := t.queries_shown v hc cs
    have hask : ¬ t.asks t.writeQ.ring.first = true := by
      intro ha
      rw [if_pos ha] at hle
      omega
    refine Depth.Ends.call ?_
    simp only [body, conTurn, if_neg hask]
    refine (ih (t := t.shown v) (by omega) (by omega)).mono fun t' h' => ?_
    exact ⟨fun hk => h'.kept (hk.getch hc), h'.empty, h'.quiet, h'.readQ, h'.secondary, h'.termios, h'.isConsole, h'.data⟩

/-- With an echo on the console: room for the echo of one character; no query in `write_q`, not even if a Z came next;
and no byte in `read_q` that would be echoed as an escape, or as one after `tolower`. -/
structure Hush (t : Tty) : Prop where
  on : t.termios.echo = true
  console : t.isConsole = true
  left : 2 ≤ t.writeQ.ring.left
  quiet : t.queries [90] = 0
  bytes : ∀ c ∈ t.readQ.ring.list, c ≠ 219 ∧ c ≠ 187

theorem Hush.echo {t : Tty} (h : Hush t) {cs : List UInt8} (hlen : cs.length ≤ 2) (hcs : ∀ c ∈ cs, c ≠ 27) :
    Depth.Ends (body v isupper) (fun call => echo call t cs) fun t' => Shown t t' [90] := by
  have hleft := h.left
  obtain ⟨-, hlist⟩ := t.writeQ.list_putAll cs (by omega)
  have hq : ({ t with writeQ := t.writeQ.putAll cs } : Tty).queries [90] = 0 := by
    show Chr.queries t.escaped ((t.writeQ.putAll cs).ring.list ++ [90]) = 0
    rw [hlist]
    exact queries_putAll h.quiet hcs
  unfold Chr.echo
  simp only [if_pos h.on]
  refine Depth.Ends.call ?_
  simp only [body, if_pos h.console]
  refine (conWrite_quiet hq).mono fun t' h' => ?_
  exact ⟨fun hk => h'.kept (hk.putAll cs (by omega)).1, h'.empty, h'.quiet, h'.readQ, h'.secondary, h'.termios, h'.isConsole, h'.data⟩

/-- Whatever happens to `secondary` afterwards. -/
theorem Shown.hush {t t' : Tty} (h : Hush t) (h' : Shown t t' [90]) (q : TtyQueue) : Hush { t' with secondary := q } := by
  refine ⟨h'.termios ▸ h.on, h'.isConsole ▸ h.console, ?_, h'.quiet, h'.readQ ▸ h.bytes⟩
  have := h'.empty
  have := t'.writeQ.ring.chars_add_left
  dsimp only
  omega

theorem Hush.take {t : Tty} (h : Hush t) (hc : 0 < t.readQ.ring.chars) : Hush { t with readQ := t.readQ.getch } := by
  refine ⟨h.on, h.console, h.left, h.quiet, fun c hm => h.bytes c ?_⟩
  rw [t.readQ.ring.list_getch hc]
  exact List.mem_cons_of_mem _ hm

/-- The same with nothing lost in the queues. -/
structure Calm (t : Tty) : Prop extends Hush t where
  good : t.Good

theorem ruboutOf_ne (c : UInt8) : ∀ d ∈ ruboutOf c, d ≠ 27 := by
  unfold ruboutOf
  intro d hd
  have he : d = 127 := by
    split at hd
    · rwa [List.mem_cons, List.mem_singleton, or_self] at hd
    · rwa [List.mem_singleton] at hd
  rw [he]
  decide

theorem eq_of_add_64 {c : UInt8} (h : c + 64 = 27) : c = 219 := by
  have h' := congrArg UInt8.toNat h
  have hlt := c.toNat_lt
  rw [UInt8.toNat_add] at h'
  change (c.toNat + 64) % 256 = 27 at h'
  refine UInt8.toNat_inj.1 ?_
  show c.toNat = 219
  omega

theorem eq_of_add_32 {c : UInt8} (h : c + 32 = 219) : c = 187 := by
  have h' := congrArg UInt8.toNat h
  have hlt := c.toNat_lt
  rw [UInt8.toNat_add] at h'
  change (c.toNat + 32) % 256 = 219 at h'
  refine UInt8.toNat_inj.1 ?_
  show c.toNat = 187
  omega

theorem Termios.echoOf_ne (tm : Termios) {c : UInt8} (hc : c ≠ 219) : ∀ d ∈ tm.echoOf c, d ≠ 27 := by
  unfold Termios.echoOf
  intro d hd
  split at hd
  · rw [List.mem_cons, List.mem_singleton] at hd
    rcases hd with rfl | rfl <;> decide
  split at hd
  · split at hd
    · rw [List.mem_cons, List.mem_singleton] at hd
      rcases hd with rfl | rfl
      · decide
      · exact fun e => hc (eq_of_add_64 e)
    · cases hd
  · rename_i hctl
    rw [List.mem_singleton] at hd
    subst hd
    intro e
    exact hctl (e ▸ rfl)

/-- What `copy_to_cooked` makes of a byte is echoed without an escape. -/
theorem mapCase_ne (isupper : UInt8 → Bool) {tm : Termios} {c d : UInt8} (hc : c ≠ 219 ∧ c ≠ 187)
    (hd : tm.mapCrNl c = some d) : tm.mapCase isupper d ≠ 219 := by
  have hd' : d = 10 ∨ d = 13 ∨ d = c := by
    unfold Termios.mapCrNl at hd
    split at hd
    · split at hd
      · exact .inl (Option.some.inj hd).symm
      · split at hd
        · cases hd
        · exact .inr (.inl (Option.some.inj hd).symm)
    · split at hd
      · exact .inr (.inl (Option.some.inj hd).symm)
      · exact .inr (.inr (Option.some.inj hd).symm)
  have hne : d ≠ 219 ∧ d ≠ 187 := by
    rcases hd' with rfl | rfl | rfl
    · decide
    · decide
    · exact hc
  unfold Termios.mapCase tolower
  split
  · split
    · exact fun e => hne.2 (eq_of_add_32 e)
    · exact hne.1
  · exact hne.1

/-- The character that is taken next is not echoed as an escape. -/
theorem Hush.char {t : Tty} {c : UInt8} (h : Hush t) (hc : 0 < t.readQ.ring.chars) (hm : t.termios.mapCrNl t.readQ.ring.first = some c) :
    t.termios.mapCase isupper c ≠ 219 := by
  refine mapCase_ne isupper (h.bytes _ ?_) hm
  rw [t.readQ.ring.list_getch hc]
  exact List.mem_cons_self

theorem Calm.take {t : Tty} (h : Calm t) (hc : 0 < t.readQ.ring.chars) : Calm { t with readQ := t.readQ.getch } :=
  ⟨h.toHush.take hc, h.good.readQ.getch hc, h.good.writeQ, h.good.secondary⟩

theorem Calm.regime (v : Video) (isupper : UInt8 → Bool) :
    Regime v isupper Calm fun t c => Calm t ∧ 0 < t.secondary.ring.left ∧ c ≠ 219 where
  drop h hc := h.take hc
  take h hc hs hm := ⟨h.take hc, hs, h.char hc hm⟩
  keep h := h.1
  back := by
    intro t c h he
    have hc := Regime.erasable_pos he
    refine (h.echo (ruboutOf_length c) (ruboutOf_ne c)).mono fun t' h' => ?_
    refine ⟨h'.readQ, h'.secondary, h'.hush h.toHush _, (h'.good h.good).readQ, (h'.good h.good).writeQ, ?_⟩
    exact (h'.good h.good).secondary.dec (h'.secondary ▸ hc)
  own := by
    intro t c h
    obtain ⟨h, hs, hc⟩ := h
    have hush : Hush (t.countUp c) := ⟨h.on, h.console, h.left, h.quiet, h.bytes⟩
    have hg : (t.countUp c).Good := ⟨h.good.readQ, h.good.writeQ, h.good.secondary⟩
    refine (hush.echo (t.termios.echoOf_length c) (t.termios.echoOf_ne hc)).mono fun t' h' => ?_
    refine ⟨h'.readQ, h'.hush hush _, (h'.good hg).readQ, (h'.good hg).writeQ, ?_⟩
    exact (h'.good hg).secondary.putch (h'.secondary ▸ hs) c

/-- `con_write` without echo: it answers every query. -/
theorem conWrite_answers {t : Tty} (hg : t.Good) (hoff : t.termios.echo = false)
    (hroom : 7 * t.queries [] ≤ t.readQ.ring.left) :
    Depth.Ends (body v isupper) (fun call => call (.conWrite t.writeQ.ring.chars) t) Tty.Good := by
  induction hn : t.writeQ.ring.chars generalizing t with
  | zero =>
    refine Depth.Ends.call ?_
    exact .result hg
  | succ n ih =>
    have hc : 0 < t.writeQ.ring.chars := by omega
    have hless : (t.shown v).writeQ.ring.chars + 1 = t.writeQ.ring.chars := t.writeQ.ring.chars_getch hc
    have hle := t.queries_shown v hc []
    refine Depth.Ends.call ?_
    simp only [body, conTurn]
    by_cases hask : t.asks t.writeQ.ring.first = true
    · rw [if_pos hask] at hle
      simp only [if_pos hask]
      obtain ⟨hk, hl, -⟩ := hg.readQ.putAll response (by show 7 ≤ _; omega)
      have hlen : response.length = 7 := rfl
      let t₁ : Tty := { t.shown v with readQ := t.readQ.putAll response }
      have h₁ : NoEcho t₁ t₁ := ⟨⟨hk, (hg.shown (v := v) hc).writeQ, hg.secondary⟩, hoff, rfl, rfl, rfl, rfl, Nat.le_refl _⟩
      refine Depth.Ends.bind (((NoEcho.regime v isupper t₁).copyToCooked h₁).mono fun t' h' => ?_)
      have hw : t'.writeQ = (t.shown v).writeQ := h'.writeQ
      have hq : t'.queries [] = (t.shown v).queries [] := by
        unfold Tty.queries Tty.escaped
        rw [hw, h'.con]
      have hleft : (t.readQ.putAll response).ring.left ≤ t'.readQ.ring.left := h'.left
      refine ih h'.good h'.off ?_ ?_
      · rw [hq]
        omega
      · rw [hw]
        omega
    · rw [if_neg hask] at hle
      simp only [if_neg hask]
      refine ih (hg.shown hc) hoff ?_ (show (t.shown v).writeQ.ring.chars = n by omega)
      show 7 * (t.shown v).queries [] ≤ t.readQ.ring.left
      omega

/-! ## Every run -/

/-- Before `do_tty_interrupt`: no echo; or on a serial line, four places in `write_q` for each character in `read_q` and
two for each in `secondary`; or on the console two places, no query in `write_q` or begun there, and no byte in `read_q`
that is echoed as an escape. Before `con_write`: with an echo, no query in `write_q`; without, seven places in `read_q` for
each. -/
def Enough (t : Tty) : Op → Prop
  | .interrupt _ =>
    if t.termios.echo then
      if t.isConsole then
        2 ≤ t.writeQ.ring.left ∧ t.queries [90] = 0 ∧ ∀ c ∈ t.readQ.ring.list, c ≠ 219 ∧ c ≠ 187
      else 4 * t.readQ.ring.chars + 2 * t.secondary.ring.chars ≤ t.writeQ.ring.left
    else True
  | .write _ =>
    if t.isConsole then
      if t.termios.echo then t.queries [] = 0 else 7 * t.queries [] ≤ t.readQ.ring.left
    else True
  | _ => True

/-- `copy_to_cooked` comes back. -/
theorem interrupt_ends {t : Tty} (hg : t.Good) {n : Nat} (he : Enough t (.interrupt n)) :
    Depth.Ends (body v isupper) (fun call => call .copyToCooked t) Tty.Good := by
  simp only [Enough] at he
  split at he
  · rename_i hon
    split at he
    · rename_i hcon
      obtain ⟨hleft, hq, hb⟩ := he
      exact ((Calm.regime v isupper).copyToCooked ⟨⟨hon, hcon, hleft, hq, hb⟩, hg⟩).mono fun _ h => h.good
    · rename_i hser
      refine ((Roomy.regime v isupper).copyToCooked ⟨hg, hon, Bool.eq_false_iff.2 hser, ?_⟩).mono fun _ h => h.good
      exact he
  · rename_i hoff
    exact ((NoEcho.regime v isupper t).copyToCooked
      ⟨hg, Bool.eq_false_iff.2 hoff, rfl, rfl, rfl, rfl, Nat.le_refl _⟩).mono fun _ h => h.good

/-- `tty->write` comes back. -/
theorem write_ends {t : Tty} (hg : t.Good) {n : Nat} (he : Enough t (.write n)) :
    Depth.Ends (body v isupper) (fun call => call .write t) Tty.Good := by
  refine Depth.Ends.call ?_
  simp only [Enough] at he
  split at he
  · rename_i hcon
    simp only [body, if_pos hcon]
    split at he
    · exact (conWrite_quiet he).mono fun _ h => h.good hg
    · rename_i hoff
      exact conWrite_answers hg (Bool.eq_false_iff.2 hoff) he
  · rename_i hser
    simp only [body, if_neg hser]
    exact .result hg

theorem good_step {t t' : Tty} {o : Op} (hg : t.Good) (he : Enough t o) (hs : step v isupper islower t o = some t') :
    t'.Good := by
  cases o with
  | arrive cs =>
    cases hs
    split
    · exact ⟨(hg.readQ.putAll cs ‹_›).1, hg.writeQ, hg.secondary⟩
    · exact hg
  | interrupt n => exact (interrupt_ends hg he).of_run (body_monotone v isupper) hs
  | put c crFlag =>
    simp only [step] at hs
    split at hs
    · cases hs
    · rename_i hf
      cases hs
      rw [TtyQueue.isFull_iff] at hf
      exact ⟨hg.readQ, hg.writeQ.putch (Nat.pos_of_ne_zero hf) _, hg.secondary⟩
  | write n => exact (write_ends hg he).of_run (body_monotone v isupper) hs
  | transmit =>
    simp only [step] at hs
    split at hs
    · cases hs
    · cases hs
      split
      · exact hg
      · rename_i hne
        rw [TtyQueue.isEmpty_iff] at hne
        exact ⟨hg.readQ, hg.writeQ.getch (Nat.pos_of_ne_zero hne), hg.secondary⟩
  | read =>
    simp only [step] at hs
    split at hs
    · cases hs
    · rename_i hne
      cases hs
      rw [TtyQueue.isEmpty_iff] at hne
      exact ⟨hg.readQ, hg.writeQ, hg.secondary.getch (Nat.pos_of_ne_zero hne)⟩
  | setTermios tm =>
    cases hs
    exact ⟨hg.readQ, hg.writeQ, hg.secondary⟩

def emptyQueue : TtyQueue := ⟨⟨fun _ => 0, 0, 0, Nat.zero_lt_succ _, Nat.zero_lt_succ _⟩, [], [], false⟩

/-- `ECHO`, and `INIT_C_CC`. -/
def serialTermios : Termios :=
  ⟨false, false, false, false, false, false, false, false, false, false, false, true, false, 3, 28, 127, 21, 4, 17, 19⟩

def smallDisplay : Video := ⟨.mda, 80, by decide⟩

/-- As it starts. -/
def serialLine : Tty := ⟨false, serialTermios, emptyQueue, emptyQueue, emptyQueue, conStart smallDisplay 0 0 fun _ => 0, 0⟩

theorem serialLine_start : serialLine.Start := by
  have h : emptyQueue.Fresh := ⟨rfl, rfl, rfl, rfl⟩
  exact ⟨h, h, h⟩

/-- The line with these queues. -/
def serialWith (r w q : TtyQueue) : Tty := { serialLine with readQ := r, writeQ := w, secondary := q }

theorem serial_arrive (w : TtyQueue) :
    step smallDisplay (fun _ => false) (fun _ => false) (serialWith emptyQueue w emptyQueue) (.arrive [97]) =
      some (serialWith (emptyQueue.putch 97) w emptyQueue) := by
  have hl : [(97 : UInt8)].length ≤ emptyQueue.ring.left := by decide
  show some (if [(97 : UInt8)].length ≤ emptyQueue.ring.left then _ else _) = _
  rw [if_pos hl]
  rfl

/-- A typed character is echoed, whatever is in `write_q`. -/
theorem serial_echo (w : TtyQueue) :
    step smallDisplay (fun _ => false) (fun _ => false) (serialWith (emptyQueue.putch 97) w emptyQueue) (.interrupt 3) =
      some (serialWith (emptyQueue.putch 97).getch (w.putch 97) (emptyQueue.putch 97)) := by
  have h₁ : (emptyQueue.putch 97).isEmpty = false := by decide
  have h₂ : emptyQueue.isFull = false := by decide
  have h₃ : (emptyQueue.putch 97).ring.first = 97 := by decide
  have h₄ : (emptyQueue.putch 97).getch.isEmpty = true := by decide
  simp only [step, Depth.run, body, copyTurn, serialWith, serialLine, h₁, h₂, h₃, h₄, cook, echo, Bool.or_self]
  rfl

/-- The echo is sent. -/
theorem serial_transmit :
    step smallDisplay (fun _ => false) (fun _ => false)
        (serialWith (emptyQueue.putch 97).getch (emptyQueue.putch 97) (emptyQueue.putch 97)) .transmit =
      some (serialWith (emptyQueue.putch 97).getch (emptyQueue.putch 97).getch (emptyQueue.putch 97)) := by
  have hne : ¬ (emptyQueue.putch 97).isEmpty = true := by decide
  show some (if (emptyQueue.putch 97).isEmpty = true then _ else _) = _
  rw [if_neg hne]
  rfl

/-- `tty_write` fills `write_q`. -/
theorem reaches_filled (n : Nat) (hn : n ≤ 1023) :
    ∃ w : TtyQueue, w.ring.chars = n ∧ w.put.length = n ∧ w.taken = [] ∧
      Run.Reaches (Run.Fires (step smallDisplay (fun _ => false) fun _ => false)) serialLine (serialWith emptyQueue w emptyQueue) := by
  induction n with
  | zero => exact ⟨emptyQueue, rfl, rfl, rfl, Run.Reaches.refl⟩
  | succ n ih =>
    obtain ⟨w, hw, hp, ht, hr⟩ := ih (by omega)
    have hl := w.ring.chars_add_left
    refine ⟨w.putch 97, ?_, ?_, ht, hr.snoc (o := .put 97 false) ?_⟩
    · rw [← hw]
      exact w.ring.chars_putch 97 (by omega)
    · show (w.put ++ [97]).length = n + 1
      rw [List.length_append, hp]
      rfl
    · have hf : ¬ (serialWith emptyQueue w emptyQueue).writeQ.isFull = true := by
        rw [TtyQueue.isFull_iff]
        show ¬ w.ring.left = 0
        omega
      show step smallDisplay _ _ _ (.put 97 false) = _
      simp only [step, if_neg hf]
      rfl

end Linux011.Chr
