/-
`con_write` and its queue.

It counts the characters in `write_q` once and takes that many. A query makes it answer into `read_q` and call
`copy_to_cooked`, whose echo calls `con_write` again: the inner one empties `write_q`, and the outer one goes on with its
count. If the query was the last character, or nothing is echoed, each character is taken once.

The inner calls end: each byte taken from `read_q` is echoed as at most one escape and a query needs one, so the bytes that
can be echoed as an escape, weighed as much as an answer, run out.
-/
import Linux011.Chr.LineEditing

namespace Linux011.Chr

variable {v : Video} {isupper : UInt8 → Bool} {t t' t'' : Tty}

/-- The routines, with no result where `con_write` takes a character from an empty `write_q`. -/
def guarded (v : Video) (isupper : UInt8 → Bool) (call : Call → Tty → Option Tty) : Call → Tty → Option Tty
  | .conWrite (nr + 1), t => if t.writeQ.isEmpty then none else conTurn v call nr t
  | c, t => body v isupper call c t

/-- Where it has a result, it is that of the routines. -/
theorem run_guarded_le (n : Nat) (c : Call) (t : Tty) :
    Depth.Le (Depth.run (guarded v isupper) n c t) (Depth.run (body v isupper) n c t) := by
  induction n generalizing c t with
  | zero => exact .refl _
  | succ n ih =>
    intro t' h
    refine body_monotone v isupper _ _ ih c t t' ?_
    have h' : guarded v isupper (Depth.run (guarded v isupper) n) c t = some t' := h
    unfold guarded at h'
    split at h'
    · split at h'
      · cases h'
      · exact h'
    · exact h'

/-! ## Queries -/

section Asks

variable (v : Video) (e : Nat)

/-- A query is completed, and there is more behind it. -/
def asksBefore : Console → List UInt8 → Bool
  | s, c :: d :: cs => s.state = .escape && c = 90 || asksBefore (conChar v e s c) (d :: cs)
  | _, _ => false

/-- The last character completes a query. -/
def asksLast : Console → List UInt8 → Bool
  | s, c :: d :: cs => asksLast (conChar v e s c) (d :: cs)
  | s, [c] => s.state = .escape && c = 90
  | _, [] => false

end Asks

/-- All of `n` characters are shown. -/
def Tty.showAll (v : Video) : Nat → Tty → Tty
  | 0, t => t
  | n + 1, t => (t.shown v).showAll v n

/-- The characters `ds` have been shown. -/
structure Showed (v : Video) (t : Tty) (ds : List UInt8) (t' : Tty) : Prop where
  termios : t'.termios = t.termios
  isConsole : t'.isConsole = t.isConsole
  taken : t'.writeQ.taken = t.writeQ.taken ++ ds
  con : t'.con = ds.foldl (conChar v t.termios.erase.toNat) t.con

theorem Showed.refl (t : Tty) : Showed v t [] t := ⟨rfl, rfl, (List.append_nil _).symm, rfl⟩

theorem Showed.trans {ds ds' : List UInt8} (h : Showed v t ds t') (h' : Showed v t' ds' t'') : Showed v t (ds ++ ds') t'' where
  termios := h'.termios.trans h.termios
  isConsole := h'.isConsole.trans h.isConsole
  taken := by rw [h'.taken, h.taken, List.append_assoc]
  con := by rw [h'.con, h.con, h.termios, List.foldl_append]

theorem Showed.shown (v : Video) (t : Tty) : Showed v t [t.writeQ.ring.first] (t.shown v) := ⟨rfl, rfl, rfl, rfl⟩

/-- The queue is shown, and nothing else has changed. -/
structure ShowedAll (v : Video) (t t' : Tty) : Prop extends Showed v t t.writeQ.ring.list t' where
  empty : t'.writeQ.ring.chars = 0
  readQ : t'.readQ = t.readQ
  secondary : t'.secondary = t.secondary

theorem showedAll {n : Nat} (hn : t.writeQ.ring.chars = n) : ShowedAll v t (t.showAll v n) := by
  induction n generalizing t with
  | zero =>
    refine ⟨?_, hn, rfl, rfl⟩
    rw [t.writeQ.ring.list_eq_nil hn]
    exact .refl t
  | succ n ih =>
    have hc : 0 < t.writeQ.ring.chars := by omega
    have hless : (t.shown v).writeQ.ring.chars + 1 = t.writeQ.ring.chars := t.writeQ.ring.chars_getch hc
    have h := ih (t := t.shown v) (by omega)
    refine ⟨?_, h.empty, h.readQ, h.secondary⟩
    rw [t.writeQ.ring.list_getch hc]
    exact (Showed.shown v t).trans h.toShowed

/-- `con_write` where only the last character may complete a query. -/
theorem conWrite_last {n : Nat} {P : Tty → Prop} (hn : t.writeQ.ring.chars = n)
    (hno : asksBefore v t.termios.erase.toNat t.con t.writeQ.ring.list = false)
    (hquiet : asksLast v t.termios.erase.toNat t.con t.writeQ.ring.list = false → P (t.showAll v n))
    (hask : asksLast v t.termios.erase.toNat t.con t.writeQ.ring.list = true →
      Depth.Ends (guarded v isupper) (fun call => call .copyToCooked { t.showAll v n with readQ := t.readQ.putAll response }) P) :
    Depth.Ends (guarded v isupper) (fun call => call (.conWrite n) t) P := by
  induction n generalizing t with
  | zero =>
    rw [t.writeQ.ring.list_eq_nil hn] at hquiet
    exact Depth.Ends.call (.result (hquiet rfl))
  | succ n ih =>
    have hc : 0 < t.writeQ.ring.chars := by omega
    have hless : (t.shown v).writeQ.ring.chars + 1 = t.writeQ.ring.chars := t.writeQ.ring.chars_getch hc
    have hne : ¬t.writeQ.isEmpty = true := by
      rw [TtyQueue.isEmpty_iff]
      omega
    have hlist : t.writeQ.ring.list = t.writeQ.ring.first :: (t.shown v).writeQ.ring.list := t.writeQ.ring.list_getch hc
    refine Depth.Ends.call ?_
    simp only [guarded, if_neg hne, conTurn]
    rw [hlist] at hno hquiet hask
    cases n with
    | zero =>
      -- the last one
      have hnil := (t.shown v).writeQ.ring.list_eq_nil (by omega)
      rw [hnil] at hquiet hask
      by_cases ha : t.asks t.writeQ.ring.first = true
      · simp only [if_pos ha]
        refine Depth.Ends.bind ((hask ha).mono fun t' h' => ?_)
        exact Depth.Ends.call (.result h')
      · simp only [if_neg ha]
        exact Depth.Ends.call (.result (hquiet (Bool.eq_false_iff.2 ha)))
    | succ n =>
      obtain ⟨d, cs, hcs⟩ : ∃ d cs, (t.shown v).writeQ.ring.list = d :: cs :=
        ⟨_, _, (t.shown v).writeQ.ring.list_getch (by omega)⟩
      rw [hcs] at hno hquiet hask
      rw [asksBefore, Bool.or_eq_false_iff] at hno
      have ha : ¬t.asks t.writeQ.ring.first = true := Bool.eq_false_iff.1 hno.1
      simp only [if_neg ha]
      refine ih (t := t.shown v) (by omega) ?_ (fun h => hquiet ?_) fun h => hask ?_
      · rw [hcs]
        exact hno.2
      · rw [hcs] at h
        exact h
      · rw [hcs] at h
        exact h

/-! ## The calls inside end -/

/-- The bytes in `read_q`: one that may be echoed as an escape counts for an answer. -/
def weight (l : List UInt8) : Nat := l.length + 8 * l.countP fun b => b = 219 || b = 187

/-- What a byte counts for. -/
def byteWeight (b : UInt8) : Nat := if b = 219 || b = 187 then 9 else 1

/-- The answers there may still be. -/
def Tty.potential (t : Tty) : Nat := weight t.readQ.ring.list + if t.escaped then 8 else 0

theorem weight_cons (b : UInt8) (l : List UInt8) : weight (b :: l) = weight l + byteWeight b := by
  unfold weight byteWeight
  rw [List.length_cons, List.countP_cons]
  split <;> omega

theorem weight_concat (l : List UInt8) (b : UInt8) : weight (l ++ [b]) = weight l + byteWeight b := by
  unfold weight byteWeight
  rw [List.length_append, List.countP_append, List.countP_singleton, List.length_singleton]
  split <;> omega

theorem weight_getch {q : TtyQueue} (hc : 0 < q.ring.chars) :
    weight q.getch.ring.list + byteWeight q.ring.first = weight q.ring.list := by
  rw [q.ring.list_getch hc, weight_cons]
  rfl

theorem weight_putch (q : TtyQueue) (c : UInt8) : weight (q.putch c).ring.list ≤ weight q.ring.list + byteWeight c := by
  have hlist : (q.putch c).ring.list = (q.ring.putch c).list := rfl
  rw [hlist]
  rcases Nat.eq_zero_or_pos q.ring.left with h0 | hpos
  · rw [(q.ring.putch c).list_eq_nil (q.ring.chars_putch_full c h0)]
    exact Nat.zero_le _
  · rw [q.ring.list_putch c hpos, weight_concat]

theorem weight_putAll (q : TtyQueue) (cs : List UInt8) (h : ∀ c ∈ cs, byteWeight c = 1) :
    weight (q.putAll cs).ring.list ≤ weight q.ring.list + cs.length := by
  induction cs generalizing q with
  | nil => exact Nat.le_refl _
  | cons c cs ih =>
    have h₁ := ih (q.putch c) fun d hd => h d (List.mem_cons_of_mem c hd)
    have h₂ := weight_putch q c
    rw [h c List.mem_cons_self] at h₂
    rw [List.length_cons]
    have : weight ((q.putch c).putAll cs).ring.list = weight (q.putAll (c :: cs)).ring.list := rfl
    omega

theorem weight_response (q : TtyQueue) : weight (q.putAll response).ring.list ≤ weight q.ring.list + 7 := by
  have h : (response.all fun c => byteWeight c = 1) = true := rfl
  exact weight_putAll q response fun c hc => of_decide_eq_true (List.all_eq_true.1 h c hc)

theorem Tty.potential_congr (hq : t'.readQ = t.readQ) (hc : t'.con = t.con) : t'.potential = t.potential := by
  unfold Tty.potential Tty.escaped
  rw [hq, hc]

/-- After characters among which there is no escape, none has been seen. -/
theorem mem_of_escape {e : Nat} {s : Console} {cs : List UInt8} (hne : cs ≠ []) (h : (cs.foldl (conChar v e) s).state = .escape) :
    27 ∈ cs := by
  rcases List.eq_nil_or_concat' cs with h0 | ⟨l, c, rfl⟩
  · exact absurd h0 hne
  · rw [List.foldl_append] at h
    rw [eq_escape_of_conChar _ _ _ h]
    exact List.mem_append_right l List.mem_cons_self

/-! ## Echoes on the screen -/

/-- From a terminal with nothing in `write_q` if there is an echo: all that has been echoed has been shown. -/
structure Idled (v : Video) (t t' : Tty) : Prop where
  showed : ∃ ds, Showed v t ds t'
  off : t.termios.echo = false → t'.writeQ = t.writeQ ∧ t'.con = t.con
  empty : t.termios.echo = true → t'.writeQ.ring.chars = 0

theorem Idled.termios (h : Idled v t t') : t'.termios = t.termios := by
  obtain ⟨ds, hds⟩ := h.showed
  exact hds.termios

theorem Idled.isConsole (h : Idled v t t') : t'.isConsole = t.isConsole := by
  obtain ⟨ds, hds⟩ := h.showed
  exact hds.isConsole

theorem Idled.trans (h : Idled v t t') (h' : Idled v t' t'') : Idled v t t'' := by
  obtain ⟨ds, hds⟩ := h.showed
  obtain ⟨ds', hds'⟩ := h'.showed
  refine ⟨⟨_, hds.trans hds'⟩, fun hoff => ?_, fun hon => h'.empty (h.termios ▸ hon)⟩
  obtain ⟨h₁, h₂⟩ := h.off hoff
  obtain ⟨h₃, h₄⟩ := h'.off (h.termios ▸ hoff)
  exact ⟨h₃.trans h₁, h₄.trans h₂⟩

/-- The other queues do not matter to it. -/
theorem Idled.same (h : Idled v t t') (htm : t''.termios = t'.termios) (hk : t''.isConsole = t'.isConsole)
    (hw : t''.writeQ = t'.writeQ) (hc : t''.con = t'.con) : Idled v t t'' := by
  obtain ⟨ds, hds⟩ := h.showed
  refine ⟨⟨ds, htm.trans hds.termios, hk.trans hds.isConsole, ?_, hc.trans hds.con⟩, fun hoff => ?_, fun hon => ?_⟩
  · rw [hw]
    exact hds.taken
  · exact ⟨hw.trans (h.off hoff).1, hc.trans (h.off hoff).2⟩
  · rw [hw]
    exact h.empty hon

/-- The console, with nothing in `write_q` if there is an echo. -/
structure Idle (t : Tty) : Prop where
  console : t.isConsole = true
  empty : t.termios.echo = true → t.writeQ.ring.chars = 0

theorem Idle.refl (h : Idle t) : Idled v t t := ⟨⟨[], .refl t⟩, fun _ => ⟨rfl, rfl⟩, h.empty⟩

theorem Idle.idled (h : Idle t) (h' : Idled v t t') : Idle t' := ⟨h'.isConsole ▸ h.console, fun hon => h'.empty (h'.termios ▸ hon)⟩

/-- The echo, if only its last character may complete a query. -/
theorem echo_ends {cs : List UInt8} {P : Tty → Prop} (h : Idle t) (hon : t.termios.echo = true) (hlen : cs.length ≤ 2)
    (hno : asksBefore v t.termios.erase.toNat t.con cs = false)
    (hquiet : asksLast v t.termios.erase.toNat t.con cs = false → ∀ t₁, Idled v t t₁ → t₁.readQ = t.readQ →
      t₁.secondary = t.secondary → t₁.con = cs.foldl (conChar v t.termios.erase.toNat) t.con → P t₁)
    (hask : asksLast v t.termios.erase.toNat t.con cs = true → ∀ t₁, Idled v t t₁ → t₁.readQ = t.readQ.putAll response →
      t₁.con = cs.foldl (conChar v t.termios.erase.toNat) t.con →
      Depth.Ends (guarded v isupper) (fun call => call .copyToCooked t₁) P) :
    Depth.Ends (guarded v isupper) (fun call => echo call t cs) P := by
  have h0 := h.empty hon
  have hleft := t.writeQ.ring.chars_add_left
  obtain ⟨hl, hlist⟩ := t.writeQ.list_putAll cs (by omega)
  rw [t.writeQ.ring.list_eq_nil h0, List.nil_append] at hlist
  have hchars : (t.writeQ.putAll cs).ring.chars = cs.length := by rw [← Fifo.length_list, hlist]
  have hall := showedAll (v := v) (t := { t with writeQ := t.writeQ.putAll cs }) hchars
  have hshowed : Showed v t cs (Tty.showAll v cs.length { t with writeQ := t.writeQ.putAll cs }) := by
    refine ⟨hall.termios, hall.isConsole, ?_, ?_⟩
    · rw [hall.taken]
      show (t.writeQ.putAll cs).taken ++ (t.writeQ.putAll cs).ring.list = _
      rw [TtyQueue.taken_putAll, hlist]
    · rw [hall.con]
      show (t.writeQ.putAll cs).ring.list.foldl _ t.con = _
      rw [hlist]
  have hidled (q : TtyQueue) : Idled v t { Tty.showAll v cs.length { t with writeQ := t.writeQ.putAll cs } with readQ := q } :=
    ⟨⟨cs, ⟨hshowed.termios, hshowed.isConsole, hshowed.taken, hshowed.con⟩⟩, fun hoff => absurd (hon.symm.trans hoff) (by decide),
      fun _ => hall.empty⟩
  unfold echo
  simp only [if_pos hon]
  refine Depth.Ends.call ?_
  simp only [guarded, body, if_pos h.console, hchars]
  refine conWrite_last hchars ?_ (fun hl => ?_) fun hl => ?_
  · rw [hlist]
    exact hno
  · rw [hlist] at hl
    exact hquiet hl _ (hidled _) hall.readQ hall.secondary hshowed.con
  · rw [hlist] at hl
    exact hask hl _ (hidled _) rfl hshowed.con

/-- Where nothing is echoed as an escape, the answers there may be become no more. -/
theorem potential_of_escape {cs : List UInt8} (hq : t'.readQ = t.readQ)
    (hcon : t'.con = cs.foldl (conChar v t.termios.erase.toNat) t.con) :
    t'.potential ≤ t.potential + if 27 ∈ cs then 8 else 0 := by
  unfold Tty.potential
  rw [hq]
  by_cases he : t'.escaped = true
  · rw [if_pos he]
    by_cases hnil : cs = []
    · have hsame : t.escaped = true := by
        rw [hnil] at hcon
        unfold Tty.escaped at he ⊢
        rw [hcon] at he
        exact he
      rw [if_pos hsame]
      exact Nat.le_add_right _ _
    · have hstate : (cs.foldl (conChar v t.termios.erase.toNat) t.con).state = .escape := by
        rw [← hcon]
        exact of_decide_eq_true he
      rw [if_pos (mem_of_escape hnil hstate)]
      omega
  · rw [if_neg he]
    omega

/-- What is rubbed out asks nothing. -/
theorem asks_ruboutOf (e : Nat) (s : Console) (c : UInt8) :
    asksBefore v e s (ruboutOf c) = false ∧ asksLast v e s (ruboutOf c) = false := by
  unfold ruboutOf
  split
  · simp [asksBefore, asksLast]
  · simp [asksBefore, asksLast]

/-- The echo of `c` asks at its end, if it is `Z` after an escape. -/
theorem asks_echoOf (tm : Termios) (e : Nat) (s : Console) (c : UInt8) :
    asksBefore v e s (tm.echoOf c) = false ∧
      (asksLast v e s (tm.echoOf c) = true → s.state = .escape ∧ tm.echoOf c = [90]) := by
  unfold Termios.echoOf
  split
  · simp [asksBefore, asksLast]
  · split
    · split
      · refine ⟨by simp [asksBefore], fun h => ?_⟩
        simp only [asksLast, Bool.and_eq_true, decide_eq_true_eq] at h
        exact absurd (eq_escape_of_conChar _ _ _ h.1) (by decide)
      · simp [asksBefore, asksLast]
    · refine ⟨rfl, fun h => ?_⟩
      simp only [asksLast, Bool.and_eq_true, decide_eq_true_eq] at h
      exact ⟨h.1, by rw [h.2]⟩

/-- A call of `copy_to_cooked` from a terminal with these answers to come ends, and there are then no more to come. -/
def Settles (v : Video) (isupper : UInt8 → Bool) (t : Tty) : Prop :=
  Depth.Ends (guarded v isupper) (fun call => call .copyToCooked t) fun t' => Idled v t t' ∧ t'.potential ≤ t.potential

theorem takeBack_idles {c : UInt8} (h : Idle t) (he : t.erasable = some c) :
    Depth.Ends (guarded v isupper) (fun call => takeBack call t c) fun t' =>
      Idled v t t' ∧ t'.potential ≤ t.potential ∧ t'.secondary.ring.chars + 1 = t.secondary.ring.chars := by
  have hc := Regime.erasable_pos he
  have hdec := t.secondary.ring.chars_dec hc
  have hsame (t : Tty) : ({ t with secondary := t.secondary.dec } : Tty).potential = t.potential := Tty.potential_congr rfl rfl
  refine Depth.Ends.bind ?_
  by_cases hon : t.termios.echo = true
  · obtain ⟨hno, hlast⟩ := asks_ruboutOf (v := v) t.termios.erase.toNat t.con c
    refine echo_ends h hon (ruboutOf_length c) hno (fun _ t₁ hid hq hs hcon => .result ⟨hid.same rfl rfl rfl rfl, ?_, ?_⟩)
      fun ha => ?_
    · have hp := potential_of_escape hq hcon
      rw [if_neg fun hm => ruboutOf_ne c 27 hm rfl] at hp
      rw [hsame]
      exact hp
    · show t₁.secondary.ring.dec.chars + 1 = _
      rw [hs]
      exact hdec
    · rw [hlast] at ha
      cases ha
  · unfold echo
    simp only [if_neg hon]
    exact .result (.result ⟨h.refl.same rfl rfl rfl rfl, (hsame t).le, hdec⟩)

theorem killLine_idles (h : Idle t) :
    Depth.Ends (guarded v isupper) (fun call => call .killLine t) fun t' => Idled v t t' ∧ t'.potential ≤ t.potential := by
  induction hn : t.secondary.ring.chars using Nat.strongRecOn generalizing t with
  | ind n ih =>
    refine Depth.Ends.call ?_
    show Depth.Ends _ (fun call => killTurn call t) _
    unfold killTurn
    cases he : t.erasable with
    | none => exact .result ⟨h.refl, Nat.le_refl _⟩
    | some c =>
      refine Depth.Ends.bind ((takeBack_idles h he).mono fun t' h' => ?_)
      obtain ⟨hid, hp, hs⟩ := h'
      refine (ih _ (by omega) (h.idled hid) rfl).mono fun t'' h'' => ?_
      exact ⟨hid.trans h''.1, h''.2.trans hp⟩

/-- The echo of a character, where what a query then calls ends. -/
theorem echoOf_idles {c : UInt8} {B : Nat} (h : Idle t) (hB : t.potential + (if c = 219 then 8 else 0) < B)
    (ih : ∀ t₁ : Tty, t₁.potential < B → Idle t₁ → Settles v isupper t₁) :
    Depth.Ends (guarded v isupper) (fun call => echo call t (t.termios.echoOf c)) fun t' => Idled v t t' ∧ t'.potential < B := by
  by_cases hon : t.termios.echo = true
  · obtain ⟨hno, hlast⟩ := asks_echoOf (v := v) t.termios t.termios.erase.toNat t.con c
    refine echo_ends h hon (t.termios.echoOf_length c) hno (fun _ t₁ hid hq _ hcon => ⟨hid, ?_⟩) fun ha t₁ hid hq hcon => ?_
    · have hp := potential_of_escape hq hcon
      by_cases h27 : 27 ∈ t.termios.echoOf c
      · have hc : c = 219 := by
          by_contra hne
          exact t.termios.echoOf_ne hne 27 h27 rfl
        rw [if_pos h27] at hp
        rw [if_pos hc] at hB
        omega
      · rw [if_neg h27] at hp
        omega
    · -- the answer takes the place of the escape, and is shorter
      obtain ⟨hesc, h90⟩ := hlast ha
      have hone : ¬t₁.escaped = true := by
        intro he
        have hst : (conChar v t.termios.erase.toNat t.con 90).state = .escape := by
          rw [h90] at hcon
          rw [← show t₁.con = conChar v t.termios.erase.toNat t.con 90 from hcon]
          exact of_decide_eq_true he
        exact absurd (eq_escape_of_conChar _ _ _ hst) (by decide)
      have hless : t₁.potential < t.potential := by
        have hw := weight_response t.readQ
        have hesc' : t.escaped = true := decide_eq_true hesc
        unfold Tty.potential
        rw [hq, if_neg hone, if_pos hesc']
        omega
      refine (ih t₁ (by omega) (h.idled hid)).mono fun t₂ h₂ => ⟨hid.trans h₂.1, ?_⟩
      omega
  · unfold echo
    simp only [if_neg hon]
    exact .result ⟨h.refl, by omega⟩

theorem cook_idles {c : UInt8} {B : Nat} (h : Idle t) (hB : t.potential + (if c = 219 then 8 else 0) < B)
    (ih : ∀ t₁ : Tty, t₁.potential < B → Idle t₁ → Settles v isupper t₁) :
    Depth.Ends (guarded v isupper) (fun call => cook call t c) fun t' => Idled v t t' ∧ t'.potential < B := by
  have hlt : t.potential < B := by omega
  unfold cook
  dsimp only
  split
  · exact (killLine_idles h).mono fun t' h' => ⟨h'.1, by omega⟩
  split
  · cases he : t.erasable with
    | none => exact .result ⟨h.refl, hlt⟩
    | some d => exact (takeBack_idles h he).mono fun t' h' => ⟨h'.1, by omega⟩
  split
  · exact .result ⟨h.refl, hlt⟩
  split
  · exact .result ⟨h.refl, hlt⟩
  · have hcount : Idle (t.countUp c) := ⟨h.console, h.empty⟩
    refine Depth.Ends.bind ((echoOf_idles hcount hB ih).mono fun t' h' => .result ?_)
    have hid : Idled v t (t.countUp c) := h.refl.same rfl rfl rfl rfl
    exact ⟨hid.trans (h'.1.same rfl rfl rfl rfl), h'.2⟩

/-- Every call of it ends. -/
theorem copyToCooked_settles (h : Idle t) : Settles v isupper t := by
  induction hn : t.potential using Nat.strongRecOn generalizing t with
  | ind B ih =>
    refine Depth.Ends.call ?_
    show Depth.Ends _ (fun call => copyTurn isupper call t) _
    unfold copyTurn
    by_cases hstop : (t.readQ.isEmpty || t.secondary.isFull) = true
    · simp only [if_pos hstop]
      exact .result ⟨h.refl, Nat.le_refl _⟩
    simp only [if_neg hstop]
    rw [Bool.or_eq_true, TtyQueue.isEmpty_iff, not_or] at hstop
    have hc : 0 < t.readQ.ring.chars := by omega
    have hgot : Idle { t with readQ := t.readQ.getch } := ⟨h.console, h.empty⟩
    have hid₀ : Idled v t { t with readQ := t.readQ.getch } := h.refl.same rfl rfl rfl rfl
    have hw := weight_getch hc
    have hp₀ : ({ t with readQ := t.readQ.getch } : Tty).potential + byteWeight t.readQ.ring.first = t.potential := by
      show weight t.readQ.getch.ring.list + (if t.escaped then 8 else 0) + _ = weight t.readQ.ring.list + if t.escaped then 8 else 0
      omega
    cases hm : t.termios.mapCrNl t.readQ.ring.first with
    | none =>
      have hpos : 0 < byteWeight t.readQ.ring.first := by
        unfold byteWeight
        split <;> decide
      refine (ih _ (by omega) hgot rfl).mono fun t' h' => ⟨hid₀.trans h'.1, ?_⟩
      omega
    | some c =>
      have hB : ({ t with readQ := t.readQ.getch } : Tty).potential + (if t.termios.mapCase isupper c = 219 then 8 else 0) < B := by
        unfold byteWeight at hp₀
        by_cases hf : t.readQ.ring.first = 219 ∨ t.readQ.ring.first = 187
        · rw [if_pos (by simpa using hf)] at hp₀
          split <;> omega
        · rw [if_neg (by simpa using hf)] at hp₀
          rw [if_neg (mapCase_ne isupper (not_or.1 hf) hm)]
          omega
      refine Depth.Ends.bind ((cook_idles hgot hB fun t₁ h₁ hi => ih _ h₁ hi rfl).mono fun t' h' => ?_)
      have hid := hid₀.trans h'.1
      refine (ih _ h'.2 (h.idled hid) rfl).mono fun t'' h'' => ⟨hid.trans h''.1, ?_⟩
      omega

/-! ## The queue is consumed -/

/-- Without an echo, what a query calls leaves `write_q` and the screen alone. -/
theorem conWrite_off {n : Nat} (hk : t.isConsole = true) (hoff : t.termios.echo = false) (hn : t.writeQ.ring.chars = n) :
    Depth.Ends (guarded v isupper) (fun call => call (.conWrite n) t) fun t' =>
      Showed v t t.writeQ.ring.list t' ∧ t'.writeQ.ring.chars = 0 := by
  induction n generalizing t with
  | zero =>
    rw [t.writeQ.ring.list_eq_nil hn]
    exact Depth.Ends.call (.result ⟨.refl t, hn⟩)
  | succ n ih =>
    have hc : 0 < t.writeQ.ring.chars := by omega
    have hless : (t.shown v).writeQ.ring.chars + 1 = t.writeQ.ring.chars := t.writeQ.ring.chars_getch hc
    have hne : ¬t.writeQ.isEmpty = true := by
      rw [TtyQueue.isEmpty_iff]
      omega
    have hlist : t.writeQ.ring.list = [t.writeQ.ring.first] ++ (t.shown v).writeQ.ring.list := t.writeQ.ring.list_getch hc
    -- the rest, from a terminal that differs in the other queues
    have hrest (t₁ : Tty) (h₁ : Showed v t [t.writeQ.ring.first] t₁) (hw : t₁.writeQ = (t.shown v).writeQ) :
        Depth.Ends (guarded v isupper) (fun call => call (.conWrite n) t₁) fun t' =>
          Showed v t t.writeQ.ring.list t' ∧ t'.writeQ.ring.chars = 0 := by
      have hoff₁ : t₁.termios.echo = false := by
        rw [h₁.termios]
        exact hoff
      refine (ih (h₁.isConsole.trans hk) hoff₁ (by rw [hw]; omega)).mono fun t' h' => ⟨?_, h'.2⟩
      have h₂ := h₁.trans h'.1
      rwa [hw, ← hlist] at h₂
    refine Depth.Ends.call ?_
    simp only [guarded, if_neg hne, conTurn]
    split
    · have hidle : Idle { t.shown v with readQ := t.readQ.putAll response } := ⟨hk, fun hon => absurd (hon.symm.trans hoff) (by decide)⟩
      refine Depth.Ends.bind ((copyToCooked_settles hidle).mono fun t₁ h₁ => ?_)
      obtain ⟨hw, hcon⟩ := h₁.1.off hoff
      refine hrest t₁ ⟨h₁.1.termios, h₁.1.isConsole, ?_, hcon⟩ hw
      rw [hw]
      rfl
    · exact hrest _ (Showed.shown v t) rfl

/-- The console with `cs` in `write_q`. -/
def consoleWith (cs : List UInt8) : Tty := { serialLine with isConsole := true, writeQ := emptyQueue.putAll cs }

end Linux011.Chr
