/-
Where the console draws.

The cursor, `pos`, `origin`, `scr_end` and the scrolling region are updated each on its own, in some thirty places, and
say the same thing several times over: `Frame` is how they hang together. It holds for any number of columns, even
where a tab leaves `x` beyond the last one.

`Geometry` adds what depends on that: `x` is at most the number of columns, and nothing has been stored outside the
video memory. For an even number of columns it takes four of them: on two, a tab ends in column 6.
-/
import Linux011.Chr.Console
import Linux011.Lib.Run

namespace Linux011.Chr

variable {v v' : Video} {s t : Console}

/-! ## What one byte does -/

/-- The cursor stays, and the scrolling region one. -/
structure Quiet (c c' : Control) : Prop where
  x : c'.x = c.x
  y : c'.y = c.y
  region : c.top < c.bottom ∧ c.bottom ≤ videoNumLines → c'.top < c'.bottom ∧ c'.bottom ≤ videoNumLines

theorem Quiet.of_eq {c c' : Control} (hx : c'.x = c.x) (hy : c'.y = c.y) (ht : c'.top = c.top)
    (hb : c'.bottom = c.bottom) : Quiet c c' := ⟨hx, hy, fun h => by rw [ht, hb]; exact h⟩

theorem Control.setRegion_quiet (c : Control) : Quiet c c.setRegion := by
  unfold Control.setRegion
  dsimp only
  generalize (if c.par 1 = 0 then videoNumLines else c.par 1) = high
  split
  · rename_i h
    exact ⟨rfl, rfl, fun _ => h⟩
  · exact ⟨rfl, rfl, id⟩

/-- `R` is kept by everything that `con_write` does with a byte, on two displays side by side. -/
structure Simulates (v v' : Video) (R : Console → Console → Prop) : Prop where
  control : ∀ {s t}, R s t → s.toControl = t.toControl
  /-- the parser, the attribute, the saved cursor and the scrolling region -/
  quiet : ∀ {s t} (f : Control → Control), (∀ c, Quiet c (f c)) → R s t →
    R { s with toControl := f s.toControl } { t with toControl := f t.toControl }
  gotoxy : ∀ {s t} (a b : Nat), R s t → R (gotoxy v s a b) (gotoxy v' t a b)
  lf : ∀ {s t}, R s t → R (lf v s) (lf v' t)
  ri : ∀ {s t}, R s t → R (ri v s) (ri v' t)
  cr : ∀ {s t}, R s t → R (cr s) (cr t)
  del : ∀ {s t}, R s t → R (del s) (del t)
  backspace : ∀ {s t}, R s t → R (backspace s) (backspace t)
  tab : ∀ {s t}, R s t → R (tab v s) (tab v' t)
  print : ∀ {s t} (c : Nat), R s t → R (print v s c) (print v' t c)
  csiJ : ∀ {s t} (n : Nat), R s t → R (csiJ v s n) (csiJ v' t n)
  csiK : ∀ {s t} (n : Nat), R s t → R (csiK v s n) (csiK v' t n)
  insertChar : ∀ {s t}, R s t → R (insertChar v s) (insertChar v' t)
  deleteChar : ∀ {s t}, R s t → R (deleteChar v s) (deleteChar v' t)
  insertLine : ∀ {s t}, R s t → R (insertLine v s) (insertLine v' t)
  deleteLine : ∀ {s t}, R s t → R (deleteLine v s) (deleteLine v' t)

namespace Simulates

variable {R : Console → Console → Prop}

theorem ite {p q : Prop} [Decidable p] [Decidable q] (hpq : p ↔ q) {s s' t t' : Console} (h : p → R s t)
    (h' : ¬ p → R s' t') : R (if p then s else s') (if q then t else t') := by
  by_cases hp : p
  · rw [if_pos hp, if_pos (hpq.1 hp)]
    exact h hp
  · rw [if_neg hp, if_neg fun hq => hp (hpq.2 hq)]
    exact h' hp

theorem iterate {f g : Console → Console} (hfg : ∀ {s t}, R s t → R (f s) (g t)) (n : Nat) (h : R s t) :
    R (f^[n] s) (g^[n] t) := by
  induction n generalizing s t with
  | zero => exact h
  | succ n ih =>
    rw [Function.iterate_succ_apply, Function.iterate_succ_apply]
    exact ih (hfg h)

theorem setState (hR : Simulates v v' R) (st : State) (h : R s t) : R { s with state := st } { t with state := st } :=
  hR.quiet (fun c => { c with state := st }) (fun _ => .of_eq rfl rfl rfl rfl) h

theorem saveCur (hR : Simulates v v' R) (h : R s t) : R (saveCur s) (saveCur t) :=
  hR.quiet (fun c => { c with savedX := c.x, savedY := c.y }) (fun _ => .of_eq rfl rfl rfl rfl) h

theorem restoreCur (hR : Simulates v v' R) (h : R s t) : R (restoreCur v s) (restoreCur v' t) := by
  unfold Chr.restoreCur
  rw [hR.control h]
  exact hR.gotoxy _ _ h

theorem csi (hR : Simulates v v' R) (hcols : v.numColumns = v'.numColumns) (c : Char) (h : R s t) :
    R (csi v s c) (csi v' t c) := by
  have hq := hR.setState .plain h
  unfold Chr.csi
  generalize { s with state := .plain } = s at hq ⊢
  generalize { t with state := .plain } = t at hq ⊢
  dsimp only
  have hc := hR.control hq
  split
  case h_14 =>
    rw [hc]
    exact hR.csiJ _ hq
  case h_15 =>
    rw [hc]
    exact hR.csiK _ hq
  case h_16 =>
    rw [hc]
    exact iterate hR.insertLine _ hq
  case h_17 =>
    rw [hc]
    exact iterate hR.deleteLine _ hq
  case h_18 =>
    rw [hc, csiP, csiP, hcols]
    exact iterate hR.deleteChar _ hq
  case h_19 =>
    rw [hc, csiAt, csiAt, hcols]
    exact iterate hR.insertChar _ hq
  case h_20 =>
    exact hR.quiet (fun c => { c with attr := ((List.range (c.npar + 1)).map c.par).foldl csimOne c.attr })
      (fun _ => .of_eq rfl rfl rfl rfl) hq
  case h_21 => exact hR.quiet Control.setRegion Control.setRegion_quiet hq
  case h_22 => exact hR.saveCur hq
  case h_23 => exact hR.restoreCur hq
  case h_24 => exact hq
  -- the cursor is sent somewhere
  all_goals
    rw [hc]
    exact hR.gotoxy _ _ hq

theorem params (hR : Simulates v v' R) (hcols : v.numColumns = v'.numColumns) (c : Char) (h : R s t) :
    R (params v s c) (params v' t c) := by
  unfold Chr.params
  have hn : s.npar = t.npar := congrArg Control.npar (hR.control h)
  refine ite (by rw [hn]) (fun _ => ?_) fun _ => ite Iff.rfl (fun _ => ?_) fun _ => hR.csi hcols c h
  · exact hR.quiet (fun c => { c with npar := c.npar + 1 }) (fun _ => .of_eq rfl rfl rfl rfl) h
  · exact hR.quiet (fun d =>
      { d with par := Function.update d.par d.npar ((10 * d.par d.npar + (c.toNat - '0'.toNat)) % 2 ^ 32) })
      (fun _ => .of_eq rfl rfl rfl rfl) h

theorem bracket (hR : Simulates v v' R) (hcols : v.numColumns = v'.numColumns) (c : Char) (h : R s t) :
    R (bracket v s c) (bracket v' t c) := by
  have hq : R { s with npar := 0, par := fun _ => 0, state := .params }
      { t with npar := 0, par := fun _ => 0, state := .params } :=
    hR.quiet (fun c => { c with npar := 0, par := fun _ => 0, state := .params })
      (fun _ => .of_eq rfl rfl rfl rfl) h
  unfold Chr.bracket
  split
  · exact hq
  · exact hR.params hcols c hq

theorem escape (hR : Simulates v v' R) (c : Char) (h : R s t) : R (escape v s c) (escape v' t c) := by
  have hq := hR.setState .plain h
  unfold Chr.escape
  generalize { s with state := .plain } = s at hq ⊢
  generalize { t with state := .plain } = t at hq ⊢
  dsimp only
  have hc := hR.control hq
  have hx : s.x = t.x := congrArg Control.x hc
  split
  · exact hR.setState .bracket hq
  split
  · rw [hc]
    exact hR.gotoxy _ _ hq
  split
  · exact hR.ri hq
  split
  · exact hR.lf hq
  split
  · exact hq
  refine ite (by rw [hx]) (fun _ => hR.saveCur hq) fun _ => ?_
  exact ite (by rw [hx]) (fun _ => hR.restoreCur hq) fun _ => hq

theorem plain (hR : Simulates v v' R) (e c : Nat) (h : R s t) : R (plain v e s c) (plain v' e t c) := by
  unfold Chr.plain
  split
  · exact hR.print c h
  split
  · exact hR.setState .escape h
  split
  · exact hR.lf h
  split
  · exact hR.cr h
  split
  · exact hR.del h
  split
  · exact hR.backspace h
  split
  · exact hR.tab h
  · exact h

theorem conChar (hR : Simulates v v' R) (hcols : v.numColumns = v'.numColumns) (e : Nat) (c : UInt8) (h : R s t) :
    R (conChar v e s c) (conChar v' e t c) := by
  have hst : s.state = t.state := congrArg Control.state (hR.control h)
  unfold Chr.conChar
  rw [hst]
  split
  · exact hR.plain e _ h
  · exact hR.escape _ h
  · exact hR.bracket hcols _ h
  · exact hR.params hcols _ h

theorem conWrite (hR : Simulates v v' R) (hcols : v.numColumns = v'.numColumns) (cs : List (UInt8 × UInt8))
    (h : R s t) : R (conWrite v s cs) (conWrite v' t cs) := by
  induction cs generalizing s t with
  | nil => exact h
  | cons c cs ih => exact ih (hR.conChar hcols c.1.toNat c.2 h)

end Simulates

/-! ## The frame -/

theorem Video.sizeRow_eq (v : Video) : v.sizeRow = 2 * v.numColumns := Nat.mul_comm _ _

theorem Video.mul_sizeRow (v : Video) (r : Nat) : r * v.sizeRow = 2 * (r * v.numColumns) := by
  rw [Video.sizeRow_eq, Nat.mul_left_comm]

theorem Video.sizeRow_mul (v : Video) (r : Nat) : v.sizeRow * r = 2 * (r * v.numColumns) := by
  rw [Nat.mul_comm, Video.mul_sizeRow]

theorem Video.memStart_even (v : Video) : v.memStart % 2 = 0 := by
  unfold Video.memStart
  split <;> rfl

theorem Video.memStart_ge (v : Video) : 0xb0000 ≤ v.memStart := by
  unfold Video.memStart
  split <;> decide

/-- The memory of an EGA card is large enough for any number of columns. -/
theorem Video.ega_fits (v : Video) (h : v.ega = true) : v.memStart + 2 * (25 * v.numColumns) ≤ v.memEnd := by
  have hlt := v.columns_lt
  unfold Video.memStart Video.memEnd
  unfold Video.ega at h
  split <;> simp_all <;> omega

theorem row_le {r c : Nat} (h : r < 25) : r * c + c ≤ 25 * c := by
  have := Nat.mul_le_mul_right c (Nat.succ_le_of_lt h)
  rwa [Nat.succ_mul] at this

/-- The cursor, the region and the addresses. -/
structure Frame (v : Video) (c : Control) (origin scrEnd pos : Nat) : Prop where
  top_lt : c.top < c.bottom
  bottom_le : c.bottom ≤ 25
  y_lt : c.y < 25
  pos_eq : pos = origin + 2 * (c.y * v.numColumns + c.x)
  end_eq : scrEnd = origin + 2 * (25 * v.numColumns)
  even : origin % 2 = 0
  start_le : v.memStart ≤ origin
  ega_le : v.ega = true → scrEnd ≤ v.memEnd
  mda_eq : v.ega = false → origin = v.memStart

def Console.Framed (v : Video) (s : Console) : Prop := Frame v s.toControl s.origin s.scrEnd s.pos

namespace Console.Framed

theorem of_eq (h : s.Framed v) (hc : t.toControl = s.toControl) (ho : t.origin = s.origin) (he : t.scrEnd = s.scrEnd)
    (hp : t.pos = s.pos) : t.Framed v := by
  unfold Framed
  rw [hc, ho, he, hp]
  exact h

theorem stosw (h : s.Framed v) (a n w : Nat) : (s.stosw a n w).Framed v := h.of_eq rfl rfl rfl rfl

theorem quiet (h : s.Framed v) {f : Control → Control} (hf : ∀ c, Quiet c (f c)) :
    Framed v { s with toControl := f s.toControl } := by
  obtain ⟨hx, hy, hr⟩ := hf s.toControl
  obtain ⟨ht, hb⟩ := hr ⟨h.top_lt, h.bottom_le⟩
  refine ⟨ht, hb, ?_, ?_, h.end_eq, h.even, h.start_le, h.ega_le, h.mda_eq⟩
  · rw [hy]
    exact h.y_lt
  · rw [hx, hy]
    exact h.pos_eq

theorem gotoxy (h : s.Framed v) (a b : Nat) : (gotoxy v s a b).Framed v := by
  unfold Chr.gotoxy
  split
  · exact h
  · rename_i hab
    have hb : b < 25 := by
      unfold videoNumLines at hab
      omega
    refine ⟨h.top_lt, h.bottom_le, hb, ?_, h.end_eq, h.even, h.start_le, h.ega_le, h.mda_eq⟩
    dsimp only
    rw [v.mul_sizeRow]
    omega

/-- The cursor to another place of the line, and `pos` with it. -/
theorem moveX (h : s.Framed v) {a p : Nat} (hp : p + 2 * s.x = s.pos + 2 * a) : Framed v { s with x := a, pos := p } := by
  refine ⟨h.top_lt, h.bottom_le, h.y_lt, ?_, h.end_eq, h.even, h.start_le, h.ega_le, h.mda_eq⟩
  have := h.pos_eq
  dsimp only
  omega

theorem cr (h : s.Framed v) : (cr s).Framed v := by
  have := h.pos_eq
  exact h.moveX (by omega)

theorem backspace (h : s.Framed v) : (backspace s).Framed v := by
  have := h.pos_eq
  unfold Chr.backspace
  split
  · exact h
  · exact h.moveX (by omega)

theorem advance (h : s.Framed v) (he : v.ega = true) : (advance v s).Framed v := by
  obtain ⟨ht, hb, hy, hp, hend, heven, hstart, hle, -⟩ := h
  have hrow := v.sizeRow_eq
  have hfit := v.ega_fits he
  have hmem := v.memStart_even
  unfold Chr.advance
  dsimp only
  split
  · refine ⟨ht, hb, hy, ?_, ?_, hmem, Nat.le_refl _, fun _ => ?_, fun hn => ?_⟩
    · simp only [copyBack, Console.stosw, Console.movsl]
      omega
    · simp only [copyBack, Console.stosw, Console.movsl]
      omega
    · simp only [copyBack, Console.stosw, Console.movsl]
      omega
    · rw [he] at hn
      cases hn
  · refine ⟨ht, hb, hy, ?_, ?_, ?_, ?_, fun _ => ?_, fun hn => ?_⟩
    · simp only [Console.stosw]
      omega
    · simp only [Console.stosw]
      omega
    · simp only [Console.stosw]
      omega
    · simp only [Console.stosw]
      omega
    · simp only [Console.stosw]
      omega
    · rw [he] at hn
      cases hn

theorem scrup (h : s.Framed v) : (scrup v s).Framed v := by
  unfold Chr.scrup
  split
  · split
    · exact h.advance ‹_›
    · exact h.of_eq rfl rfl rfl rfl
  · exact h.of_eq rfl rfl rfl rfl

theorem scrdown (h : s.Framed v) : (scrdown v s).Framed v := h.of_eq rfl rfl rfl rfl

theorem lf (h : s.Framed v) : (lf v s).Framed v := by
  unfold Chr.lf
  split
  · rename_i hlt
    have hrow := v.sizeRow_eq
    have hb := h.bottom_le
    have hp := h.pos_eq
    refine ⟨h.top_lt, hb, ?_, ?_, h.end_eq, h.even, h.start_le, h.ega_le, h.mda_eq⟩
    · dsimp only
      omega
    · dsimp only
      rw [Nat.add_mul, Nat.one_mul]
      omega
  · exact h.scrup

theorem ri (h : s.Framed v) : (ri v s).Framed v := by
  unfold Chr.ri
  split
  · rename_i hlt
    have hrow := v.sizeRow_eq
    have hp := h.pos_eq
    have hy := h.y_lt
    obtain ⟨r, hr⟩ : ∃ r, s.y = r + 1 := ⟨s.y - 1, by omega⟩
    rw [hr, Nat.add_mul, Nat.one_mul] at hp
    refine ⟨h.top_lt, h.bottom_le, ?_, ?_, h.end_eq, h.even, h.start_le, h.ega_le, h.mda_eq⟩
    · dsimp only
      omega
    · dsimp only
      rw [hr, Nat.add_sub_cancel]
      omega
  · exact h.scrdown

/-- Past the last column: as far into the next line. -/
theorem nextLine (h : s.Framed v) (hx : v.numColumns ≤ s.x) :
    (Chr.lf v { s with x := s.x - v.numColumns, pos := s.pos - v.sizeRow }).Framed v := by
  have hp := h.pos_eq
  have hrow := v.sizeRow_eq
  exact lf (h.moveX (by omega))

theorem wrap (h : s.Framed v) : (wrap v s).Framed v := by
  unfold Chr.wrap
  split
  · exact h.nextLine ‹_›
  · exact h

theorem print (h : s.Framed v) (c : Nat) : (print v s c).Framed v := by
  have hm : Framed v { Chr.wrap v s with x := (Chr.wrap v s).x + 1, pos := (Chr.wrap v s).pos + 2 } :=
    h.wrap.moveX (by omega)
  exact hm.of_eq rfl rfl rfl rfl

theorem deleteChar (h : s.Framed v) : (deleteChar v s).Framed v := by
  unfold Chr.deleteChar
  split <;> exact h.of_eq rfl rfl rfl rfl

/-- From the line of the cursor on. -/
theorem below (h : s.Framed v) : Framed v { s with top := s.y, bottom := videoNumLines } :=
  ⟨h.y_lt, Nat.le_refl _, h.y_lt, h.pos_eq, h.end_eq, h.even, h.start_le, h.ega_le, h.mda_eq⟩

/-- Back to the region as it was. -/
theorem above (h : s.Framed v) (h' : t.Framed v) : Framed v { t with top := s.top, bottom := s.bottom } :=
  ⟨h.top_lt, h.bottom_le, h'.y_lt, h'.pos_eq, h'.end_eq, h'.even, h'.start_le, h'.ega_le, h'.mda_eq⟩

theorem deleteLine (h : s.Framed v) : (deleteLine v s).Framed v := h.above h.below.scrup

theorem insertLine (h : s.Framed v) : (insertLine v s).Framed v := h.of_eq rfl rfl rfl rfl

theorem insertChar (h : s.Framed v) : (insertChar v s).Framed v := h.of_eq rfl rfl rfl rfl

end Console.Framed

/-! ## The stores -/

/-- The marked cells lie in the video memory. -/
def Within (v : Video) (m : Nat → Bool) : Prop := ∀ i, m i = true → v.memStart ≤ 2 * i ∧ 2 * i + 2 ≤ v.memEnd

theorem Within.update {m : Nat → Bool} (h : Within v m) {i : Nat} (hi : v.memStart ≤ 2 * i) (hi' : 2 * i + 2 ≤ v.memEnd) :
    Within v (Function.update m i true) := by
  intro j hj
  rw [Function.update_apply] at hj
  split at hj
  · omega
  · exact h j hj

theorem Within.fill {m : Nat → Bool} (h : Within v m) {i n : Nat} (hi : v.memStart ≤ 2 * i)
    (hn : 2 * (i + n) ≤ v.memEnd) : Within v (Block.fill m i n true) := by
  intro j hj
  rw [Block.fill_apply] at hj
  split at hj
  · omega
  · exact h j hj

theorem Within.fillDown {m : Nat → Bool} (h : Within v m) {i n : Nat} (hi : v.memStart + 2 * n ≤ 2 * i + 2)
    (hn : 2 * i + 2 ≤ v.memEnd) : Within v (Block.fillDown m i n true) := by
  intro j hj
  rw [Block.fillDown_apply _ _ _ _ _ (by omega)] at hj
  split at hj
  · omega
  · exact h j hj

/-- The screen fits into the video memory. -/
def Video.Fits (v : Video) : Prop := v.memStart + 2 * (25 * v.numColumns) ≤ v.memEnd

structure Geometry (v : Video) (s : Console) : Prop where
  framed : s.Framed v
  x_le : s.x ≤ v.numColumns
  within : Within v s.touched

theorem Console.Framed.end_le (h : s.Framed v) (hf : v.Fits) : s.origin + 2 * (25 * v.numColumns) ≤ v.memEnd := by
  cases he : v.ega with
  | true =>
    have := h.ega_le he
    rwa [h.end_eq] at this
  | false =>
    rw [h.mda_eq he]
    exact hf

/-- A cell of the screen, counted from its first, lies in the memory. -/
theorem Console.Framed.cell (h : s.Framed v) (hf : v.Fits) {k : Nat} (hk : k ≤ 25 * v.numColumns) :
    v.memStart ≤ 2 * (s.origin / 2 + k) ∧ 2 * (s.origin / 2 + k) ≤ v.memEnd := by
  have := h.end_le hf
  have := h.start_le
  have := h.even
  omega

/-- Where the cursor is, counted in cells from the first. -/
def Control.cell (v : Video) (c : Control) : Nat := c.y * v.numColumns + c.x

theorem Console.Framed.pos_half (h : s.Framed v) : s.pos / 2 = s.origin / 2 + s.cell v := by
  have := h.pos_eq
  have := h.even
  unfold Control.cell
  omega

theorem Geometry.cell_le (h : Geometry v s) : s.cell v + (v.numColumns - s.x) ≤ 25 * v.numColumns := by
  have := row_le h.framed.y_lt (c := v.numColumns)
  have := h.x_le
  unfold Control.cell
  omega

/-- The lines of the region below its first take `lineWords` double words, or half a word more. -/
theorem lineWords_le (s : Console) (h : s.Framed v) :
    s.top * v.numColumns + 2 * s.lineWords v + v.numColumns ≤ s.bottom * v.numColumns := by
  have ht := h.top_lt
  obtain ⟨d, hd⟩ : ∃ d, s.bottom = s.top + 1 + d := ⟨s.bottom - s.top - 1, by omega⟩
  have hd' : s.bottom - s.top - 1 = d := by omega
  unfold Console.lineWords
  rw [hd', hd, Nat.add_mul, Nat.add_mul, Nat.one_mul]
  omega

theorem bottom_mul_le (h : s.Framed v) : s.bottom * v.numColumns ≤ 25 * v.numColumns :=
  Nat.mul_le_mul_right _ h.bottom_le

namespace Geometry

/-- Nothing is stored by what leaves `touched` as it is. -/
theorem of_framed (h : Geometry v s) (ht : t.Framed v) (hx : t.x ≤ v.numColumns) (he : t.touched = s.touched) :
    Geometry v t := ⟨ht, hx, he ▸ h.within⟩

theorem stosw (h : Geometry v s) (hf : v.Fits) {a k n : Nat} (w : Nat) (ha : a / 2 = s.origin / 2 + k)
    (hk : k + n ≤ 25 * v.numColumns) : Geometry v (s.stosw a n w) := by
  refine ⟨h.framed.stosw _ _ _, h.x_le, h.within.fill ?_ ?_⟩
  · rw [ha]
    exact (h.framed.cell hf (by omega)).1
  · rw [ha, Nat.add_assoc]
    exact (h.framed.cell hf hk).2

theorem copyUp (h : Geometry v s) (hf : v.Fits) : Geometry v (copyUp v s) := by
  have hl := lineWords_le s h.framed
  have hb := bottom_mul_le h.framed
  have he := h.framed.even
  have hm : Geometry v (s.movsl (s.origin + v.sizeRow * s.top) (s.origin + v.sizeRow * (s.top + 1)) (s.lineWords v)) := by
    have hd : (s.origin + v.sizeRow * s.top) / 2 = s.origin / 2 + s.top * v.numColumns := by
      rw [v.sizeRow_mul]
      omega
    refine ⟨h.framed.of_eq rfl rfl rfl rfl, h.x_le, h.within.fill ?_ ?_⟩
    · rw [hd]
      exact (h.framed.cell hf (by omega)).1
    · rw [hd, Nat.add_assoc]
      exact (h.framed.cell hf (by omega)).2
  refine hm.stosw hf (k := s.top * v.numColumns + 2 * s.lineWords v) _ ?_ (by omega)
  show (s.origin + v.sizeRow * s.top + 4 * s.lineWords v) / 2 = _
  rw [v.sizeRow_mul]
  show _ = s.origin / 2 + _
  omega

theorem advance (h : Geometry v s) (hf : v.Fits) (he : v.ega = true) : Geometry v (advance v s) := by
  have hfr := h.framed.advance he
  have hend := h.framed.end_eq
  have heven := h.framed.even
  have hmem := v.memStart_even
  have hrow := v.sizeRow_eq
  have hstart := h.framed.start_le
  have hF : v.memStart + 2 * (25 * v.numColumns) ≤ v.memEnd := hf
  revert hfr
  unfold Chr.advance
  dsimp only
  split
  · intro hfr
    have hn : (videoNumLines - 1) * v.numColumns / 2 = 12 * v.numColumns := by
      unfold videoNumLines
      omega
    refine ⟨hfr, h.x_le, ?_⟩
    simp only [copyBack, Console.stosw, Console.movsl, hn]
    exact (h.within.fill (by omega) (by omega)).fill (by omega) (by omega)
  · intro hfr
    refine ⟨hfr, h.x_le, ?_⟩
    exact h.within.fill (by omega) (by omega)

theorem scrup (h : Geometry v s) (hf : v.Fits) : Geometry v (scrup v s) := by
  unfold Chr.scrup
  split
  · split
    · exact h.advance hf ‹_›
    · exact h.copyUp hf
  · exact h.copyUp hf

theorem scrdown (h : Geometry v s) (hf : v.Fits) : Geometry v (scrdown v s) := by
  have hl := lineWords_le s h.framed
  have hb := bottom_mul_le h.framed
  have he := h.framed.even
  have hc := h.framed.cell hf hb
  have hstart := h.framed.start_le
  have hge := v.memStart_ge
  have hd : s.origin + v.sizeRow * s.bottom - 4 = 2 * (s.origin / 2 + s.bottom * v.numColumns) - 4 := by
    rw [v.sizeRow_mul]
    omega
  refine ⟨h.framed.scrdown, h.x_le, ?_⟩
  show Within v (Block.fillDown (Block.fillDown s.touched _ _ true) _ _ true)
  rw [hd]
  exact (h.within.fillDown (by omega) (by omega)).fillDown (by omega) (by omega)

theorem lf (h : Geometry v s) (hf : v.Fits) : Geometry v (lf v s) := by
  have hfr := h.framed.lf
  revert hfr
  unfold Chr.lf
  split
  · intro hfr
    exact h.of_framed hfr h.x_le rfl
  · exact fun _ => h.scrup hf

theorem ri (h : Geometry v s) (hf : v.Fits) : Geometry v (ri v s) := by
  have hfr := h.framed.ri
  revert hfr
  unfold Chr.ri
  split
  · intro hfr
    exact h.of_framed hfr h.x_le rfl
  · exact fun _ => h.scrdown hf

theorem gotoxy (h : Geometry v s) (a b : Nat) : Geometry v (gotoxy v s a b) := by
  have hfr := h.framed.gotoxy a b
  revert hfr
  unfold Chr.gotoxy
  split
  · exact fun _ => h
  · intro hfr
    exact h.of_framed hfr (by dsimp only; omega) rfl

theorem backspace (h : Geometry v s) : Geometry v (backspace s) := by
  have hfr := h.framed.backspace
  have hx := h.x_le
  revert hfr
  unfold Chr.backspace
  split
  · exact fun _ => h
  · intro hfr
    exact h.of_framed hfr (by dsimp only; omega) rfl

/-- A word to where the cursor is, on the screen. -/
theorem store (h : Geometry v s) (hf : v.Fits) (hx : s.x < v.numColumns) (w : Nat) : Geometry v (s.store s.pos w) := by
  have hc := h.cell_le
  have hlo := h.framed.cell hf (k := s.cell v) (by omega)
  have hhi := h.framed.cell hf (k := s.cell v + 1) (by omega)
  refine ⟨h.framed.of_eq rfl rfl rfl rfl, h.x_le, h.within.update ?_ ?_⟩
  · rw [h.framed.pos_half]
    exact hlo.1
  · rw [h.framed.pos_half]
    omega

theorem del (h : Geometry v s) (hf : v.Fits) : Geometry v (del s) := by
  unfold Chr.del
  have hp := h.framed.pos_eq
  have hx := h.x_le
  split
  · exact h
  · have hm : Console.Framed v { s with x := s.x - 1, pos := s.pos - 2 } := h.framed.moveX (by omega)
    exact store (h.of_framed hm (by dsimp only; omega) rfl) hf (by dsimp only; omega) _

theorem nextLine (h : Geometry v s) (hf : v.Fits) {a p : Nat} (ha : v.numColumns ≤ a) (ha' : a - v.numColumns ≤ v.numColumns)
    (hp : p + 2 * s.x = s.pos + 2 * a) :
    Geometry v (Chr.lf v { s with x := a - v.numColumns, pos := p - v.sizeRow }) := by
  have hrow := v.sizeRow_eq
  have hpos := h.framed.pos_eq
  exact lf (h.of_framed (h.framed.moveX (by omega)) ha' rfl) hf

theorem wrap (h : Geometry v s) (hf : v.Fits) : Geometry v (wrap v s) := by
  unfold Chr.wrap
  have hx := h.x_le
  split
  · exact h.nextLine hf ‹_› (by omega) rfl
  · exact h

theorem wrap_x_lt (h : Geometry v s) (hc : 0 < v.numColumns) : (Chr.wrap v s).x < v.numColumns := by
  have hx := h.x_le
  unfold Chr.wrap
  split
  · rw [lf_x]
    dsimp only
    omega
  · omega

theorem print (h : Geometry v s) (hf : v.Fits) (hc : 0 < v.numColumns) (c : Nat) : Geometry v (print v s c) := by
  have hw := h.wrap_x_lt hc
  have hs := (h.wrap hf).store hf hw ((Chr.wrap v s).attr * 256 + c)
  exact hs.of_framed (h.framed.print c) hw rfl

/-- A tab beyond the last column ends at the next stop less the columns: at most 8 columns, or a multiple of 8. -/
theorem tab (h : Geometry v s) (hf : v.Fits) (hc : 4 ≤ v.numColumns) : Geometry v (tab v s) := by
  have hx := h.x_le
  unfold Chr.tab
  dsimp only
  split
  · exact h.nextLine hf (by omega) (by omega) (by omega)
  · exact h.of_framed (h.framed.moveX (by omega)) (by dsimp only; omega) rfl

theorem wsub_eq {a b : Nat} (h : b ≤ a) (ha : a < 2 ^ 32) : wsub a b = a - b := by
  unfold wsub
  omega

theorem end_lt (h : Geometry v s) (hf : v.Fits) : s.scrEnd < 2 ^ 32 := by
  have hle := h.framed.end_le hf
  have hend : v.memEnd ≤ 0xbc000 := by
    unfold Video.memEnd
    split <;> decide
  rw [h.framed.end_eq]
  omega

theorem csiJ (h : Geometry v s) (hf : v.Fits) (n : Nat) : Geometry v (csiJ v s n) := by
  have hc := h.cell_le
  have hx := h.x_le
  have hp := h.framed.pos_half
  have hpos : s.pos = s.origin + 2 * s.cell v := h.framed.pos_eq
  have hend := h.framed.end_eq
  have hlt := h.end_lt hf
  unfold Chr.csiJ
  split
  · rw [wsub_eq (by omega) hlt]
    exact h.stosw hf _ hp (by omega)
  · rw [wsub_eq (by omega) (by omega)]
    exact h.stosw hf (k := 0) _ rfl (by omega)
  · refine h.stosw hf (k := 0) _ rfl ?_
    unfold videoNumLines
    omega
  · exact h

/-- The line of the cursor starts this many cells into the screen. -/
theorem line_half (h : s.Framed v) : (s.pos - s.x * 2) / 2 = s.origin / 2 + s.y * v.numColumns := by
  have := h.pos_eq
  have := h.even
  omega

theorem csiK (h : Geometry v s) (hf : v.Fits) (n : Nat) : Geometry v (csiK v s n) := by
  have hr := row_le h.framed.y_lt (c := v.numColumns)
  unfold Chr.csiK
  split
  · split
    · exact h
    · exact h.stosw hf _ h.framed.pos_half h.cell_le
  · refine h.stosw hf _ (line_half h.framed) ?_
    split <;> omega
  · exact h.stosw hf _ (line_half h.framed) hr
  · exact h

theorem insertChar (h : Geometry v s) (hf : v.Fits) : Geometry v (insertChar v s) :=
  ⟨h.framed.insertChar, h.x_le, (h.stosw hf 0 h.framed.pos_half h.cell_le).within⟩

theorem deleteChar (h : Geometry v s) (hf : v.Fits) : Geometry v (deleteChar v s) := by
  have hc := h.cell_le
  have hp := h.framed.pos_half
  refine ⟨h.framed.deleteChar, ?_, ?_⟩
  · unfold Chr.deleteChar
    split <;> exact h.x_le
  · unfold Chr.deleteChar
    split
    · exact h.within
    · have hlo := h.framed.cell hf (k := s.cell v) (by omega)
      have hhi := h.framed.cell hf (k := s.cell v + (v.numColumns - s.x)) hc
      refine Within.update (h.within.fill ?_ ?_) ?_ ?_
      all_goals omega

theorem deleteLine (h : Geometry v s) (hf : v.Fits) : Geometry v (deleteLine v s) := by
  have hs := scrup (h.of_framed h.framed.below h.x_le rfl) hf
  exact ⟨h.framed.deleteLine, hs.x_le, hs.within⟩

theorem insertLine (h : Geometry v s) (hf : v.Fits) : Geometry v (insertLine v s) := by
  have hs := scrdown (h.of_framed h.framed.below h.x_le rfl) hf
  exact ⟨h.framed.insertLine, hs.x_le, hs.within⟩

/-- What one byte keeps, on one display. -/
theorem simulates (hf : v.Fits) (hc : 4 ≤ v.numColumns) : Simulates v v fun s t => s = t ∧ Geometry v s where
  control h := congrArg _ h.1
  quiet := by
    intro s t f hq h
    obtain ⟨rfl, h⟩ := h
    refine ⟨rfl, h.framed.quiet hq, ?_, h.within⟩
    rw [(hq _).x]
    exact h.x_le
  gotoxy a b h := ⟨h.1 ▸ rfl, h.2.gotoxy a b⟩
  lf h := ⟨h.1 ▸ rfl, h.2.lf hf⟩
  ri h := ⟨h.1 ▸ rfl, h.2.ri hf⟩
  cr h := ⟨h.1 ▸ rfl, h.2.of_framed h.2.framed.cr (Nat.zero_le _) rfl⟩
  del h := ⟨h.1 ▸ rfl, h.2.del hf⟩
  backspace h := ⟨h.1 ▸ rfl, h.2.backspace⟩
  tab h := ⟨h.1 ▸ rfl, h.2.tab hf hc⟩
  print c h := ⟨h.1 ▸ rfl, h.2.print hf (by omega) c⟩
  csiJ n h := ⟨h.1 ▸ rfl, h.2.csiJ hf n⟩
  csiK n h := ⟨h.1 ▸ rfl, h.2.csiK hf n⟩
  insertChar h := ⟨h.1 ▸ rfl, h.2.insertChar hf⟩
  deleteChar h := ⟨h.1 ▸ rfl, h.2.deleteChar hf⟩
  insertLine h := ⟨h.1 ▸ rfl, h.2.insertLine hf⟩
  deleteLine h := ⟨h.1 ▸ rfl, h.2.deleteLine hf⟩

end Geometry

/-! ## From con_init on -/

theorem conStart_framed (v : Video) {a b : Nat} (ha : a ≤ v.numColumns) (hb : b < videoNumLines) (mem : Nat → Nat) :
    (conStart v a b mem).Framed v := by
  unfold conStart gotoxy
  rw [if_neg (by omega)]
  refine ⟨?_, Nat.le_refl _, hb, ?_, ?_, v.memStart_even, Nat.le_refl _, fun he => ?_, fun _ => rfl⟩
  · show 0 < 25
    omega
  · dsimp only
    rw [v.mul_sizeRow]
    omega
  · dsimp only
    rw [v.mul_sizeRow]
    rfl
  · dsimp only
    rw [v.mul_sizeRow]
    exact v.ega_fits he

theorem conStart_x {a b : Nat} (ha : a ≤ v.numColumns) (hb : b < videoNumLines) (mem : Nat → Nat) :
    (conStart v a b mem).x = a := by
  unfold conStart gotoxy
  rw [if_neg (by omega)]

theorem conStart_touched (a b : Nat) (mem : Nat → Nat) : (conStart v a b mem).touched = fun _ => false := by
  unfold conStart gotoxy
  split <;> rfl

theorem conStart_geometry {a b : Nat} (ha : a ≤ v.numColumns) (hb : b < videoNumLines) (mem : Nat → Nat) :
    Geometry v (conStart v a b mem) := by
  refine ⟨conStart_framed v ha hb mem, ?_, ?_⟩
  · rw [conStart_x ha hb]
    exact ha
  · rw [conStart_touched]
    intro i hi
    cases hi

/-- With four columns or more, whatever is written: the cursor is on the screen or just behind its line, `pos` and
`scr_end` are where they should be, the region is one, the screen starts in the video memory and on an EGA ends there,
and nothing has been stored outside. -/
theorem geometry_kept (v : Video) (hfit : v.memStart + videoNumLines * v.sizeRow ≤ v.memEnd) (hc : 4 ≤ v.numColumns)
    {origX origY : Nat} (hx : origX ≤ v.numColumns) (hy : origY < videoNumLines) (mem : Nat → Nat)
    (cs : List (UInt8 × UInt8)) {s : Console} (hs : s = conWrite v (conInit v origX origY mem) cs) :
    s.x ≤ v.numColumns ∧ s.y < videoNumLines ∧ s.pos = s.origin + s.y * v.sizeRow + 2 * s.x ∧ s.top < s.bottom ∧
    s.bottom ≤ videoNumLines ∧ s.scrEnd = s.origin + videoNumLines * v.sizeRow ∧ v.memStart ≤ s.origin ∧
    (v.ega = true → s.scrEnd ≤ v.memEnd) ∧
    ∀ i, s.touched i = true → v.memStart ≤ 2 * i ∧ 2 * i + 2 ≤ v.memEnd := by
  have hf : v.Fits := by
    rw [v.mul_sizeRow] at hfit
    exact hfit
  have h := (Geometry.simulates hf hc).conWrite rfl cs (s := conInit v origX origY mem) ⟨rfl, conStart_geometry hx hy _⟩
  obtain ⟨hfr, hxle, hin⟩ := h.2
  rw [← hs] at hfr hxle hin
  refine ⟨hxle, hfr.y_lt, ?_, hfr.top_lt, hfr.bottom_le, ?_, hfr.start_le, hfr.ega_le, hin⟩
  · have := hfr.pos_eq
    rw [v.mul_sizeRow]
    omega
  · rw [v.mul_sizeRow]
    exact hfr.end_eq

/-- A tab in the last column of the last line of a colour EGA. -/
theorem geometry_kept_tab : ∃ s : Console, s = conWrite ⟨.egac, 80, by decide⟩ (conInit ⟨.egac, 80, by decide⟩ 79 24 fun _ => 0)
    [(127, 9), (127, 65), (127, 9)] ∧ s.x = 8 ∧ s.origin = 0xb8000 + 160 ∧
    ∀ i, s.touched i = true → 0xb8000 ≤ 2 * i ∧ 2 * i + 2 ≤ 0xbc000 := by
  refine ⟨_, rfl, ?_, ?_, ?_⟩
  · rfl
  · rfl
  · exact (geometry_kept ⟨.egac, 80, by decide⟩ (by decide) (by decide) (by decide) (by decide) (fun _ => 0)
      [(127, 9), (127, 65), (127, 9)] rfl).2.2.2.2.2.2.2.2

/-- On a screen of two columns a tab goes to column 6. -/
theorem tab_beyond : ∃ v : Video, v.numColumns % 2 = 0 ∧ v.memStart + videoNumLines * v.sizeRow ≤ v.memEnd ∧
    v.numColumns < (conWrite v (conInit v 0 0 fun _ => 0) [(127, 9)]).x :=
  ⟨⟨.mda, 2, by decide⟩, by decide, by decide, by decide⟩

end Linux011.Chr
