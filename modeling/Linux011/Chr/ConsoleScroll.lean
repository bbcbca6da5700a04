/-
Hardware scrolling shows what copying lines does.

On an EGA the screen moves through the memory, a line at a time, and is copied back to the start when it would run past
the end; on the other displays the lines are copied. `view` is the memory as seen from `origin`. Every other routine
draws at a place relative to `origin`, and what it reads is on the screen, so that two consoles that look alike go on
looking alike: what lies behind the screen in the memory of an EGA is cleared before it comes into view.
-/
import Linux011.Chr.ConsoleGeometry

namespace Linux011.Chr

variable {v v' : Video} {s t : Console}

/-- The cells from `origin` on. -/
def Console.view (s : Console) (k : Nat) : Nat := s.mem (s.origin / 2 + k)

/-! ## What the routines do to the view -/

/-- `n` double words below line `a` moved up by a line of `c` columns, and the line after them cleared. -/
def upView (c a n : Nat) (f : Nat → Nat) : Nat → Nat :=
  Block.fill (Block.moveUp f (a * c) ((a + 1) * c) n) (a * c + 2 * n) c videoEraseChar

/-- `n` double words moved down by a line, to before line `b`, and the line before them cleared. -/
def downView (c b n : Nat) (f : Nat → Nat) (k : Nat) : Nat :=
  if b * c ≤ k + 2 * n + c ∧ k + 2 * n < b * c then videoEraseChar
  else if b * c ≤ k + 2 * n ∧ k < b * c then f (k - c)
  else f k

theorem view_stosw {a k : Nat} (n w : Nat) (ha : a / 2 = s.origin / 2 + k) :
    (s.stosw a n w).view = Block.fill s.view k n w := by
  funext j
  show Block.fill s.mem (a / 2) n w (s.origin / 2 + j) = _
  rw [Block.fill_apply, Block.fill_apply, ha]
  by_cases hj : k ≤ j ∧ j < k + n
  · rw [if_pos hj, if_pos (by omega)]
  · rw [if_neg hj, if_neg (by omega)]
    rfl

theorem view_store {a k : Nat} (w : Nat) (ha : a / 2 = s.origin / 2 + k) :
    (s.store a w).view = Function.update s.view k w := by
  funext j
  show Function.update s.mem (a / 2) w (s.origin / 2 + j) = _
  rw [Function.update_apply, Function.update_apply, ha]
  by_cases hj : j = k
  · rw [if_pos hj, if_pos (by omega)]
  · rw [if_neg hj, if_neg (by omega)]
    rfl

theorem view_movsl {d r i j n : Nat} (hd : d / 2 = s.origin / 2 + i) (hr : r / 2 = s.origin / 2 + j) (hij : i ≤ j) :
    (s.movsl d r n).view = Block.moveUp s.view i j n := by
  funext k
  show Block.moveUp s.mem (d / 2) (r / 2) n (s.origin / 2 + k) = _
  rw [Block.moveUp_apply _ _ _ (by omega), Block.moveUp_apply _ _ _ hij]
  by_cases hk : i ≤ k ∧ k < i + 2 * n
  · rw [if_pos hk, if_pos (by omega)]
    show s.mem _ = s.mem _
    congr 1
    omega
  · rw [if_neg hk, if_neg (by omega)]
    rfl

theorem view_copyUp (h : s.Framed v) : (copyUp v s).view = upView v.numColumns s.top (s.lineWords v) s.view := by
  have he := h.even
  have hd : (s.origin + v.sizeRow * s.top) / 2 = s.origin / 2 + s.top * v.numColumns := by
    rw [v.sizeRow_mul]
    omega
  have hr : (s.origin + v.sizeRow * (s.top + 1)) / 2 = s.origin / 2 + (s.top + 1) * v.numColumns := by
    rw [v.sizeRow_mul]
    omega
  have hle : s.top * v.numColumns ≤ (s.top + 1) * v.numColumns := Nat.mul_le_mul_right _ (Nat.le_succ _)
  unfold copyUp
  rw [view_stosw (k := s.top * v.numColumns + 2 * s.lineWords v), view_movsl hd hr hle]
  · rfl
  · show (s.origin + v.sizeRow * s.top + 4 * s.lineWords v) / 2 = s.origin / 2 + _
    omega

/-- The next line of the memory has been cleared, or all lines have gone to its start. -/
theorem view_advance (h : s.Framed v) {k : Nat} (hk : k < 25 * v.numColumns) :
    (advance v s).view k = upView v.numColumns 0 (12 * v.numColumns) s.view k := by
  have hend := h.end_eq
  have heven := h.even
  have hmem := v.memStart_even
  have hrow := v.sizeRow_eq
  have hstart := h.start_le
  have hup : upView v.numColumns 0 (12 * v.numColumns) s.view k =
      if 24 * v.numColumns ≤ k then videoEraseChar else s.view (k + v.numColumns) := by
    unfold upView
    rw [Block.fill_apply, Block.moveUp_apply _ _ _ (by omega)]
    by_cases hlast : 24 * v.numColumns ≤ k
    · rw [if_pos (by omega), if_pos hlast]
    · rw [if_neg (by omega), if_pos (by omega), if_neg hlast]
      congr 1
      omega
  rw [hup]
  unfold advance
  dsimp only
  split
  · have hn : (videoNumLines - 1) * v.numColumns / 2 = 12 * v.numColumns := by
      unfold videoNumLines
      omega
    show Block.fill (Block.moveUp s.mem (v.memStart / 2) ((s.origin + v.sizeRow) / 2) _) _ _ _ (v.memStart / 2 + k) = _
    rw [hn, Block.fill_apply, Block.moveUp_apply _ _ _ (by omega)]
    by_cases hlast : 24 * v.numColumns ≤ k
    · rw [if_pos (by omega), if_pos hlast]
    · rw [if_neg (by omega), if_pos (by omega), if_neg hlast]
      show s.mem _ = s.mem _
      congr 1
      omega
  · show Block.fill s.mem ((s.scrEnd + v.sizeRow - v.sizeRow) / 2) _ _ ((s.origin + v.sizeRow) / 2 + k) = _
    rw [Block.fill_apply]
    by_cases hlast : 24 * v.numColumns ≤ k
    · rw [if_pos (by omega), if_pos hlast]
    · rw [if_neg (by omega), if_neg hlast]
      show s.mem _ = s.mem _
      congr 1
      omega

/-- Whichever way the display scrolls. -/
theorem view_scrup (h : s.Framed v) {k : Nat} (hk : k < 25 * v.numColumns) :
    (scrup v s).view k = upView v.numColumns s.top (s.lineWords v) s.view k := by
  unfold scrup
  split
  · split
    · rename_i htb
      have hn : s.lineWords v = 12 * v.numColumns := by
        unfold Console.lineWords
        rw [htb.1, htb.2]
        unfold videoNumLines
        omega
      rw [view_advance h hk, htb.1, hn]
    · rw [view_copyUp h]
  · rw [view_copyUp h]

theorem view_scrdown (h : s.Framed v) : (scrdown v s).view = downView v.numColumns s.bottom (s.lineWords v) s.view := by
  have hl := lineWords_le s h
  have he := h.even
  have hstart := h.start_le
  have hge := v.memStart_ge
  have hbot : s.bottom * v.numColumns = (s.bottom - 1) * v.numColumns + v.numColumns := by
    have := h.top_lt
    rw [← Nat.succ_mul]
    congr 1
    omega
  have hd : s.origin + v.sizeRow * s.bottom - 4 = 2 * (s.origin / 2 + s.bottom * v.numColumns - 2) := by
    rw [v.sizeRow_mul]
    omega
  have hr : s.origin + v.sizeRow * (s.bottom - 1) - 4 = 2 * (s.origin / 2 + (s.bottom - 1) * v.numColumns - 2) := by
    rw [v.sizeRow_mul]
    omega
  funext k
  show Block.fillDown (Block.moveDown s.mem ((s.origin + v.sizeRow * s.bottom - 4) / 2)
    ((s.origin + v.sizeRow * (s.bottom - 1) - 4) / 2) (s.lineWords v))
    ((s.origin + v.sizeRow * s.bottom - 4 - 4 * s.lineWords v + 2) / 2) v.numColumns videoEraseChar (s.origin / 2 + k) = _
  rw [Block.fillDown_apply _ _ _ _ _ (by omega), Block.moveDown_apply _ _ _ (by omega) (by omega)]
  unfold downView
  by_cases h₁ : s.bottom * v.numColumns ≤ k + 2 * s.lineWords v + v.numColumns ∧
      k + 2 * s.lineWords v < s.bottom * v.numColumns
  · rw [if_pos h₁, if_pos (by omega)]
  rw [if_neg h₁, if_neg (by omega)]
  by_cases h₂ : s.bottom * v.numColumns ≤ k + 2 * s.lineWords v ∧ k < s.bottom * v.numColumns
  · rw [if_pos h₂, if_pos (by omega)]
    show s.mem _ = s.mem _
    congr 1
    omega
  · rw [if_neg h₂, if_neg (by omega)]
    rfl

theorem view_insertChar (h : s.Framed v) :
    (insertChar v s).view = Block.shiftIn s.view (s.cell v) (v.numColumns - s.x) videoEraseChar := by
  funext k
  show Block.shiftIn s.mem (s.pos / 2) _ _ (s.origin / 2 + k) = _
  rw [Block.shiftIn_apply, Block.shiftIn_apply, h.pos_half]
  by_cases hk : s.cell v ≤ k ∧ k < s.cell v + (v.numColumns - s.x)
  · rw [if_pos hk, if_pos (by omega)]
    by_cases he : k = s.cell v
    · rw [if_pos he, if_pos (by omega)]
    · rw [if_neg he, if_neg (by omega)]
      show s.mem _ = s.mem _
      congr 1
      omega
  · rw [if_neg hk, if_neg (by omega)]
    rfl

/-- The rest of the line moves back by a cell, and its last one is cleared. -/
def deleteView (i n : Nat) (f : Nat → Nat) : Nat → Nat := Function.update (Block.shiftOut f i n) (i + n) videoEraseChar

theorem view_deleteChar (h : s.Framed v) (hx : s.x < v.numColumns) :
    (deleteChar v s).view = deleteView (s.cell v) (v.numColumns - s.x - 1) s.view := by
  have hp := h.pos_half
  unfold deleteChar
  rw [if_neg (by omega)]
  dsimp only
  rw [view_store (k := s.cell v + (v.numColumns - s.x - 1)) _ (by dsimp only; omega)]
  unfold deleteView
  congr 1
  funext k
  show Block.shiftOut s.mem (s.pos / 2) _ (s.origin / 2 + k) = _
  rw [Block.shiftOut_apply, Block.shiftOut_apply, hp]
  by_cases hk : s.cell v ≤ k ∧ k < s.cell v + (v.numColumns - s.x - 1)
  · rw [if_pos hk, if_pos (by omega)]
    rfl
  · rw [if_neg hk, if_neg (by omega)]
    rfl

/-! ## Agreement -/

/-- The same first `n` cells. -/
def Agree (n : Nat) (f g : Nat → Nat) : Prop := ∀ k < n, f k = g k

namespace Agree

variable {n : Nat} {f g : Nat → Nat}

theorem update (h : Agree n f g) (i w : Nat) : Agree n (Function.update f i w) (Function.update g i w) := by
  intro k hk
  rw [Function.update_apply, Function.update_apply, h k hk]

theorem fill (h : Agree n f g) (i c w : Nat) : Agree n (Block.fill f i c w) (Block.fill g i c w) := by
  intro k hk
  rw [Block.fill_apply, Block.fill_apply, h k hk]

theorem up (h : Agree n f g) {c a m : Nat} (hm : a * c + 2 * m + c ≤ n) : Agree n (upView c a m f) (upView c a m g) := by
  have hac : (a + 1) * c = a * c + c := Nat.succ_mul a c
  refine fill (fun k hk => ?_) _ _ _
  rw [Block.moveUp_apply _ _ _ (by omega), Block.moveUp_apply _ _ _ (by omega), h k hk]
  split
  · exact h _ (by omega)
  · rfl

theorem down (h : Agree n f g) (c b m : Nat) : Agree n (downView c b m f) (downView c b m g) := by
  intro k hk
  unfold downView
  rw [h k hk, h (k - c) (by omega)]

theorem shiftIn (h : Agree n f g) (i c w : Nat) : Agree n (Block.shiftIn f i c w) (Block.shiftIn g i c w) := by
  intro k hk
  rw [Block.shiftIn_apply, Block.shiftIn_apply, h k hk, h (k - 1) (by omega)]

theorem delete (h : Agree n f g) {i c : Nat} (hc : i + c < n) : Agree n (deleteView i c f) (deleteView i c g) := by
  refine update (fun k hk => ?_) _ _
  rw [Block.shiftOut_apply, Block.shiftOut_apply, h k hk]
  split
  · exact h _ (by omega)
  · rfl

end Agree

/-! ## Two consoles -/

/-- The same cursor, region and parser, and the same cells on the screen. -/
structure Alike (v v' : Video) (s t : Console) : Prop where
  control : s.toControl = t.toControl
  left : s.Framed v
  right : t.Framed v'
  cells : Agree (25 * v.numColumns) s.view t.view

namespace Alike

theorem x (h : Alike v v' s t) : s.x = t.x := congrArg Control.x h.control

theorem y (h : Alike v v' s t) : s.y = t.y := congrArg Control.y h.control

theorem cell (h : Alike v v' s t) (hc : v.numColumns = v'.numColumns) : t.cell v' = s.cell v := by
  unfold Control.cell
  rw [h.control, hc]

theorem lineWords (h : Alike v v' s t) (hc : v.numColumns = v'.numColumns) : t.lineWords v' = s.lineWords v := by
  unfold Console.lineWords
  rw [h.control, hc]

theorem stosw (h : Alike v v' s t) {a b k : Nat} (n w : Nat) (ha : a / 2 = s.origin / 2 + k)
    (hb : b / 2 = t.origin / 2 + k) : Alike v v' (s.stosw a n w) (t.stosw b n w) := by
  refine ⟨h.control, h.left.stosw _ _ _, h.right.stosw _ _ _, ?_⟩
  rw [view_stosw n w ha, view_stosw n w hb]
  exact h.cells.fill k n w

theorem store (h : Alike v v' s t) (hc : v.numColumns = v'.numColumns) (w : Nat) :
    Alike v v' (s.store s.pos w) (t.store t.pos w) := by
  refine ⟨h.control, h.left.of_eq rfl rfl rfl rfl, h.right.of_eq rfl rfl rfl rfl, ?_⟩
  rw [view_store w h.left.pos_half, view_store w h.right.pos_half, h.cell hc]
  exact h.cells.update _ w

theorem scrup (h : Alike v v' s t) (hc : v.numColumns = v'.numColumns) : Alike v v' (scrup v s) (scrup v' t) := by
  have hl := lineWords_le s h.left
  have hb := bottom_mul_le h.left
  refine ⟨?_, h.left.scrup, h.right.scrup, fun k hk => ?_⟩
  · rw [scrup_toControl, scrup_toControl]
    exact h.control
  · rw [view_scrup h.left hk, view_scrup h.right (hc ▸ hk), h.lineWords hc, ← hc, ← h.control]
    exact h.cells.up (by omega) k hk

theorem scrdown (h : Alike v v' s t) (hc : v.numColumns = v'.numColumns) :
    Alike v v' (scrdown v s) (scrdown v' t) := by
  refine ⟨h.control, h.left.scrdown, h.right.scrdown, ?_⟩
  rw [view_scrdown h.left, view_scrdown h.right, h.lineWords hc, ← hc, ← h.control]
  exact h.cells.down _ _ _

/-- The cursor goes elsewhere. -/
theorem move (h : Alike v v' s t) (f : Control → Control) {p q : Nat}
    (hl : Console.Framed v { s with toControl := f s.toControl, pos := p })
    (hr : Console.Framed v' { t with toControl := f t.toControl, pos := q }) :
    Alike v v' { s with toControl := f s.toControl, pos := p } { t with toControl := f t.toControl, pos := q } :=
  ⟨congrArg f h.control, hl, hr, h.cells⟩

theorem lf (h : Alike v v' s t) (hc : v.numColumns = v'.numColumns) : Alike v v' (lf v s) (lf v' t) := by
  have hl := h.left.lf
  have hr := h.right.lf
  unfold Chr.lf at hl hr ⊢
  by_cases hlt : s.y + 1 < s.bottom
  · have hlt' : t.y + 1 < t.bottom := h.control ▸ hlt
    rw [if_pos hlt] at hl ⊢
    rw [if_pos hlt'] at hr ⊢
    exact h.move (fun c => { c with y := c.y + 1 }) hl hr
  · have hlt' : ¬ t.y + 1 < t.bottom := h.control ▸ hlt
    rw [if_neg hlt, if_neg hlt']
    exact h.scrup hc

theorem ri (h : Alike v v' s t) (hc : v.numColumns = v'.numColumns) : Alike v v' (ri v s) (ri v' t) := by
  have hl := h.left.ri
  have hr := h.right.ri
  unfold Chr.ri at hl hr ⊢
  by_cases hlt : s.top < s.y
  · have hlt' : t.top < t.y := h.control ▸ hlt
    rw [if_pos hlt] at hl ⊢
    rw [if_pos hlt'] at hr ⊢
    exact h.move (fun c => { c with y := c.y - 1 }) hl hr
  · have hlt' : ¬ t.top < t.y := h.control ▸ hlt
    rw [if_neg hlt, if_neg hlt']
    exact h.scrdown hc

theorem gotoxy (h : Alike v v' s t) (hc : v.numColumns = v'.numColumns) (a b : Nat) :
    Alike v v' (gotoxy v s a b) (gotoxy v' t a b) := by
  have hl := h.left.gotoxy a b
  have hr := h.right.gotoxy a b
  unfold Chr.gotoxy at hl hr ⊢
  by_cases hab : a > v.numColumns ∨ b ≥ videoNumLines
  · rw [if_pos hab, if_pos (hc ▸ hab)]
    exact h
  · have hab' : ¬ (a > v'.numColumns ∨ b ≥ videoNumLines) := hc ▸ hab
    rw [if_neg hab] at hl ⊢
    rw [if_neg hab'] at hr ⊢
    exact h.move (fun c => { c with x := a, y := b }) hl hr

/-- Along the line, by the same distance. -/
theorem moveX (h : Alike v v' s t) (f : Nat → Nat) {p q : Nat} (hp : p + 2 * s.x = s.pos + 2 * f s.x)
    (hq : q + 2 * t.x = t.pos + 2 * f t.x) :
    Alike v v' { s with x := f s.x, pos := p } { t with x := f t.x, pos := q } :=
  h.move (fun c => { c with x := f c.x }) (h.left.moveX hp) (h.right.moveX hq)

theorem backspace (h : Alike v v' s t) : Alike v v' (backspace s) (backspace t) := by
  have hp := h.left.pos_eq
  have hq := h.right.pos_eq
  unfold Chr.backspace
  exact Simulates.ite (by rw [h.x]) (fun _ => h) fun hx =>
    h.moveX (· - 1) (by omega) (by have := h.x; omega)

theorem del (h : Alike v v' s t) (hc : v.numColumns = v'.numColumns) : Alike v v' (del s) (del t) := by
  have hp := h.left.pos_eq
  have hq := h.right.pos_eq
  unfold Chr.del
  refine Simulates.ite (by rw [h.x]) (fun _ => h) fun hx => ?_
  have hm : Alike v v' { s with x := s.x - 1, pos := s.pos - 2 } { t with x := t.x - 1, pos := t.pos - 2 } :=
    h.moveX (· - 1) (by omega) (by have := h.x; omega)
  exact hm.store hc _

theorem nextLine (h : Alike v v' s t) (hc : v.numColumns = v'.numColumns) (hx : v.numColumns ≤ s.x) :
    Alike v v' (Chr.lf v { s with x := s.x - v.numColumns, pos := s.pos - v.sizeRow })
      (Chr.lf v' { t with x := t.x - v'.numColumns, pos := t.pos - v'.sizeRow }) := by
  have hp := h.left.pos_eq
  have hq := h.right.pos_eq
  have hrow := v.sizeRow_eq
  have hrow' := v'.sizeRow_eq
  have hxe := h.x
  have hm : Alike v v' { s with x := s.x - v.numColumns, pos := s.pos - v.sizeRow }
      { t with x := t.x - v.numColumns, pos := t.pos - v'.sizeRow } :=
    h.moveX (· - v.numColumns) (by omega) (by omega)
  rw [← hc]
  exact hm.lf hc

theorem wrap (h : Alike v v' s t) (hc : v.numColumns = v'.numColumns) : Alike v v' (wrap v s) (wrap v' t) := by
  unfold Chr.wrap
  exact Simulates.ite (by rw [h.x, hc]) (fun hx => h.nextLine hc hx) fun _ => h

theorem print (h : Alike v v' s t) (hc : v.numColumns = v'.numColumns) (c : Nat) :
    Alike v v' (print v s c) (print v' t c) := by
  have hw := h.wrap hc
  have ha : (Chr.wrap v s).attr = (Chr.wrap v' t).attr := congrArg Control.attr hw.control
  unfold Chr.print
  dsimp only
  rw [ha]
  have hs := hw.store hc ((Chr.wrap v' t).attr * 256 + c)
  exact hs.moveX (· + 1) (by dsimp only [Console.store]; omega) (by dsimp only [Console.store]; omega)

theorem tab (h : Alike v v' s t) (hc : v.numColumns = v'.numColumns) : Alike v v' (tab v s) (tab v' t) := by
  have hm : Alike v v' { s with x := s.x + (8 - s.x % 8), pos := s.pos + (8 - s.x % 8) * 2 }
      { t with x := t.x + (8 - t.x % 8), pos := t.pos + (8 - t.x % 8) * 2 } :=
    h.moveX (fun x => x + (8 - x % 8)) (by omega) (by omega)
  unfold Chr.tab
  exact Simulates.ite (by dsimp only; rw [h.x, hc]) (fun hx => hm.nextLine hc (Nat.le_of_lt hx)) fun _ => hm

theorem insertChar (h : Alike v v' s t) (hc : v.numColumns = v'.numColumns) :
    Alike v v' (insertChar v s) (insertChar v' t) := by
  refine ⟨h.control, h.left.insertChar, h.right.insertChar, ?_⟩
  rw [view_insertChar h.left, view_insertChar h.right, h.cell hc, ← hc, ← h.x]
  exact h.cells.shiftIn _ _ _

theorem deleteChar (h : Alike v v' s t) (hc : v.numColumns = v'.numColumns) :
    Alike v v' (deleteChar v s) (deleteChar v' t) := by
  by_cases hx : s.x < v.numColumns
  · have hx' : t.x < v'.numColumns := by
      rw [← h.x, ← hc]
      exact hx
    have hr := row_le h.left.y_lt (c := v.numColumns)
    refine ⟨?_, h.left.deleteChar, h.right.deleteChar, ?_⟩
    · unfold Chr.deleteChar
      rw [if_neg (by omega), if_neg (by omega)]
      exact h.control
    · rw [view_deleteChar h.left hx, view_deleteChar h.right hx', h.cell hc, ← hc, ← h.x]
      refine h.cells.delete ?_
      unfold Control.cell
      omega
  · unfold Chr.deleteChar
    exact Simulates.ite (by rw [h.x, hc]) (fun _ => h) fun hn => absurd (Nat.lt_of_not_le hn) hx

theorem csiJ (h : Alike v v' s t) (hc : v.numColumns = v'.numColumns) (n : Nat) : Alike v v' (csiJ v s n) (csiJ v' t n) := by
  have hcell := h.cell hc
  have hp : s.pos = s.origin + 2 * s.cell v := h.left.pos_eq
  have hq : t.pos = t.origin + 2 * t.cell v' := h.right.pos_eq
  have he := h.left.end_eq
  have he' := h.right.end_eq
  have hl := h.left.pos_half
  have hr := h.right.pos_half
  rw [hcell] at hr hq
  rw [← hc] at he'
  unfold Chr.csiJ
  split
  · have : wsub s.scrEnd s.pos = wsub t.scrEnd t.pos := by
      unfold wsub
      omega
    rw [this]
    exact h.stosw _ _ hl hr
  · have : wsub s.pos s.origin = wsub t.pos t.origin := by
      unfold wsub
      omega
    rw [this]
    exact h.stosw (k := 0) _ _ rfl rfl
  · rw [← hc]
    exact h.stosw (k := 0) _ _ rfl rfl
  · exact h

theorem csiK (h : Alike v v' s t) (hc : v.numColumns = v'.numColumns) (n : Nat) : Alike v v' (csiK v s n) (csiK v' t n) := by
  have hcell := h.cell hc
  have hl := h.left.pos_half
  have hr := h.right.pos_half
  have hl' := Geometry.line_half h.left
  have hr' := Geometry.line_half h.right
  rw [hcell] at hr
  rw [← hc, ← h.y] at hr'
  unfold Chr.csiK
  rw [← hc]
  split
  · refine Simulates.ite (by rw [h.x]) (fun _ => h) fun _ => ?_
    rw [h.x]
    exact h.stosw _ _ hl hr
  · have hx : (if s.x < v.numColumns then s.x else v.numColumns) = if t.x < v.numColumns then t.x else v.numColumns := by
      rw [h.x]
    rw [hx]
    exact h.stosw _ _ hl' hr'
  · exact h.stosw _ _ hl' hr'
  · exact h

theorem below (h : Alike v v' s t) : Alike v v' { s with top := s.y, bottom := videoNumLines }
    { t with top := t.y, bottom := videoNumLines } :=
  ⟨congrArg (fun c : Control => { c with top := c.y, bottom := videoNumLines }) h.control, h.left.below, h.right.below,
    h.cells⟩

/-- Back to the regions as they were. -/
theorem above {s' t' : Console} (h : Alike v v' s t) (h' : Alike v v' s' t') :
    Alike v v' { s' with top := s.top, bottom := s.bottom } { t' with top := t.top, bottom := t.bottom } := by
  refine ⟨?_, h.left.above h'.left, h.right.above h'.right, h'.cells⟩
  show ({ s'.toControl with top := s.top, bottom := s.bottom } : Control) = _
  rw [h.control, h'.control]

/-- Everything `con_write` does with a byte is the same on both displays. -/
theorem simulates (hc : v.numColumns = v'.numColumns) : Simulates v v' (Alike v v') where
  control h := h.control
  quiet f hq h := ⟨congrArg f h.control, h.left.quiet hq, h.right.quiet hq, h.cells⟩
  gotoxy a b h := h.gotoxy hc a b
  lf h := h.lf hc
  ri h := h.ri hc
  cr h := h.moveX (fun _ => 0) (by have := h.left.pos_eq; omega) (by have := h.right.pos_eq; omega)
  del h := h.del hc
  backspace h := h.backspace
  tab h := h.tab hc
  print c h := h.print hc c
  csiJ n h := h.csiJ hc n
  csiK n h := h.csiK hc n
  insertChar h := h.insertChar hc
  deleteChar h := h.deleteChar hc
  insertLine h := h.above (h.below.scrdown hc)
  deleteLine h := h.above (h.below.scrup hc)

end Alike

/-- On any two displays of as many columns, an EGA and another one among them: started with the cursor in the same
place and the same cells on the screen, the same bytes leave the cursor in the same place and the same cells on the
screen. -/
theorem scrolling_invisible (v v' : Video) (hcols : v.numColumns = v'.numColumns) {origX origY : Nat}
    (hx : origX ≤ v.numColumns) (hy : origY < videoNumLines) (mem mem' : Nat → Nat)
    (hmem : ∀ k < videoNumLines * v.numColumns, (conStart v origX origY mem).view k = (conStart v' origX origY mem').view k)
    (cs : List (UInt8 × UInt8)) {s t : Console} (hs : s = conWrite v (conStart v origX origY mem) cs)
    (ht : t = conWrite v' (conStart v' origX origY mem') cs) :
    s.x = t.x ∧ s.y = t.y ∧ ∀ k < videoNumLines * v.numColumns, s.view k = t.view k := by
  have h₀ : Alike v v' (conStart v origX origY mem) (conStart v' origX origY mem') := by
    refine ⟨?_, conStart_framed v hx hy mem, conStart_framed v' (hcols ▸ hx) hy mem', hmem⟩
    unfold conStart gotoxy
    rw [if_neg (by omega), if_neg (by omega)]
  have h := (Alike.simulates hcols).conWrite hcols cs h₀
  rw [← hs, ← ht] at h
  exact ⟨h.x, h.y, h.cells⟩

/-- Two characters at the end of the last line: the colour EGA has moved on by a line, and the CGA has copied. -/
theorem scrolling_invisible_line : ∃ s t : Console,
    s = conWrite ⟨.egac, 80, by decide⟩ (conStart ⟨.egac, 80, by decide⟩ 79 24 fun _ => videoEraseChar) [(127, 65), (127, 66)] ∧
    t = conWrite ⟨.cga, 80, by decide⟩ (conStart ⟨.cga, 80, by decide⟩ 79 24 fun _ => videoEraseChar) [(127, 65), (127, 66)] ∧
    s.origin = 0xb8000 + 160 ∧ t.origin = 0xb8000 ∧ s.x = t.x ∧ s.y = t.y ∧ ∀ k < 2000, s.view k = t.view k := by
  refine ⟨_, _, rfl, rfl, rfl, rfl, ?_⟩
  exact scrolling_invisible ⟨.egac, 80, by decide⟩ ⟨.cga, 80, by decide⟩ rfl (by decide) (by decide) (fun _ => videoEraseChar)
    (fun _ => videoEraseChar) (fun _ _ => rfl) [(127, 65), (127, 66)] rfl rfl

end Linux011.Chr
