/-
Moves and fills of blocks of memory, as a processor's string instructions make them: element by element, or two at a
time, upwards or downwards.

If an upward move goes to lower indices, or a downward move to higher ones, then what it reads has not been
overwritten, and it comes to a shift of the whole block.
-/
import Mathlib.Logic.Function.Basic
import Mathlib.Tactic.Common

namespace Block

variable {V : Type*}

/-- `n` stores of `v`, from `i` upwards. -/
def fill (m : Nat → V) (i : Nat) : Nat → V → Nat → V
  | 0, _ => m
  | n + 1, v => fill (Function.update m i v) (i + 1) n v

/-- `n` stores of `v`, from `i` downwards. -/
def fillDown (m : Nat → V) (i : Nat) : Nat → V → Nat → V
  | 0, _ => m
  | n + 1, v => fillDown (Function.update m i v) (i - 1) n v

/-- Two elements from `s` to `d`. -/
def move2 (m : Nat → V) (d s : Nat) : Nat → V := Function.update (Function.update m d (m s)) (d + 1) (m (s + 1))

/-- `n` such moves, upwards. -/
def moveUp (m : Nat → V) (d s : Nat) : Nat → Nat → V
  | 0 => m
  | n + 1 => moveUp (move2 m d s) (d + 2) (s + 2) n

/-- `n` such moves, downwards. -/
def moveDown (m : Nat → V) (d s : Nat) : Nat → Nat → V
  | 0 => m
  | n + 1 => moveDown (move2 m d s) (d - 2) (s - 2) n

/-- `n` elements from `i` on move one up, each through a temporary; `v` comes in at `i`. -/
def shiftIn (m : Nat → V) (i : Nat) : Nat → V → Nat → V
  | 0, _ => m
  | n + 1, v => shiftIn (Function.update m i v) (i + 1) n (m i)

/-- `n` elements from `i` on are overwritten by the ones above them. -/
def shiftOut (m : Nat → V) (i : Nat) : Nat → Nat → V
  | 0 => m
  | n + 1 => shiftOut (Function.update m i (m (i + 1))) (i + 1) n

theorem fill_apply (m : Nat → V) (i n : Nat) (v : V) (j : Nat) : fill m i n v j = if i ≤ j ∧ j < i + n then v else m j := by
  induction n generalizing m i with
  | zero => rw [fill, if_neg (by omega)]
  | succ n ih =>
    rw [fill, ih, Function.update_apply]
    by_cases hj : i + 1 ≤ j ∧ j < i + 1 + n
    · rw [if_pos hj, if_pos (by omega)]
    · rw [if_neg hj]
      split
      · rw [if_pos (by omega)]
      · rw [if_neg (by omega)]

theorem fillDown_apply (m : Nat → V) (i n : Nat) (v : V) (j : Nat) (h : n ≤ i + 1) :
    fillDown m i n v j = if i + 1 ≤ j + n ∧ j ≤ i then v else m j := by
  induction n generalizing m i with
  | zero => rw [fillDown, if_neg (by omega)]
  | succ n ih =>
    rw [fillDown]
    cases i with
    | zero =>
      obtain rfl : n = 0 := by omega
      rw [fillDown, Function.update_apply]
      split
      · rw [if_pos (by omega)]
      · rw [if_neg (by omega)]
    | succ i =>
      rw [Nat.add_sub_cancel, ih _ _ (by omega), Function.update_apply]
      by_cases hj : i + 1 ≤ j + n ∧ j ≤ i
      · rw [if_pos hj, if_pos (by omega)]
      · rw [if_neg hj]
        split
        · rw [if_pos (by omega)]
        · rw [if_neg (by omega)]

theorem move2_apply (m : Nat → V) (d s j : Nat) :
    move2 m d s j = if d ≤ j ∧ j ≤ d + 1 then m (j - d + s) else m j := by
  rw [move2, Function.update_apply, Function.update_apply]
  split
  · rename_i e
    rw [if_pos (by omega), e, Nat.add_sub_cancel_left, Nat.add_comm]
  · split
    · rename_i e
      rw [if_pos (by omega), e, Nat.sub_self, Nat.zero_add]
    · rw [if_neg (by omega)]

theorem moveUp_apply (m : Nat → V) {d s : Nat} (n j : Nat) (h : d ≤ s) :
    moveUp m d s n j = if d ≤ j ∧ j < d + 2 * n then m (j - d + s) else m j := by
  induction n generalizing m d s with
  | zero => rw [moveUp, if_neg (by omega)]
  | succ n ih =>
    rw [moveUp, ih _ (by omega), move2_apply, move2_apply]
    by_cases hj : d + 2 ≤ j ∧ j < d + 2 + 2 * n
    · -- read from behind what has been written
      rw [if_pos hj, if_neg (by omega), if_pos (by omega)]
      congr 1
      omega
    · rw [if_neg hj]
      by_cases hd : d ≤ j ∧ j ≤ d + 1
      · rw [if_pos hd, if_pos (by omega)]
      · rw [if_neg hd, if_neg (by omega)]

theorem moveDown_apply (m : Nat → V) {d s : Nat} (n j : Nat) (h : s ≤ d) (hn : 2 * n ≤ s + 2) :
    moveDown m d s n j = if d + 2 ≤ j + 2 * n ∧ j < d + 2 then m (j + s - d) else m j := by
  induction n generalizing m d s with
  | zero => rw [moveDown, if_neg (by omega)]
  | succ n ih =>
    rw [moveDown]
    cases n with
    | zero =>
      rw [moveDown, move2_apply]
      split
      · rw [if_pos (by omega)]
        congr 1
        omega
      · rw [if_neg (by omega)]
    | succ n =>
      rw [ih _ (by omega) (by omega), move2_apply, move2_apply]
      by_cases hj : d - 2 + 2 ≤ j + 2 * (n + 1) ∧ j < d - 2 + 2
      · rw [if_pos hj, if_neg (by omega), if_pos (by omega)]
        congr 1
        omega
      · rw [if_neg hj]
        by_cases hd : d ≤ j ∧ j ≤ d + 1
        · rw [if_pos hd, if_pos (by omega)]
          congr 1
          omega
        · rw [if_neg hd, if_neg (by omega)]

theorem shiftIn_apply (m : Nat → V) (i n : Nat) (v : V) (j : Nat) :
    shiftIn m i n v j = if i ≤ j ∧ j < i + n then if j = i then v else m (j - 1) else m j := by
  induction n generalizing m i v with
  | zero => rw [shiftIn, if_neg (by omega)]
  | succ n ih =>
    rw [shiftIn, ih]
    by_cases hj : i + 1 ≤ j ∧ j < i + 1 + n
    · rw [if_pos hj, if_pos (show i ≤ j ∧ j < i + (n + 1) by omega), if_neg (show j ≠ i by omega)]
      by_cases e : j = i + 1
      · rw [if_pos e, e, Nat.add_sub_cancel]
      · rw [if_neg e, Function.update_of_ne (by omega)]
    · rw [if_neg hj]
      by_cases e : j = i
      · rw [e, Function.update_self, if_pos (by omega), if_pos rfl]
      · rw [Function.update_of_ne e, if_neg (by omega)]

theorem shiftOut_apply (m : Nat → V) (i n j : Nat) :
    shiftOut m i n j = if i ≤ j ∧ j < i + n then m (j + 1) else m j := by
  induction n generalizing m i with
  | zero => rw [shiftOut, if_neg (by omega)]
  | succ n ih =>
    rw [shiftOut, ih]
    by_cases hj : i + 1 ≤ j ∧ j < i + 1 + n
    · rw [if_pos hj, if_pos (by omega), Function.update_of_ne (by omega)]
    · rw [if_neg hj]
      by_cases e : j = i
      · rw [e, Function.update_self, if_pos (by omega)]
      · rw [Function.update_of_ne e, if_neg (by omega)]

end Block
