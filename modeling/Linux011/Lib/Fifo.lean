/-
A queue in a ring of `N` places, between a head, where characters are put, and a tail, where they are taken. A place is
always left free, so that a full ring and an empty one differ.

As long as nothing is put into a full ring and nothing is taken from an empty one, it is a list.
-/
import Mathlib.Logic.Function.Basic
import Mathlib.Data.List.Basic
import Mathlib.Tactic.Common

/-- A ring and its two ends. -/
structure Fifo (N : Nat) (V : Type*) where
  buf : Nat → V
  head : Nat
  tail : Nat
  head_lt : head < N
  tail_lt : tail < N

namespace Fifo

variable {N : Nat} {V : Type*}

theorem mod_lt_size (q : Fifo N V) (i : Nat) : i % N < N :=
  Nat.mod_lt _ (Nat.lt_of_le_of_lt (Nat.zero_le _) q.head_lt)

variable (q : Fifo N V)

/-- How many characters there are. -/
def chars : Nat := (q.head + N - q.tail) % N

/-- How many more may be put. -/
def left : Nat := (q.tail + N - q.head - 1) % N

def putch (c : V) : Fifo N V :=
  { q with buf := Function.update q.buf q.head c, head := (q.head + 1) % N, head_lt := q.mod_lt_size _ }

/-- The next one to be taken. -/
def first : V := q.buf q.tail

def getch : Fifo N V := { q with tail := (q.tail + 1) % N, tail_lt := q.mod_lt_size _ }

/-- The one put last. -/
def last : V := q.buf ((q.head + N - 1) % N)

/-- The one put last is taken back. -/
def dec : Fifo N V := { q with head := (q.head + N - 1) % N, head_lt := q.mod_lt_size _ }

/-- What there is, the next one first. -/
def list : List V := (List.range q.chars).map fun i => q.buf ((q.tail + i) % N)

@[simp] theorem length_list : q.list.length = q.chars := by rw [list, List.length_map, List.length_range]

theorem chars_eq : q.chars = if q.tail ≤ q.head then q.head - q.tail else q.head + N - q.tail := by
  have := q.head_lt
  have := q.tail_lt
  unfold chars
  split
  · rw [show q.head + N - q.tail = q.head - q.tail + N by omega, Nat.add_mod_right, Nat.mod_eq_of_lt (by omega)]
  · exact Nat.mod_eq_of_lt (by omega)

theorem left_eq : q.left = N - 1 - q.chars := by
  have := q.head_lt
  have := q.tail_lt
  rw [chars_eq]
  unfold left
  split
  · by_cases h : q.tail = q.head
    · rw [Nat.mod_eq_of_lt (by omega)]
      omega
    · rw [Nat.mod_eq_of_lt (by omega)]
      omega
  · rw [show q.tail + N - q.head - 1 = q.tail - q.head - 1 + N by omega, Nat.add_mod_right, Nat.mod_eq_of_lt (by omega)]
    omega

theorem chars_lt : q.chars < N := q.mod_lt_size _

theorem chars_add_left : q.chars + q.left = N - 1 := by
  have := q.chars_lt
  rw [left_eq]
  omega

theorem succ_mod {i : Nat} (h : i < N) : (i + 1) % N = if i + 1 = N then 0 else i + 1 := by
  split
  · rename_i e
    rw [e, Nat.mod_self]
  · exact Nat.mod_eq_of_lt (by omega)

theorem pred_mod {i : Nat} (h : i < N) : (i + N - 1) % N = if i = 0 then N - 1 else i - 1 := by
  split
  · rename_i e
    rw [e, Nat.zero_add, Nat.mod_eq_of_lt (by omega)]
  · rw [show i + N - 1 = i - 1 + N by omega, Nat.add_mod_right, Nat.mod_eq_of_lt (by omega)]

theorem add_mod {i j : Nat} (hi : i < N) (hj : j < N) : (i + j) % N = if i + j < N then i + j else i + j - N := by
  split
  · exact Nat.mod_eq_of_lt ‹_›
  · rw [Nat.mod_eq_sub_mod (by omega), Nat.mod_eq_of_lt (by omega)]

theorem chars_putch (c : V) (h : 0 < q.left) : (q.putch c).chars = q.chars + 1 := by
  have hh := q.head_lt
  have ht := q.tail_lt
  rw [left_eq] at h
  rw [chars_eq] at h ⊢
  have := succ_mod hh
  rw [chars_eq]
  show (if q.tail ≤ (q.head + 1) % N then (q.head + 1) % N - q.tail else (q.head + 1) % N + N - q.tail) = _
  rw [this]
  split at h <;> split <;> split <;> omega

/-- A full ring that is put into is empty. -/
theorem chars_putch_full (c : V) (h : q.left = 0) : (q.putch c).chars = 0 := by
  have hh := q.head_lt
  have ht := q.tail_lt
  rw [left_eq] at h
  rw [chars_eq] at h ⊢
  show (if q.tail ≤ (q.head + 1) % N then (q.head + 1) % N - q.tail else (q.head + 1) % N + N - q.tail) = _
  rw [succ_mod hh]
  split at h <;> split <;> split <;> omega

theorem chars_getch (h : 0 < q.chars) : q.getch.chars + 1 = q.chars := by
  have hh := q.head_lt
  have ht := q.tail_lt
  rw [chars_eq] at h ⊢
  rw [chars_eq]
  show (if (q.tail + 1) % N ≤ q.head then q.head - (q.tail + 1) % N else q.head + N - (q.tail + 1) % N) + 1 = _
  rw [succ_mod ht]
  split at h <;> split <;> split <;> omega

theorem chars_dec (h : 0 < q.chars) : q.dec.chars + 1 = q.chars := by
  have hh := q.head_lt
  have ht := q.tail_lt
  rw [chars_eq] at h ⊢
  rw [chars_eq]
  show (if q.tail ≤ (q.head + N - 1) % N then (q.head + N - 1) % N - q.tail else (q.head + N - 1) % N + N - q.tail) + 1 = _
  rw [pred_mod hh]
  split at h <;> split <;> split <;> omega

/-- The places in use are not the one at the head. -/
theorem place_ne_head {i : Nat} (h : i < q.chars) : (q.tail + i) % N ≠ q.head := by
  have hh := q.head_lt
  have ht := q.tail_lt
  have hlt := q.chars_lt
  rw [add_mod ht (by omega)]
  rw [chars_eq] at h
  split at h <;> split <;> omega

/-- The place after those in use is the one at the head. -/
theorem place_chars : (q.tail + q.chars) % N = q.head := by
  have hh := q.head_lt
  have ht := q.tail_lt
  rw [add_mod ht q.chars_lt, chars_eq]
  split <;> split <;> omega

theorem list_putch (c : V) (h : 0 < q.left) : (q.putch c).list = q.list ++ [c] := by
  unfold list
  rw [chars_putch q c h, List.range_succ, List.map_append]
  congr 1
  · refine List.map_congr_left fun i hi => ?_
    rw [List.mem_range] at hi
    exact Function.update_of_ne (q.place_ne_head hi) _ _
  · show [Function.update q.buf q.head c ((q.tail + q.chars) % N)] = [c]
    rw [place_chars, Function.update_self]

theorem list_getch (h : 0 < q.chars) : q.list = q.first :: q.getch.list := by
  unfold list
  rw [← chars_getch q h, List.range_succ_eq_map, List.map_cons, List.map_map]
  congr 1
  · show q.buf ((q.tail + 0) % N) = q.buf q.tail
    rw [Nat.add_zero, Nat.mod_eq_of_lt q.tail_lt]
  · refine List.map_congr_left fun i _ => ?_
    show q.buf ((q.tail + (i + 1)) % N) = q.buf (((q.tail + 1) % N + i) % N)
    rw [Nat.mod_add_mod, Nat.add_right_comm, Nat.add_assoc]

theorem list_dec (h : 0 < q.chars) : q.list = q.dec.list ++ [q.last] := by
  have hh := q.head_lt
  have hN : 0 < N := by omega
  unfold list
  rw [← chars_dec q h, List.range_succ, List.map_append]
  congr 1
  show [q.buf ((q.tail + q.dec.chars) % N)] = [q.buf ((q.head + N - 1) % N)]
  rw [show (q.tail + q.dec.chars) % N = (q.head + N - 1) % N from q.dec.place_chars]

theorem list_eq_nil (h : q.chars = 0) : q.list = [] := by
  rw [← List.length_eq_zero_iff, length_list, h]

end Fifo
