import Mathlib.Data.List.Basic
import Mathlib.Algebra.Order.Group.Nat
import Mathlib.Tactic.Ring

/-! Cutting a list into pieces of one size, the last one shorter. -/
namespace Kaos.Lib

variable {α : Type*} {size : ℕ} {xs : List α} {i : ℕ}

/-- How many pieces of `size` elements cover a list of `length` elements. -/
def pieceCount (size length : ℕ) : ℕ := (length + size - 1) / size

/-- The piece at position `i`. -/
def piece (size : ℕ) (xs : List α) (i : ℕ) : List α := (xs.drop (i * size)).take size

/-- All pieces in order. -/
def pieces (size : ℕ) (xs : List α) : List (List α) :=
  (List.range (pieceCount size xs.length)).map (piece size xs)

theorem lt_pieceCount (hs : 0 < size) {length : ℕ} :
    i < pieceCount size length ↔ i * size < length := by
  unfold pieceCount
  rw [Nat.lt_iff_add_one_le, Nat.le_div_iff_mul_le hs, Nat.add_mul]
  omega

theorem pieceCount_zero (hs : 0 < size) : pieceCount size 0 = 0 := by
  simp [pieceCount, hs]

theorem length_piece : (piece size xs i).length = min size (xs.length - i * size) := by
  simp [piece]

/-- Only the last piece is short. -/
theorem length_piece_of_succ_lt (hs : 0 < size) (h : i + 1 < pieceCount size xs.length) :
    (piece size xs i).length = size := by
  have := (lt_pieceCount hs).mp h
  rw [length_piece, Nat.min_eq_left]
  rw [Nat.add_mul, Nat.one_mul] at this
  omega

theorem length_piece_le : (piece size xs i).length ≤ size := by
  rw [length_piece]
  exact Nat.min_le_left _ _

/-- The first `n` pieces are the first `n * size` elements. -/
theorem flatten_take_pieces (n : ℕ) :
    ((List.range n).map (piece size xs)).flatten = xs.take (n * size) := by
  induction n with
  | zero => simp
  | succ n ih =>
    rw [List.range_succ, List.map_append, List.flatten_append, ih, Nat.add_mul, Nat.one_mul,
      List.take_add]
    simp [piece]

/-- No element is lost, repeated or moved. -/
theorem flatten_pieces (hs : 0 < size) : (pieces size xs).flatten = xs := by
  rw [pieces, flatten_take_pieces, List.take_of_length_le]
  refine Nat.le_of_not_lt fun h => ?_
  exact lt_irrefl _ ((lt_pieceCount hs).mpr h)

end Kaos.Lib
