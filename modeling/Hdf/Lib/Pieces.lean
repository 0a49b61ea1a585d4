import Mathlib.Algebra.BigOperators.Group.List.Basic
import Mathlib.Algebra.Order.Ring.Nat
import Mathlib.Data.Nat.Notation
import Mathlib.Order.MinMax

/-!
# Cutting a range into pieces

A long request is cut into pieces of a given size, the last of which may be shorter. The
pieces follow each other, and there is always one, which may be empty.

## Main results

* `pieceCount_of_lt`, `piece_succ`: taking off the first piece
* `piece_of_lt`, `piece_last`: the pieces are full, and the last one ends with the range
* `tiles_pieces`: the pieces cover the range
-/

namespace Hdf

/-- How many pieces a range of `n` is cut into. -/
def pieceCount (size n : ℕ) : ℕ := (n - 1) / size + 1

/-- The length of the piece with an index. -/
def piece (size n k : ℕ) : ℕ := min size (n - k * size)

variable {size n k : ℕ}

theorem pieceCount_of_le (le : n ≤ size) (positive : 0 < size) : pieceCount size n = 1 := by
  rw [pieceCount, Nat.div_eq_of_lt (by omega)]

/-- Taking off the first piece. -/
theorem pieceCount_of_lt (lt : size < n) (positive : 0 < size) :
    pieceCount size n = pieceCount size (n - size) + 1 := by
  have rest : n - 1 = n - size - 1 + size := by omega
  rw [pieceCount, pieceCount, rest, Nat.add_div_right _ positive]

theorem piece_zero : piece size n 0 = min size n := by
  rw [piece, Nat.zero_mul, Nat.sub_zero]

theorem piece_succ : piece size n (k + 1) = piece size (n - size) k := by
  rw [piece, piece, Nat.succ_mul, Nat.add_comm, Nat.sub_add_eq]

theorem piece_le (size n k : ℕ) : piece size n k ≤ size := Nat.min_le_left ..

/-- A place in the range is in a piece. -/
theorem exists_piece (positive : 0 < size) {i : ℕ} (inside : i < n) :
    ∃ k < pieceCount size n, k * size ≤ i ∧ i < k * size + piece size n k := by
  refine ⟨i / size, ?_, Nat.div_mul_le_self i size, ?_⟩
  · rw [pieceCount, Nat.lt_succ_iff]
    exact Nat.div_le_div_right (Nat.le_sub_one_of_lt inside)
  · have offset := Nat.mod_lt i positive
    have divided := Nat.div_add_mod' i size
    rw [piece]
    omega

/-- All pieces but the last one are full. -/
theorem piece_of_lt (positive : 0 < size) (lt : k + 1 < pieceCount size n) :
    piece size n k = size := by
  have below : (k + 1) * size ≤ n - 1 := (Nat.le_div_iff_mul_le positive).mp (Nat.le_of_lt_succ lt)
  rw [Nat.succ_mul] at below
  rw [piece]
  omega

/-- The last piece ends where the range ends. -/
theorem piece_last (positive : 0 < size) (last : k + 1 = pieceCount size n) :
    k * size + piece size n k = n := by
  have same : k = (n - 1) / size := Nat.succ.inj last
  have above : k * size ≤ n - 1 := by
    rw [same]
    exact Nat.div_mul_le_self ..
  have below : n - 1 < k * size + size := by
    rw [same, ← Nat.succ_mul, Nat.mul_comm]
    exact Nat.lt_mul_div_succ _ positive
  rw [piece]
  omega

variable {space a : ℕ} {ranges : List (ℕ × ℕ)}

theorem mul_lt_of_lt_pieceCount (nonempty : 0 < n) (lt : k < pieceCount size n) : k * size < n := by
  have below : k * size ≤ n - 1 :=
    (Nat.mul_le_mul_right size (Nat.le_of_lt_succ lt)).trans (Nat.div_mul_le_self _ _)
  omega

/-! ### Ranges that follow each other -/

/-- Ranges, given by their starts and lengths, that follow each other and cover a range from an
address on. Addresses are taken modulo the size of their space. -/
def Tiles (space : ℕ) : ℕ → ℕ → List (ℕ × ℕ) → Prop
  | _, n, [] => n = 0
  | a, n, (start, length) :: rest =>
    start = a % space ∧ 0 < length ∧ length ≤ n ∧ Tiles space (a + length) (n - length) rest

/-- The lengths of the ranges add up. -/
theorem Tiles.sum_eq (tiles : Tiles space a n ranges) : (ranges.map Prod.snd).sum = n := by
  induction ranges generalizing a n with
  | nil => exact tiles.symm
  | cons range ranges ih =>
    obtain ⟨-, -, le, rest⟩ := tiles
    rw [List.map_cons, List.sum_cons, ih rest]
    exact Nat.add_sub_cancel' le

theorem tiles_singleton (positive : 0 < n) : Tiles space a n [(a % space, n)] :=
  ⟨rfl, positive, Nat.le_refl n, Nat.sub_self n⟩

/-- Nothing is covered by nothing, wherever it is. -/
theorem Tiles.moved (tiles : Tiles space a 0 ranges) (b : ℕ) : Tiles space b 0 ranges := by
  cases ranges with
  | nil => rfl
  | cons range ranges => exact absurd (Nat.lt_of_lt_of_le tiles.2.1 tiles.2.2.1) (Nat.lt_irrefl 0)

/-- The pieces of a range cover it. -/
theorem tiles_pieces (positive : 0 < size) (nonempty : 0 < n) (space a : ℕ) {left : ℕ}
    (all : k + (left + 1) = pieceCount size n) :
    Tiles space (a + k * size) (n - k * size)
      ((List.range' k (left + 1)).map fun i => ((a + i * size) % space, piece size n i)) := by
  have inside : k * size < n := mul_lt_of_lt_pieceCount nonempty (by omega)
  have some : 0 < piece size n k := Nat.lt_min.mpr ⟨positive, Nat.sub_pos_of_lt inside⟩
  have fits : piece size n k ≤ n - k * size := Nat.min_le_right ..
  induction left generalizing k with
  | zero =>
    have last := piece_last positive all
    refine ⟨rfl, some, fits, ?_⟩
    show n - k * size - piece size n k = 0
    omega
  | succ left ih =>
    have full : piece size n k = size := piece_of_lt positive (by omega)
    have inside' : (k + 1) * size < n := mul_lt_of_lt_pieceCount nonempty (by omega)
    have some' : 0 < piece size n (k + 1) := Nat.lt_min.mpr ⟨positive, Nat.sub_pos_of_lt inside'⟩
    have rest : Tiles space (a + (k + 1) * size) (n - (k + 1) * size)
        ((List.range' (k + 1) (left + 1)).map fun i => ((a + i * size) % space, piece size n i)) :=
      ih (by omega) inside' some' (Nat.min_le_right ..)
    rw [Nat.succ_mul, ← Nat.add_assoc, Nat.sub_add_eq] at rest
    rw [List.range'_succ, List.map_cons]
    exact ⟨rfl, some, fits, full.symm ▸ rest⟩

theorem tiles_range_pieces (positive : 0 < size) (nonempty : 0 < n) (space a : ℕ) :
    Tiles space a n
      ((List.range (pieceCount size n)).map fun i => ((a + i * size) % space, piece size n i)) := by
  have all : 0 + ((n - 1) / size + 1) = pieceCount size n := Nat.zero_add _
  have tiles := tiles_pieces positive nonempty space a all
  rw [Nat.zero_mul, Nat.add_zero, Nat.sub_zero] at tiles
  rw [List.range_eq_range']
  exact tiles

theorem piece_pos (positive : 0 < size) (nonempty : 0 < n) (lt : k < pieceCount size n) :
    0 < piece size n k :=
  Nat.lt_min.mpr ⟨positive, Nat.sub_pos_of_lt (mul_lt_of_lt_pieceCount nonempty lt)⟩

end Hdf
