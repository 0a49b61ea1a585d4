import Mathlib.Data.Nat.Notation
import Mathlib.Tactic.IntervalCases

/-!
# Byte-addressed memory

A memory holds a byte at each address. Programs read and write it in words of four bytes, least
significant byte first, and the addresses that they touch are recorded.

## Main results

* `Memory.setWord_swap`: a word whose bytes are written back in another order
-/

namespace Hdf

/-- The word with the given bytes, least significant first. -/
def ofBytes (b₀ b₁ b₂ b₃ : BitVec 8) : BitVec 32 :=
  b₀.setWidth 32 ||| b₁.setWidth 32 <<< 8 ||| b₂.setWidth 32 <<< 16 ||| b₃.setWidth 32 <<< 24

/-- A byte of a word. -/
def byte (w : BitVec 32) (j : ℕ) : BitVec 8 := w.extractLsb' (8 * j) 8

/-- The bytes at the addresses of a memory. -/
abbrev Memory := ℕ → BitVec 8

/-- A memory, and the addresses that have been read or written. -/
structure Traced where
  memory : Memory
  touched : List ℕ

section Bytes

variable (b₀ b₁ b₂ b₃ : BitVec 8)

theorem byte_zero_ofBytes : byte (ofBytes b₀ b₁ b₂ b₃) 0 = b₀ := by
  apply BitVec.eq_of_getLsbD_eq
  intro i lt
  interval_cases i <;> simp [byte, ofBytes]

theorem byte_one_ofBytes : byte (ofBytes b₀ b₁ b₂ b₃) 1 = b₁ := by
  apply BitVec.eq_of_getLsbD_eq
  intro i lt
  interval_cases i <;> simp [byte, ofBytes]

theorem byte_two_ofBytes : byte (ofBytes b₀ b₁ b₂ b₃) 2 = b₂ := by
  apply BitVec.eq_of_getLsbD_eq
  intro i lt
  interval_cases i <;> simp [byte, ofBytes]

theorem byte_three_ofBytes : byte (ofBytes b₀ b₁ b₂ b₃) 3 = b₃ := by
  apply BitVec.eq_of_getLsbD_eq
  intro i lt
  interval_cases i <;> simp [byte, ofBytes]

end Bytes

namespace Memory

variable {m : Memory} {a i size : ℕ} {place : ℕ → ℕ}

/-- The word at an address, least significant byte first. -/
def word (m : Memory) (a : ℕ) : BitVec 32 := ofBytes (m a) (m (a + 1)) (m (a + 2)) (m (a + 3))

/-- A memory in which a word has been written. -/
def setWord (m : Memory) (a : ℕ) (w : BitVec 32) : Memory := fun i =>
  if a ≤ i ∧ i < a + 4 then byte w (i - a) else m i

/-- The given number of bytes from an address on, each taken from another place among them. -/
def rearranged (m : Memory) (a size : ℕ) (place : ℕ → ℕ) : Memory := fun i =>
  if a ≤ i ∧ i < a + size then m (a + place (i - a)) else m i

theorem rearranged_add {j : ℕ} (inside : j < size) :
    m.rearranged a size place (a + j) = m (a + place j) := by
  have bounds : a ≤ a + j ∧ a + j < a + size := by omega
  rw [rearranged, if_pos bounds, Nat.add_sub_cancel_left]

theorem rearranged_of_lt (outside : i < a) : m.rearranged a size place i = m i :=
  if_neg fun inside => absurd inside.1 (Nat.not_le.mpr outside)

theorem rearranged_of_le (outside : a + size ≤ i) : m.rearranged a size place i = m i :=
  if_neg fun inside => absurd inside.2 (Nat.not_lt.mpr outside)

/-- A word whose bytes are written back in another order. -/
theorem setWord_swap {swap : BitVec 32 → BitVec 32} (place : ℕ → ℕ)
    (swaps : ∀ b : ℕ → BitVec 8, swap (ofBytes (b 0) (b 1) (b 2) (b 3)) =
      ofBytes (b (place 0)) (b (place 1)) (b (place 2)) (b (place 3))) :
    m.setWord a (swap (m.word a)) = m.rearranged a 4 place := by
  have written := swaps fun j => m (a + j)
  rw [Nat.add_zero] at written
  funext i
  rw [setWord, rearranged, word, written]
  refine ite_congr rfl (fun inside => ?_) fun _ => rfl
  obtain ⟨j, rfl⟩ := Nat.exists_eq_add_of_le inside.1
  have lt : j < 4 := by omega
  rw [Nat.add_sub_cancel_left]
  -- one byte of the word after the other
  interval_cases j
  · exact byte_zero_ofBytes ..
  · exact byte_one_ofBytes ..
  · exact byte_two_ofBytes ..
  · exact byte_three_ofBytes ..

/-- Only the bytes that change place matter. -/
theorem rearranged_of_fixed {size' : ℕ} (le : size ≤ size')
    (fixed : ∀ j, size ≤ j → j < size' → place j = j) :
    m.rearranged a size' place = m.rearranged a size place := by
  funext i
  by_cases before : i < a
  · rw [rearranged_of_lt before, rearranged_of_lt before]
  obtain ⟨j, rfl⟩ := Nat.exists_eq_add_of_le (Nat.not_lt.mp before)
  by_cases inside : j < size
  · rw [rearranged_add inside, rearranged_add (inside.trans_le le)]
  by_cases between : j < size'
  · rw [rearranged_add between, fixed j (Nat.not_lt.mp inside) between,
      rearranged_of_le (by omega)]
  · rw [rearranged_of_le (by omega), rearranged_of_le (by omega)]

end Memory

/-- A word is read, changed and written back. -/
def Traced.modify (t : Traced) (a : ℕ) (f : BitVec 32 → BitVec 32) : Traced where
  memory := t.memory.setWord a (f (t.memory.word a))
  touched := t.touched ++ [a, a + 1, a + 2, a + 3]

@[simp] theorem Traced.memory_modify {t : Traced} {a : ℕ} {f : BitVec 32 → BitVec 32} :
    (t.modify a f).memory = t.memory.setWord a (f (t.memory.word a)) := rfl

theorem Traced.mem_touched_modify {t : Traced} {a i : ℕ} {f : BitVec 32 → BitVec 32} :
    i ∈ (t.modify a f).touched ↔ i ∈ t.touched ∨ a ≤ i ∧ i < a + 4 := by
  have word : i ∈ [a, a + 1, a + 2, a + 3] ↔ a ≤ i ∧ i < a + 4 := by
    simp only [List.mem_cons, List.not_mem_nil, or_false]
    omega
  rw [modify, List.mem_append, word]

end Hdf
