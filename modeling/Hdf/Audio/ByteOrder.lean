import Hdf.Lib.ByteMemory
import Mathlib.Algebra.Order.Ring.Nat

/-!
# Changing the byte order of samples

The samples of a buffer are reversed in place. The code reads and writes words of four bytes: two
samples of 16 bits at a time, or a sample of 24 bits with the byte that follows it. What a buffer
is followed by is part of the memory.

## Main results

* `convert_block`, `convert_behind`, `mem_touched_convert`: what a loop over the words does
* `reversesSamples_iff`: samples of 8 bits, no samples at all, or an even number of 16 bits
-/

namespace Hdf.Audio

/-- `enum DataBitWidth`. -/
inductive DataBitWidth where
  | width8 | width16 | width18 | width20 | width24 | width32
  deriving DecidableEq, Repr

/-- The first and the third byte of a word are swapped. -/
def swapSample (w : BitVec 32) : BitVec 32 :=
  ((w >>> 0x10) &&& 0x000000FF#32) ||| (w &&& 0xFF00FF00#32) ||| ((w <<< 0x10) &&& 0x00FF0000#32)

/-- The first and the second byte of a word are swapped, and the third and the fourth. -/
def swapSamples (w : BitVec 32) : BitVec 32 :=
  ((w <<< 0x08) &&& 0xFF00FF00#32) ||| ((w >>> 0x08) &&& 0x00FF00FF#32)

/-- The words from an index on, in steps of the given size, up to the end of the buffer. -/
def convert (framesize : ℕ) [NeZero framesize] (swap : BitVec 32 → BitVec 32) (audioLen i : ℕ)
    (t : Traced) : Traced :=
  if i < audioLen then convert framesize swap audioLen (i + framesize) (t.modify i swap) else t
  termination_by audioLen - i
  decreasing_by
    have positive := NeZero.pos framesize
    omega

local instance neZero_three : NeZero 3 := ⟨by decide⟩

local instance neZero_four : NeZero 4 := ⟨by decide⟩

/-- `AudioDataBigEndianChange`: the memory from the start of the buffer on, and the indices that
have been read or written. -/
def audioDataBigEndianChange (srcData : Memory) (audioLen : UInt32) (bitWidth : DataBitWidth) :
    Traced :=
  match bitWidth with
  | .width8 => ⟨srcData, []⟩
  | .width24 => convert 3 swapSample audioLen.toNat 0 ⟨srcData, []⟩
  | _ => convert 4 swapSamples audioLen.toNat 0 ⟨srcData, []⟩

/-- The bytes of a sample. -/
def DataBitWidth.bytes : DataBitWidth → ℕ
  | .width8 => 1
  | .width16 => 2
  | .width18 | .width20 | .width24 => 3
  | .width32 => 4

/-- The samples of a buffer are reversed, nothing behind them is touched, and reversing them again
gives the buffer back. -/
structure ReversesSamples (srcData : Memory) (audioLen : UInt32) (bitWidth : DataBitWidth) :
    Prop where
  reversed : ∀ k j, bitWidth.bytes * (k + 1) ≤ audioLen.toNat → j < bitWidth.bytes →
    (audioDataBigEndianChange srcData audioLen bitWidth).memory (bitWidth.bytes * k + j) =
      srcData (bitWidth.bytes * k + (bitWidth.bytes - 1 - j))
  confined : ∀ i ∈ (audioDataBigEndianChange srcData audioLen bitWidth).touched,
    i < audioLen.toNat
  involutive : (audioDataBigEndianChange
    (audioDataBigEndianChange srcData audioLen bitWidth).memory audioLen bitWidth).memory = srcData

/-! ### The words of a buffer -/

/-- Where the bytes of a sample of 24 bits come from. -/
def samplePlace (j : ℕ) : ℕ := 2 - j

/-- Where the bytes of two samples of 16 bits come from. -/
def samplesPlace (j : ℕ) : ℕ := j / 2 * 2 + (1 - j % 2)

theorem setWord_swapSample (m : Memory) (a : ℕ) :
    m.setWord a (swapSample (m.word a)) = m.rearranged a 3 samplePlace := by
  have word : m.setWord a (swapSample (m.word a)) =
      m.rearranged a 4 fun j => if j < 3 then samplePlace j else j := by
    apply Memory.setWord_swap
    intro b
    apply BitVec.eq_of_getLsbD_eq
    intro i lt
    interval_cases i <;> simp [swapSample, samplePlace, ofBytes]
  rw [word, Memory.rearranged_of_fixed (show 3 ≤ 4 by decide)]
  · funext i
    rw [Memory.rearranged, Memory.rearranged]
    refine ite_congr rfl (fun inside => ?_) fun _ => rfl
    have lt : i - a < 3 := by omega
    rw [if_pos lt]
  · intro j le _
    exact if_neg (Nat.not_lt.mpr le)

theorem setWord_swapSamples (m : Memory) (a : ℕ) :
    m.setWord a (swapSamples (m.word a)) = m.rearranged a 4 samplesPlace := by
  apply Memory.setWord_swap
  intro b
  apply BitVec.eq_of_getLsbD_eq
  intro i lt
  interval_cases i <;> simp [swapSamples, samplesPlace, ofBytes]

section Convert

variable {framesize audioLen i j k : ℕ} [NeZero framesize] {swap : BitVec 32 → BitVec 32}
  {place : ℕ → ℕ} {t : Traced}

theorem convert_of_lt (lt : i < audioLen) : convert framesize swap audioLen i t =
    convert framesize swap audioLen (i + framesize) (t.modify i swap) := by
  rw [convert, if_pos lt]

theorem convert_of_le (le : audioLen ≤ i) : convert framesize swap audioLen i t = t := by
  rw [convert, if_neg (Nat.not_lt.mpr le)]

/-- What is in front of the index stays as it is. -/
theorem convert_before
    (moves : ∀ (m : Memory) a, m.setWord a (swap (m.word a)) = m.rearranged a framesize place)
    (before : j < i) : (convert framesize swap audioLen i t).memory j = t.memory j := by
  induction i, t using convert.induct framesize swap audioLen with
  | case1 i t lt ih =>
    rw [convert_of_lt lt, ih (by omega), Traced.memory_modify, moves,
      Memory.rearranged_of_lt before]
  | case2 i t le => rw [convert_of_le (Nat.not_lt.mp le)]

/-- Each step rearranges the bytes up to the next one. -/
theorem convert_block
    (moves : ∀ (m : Memory) a, m.setWord a (swap (m.word a)) = m.rearranged a framesize place)
    (reached : i + framesize * k < audioLen) (inside : j < framesize) :
    (convert framesize swap audioLen i t).memory (i + framesize * k + j) =
      t.memory (i + framesize * k + place j) := by
  induction k generalizing i t with
  | zero =>
    rw [convert_of_lt (by omega), convert_before moves (by omega), Traced.memory_modify, moves]
    exact Memory.rearranged_add inside
  | succ k ih =>
    have next : i + framesize * (k + 1) = i + framesize + framesize * k := by
      rw [Nat.mul_succ]
      omega
    rw [next] at reached ⊢
    rw [convert_of_lt (by omega), ih reached, Traced.memory_modify, moves,
      Memory.rearranged_of_le (by omega)]

/-- What is behind the last step stays as it is. -/
theorem convert_behind
    (moves : ∀ (m : Memory) a, m.setWord a (swap (m.word a)) = m.rearranged a framesize place)
    (behind : ∀ k, i + framesize * k < audioLen → i + framesize * (k + 1) ≤ j) :
    (convert framesize swap audioLen i t).memory j = t.memory j := by
  induction i, t using convert.induct framesize swap audioLen with
  | case1 i t lt ih =>
    rw [convert_of_lt lt, ih, Traced.memory_modify, moves]
    · have first := behind 0 (by omega)
      exact Memory.rearranged_of_le (by omega)
    · intro k reached
      have later := behind (k + 1)
      simp only [Nat.mul_succ] at later ⊢
      omega
  | case2 i t le => rw [convert_of_le (Nat.not_lt.mp le)]

/-- What is touched: four bytes from each step on. -/
theorem mem_touched_convert : j ∈ (convert framesize swap audioLen i t).touched ↔
    j ∈ t.touched ∨ ∃ k, i + framesize * k < audioLen ∧
      i + framesize * k ≤ j ∧ j < i + framesize * k + 4 := by
  induction i, t using convert.induct framesize swap audioLen with
  | case1 i t lt ih =>
    rw [convert_of_lt lt, ih, Traced.mem_touched_modify, or_assoc]
    refine or_congr_right ⟨?_, ?_⟩
    · rintro (here | ⟨k, reached, there⟩)
      · exact ⟨0, by omega⟩
      · refine ⟨k + 1, ?_⟩
        rw [Nat.mul_succ]
        omega
    · rintro ⟨_ | k, reached, there⟩
      · exact .inl (by omega)
      · rw [Nat.mul_succ] at reached there
        exact .inr ⟨k, by omega⟩
  | case2 i t le =>
    rw [convert_of_le (Nat.not_lt.mp le)]
    refine (or_iff_left ?_).symm
    rintro ⟨k, reached, _⟩
    omega

/-- Rearranging the bytes of the steps twice gives the memory back. -/
theorem convert_convert {m : Memory}
    (moves : ∀ (m : Memory) a, m.setWord a (swap (m.word a)) = m.rearranged a framesize place)
    (stays : ∀ j < framesize, place j < framesize)
    (swaps : ∀ j < framesize, place (place j) = j) :
    (convert framesize swap audioLen 0
      ⟨(convert framesize swap audioLen 0 ⟨m, []⟩).memory, []⟩).memory = m := by
  funext x
  have positive := NeZero.pos framesize
  by_cases reached : framesize * (x / framesize) < audioLen
  · have lt := Nat.mod_lt x positive
    have split : x = 0 + framesize * (x / framesize) + x % framesize := by
      rw [Nat.zero_add, Nat.div_add_mod]
    rw [← Nat.zero_add (framesize * _)] at reached
    rw [split, convert_block moves reached lt,
      convert_block moves reached (stays _ lt), swaps _ lt]
  · have behind : ∀ k, 0 + framesize * k < audioLen → 0 + framesize * (k + 1) ≤ x := by
      intro k lt
      rw [Nat.zero_add] at lt ⊢
      have below : k < x / framesize := by
        by_contra le
        exact reached (lt.trans_le' (Nat.mul_le_mul_left _ (Nat.not_lt.mp le)))
      exact (Nat.mul_le_mul_left _ below).trans (Nat.mul_div_le x framesize)
    rw [convert_behind moves behind, convert_behind moves behind]

end Convert

/-! ### Samples -/

variable {srcData : Memory} {audioLen : UInt32}

theorem reversesSamples_width8 : ReversesSamples srcData audioLen .width8 where
  reversed := by
    intro k j _ inside
    have zero : j = 0 := Nat.lt_one_iff.mp inside
    rw [zero]
    rfl
  confined := by
    intro i touched
    cases touched
  involutive := rfl

/-- The byte behind the last sample of 24 bits is touched. -/
theorem reversesSamples_width24 (whole : 3 ∣ audioLen.toNat) :
    ReversesSamples srcData audioLen .width24 ↔ audioLen.toNat = 0 := by
  have stays : ∀ j < 3, samplePlace j < 3 := by decide
  have swaps : ∀ j < 3, samplePlace (samplePlace j) = j := by decide
  constructor
  · intro reverses
    by_contra some
    obtain ⟨samples, length⟩ := whole
    have last : audioLen.toNat ∈
        (audioDataBigEndianChange srcData audioLen .width24).touched :=
      mem_touched_convert.mpr (.inr ⟨samples - 1, by omega⟩)
    exact lt_irrefl _ (reverses.confined _ last)
  · intro none
    refine ⟨fun k j inside lt => ?_, fun i touched => ?_, ?_⟩
    · have reached : 0 + 3 * k < audioLen.toNat := by
        simp only [DataBitWidth.bytes] at inside
        omega
      have moved := convert_block (t := ⟨srcData, []⟩) setWord_swapSample reached lt
      rwa [Nat.zero_add] at moved
    · obtain nothing | ⟨k, reached, _⟩ := mem_touched_convert.mp touched
      · cases nothing
      · omega
    · exact convert_convert setWord_swapSample stays swaps

/-- Two bytes behind an odd number of samples of 16 bits are touched. -/
theorem reversesSamples_width16 (whole : 2 ∣ audioLen.toNat) :
    ReversesSamples srcData audioLen .width16 ↔ 4 ∣ audioLen.toNat := by
  have stays : ∀ j < 4, samplesPlace j < 4 := by decide
  have swaps : ∀ j < 4, samplesPlace (samplesPlace j) = j := by decide
  constructor
  · intro reverses
    by_contra odd
    have last : audioLen.toNat ∈
        (audioDataBigEndianChange srcData audioLen .width16).touched :=
      mem_touched_convert.mpr (.inr ⟨audioLen.toNat / 4, by omega⟩)
    exact lt_irrefl _ (reverses.confined _ last)
  · intro even
    refine ⟨fun k j inside lt => ?_, fun i touched => ?_, ?_⟩
    · simp only [DataBitWidth.bytes] at inside lt ⊢
      -- the word of the sample, and where the sample is in it
      have reached : 0 + 4 * (k / 2) < audioLen.toNat := by omega
      have moved := convert_block (j := k % 2 * 2 + j) (t := ⟨srcData, []⟩)
        setWord_swapSamples reached (by omega)
      have byte : 0 + 4 * (k / 2) + (k % 2 * 2 + j) = 2 * k + j := by omega
      have source : 0 + 4 * (k / 2) + samplesPlace (k % 2 * 2 + j) = 2 * k + (2 - 1 - j) := by
        rw [samplesPlace]
        omega
      rwa [byte, source] at moved
    · obtain nothing | ⟨k, reached, _⟩ := mem_touched_convert.mp touched
      · cases nothing
      · omega
    · exact convert_convert setWord_swapSamples stays swaps

/-- Samples of 8, 16 or 24 bits are reversed and nothing else happens exactly when they are of
8 bits, an even number of samples of 16 bits, or none at all. -/
theorem reversesSamples_iff {bitWidth : DataBitWidth}
    (given : bitWidth = .width8 ∨ bitWidth = .width16 ∨ bitWidth = .width24)
    (whole : bitWidth.bytes ∣ audioLen.toNat) :
    ReversesSamples srcData audioLen bitWidth ↔
      bitWidth = .width8 ∨ bitWidth = .width16 ∧ 4 ∣ audioLen.toNat ∨ audioLen.toNat = 0 := by
  obtain rfl | rfl | rfl := given
  · exact iff_of_true reversesSamples_width8 (.inl rfl)
  · rw [reversesSamples_width16 whole]
    constructor
    · exact fun even => .inr (.inl ⟨rfl, even⟩)
    · rintro (other | ⟨_, even⟩ | none)
      · cases other
      · exact even
      · exact none ▸ Nat.dvd_zero 4
  · rw [reversesSamples_width24 whole]
    constructor
    · exact fun none => .inr (.inr none)
    · rintro (other | ⟨other, _⟩ | none)
      · cases other
      · cases other
      · exact none

/-- Two samples of 16 bits in front of other data. -/
theorem reversesSamples_iff_two : ReversesSamples (BitVec.ofNat 8) 4 .width16 ↔
    DataBitWidth.width16 = .width8 ∨ DataBitWidth.width16 = .width16 ∧ 4 ∣ (4 : UInt32).toNat ∨
      (4 : UInt32).toNat = 0 :=
  reversesSamples_iff (.inr (.inl rfl)) (by decide)

/-- A single sample of 16 bits: the two bytes behind it are swapped as well. -/
theorem single_sample_swaps_behind : ¬ ReversesSamples (BitVec.ofNat 8) 2 .width16 := by
  intro reverses
  have touched : 2 ∈ (audioDataBigEndianChange (BitVec.ofNat 8) 2 .width16).touched :=
    mem_touched_convert.mpr (.inr ⟨0, by decide⟩)
  exact absurd (reverses.confined 2 touched) (by decide)

end Hdf.Audio
