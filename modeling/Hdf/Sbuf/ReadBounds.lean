import Hdf.Sbuf.Accesses

/-!
# Reads inside the written data

`SbufRawImplReadBuffer` and `SbufRawImplReadString` take a length from the data,
convert it to `size_t`, round it up to a multiple of four and compare the result
with what is left. For the lengths -3, -2 and -1 the rounding wraps around to
zero, so that the comparison succeeds; a string has no such length, because its
length is compared with zero first.

## Main results

* `readsInside_iff`: exactly the lengths that wrap around break this
* `read_outside`: an sbuf of four bytes that returns a buffer of 4 GiB
-/

namespace Hdf.Sbuf

/-- The bytes that are returned lie between the length word and the write position. -/
structure ReadsInside (sbuf : HdfSBufRaw) (data : Block) : Prop where
  buffer : ∀ found sbuf', readBuffer sbuf = some (some found, sbuf') →
    (∀ p, found.data = some p → sbuf.readPos + 4 ≤ p ∧ p + found.readSize ≤ sbuf.writePos) ∧
      sbuf'.readPos ≤ sbuf.writePos
  string : ∀ p sbuf', readString sbuf = some (some p, sbuf') →
    (sbuf.readPos + 4 ≤ p ∧ p + (lengthWord data sbuf.readPos).toInt.toNat ≤ sbuf.writePos) ∧
      sbuf'.readPos ≤ sbuf.writePos

/-- The length at the read position is -3, -2 or -1, and as a number without sign
it is more than there is. -/
def Wraps (sbuf : HdfSBufRaw) (data : Block) : Prop :=
  sbuf.readPos + 4 ≤ sbuf.writePos ∧
    -3 ≤ (lengthWord data sbuf.readPos).toInt ∧ (lengthWord data sbuf.readPos).toInt < 0 ∧
    sbuf.writePos < sbuf.readPos + 4 + (lengthWord data sbuf.readPos).toUInt32.toNat

section

variable {sbuf : HdfSBufRaw} {data : Block}

/-- The number without sign that a length stands for. -/
theorem toNat_toUInt32 (n : Int32) : (n.toUInt32.toNat : ℤ) = n.toInt % 2 ^ 32 := by
  change (n.toBitVec.toNat : ℤ) = n.toBitVec.toInt % 2 ^ 32
  rw [BitVec.toInt_eq_toNat_cond]
  have := n.toBitVec.isLt
  split <;> omega

theorem alignSize_length (n : Int32) :
    getAlignSize (sizeOfInt n) = ((n.toInt % 2 ^ 64).toNat + 3) % 2 ^ 64 / 4 * 4 := by
  rw [getAlignSize_eq, sizeOfInt]

/-- What is found in an sbuf lies inside the written data exactly when the length
at the read position does not wrap around. -/
theorem readsInside_iff (wf : WellFormed sbuf) (there : sbuf.data = some data) :
    ReadsInside sbuf data ↔ ¬ Wraps sbuf data := by
  have reads := readBuffer_eq wf there
  have align := alignSize_length (lengthWord data sbuf.readPos)
  have unsigned := toNat_toUInt32 (lengthWord data sbuf.readPos)
  have lower := (lengthWord data sbuf.readPos).le_toInt
  have upper := (lengthWord data sbuf.readPos).toInt_lt
  have zero : lengthWord data sbuf.readPos = 0 ↔ (lengthWord data sbuf.readPos).toInt = 0 :=
    Int32.toInt_inj.symm
  dsimp only at reads
  generalize getAlignSize (sizeOfInt (lengthWord data sbuf.readPos)) = alignSize at reads align
  constructor
  · -- a length that wraps around is rounded up to nothing, and passes
    rintro inside ⟨fits, least, negative, beyond⟩
    rw [if_neg (by omega), if_neg (by rw [zero]; omega), if_neg (by omega)] at reads
    have bound := ((inside.buffer _ _ reads).1 _ rfl).2
    dsimp only at bound
    omega
  · intro exact_
    constructor
    · intro found sbuf' finds
      rw [reads] at finds
      split at finds
      case isTrue => cases finds
      case isFalse =>
        split at finds
        case isTrue =>
          cases finds
          exact ⟨by simp, by dsimp only; omega⟩
        case isFalse nonzero =>
          split at finds
          case isTrue => cases finds
          case isFalse room =>
            cases finds
            rw [zero] at nonzero
            refine ⟨fun p same => ?_, by dsimp only; omega⟩
            cases same
            refine ⟨le_rfl, ?_⟩
            by_contra beyond
            dsimp only at beyond
            -- a length below -3 is too long even for the rounded size
            exact exact_ ⟨by omega, by omega, by omega, by omega⟩
    · intro p sbuf' finds
      obtain ⟨r, sbuf₁, reads', -, -, found⟩ := readString_spec wf there
      rw [reads'] at finds
      cases finds
      obtain ⟨positive, -, rfl, readPos, inside, -⟩ := found p rfl
      have := le_roundUp4 (lengthWord data sbuf.readPos).toInt.toNat
      exact ⟨⟨le_rfl, by omega⟩, inside⟩

end

/-! ### Examples -/

/-- An sbuf that holds the length -1 and nothing else. -/
def hugeLength : HdfSBufRaw where
  writePos := 4
  readPos := 0
  capacity := 4
  data := some ⟨4096, [255, 255, 255, 255]⟩
  isBind := true

theorem read_outside :
    WellFormed hugeLength ∧ readBuffer hugeLength =
      some (some ⟨some 4, 4294967295⟩, { hugeLength with readPos := 4 }) ∧
      ¬ ReadsInside hugeLength ⟨4096, [255, 255, 255, 255]⟩ := by
  have finds : readBuffer hugeLength =
      some (some ⟨some 4, 4294967295⟩, { hugeLength with readPos := 4 }) := rfl
  have wf : WellFormed hugeLength :=
    ⟨by decide, by decide, by decide, fun data same => by cases same; rfl⟩
  refine ⟨wf, finds, fun inside => ?_⟩
  have bound := ((inside.buffer _ _ finds).1 4 rfl).2
  revert bound
  decide

/-- A buffer of one byte, as it is written. -/
def oneByte : HdfSBufRaw where
  writePos := 8
  readPos := 0
  capacity := 8
  data := some ⟨4096, [1, 0, 0, 0, 7, 0, 0, 0]⟩
  isBind := true

theorem readsInside_iff_oneByte :
    ReadsInside oneByte ⟨4096, [1, 0, 0, 0, 7, 0, 0, 0]⟩ ↔
      ¬ Wraps oneByte ⟨4096, [1, 0, 0, 0, 7, 0, 0, 0]⟩ :=
  readsInside_iff ⟨by decide, by decide, by decide, fun data same => by cases same; rfl⟩ rfl

end Hdf.Sbuf
