import Hdf.Sbuf.Invariant

/-!
# Operations that fail

A write that returns `false` takes its length word back, and a read that does not
find enough bytes goes back to where it began. `SbufRawImplReadString` returns for
a length that is not positive before it gets there. For zero, which stands for
`NULL`, that is right; a negative length is rejected with its word consumed.

## Main results

* `leavesNoTrace_iff`: only strings of negative length are a failure with a trace
-/

namespace Hdf.Sbuf

/-- The length word at the read position, if there is one. -/
def nextLength (sbuf : HdfSBufRaw) : Option Int32 := (readInt32 sbuf).bind Prod.fst

/-- An operation fails, and leaves an sbuf. The string `NULL` is not a failure. -/
inductive Fails (sbuf : HdfSBufRaw) : Op → HdfSBufRaw → Prop
  | writeScalar {alloc : Option ℕ} {value : Scalar} {sbuf' : HdfSBufRaw}
    (h : Sbuf.writeScalar alloc sbuf value = some (false, sbuf')) :
    Fails sbuf (.writeScalar alloc value) sbuf'
  | writeBuffer {alloc alloc' : Option ℕ} {data : Option (List UInt8)} {sbuf' : HdfSBufRaw}
    (h : Sbuf.writeBuffer alloc alloc' sbuf data = some (false, sbuf')) :
    Fails sbuf (.writeBuffer alloc alloc' data) sbuf'
  | writeString {alloc alloc' : Option ℕ} {value : Option (List UInt8)} {sbuf' : HdfSBufRaw}
    (h : Sbuf.writeString alloc alloc' sbuf value = some (false, sbuf')) :
    Fails sbuf (.writeString alloc alloc' value) sbuf'
  | readScalar {type : ScalarType} {sbuf' : HdfSBufRaw}
    (h : Sbuf.readScalar sbuf type = some (none, sbuf')) : Fails sbuf (.readScalar type) sbuf'
  | readBuffer {sbuf' : HdfSBufRaw} (h : Sbuf.readBuffer sbuf = some (none, sbuf')) :
    Fails sbuf .readBuffer sbuf'
  | readString {sbuf' : HdfSBufRaw} (h : Sbuf.readString sbuf = some (none, sbuf'))
    (notNull : nextLength sbuf ≠ some 0) : Fails sbuf .readString sbuf'

/-- Whether an operation is a read. -/
def Op.isRead : Op → Bool
  | .readScalar _ | .readBuffer | .readString => true
  | _ => false

/-- The positions and what is written are kept, and by a read all bytes. -/
structure Untouched (op : Op) (sbuf sbuf' : HdfSBufRaw) : Prop where
  writePos : sbuf'.writePos = sbuf.writePos
  readPos : sbuf'.readPos = sbuf.readPos
  written : written sbuf' = written sbuf
  bytes : op.isRead = true → sbuf'.data = sbuf.data

/-- When the operation fails, it leaves the sbuf as it was. -/
def LeavesNoTrace (sbuf : HdfSBufRaw) (op : Op) : Prop :=
  ∀ sbuf', Fails sbuf op sbuf' → Untouched op sbuf sbuf'

section

variable {sbuf sbuf' : HdfSBufRaw} {srcs : List (List UInt8)} {size : ℕ}

/-! ### Reads -/

theorem eq_of_read_none (h : read sbuf size = some (none, sbuf')) : sbuf' = sbuf := by
  unfold read at h
  dsimp only at h
  split at h
  case h_1 => exact (Prod.mk.inj (Option.some.inj h)).2.symm
  case h_2 data _ =>
    by_cases empty : size = 0
    · rw [if_pos empty] at h
      cases h
    · rw [if_neg empty] at h
      by_cases short : getLeftReadSize sbuf < getAlignSize size
      · rw [if_pos short] at h
        exact (Prod.mk.inj (Option.some.inj h)).2.symm
      · rw [if_neg short] at h
        obtain ⟨bytes, -, same⟩ := Option.map_eq_some_iff.mp h
        cases same

theorem eq_of_readValue_none {α : Type} {ofNat : ℕ → α}
    (h : readValue sbuf size ofNat = some (none, sbuf')) : sbuf' = sbuf := by
  obtain ⟨⟨bytes, after⟩, reads, same⟩ := Option.map_eq_some_iff.mp h
  obtain ⟨missing, rfl⟩ := Prod.mk.inj same
  rw [Option.map_eq_none_iff] at missing
  dsimp only at missing
  subst missing
  exact eq_of_read_none reads

theorem eq_of_readScalar_none {type : ScalarType}
    (h : readScalar sbuf type = some (none, sbuf')) : sbuf' = sbuf := by
  have typed {α : Type} {size : ℕ} {ofNat : ℕ → α} {wrap : α → Scalar}
      (h : ((readValue sbuf size ofNat).map fun r => (r.1.map wrap, r.2)) = some (none, sbuf')) :
      sbuf' = sbuf := by
    obtain ⟨⟨value, after⟩, reads, same⟩ := Option.map_eq_some_iff.mp h
    obtain ⟨missing, rfl⟩ := Prod.mk.inj same
    rw [Option.map_eq_none_iff] at missing
    dsimp only at missing
    subst missing
    exact eq_of_readValue_none reads
  cases type <;> exact typed h

section

variable {data : Block}

theorem eq_of_readBuffer_none (wf : WellFormed sbuf) (h : readBuffer sbuf = some (none, sbuf')) :
    sbuf' = sbuf := by
  cases there : sbuf.data with
  | none =>
    rw [readBuffer, if_pos (by simp [there])] at h
    exact (Prod.mk.inj (Option.some.inj h)).2.symm
  | some data =>
    rw [readBuffer_eq wf there] at h
    split at h
    case isTrue => exact (Prod.mk.inj (Option.some.inj h)).2.symm
    case isFalse =>
      dsimp only at h
      split at h
      case isTrue => cases h
      case isFalse =>
        split at h
        case isTrue => exact (Prod.mk.inj (Option.some.inj h)).2.symm
        case isFalse => cases h

theorem nextLength_eq (wf : WellFormed sbuf) (there : sbuf.data = some data) :
    nextLength sbuf =
      if sbuf.writePos - sbuf.readPos < 4 then none else some (lengthWord data sbuf.readPos) := by
  rw [nextLength, readInt32_eq wf there]
  split <;> rfl

/-- A string is rejected where it stands, unless its length is negative. -/
theorem readString_none (wf : WellFormed sbuf) (h : readString sbuf = some (none, sbuf'))
    (notNull : nextLength sbuf ≠ some 0) :
    sbuf' = sbuf ∨ ∃ n < 0, nextLength sbuf = some n := by
  cases there : sbuf.data with
  | none =>
    rw [readString, if_pos (by simp [there])] at h
    exact .inl (Prod.mk.inj (Option.some.inj h)).2.symm
  | some data =>
    have next := nextLength_eq wf there
    rw [readString_eq wf there] at h
    split at h
    case isTrue => exact .inl (Prod.mk.inj (Option.some.inj h)).2.symm
    case isFalse enough =>
      rw [if_neg enough] at next
      dsimp only at h
      split at h
      case isTrue notPositive =>
        -- zero is the string `NULL`
        have negative : lengthWord data sbuf.readPos < 0 := by
          rw [next] at notNull
          exact Int32.lt_of_le_of_ne notPositive fun zero => notNull (congrArg some zero)
        exact .inr ⟨_, negative, next⟩
      case isFalse =>
        split at h
        case isTrue => exact .inl (Prod.mk.inj (Option.some.inj h)).2.symm
        case isFalse =>
          obtain ⟨bytes, -, same⟩ := Option.map_eq_some_iff.mp h
          cases same

/-- A string of negative length is rejected behind its length word. -/
theorem readString_negative {n : Int32} (wf : WellFormed sbuf) (next : nextLength sbuf = some n)
    (negative : n < 0) :
    readString sbuf = some (none, { sbuf with readPos := sbuf.readPos + 4 }) := by
  cases there : sbuf.data with
  | none => simp [nextLength, readInt32, readValue, read, there] at next
  | some data =>
    rw [nextLength_eq wf there] at next
    split at next
    case isTrue => cases next
    case isFalse enough =>
      obtain rfl := Option.some.inj next
      rw [readString_eq wf there, if_neg enough]
      dsimp only
      rw [if_pos (Int32.le_of_lt negative), there]

end

/-! ### All operations -/

theorem Untouched.refl (op : Op) (sbuf : HdfSBufRaw) : Untouched op sbuf sbuf :=
  ⟨rfl, rfl, rfl, fun _ => rfl⟩

theorem Wrote.untouched {op : Op} (wrote : Wrote sbuf srcs false sbuf')
    (write : op.isRead = false) : Untouched op sbuf sbuf' := by
  obtain ⟨writePos, same⟩ := wrote.failed rfl
  exact ⟨writePos, wrote.readPos, same, fun read => by simp [write] at read⟩

theorem leavesNoTrace_of_wellFormed (wf : WellFormed sbuf) (op : Op) :
    LeavesNoTrace sbuf op ↔ ¬ (op = .readString ∧ ∃ n < 0, nextLength sbuf = some n) := by
  constructor
  · rintro noTrace ⟨rfl, n, negative, next⟩
    have notNull : nextLength sbuf ≠ some 0 := by
      rw [next]
      rintro ⟨⟩
      exact absurd negative (by decide)
    have moved := (noTrace _ (.readString (readString_negative wf next negative) notNull)).readPos
    dsimp only at moved
    omega
  · intro positive sbuf' fails
    cases fails with
    | @writeScalar alloc value _ h =>
      obtain ⟨ok, _, writes, wrote⟩ := writeScalar_spec wf alloc value
      cases writes.symm.trans h
      exact wrote.untouched rfl
    | @writeBuffer alloc alloc' data _ h =>
      obtain ⟨ok, _, writes, wrote⟩ := writeBuffer_spec wf alloc alloc' data
      cases writes.symm.trans h
      exact wrote.untouched rfl
    | @writeString alloc alloc' value _ h =>
      obtain ⟨ok, _, writes, wrote⟩ := writeString_spec wf alloc alloc' value
      cases writes.symm.trans h
      exact wrote.untouched rfl
    | readScalar h =>
      rw [eq_of_readScalar_none h]
      exact .refl _ sbuf
    | readBuffer h =>
      rw [eq_of_readBuffer_none wf h]
      exact .refl _ sbuf
    | readString h notNull =>
      rw [(readString_none wf h notNull).resolve_right fun negative => positive ⟨rfl, negative⟩]
      exact .refl _ sbuf

/-- After every run, an operation that fails leaves no trace unless it reads a string
whose length word is negative. -/
theorem leavesNoTrace_iff {origin : Origin} {first : HdfSBufRaw} (got : Got origin first)
    {ops : List (ℕ × Op)} {sbufs : List HdfSBufRaw} (run : runs [first] ops = some sbufs)
    (member : sbuf ∈ sbufs) (op : Op) :
    LeavesNoTrace sbuf op ↔ ¬ (op = .readString ∧ ∃ n < 0, nextLength sbuf = some n) := by
  obtain ⟨_, run', wellFormed, -⟩ := runs_wellFormed got ops
  cases run'.symm.trans run
  exact leavesNoTrace_of_wellFormed (wellFormed sbuf member) op

end

/-! ### Examples -/

/-- A fresh sbuf. -/
def fresh : HdfSBufRaw := ⟨0, 0, 4, some ⟨4096, [0, 0, 0, 0]⟩, false⟩

theorem leavesNoTrace_fresh : LeavesNoTrace fresh .readString ↔
    ¬ (Op.readString = .readString ∧ ∃ n < 0, nextLength fresh = some n) :=
  leavesNoTrace_iff (.obtained (show obtainRaw true (some 4096) 4 = some fresh from rfl))
    (show runs [fresh] [] = some [fresh] from rfl) List.mem_cons_self .readString

/-- Four bytes that stand for the length -1. -/
def negativeLength : HdfSBufRaw := ⟨4, 0, 4, some ⟨4096, [255, 255, 255, 255]⟩, true⟩

theorem readString_moves : bindRaw true 4096 [255, 255, 255, 255] = some negativeLength ∧
    readString negativeLength = some (none, { negativeLength with readPos := 4 }) ∧
    ¬ LeavesNoTrace negativeLength .readString := by
  have reads : readString negativeLength = some (none, { negativeLength with readPos := 4 }) := rfl
  refine ⟨rfl, reads, fun noTrace => ?_⟩
  have moved := (noTrace _ (.readString reads (by decide))).readPos
  exact absurd moved (by decide)

end Hdf.Sbuf
