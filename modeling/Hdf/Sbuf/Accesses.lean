import Hdf.Sbuf.Raw

/-!
# What the sbuf functions do

Every function is described once: it has a result, so it stays inside the
storage, it keeps the positions in order, and it leaves a bound sbuf in its
block. Writes that succeed append padded elements to what is written, and reads
take them back.

## Main definitions

* `WellFormed`: the positions are in order, and the block has the recorded capacity
* `Stays`: what no function but `transDataOwnership` changes
* `written`: the bytes up to the write position
* `Padded`: elements with their padding
* `Wrote`, `Read`: the outcomes of writes and reads

## Main results

* `grow_spec`, `write_spec`, `writeBuffer_spec`
* `read_spec`, `readBuffer_spec`, `readString_spec`
-/

namespace Hdf.Sbuf

/-- The positions are in order, and the block has the recorded capacity. -/
structure WellFormed (sbuf : HdfSBufRaw) : Prop where
  read_le : sbuf.readPos ≤ sbuf.writePos
  write_le : sbuf.writePos ≤ sbuf.capacity
  capacity_lt : sbuf.capacity < 2 ^ 64
  block : ∀ data, sbuf.data = some data → data.bytes.length = sbuf.capacity

/-- A bound sbuf keeps its block, and a capacity within the limit stays there. -/
structure Stays (sbuf sbuf' : HdfSBufRaw) : Prop where
  isBind : sbuf'.isBind = sbuf.isBind
  bound : sbuf.isBind = true → sbuf'.capacity = sbuf.capacity ∧
    sbuf'.data.map Block.base = sbuf.data.map Block.base
  limit : sbuf.capacity ≤ hdfSbufMaxSize → sbuf'.capacity ≤ hdfSbufMaxSize

/-- The bytes up to the write position. -/
def written (sbuf : HdfSBufRaw) : List UInt8 :=
  (sbuf.data.elim [] Block.bytes).take sbuf.writePos

/-- The bytes of elements that are padded to multiples of four. -/
inductive Padded : List (List UInt8) → List UInt8 → Prop
  | nil : Padded [] []
  | cons {src : List UInt8} {srcs : List (List UInt8)} {pad bytes : List UInt8}
    (length : src.length + pad.length = roundUp4 src.length) (rest : Padded srcs bytes) :
    Padded (src :: srcs) (src ++ (pad ++ bytes))

/-- The outcome of writing some elements. -/
structure Wrote (sbuf : HdfSBufRaw) (srcs : List (List UInt8)) (ok : Bool)
    (sbuf' : HdfSBufRaw) : Prop where
  wellFormed : WellFormed sbuf'
  stays : Stays sbuf sbuf'
  data : sbuf.data.isSome → sbuf'.data.isSome
  readPos : sbuf'.readPos = sbuf.readPos
  failed : ok = false → sbuf'.writePos = sbuf.writePos ∧ written sbuf' = written sbuf
  done : ok = true → ∃ bytes, Padded srcs bytes ∧ written sbuf' = written sbuf ++ bytes ∧
    sbuf'.writePos = sbuf.writePos + bytes.length

/-- A read changes nothing but the read position. -/
structure Read (sbuf sbuf' : HdfSBufRaw) : Prop where
  wellFormed : WellFormed sbuf'
  same : { sbuf' with readPos := sbuf.readPos } = sbuf

section

variable {sbuf sbuf' sbuf'' : HdfSBufRaw} {src : List UInt8} {alloc alloc' : Option ℕ} {size : ℕ}
  {data : Block} {ok : Bool}

/-! ### Sizes -/

theorem sizeT_of_lt (h : size < 2 ^ 64) : sizeT size = size := Nat.mod_eq_of_lt h

theorem getAlignSize_eq (size : ℕ) : getAlignSize size = (size + 3) % 2 ^ 64 / 4 * 4 :=
  and_mask4 (by norm_num) (Nat.mod_lt _ (by norm_num))

theorem getAlignSize_of_lt (h : size + 3 < 2 ^ 64) : getAlignSize size = roundUp4 size := by
  rw [getAlignSize_eq, Nat.mod_eq_of_lt h, roundUp4]

theorem WellFormed.leftWrite (h : WellFormed sbuf) :
    getLeftWriteSize sbuf = sbuf.capacity - sbuf.writePos := by
  have := h.write_le
  rw [getLeftWriteSize, if_neg (by omega)]

theorem WellFormed.leftRead (h : WellFormed sbuf) :
    getLeftReadSize sbuf = sbuf.writePos - sbuf.readPos := by
  have := h.read_le
  rw [getLeftReadSize, if_neg (by omega)]

/-! ### Relations between states -/

theorem Stays.refl (sbuf : HdfSBufRaw) : Stays sbuf sbuf := ⟨rfl, fun _ => ⟨rfl, rfl⟩, id⟩

theorem Stays.trans (h : Stays sbuf sbuf') (h' : Stays sbuf' sbuf'') : Stays sbuf sbuf'' := by
  refine ⟨h'.isBind.trans h.isBind, fun bound => ?_, fun limit => h'.limit (h.limit limit)⟩
  obtain ⟨capacity, base⟩ := h.bound bound
  obtain ⟨capacity', base'⟩ := h'.bound (h.isBind.trans bound)
  exact ⟨capacity'.trans capacity, base'.trans base⟩

/-- Positions may change, and so may the bytes of the block. -/
theorem Stays.of_eq (capacity : sbuf'.capacity = sbuf.capacity)
    (isBind : sbuf'.isBind = sbuf.isBind)
    (base : sbuf'.data.map Block.base = sbuf.data.map Block.base) : Stays sbuf sbuf' :=
  ⟨isBind, fun _ => ⟨capacity, base⟩, fun limit => capacity.trans_le limit⟩

theorem Padded.append {srcs srcs' : List (List UInt8)} {bytes bytes' : List UInt8}
    (h : Padded srcs bytes) (h' : Padded srcs' bytes') :
    Padded (srcs ++ srcs') (bytes ++ bytes') := by
  induction h with
  | nil => exact h'
  | cons length _ ih =>
    rw [List.cons_append, List.append_assoc, List.append_assoc]
    exact .cons length ih

theorem padded_one {pad : List UInt8} (length : src.length + pad.length = roundUp4 src.length) :
    Padded [src] (src ++ pad) := by
  have single := Padded.cons length .nil
  rwa [List.append_nil] at single

theorem Padded.length_one {bytes : List UInt8} (h : Padded [src] bytes) :
    bytes.length = roundUp4 src.length := by
  cases h with
  | cons length rest =>
    cases rest
    rw [List.append_nil, List.length_append, length]

theorem written_of_data (there : sbuf.data = some data) :
    written sbuf = data.bytes.take sbuf.writePos := by rw [written, there]; rfl

theorem length_written (wf : WellFormed sbuf) (there : sbuf.data = some data) :
    (written sbuf).length = sbuf.writePos := by
  rw [written_of_data there, List.length_take, wf.block data there, min_eq_left wf.write_le]

/-- A write that changed nothing. -/
theorem Wrote.unchanged {srcs : List (List UInt8)} (wf : WellFormed sbuf) :
    Wrote sbuf srcs false sbuf :=
  ⟨wf, .refl sbuf, id, rfl, fun _ => ⟨rfl, rfl⟩, fun h => by cases h⟩

/-! ### Writing -/

/-- What `memcpy_s` leaves when the destination has the size that the caller says. -/
theorem memcpyS_spec (dst : Block) (offset destMax : ℕ) (src : List UInt8)
    (inside : offset + destMax ≤ dst.bytes.length) :
    ∃ ok dst', memcpyS dst offset destMax src = some (ok, dst') ∧ dst'.base = dst.base ∧
      dst'.bytes.length = dst.bytes.length ∧ dst'.bytes.take offset = dst.bytes.take offset ∧
      (ok = true → src.length ≤ destMax ∧ storeAt dst.bytes offset src = some dst'.bytes) := by
  unfold memcpyS
  by_cases refused : destMax = 0 ∨ securecMemMaxLen < destMax
  · rw [if_pos refused]
    exact ⟨false, dst, rfl, rfl, rfl, rfl, by simp⟩
  · rw [if_neg refused]
    by_cases long : destMax < src.length
    · rw [if_pos long]
      obtain ⟨cleared, stored⟩ : ∃ cleared,
          storeAt dst.bytes offset (List.replicate destMax 0) = some cleared :=
        exists_storeAt (by rwa [List.length_replicate])
      rw [stored]
      exact ⟨false, _, rfl, rfl, length_of_storeAt stored, take_of_storeAt stored le_rfl, by simp⟩
    · rw [if_neg long]
      obtain ⟨bytes, stored⟩ : ∃ bytes, storeAt dst.bytes offset src = some bytes :=
        exists_storeAt (by omega)
      rw [stored]
      exact ⟨true, _, rfl, rfl, length_of_storeAt stored, take_of_storeAt stored le_rfl,
        fun _ => ⟨Nat.le_of_not_lt long, rfl⟩⟩

/-- The outcome of growing: a larger block of its own with the same bytes. -/
structure Grown (sbuf : HdfSBufRaw) (growSize : ℕ) (sbuf' : HdfSBufRaw) : Prop where
  wellFormed : WellFormed sbuf'
  owned : sbuf.isBind = false ∧ sbuf'.isBind = false
  readPos : sbuf'.readPos = sbuf.readPos
  writePos : sbuf'.writePos = sbuf.writePos
  capacity : sbuf'.capacity = roundUp4 (sbuf.capacity + growSize)
  limit : sbuf'.capacity ≤ hdfSbufMaxSize
  data : sbuf'.data.isSome
  written : written sbuf' = written sbuf

/-- A grow size that is a multiple of four cannot wrap unnoticed. -/
theorem newSize_eq {capacity growSize : ℕ} (word : growSize < 2 ^ 32) (four : growSize % 4 = 0)
    (bound : capacity < 2 ^ 64)
    (grows : capacity ≤ uint32T (getAlignSize (sizeT (capacity + growSize))))
    (limit : uint32T (getAlignSize (sizeT (capacity + growSize))) ≤ hdfSbufMaxSize) :
    uint32T (getAlignSize (sizeT (capacity + growSize))) = roundUp4 (capacity + growSize) := by
  have small : capacity ≤ 512 * 1024 := grows.trans limit
  have exact_ : getAlignSize (sizeT (capacity + growSize)) = roundUp4 (capacity + growSize) := by
    rw [sizeT_of_lt (by omega), getAlignSize_of_lt (by omega)]
  rw [exact_] at grows limit ⊢
  rw [uint32T] at grows limit ⊢
  rw [roundUp4] at grows limit ⊢
  rw [hdfSbufMaxSize] at limit
  omega

theorem grow_spec {growSize : ℕ} (wf : WellFormed sbuf) (there : sbuf.data = some data)
    (word : growSize < 2 ^ 32) (four : growSize % 4 = 0) :
    ∃ ok sbuf', grow alloc sbuf growSize = some (ok, sbuf') ∧ (ok = false → sbuf' = sbuf) ∧
      (ok = true → Grown sbuf growSize sbuf') := by
  have fails : ∃ ok sbuf', some (false, sbuf) = some (ok, sbuf') ∧ (ok = false → sbuf' = sbuf) ∧
      (ok = true → Grown sbuf growSize sbuf') := ⟨false, sbuf, rfl, fun _ => rfl, by simp⟩
  unfold grow
  dsimp only
  by_cases bound : sbuf.isBind = true
  · rwa [if_pos bound]
  · rw [if_neg bound]
    by_cases less : uint32T (getAlignSize (sizeT (sbuf.capacity + growSize))) < sbuf.capacity
    · rwa [if_pos less]
    · rw [if_neg less]
      by_cases large : hdfSbufMaxSize < uint32T (getAlignSize (sizeT (sbuf.capacity + growSize)))
      · rwa [if_pos large]
      · rw [if_neg large]
        have newSize := newSize_eq word four wf.capacity_lt (Nat.le_of_not_lt less)
          (Nat.le_of_not_lt large)
        rw [newSize] at less large ⊢
        cases alloc with
        | none => exact fails
        | some base =>
          have := wf.write_le
          have length := wf.block data there
          have load : loadAt data.bytes 0 sbuf.writePos = some (data.bytes.take sbuf.writePos) := by
            rw [loadAt_eq (by omega), List.drop_zero]
          -- the new block holds the written bytes
          obtain ⟨ok, new, copies, newBase, newLength, -, stored⟩ := memcpyS_spec
            ⟨base, List.replicate (roundUp4 (sbuf.capacity + growSize)) 0⟩ 0
            (roundUp4 (sbuf.capacity + growSize)) (data.bytes.take sbuf.writePos) (by simp)
          rw [osalMemCalloc, Option.map_some, there]
          dsimp only
          rw [load, Option.bind_some, copies]
          rw [List.length_replicate] at newLength
          cases ok with
          | false => exact fails
          | true =>
            refine ⟨true, _, rfl, by simp, fun _ => ?_⟩
            obtain ⟨fits, stored⟩ := stored rfl
            have limit : roundUp4 (sbuf.capacity + growSize) ≤ 512 * 1024 := Nat.le_of_not_lt large
            refine ⟨⟨wf.read_le, by dsimp only; omega, ?_, ?_⟩,
              ⟨by simpa using bound, by simpa using bound⟩, rfl, rfl, rfl, limit, rfl, ?_⟩
            · dsimp only
              omega
            · intro block same
              cases same
              exact newLength
            · have taken : (data.bytes.take sbuf.writePos).length = sbuf.writePos := by
                rw [List.length_take]
                omega
              obtain ⟨rest, prefix_, empty⟩ := take_written_of_storeAt stored (n := sbuf.writePos)
                (by omega) (by rw [List.length_replicate]; omega)
              rw [taken, Nat.zero_add, Nat.sub_self, List.length_eq_zero_iff] at empty
              rw [written_of_data rfl, written_of_data there]
              dsimp only
              rw [prefix_, empty]
              simp

theorem writeHere_spec (wf : WellFormed sbuf) (there : sbuf.data = some data)
    (room : src.length ≤ getLeftWriteSize sbuf →
      getAlignSize src.length = roundUp4 src.length ∧ roundUp4 src.length ≤ getLeftWriteSize sbuf) :
    ∃ ok sbuf', writeHere sbuf src (getAlignSize src.length) = some (ok, sbuf') ∧
      Wrote sbuf [src] ok sbuf' := by
  have ordered := wf.write_le
  have capacity := wf.capacity_lt
  have length := wf.block data there
  rw [wf.leftWrite] at room
  obtain ⟨ok, data', copies, base, length', before, stored⟩ := memcpyS_spec data sbuf.writePos
    (sbuf.capacity - sbuf.writePos) src (by omega)
  unfold writeHere
  rw [there]
  dsimp only
  rw [wf.leftWrite, copies]
  have block (b : Block) (same : some data' = some b) : b.bytes.length = sbuf.capacity := by
    cases same
    rw [length', length]
  have stays : some (Block.base data') = sbuf.data.map Block.base := by rw [there, base]; rfl
  cases ok with
  | false =>
    refine ⟨false, _, rfl, ⟨wf.read_le, ordered, capacity, block⟩, .of_eq rfl rfl stays,
      fun _ => rfl, rfl, fun _ => ⟨rfl, ?_⟩, by simp⟩
    rw [written_of_data rfl, written_of_data there]
    exact before
  | true =>
    obtain ⟨fits, stored⟩ := stored rfl
    obtain ⟨align, inside⟩ := room fits
    have grows := le_roundUp4 src.length
    have newPos : sizeT (sbuf.writePos + getAlignSize src.length) =
        sbuf.writePos + roundUp4 src.length := by
      rw [align, sizeT_of_lt (by omega)]
    refine ⟨true, _, rfl, ⟨?_, ?_, capacity, block⟩, .of_eq rfl rfl stays, fun _ => rfl,
      rfl, by simp, fun _ => ?_⟩
    · dsimp only
      have := wf.read_le
      omega
    · dsimp only
      omega
    · obtain ⟨pad, extends_, rest⟩ := take_written_of_storeAt stored
        (n := sbuf.writePos + roundUp4 src.length) (by omega) (by omega)
      have length : src.length + pad.length = roundUp4 src.length := by omega
      refine ⟨src ++ pad, padded_one length, ?_, ?_⟩
      · rw [written_of_data rfl, written_of_data there]
        dsimp only
        rw [newPos, extends_]
      · dsimp only
        rw [newPos, List.length_append, length]

theorem Grown.stays {growSize : ℕ} (h : Grown sbuf growSize sbuf') : Stays sbuf sbuf' := by
  obtain ⟨owned, owned'⟩ := h.owned
  refine ⟨owned'.trans owned.symm, fun bound => ?_, fun _ => h.limit⟩
  cases owned.symm.trans bound

/-- A write after growing is a write. -/
theorem Wrote.of_grown {growSize : ℕ} {srcs : List (List UInt8)} (grown : Grown sbuf growSize sbuf')
    (h : Wrote sbuf' srcs ok sbuf'') : Wrote sbuf srcs ok sbuf'' where
  wellFormed := h.wellFormed
  stays := grown.stays.trans h.stays
  data _ := h.data grown.data
  readPos := h.readPos.trans grown.readPos
  failed fails := by
    obtain ⟨writePos, same⟩ := h.failed fails
    exact ⟨writePos.trans grown.writePos, same.trans grown.written⟩
  done succeeds := by
    obtain ⟨bytes, padded, same, writePos⟩ := h.done succeeds
    exact ⟨bytes, padded, grown.written ▸ same, grown.writePos ▸ writePos⟩

theorem write_spec (wf : WellFormed sbuf) (alloc : Option ℕ) (src : List UInt8) :
    ∃ ok sbuf', write alloc sbuf src = some (ok, sbuf') ∧ Wrote sbuf [src] ok sbuf' := by
  have fails : ∃ ok sbuf', some (false, sbuf) = some (ok, sbuf') ∧ Wrote sbuf [src] ok sbuf' :=
    ⟨false, sbuf, rfl, .unchanged wf⟩
  have align := getAlignSize_eq src.length
  have capacity := wf.capacity_lt
  unfold write
  dsimp only
  cases there : sbuf.data with
  | none => exact fails
  | some data =>
    rw [if_neg (by simp)]
    by_cases empty : src.length = 0
    · rw [if_pos empty]
      rw [List.length_eq_zero_iff] at empty
      subst empty
      exact ⟨true, sbuf, rfl, wf, .refl sbuf, id, rfl, by simp,
        fun _ => ⟨[], padded_one rfl, by simp⟩⟩
    · rw [if_neg empty]
      by_cases wraps : getAlignSize src.length < src.length
      · rwa [if_pos wraps]
      · rw [if_neg wraps]
        by_cases short : getLeftWriteSize sbuf < getAlignSize src.length
        · rw [if_pos short]
          -- the size of the element is a multiple of four, so the grow size is one as well
          obtain ⟨ok, sbuf₁, grows, failed, done⟩ : ∃ ok sbuf₁, grow alloc sbuf (uint32T
              (if hdfSbufGrowSizeDefault < getAlignSize src.length
                then sizeT (getAlignSize src.length + hdfSbufGrowSizeDefault)
                else hdfSbufGrowSizeDefault)) = some (ok, sbuf₁) ∧ (ok = false → sbuf₁ = sbuf) ∧
              (ok = true → Grown sbuf _ sbuf₁) := by
            refine grow_spec wf there (Nat.mod_lt _ (by norm_num)) ?_
            rw [uint32T, sizeT, hdfSbufGrowSizeDefault]
            split <;> omega
          rw [grows]
          cases ok with
          | false =>
            rw [failed rfl]
            exact fails
          | true =>
            have grown := done rfl
            obtain ⟨data₁, there₁⟩ := Option.isSome_iff_exists.mp grown.data
            -- an element that fits below the limit did not make the grow size wrap
            have room : src.length ≤ getLeftWriteSize sbuf₁ →
                getAlignSize src.length = roundUp4 src.length ∧
                  roundUp4 src.length ≤ getLeftWriteSize sbuf₁ := by
              intro fits
              have small := grown.limit
              have before := wf.write_le
              have larger := grown.capacity
              rw [grown.wellFormed.leftWrite, grown.writePos] at fits ⊢
              rw [hdfSbufMaxSize] at small
              rw [uint32T, sizeT, hdfSbufGrowSizeDefault, roundUp4] at larger
              rw [roundUp4]
              split at larger <;> omega
            obtain ⟨ok, sbuf₂, writes, wrote⟩ := writeHere_spec grown.wellFormed there₁ room
            exact ⟨ok, sbuf₂, writes, wrote.of_grown grown⟩
        · rw [if_neg short]
          refine writeHere_spec wf there fun fits => ?_
          rw [wf.leftWrite] at fits short ⊢
          rw [roundUp4]
          omega

/-! ### Integers and buffers -/

/-- The bytes that an integer is written as. -/
def Scalar.bytes : Scalar → List UInt8
  | uint64 value => leBytes 8 value.toNat
  | uint32 value => leBytes 4 value.toNat
  | uint16 value => leBytes 2 value.toNat
  | uint8 value => leBytes 1 value.toNat
  | int64 value => leBytes 8 value.toUInt64.toNat
  | int32 value => leBytes 4 value.toUInt32.toNat
  | int16 value => leBytes 2 value.toUInt16.toNat
  | int8 value => leBytes 1 value.toUInt8.toNat

theorem writeScalar_eq (alloc : Option ℕ) (sbuf : HdfSBufRaw) (value : Scalar) :
    writeScalar alloc sbuf value = write alloc sbuf value.bytes := by
  cases value <;> rfl

theorem writeScalar_spec (wf : WellFormed sbuf) (alloc : Option ℕ) (value : Scalar) :
    ∃ ok sbuf', writeScalar alloc sbuf value = some (ok, sbuf') ∧
      Wrote sbuf [value.bytes] ok sbuf' := by
  rw [writeScalar_eq]
  exact write_spec wf alloc value.bytes

/-- The elements that a buffer is written as: its length and its bytes. -/
def bufferFields : Option (List UInt8) → List (List UInt8)
  | none => [leBytes 4 0]
  | some src => [leBytes 4 (src.length % 2 ^ 32), src]

theorem writeInt32_length (alloc : Option ℕ) (sbuf : HdfSBufRaw) (n : ℕ) :
    writeInt32 alloc sbuf (UInt32.ofNat n).toInt32 =
      write alloc sbuf (leBytes 4 (n % 2 ^ 32)) := by
  rw [writeInt32, writeValue]
  simp

/-- Taking back the length word of a buffer whose bytes could not be written. -/
theorem Wrote.rollback {word : List UInt8} (first : Wrote sbuf [word] true sbuf')
    (four : word.length = 4) (second : Wrote sbuf' [src] false sbuf'') (wf : WellFormed sbuf)
    (there : ∃ data, sbuf.data = some data) (srcs : List (List UInt8)) :
    Wrote sbuf srcs false (writeRollback sbuf'' 4).2 := by
  obtain ⟨bytes, padded, written', writePos'⟩ := first.done rfl
  obtain ⟨writePos'', written''⟩ := second.failed rfl
  have length : bytes.length = 4 := by rw [padded.length_one, four, roundUp4]
  have align : getAlignSize 4 = 4 := by rw [getAlignSize_of_lt (by norm_num), roundUp4]
  have ordered := wf.read_le
  rw [writeRollback, align, if_neg (by omega)]
  have back : sbuf''.writePos - 4 = sbuf.writePos := by omega
  refine ⟨⟨?_, ?_, second.wellFormed.capacity_lt, second.wellFormed.block⟩,
    (first.stays.trans second.stays).trans (.of_eq rfl rfl rfl), second.data ∘ first.data,
    second.readPos.trans first.readPos,
    fun _ => ⟨back, ?_⟩, by simp⟩
  · dsimp only
    rw [second.readPos, first.readPos, back]
    exact ordered
  · have := second.wellFormed.write_le
    dsimp only
    omega
  · obtain ⟨data, there⟩ := there
    have front : (written sbuf'').take sbuf.writePos = written sbuf := by
      rw [written'', written', ← length_written wf there, List.take_left]
    rw [← front, written, written, List.take_take, back, min_eq_left (by omega)]

theorem writeBuffer_spec (wf : WellFormed sbuf) (alloc alloc' : Option ℕ)
    (data : Option (List UInt8)) :
    ∃ ok sbuf', writeBuffer alloc alloc' sbuf data = some (ok, sbuf') ∧
      Wrote sbuf (bufferFields data) ok sbuf' := by
  cases data with
  | none => exact write_spec wf alloc (leBytes 4 0)
  | some src =>
    rw [writeBuffer, writeInt32_length]
    obtain ⟨ok, sbuf₁, writes, first⟩ := write_spec wf alloc (leBytes 4 (src.length % 2 ^ 32))
    rw [writes]
    cases ok with
    | false =>
      exact ⟨false, sbuf₁, rfl, first.wellFormed, first.stays, first.data, first.readPos,
        first.failed, by simp⟩
    | true =>
      obtain ⟨ok, sbuf₂, writes', second⟩ := write_spec first.wellFormed alloc' src
      dsimp only
      rw [writes']
      cases ok with
      | false =>
        have there : ∃ data, sbuf.data = some data := by
          cases there : sbuf.data with
          | some data => exact ⟨data, rfl⟩
          | none => simp [write, there] at writes
        exact ⟨false, _, rfl, first.rollback (length_leBytes 4 _) second wf there _⟩
      | true =>
        refine ⟨true, sbuf₂, rfl, second.wellFormed, first.stays.trans second.stays,
          second.data ∘ first.data, second.readPos.trans first.readPos, by simp, fun _ => ?_⟩
        obtain ⟨bytes, padded, written', writePos'⟩ := first.done rfl
        obtain ⟨bytes', padded', written'', writePos''⟩ := second.done rfl
        refine ⟨bytes ++ bytes', padded.append padded', ?_, ?_⟩
        · rw [written'', written', List.append_assoc]
        · rw [writePos'', writePos', List.length_append, Nat.add_assoc]

theorem writeString_spec (wf : WellFormed sbuf) (alloc alloc' : Option ℕ)
    (value : Option (List UInt8)) :
    ∃ ok sbuf', writeString alloc alloc' sbuf value = some (ok, sbuf') ∧
      Wrote sbuf (bufferFields (value.map fun s => (s ++ [0]).take (uint32T (s.length + 1)))) ok
        sbuf' :=
  writeBuffer_spec wf alloc alloc' _

/-! ### Reading -/

/-- The 32-bit length word at a position. -/
def lengthWord (data : Block) (pos : ℕ) : Int32 :=
  (UInt32.ofNat (leNat ((data.bytes.drop pos).take 4))).toInt32

theorem read_eq (wf : WellFormed sbuf) (there : sbuf.data = some data) (nonempty : 0 < size)
    (word : size < 2 ^ 32) :
    read sbuf size =
      if sbuf.writePos - sbuf.readPos < roundUp4 size then some (none, sbuf)
      else some (some ((data.bytes.drop sbuf.readPos).take size),
        { sbuf with readPos := sbuf.readPos + roundUp4 size }) := by
  have ordered := wf.read_le
  have inside := wf.write_le
  have capacity := wf.capacity_lt
  have length := wf.block data there
  have padding := le_roundUp4 size
  rw [read, there]
  dsimp only
  rw [if_neg (by omega), wf.leftRead, getAlignSize_of_lt (by omega)]
  split
  case isTrue => rfl
  case isFalse enough =>
    rw [loadAt_eq (by omega), sizeT_of_lt (by omega)]
    rfl

theorem readInt32_eq (wf : WellFormed sbuf) (there : sbuf.data = some data) :
    readInt32 sbuf =
      if sbuf.writePos - sbuf.readPos < 4 then some (none, sbuf)
      else some (some (lengthWord data sbuf.readPos),
        { sbuf with readPos := sbuf.readPos + 4 }) := by
  rw [readInt32, readValue, read_eq wf there (by norm_num) (by norm_num), roundUp4]
  split <;> rfl

/-- Moving the read position within what is written. -/
theorem WellFormed.setReadPos (wf : WellFormed sbuf) {pos : ℕ} (inside : pos ≤ sbuf.writePos) :
    WellFormed { sbuf with readPos := pos } :=
  ⟨inside, wf.write_le, wf.capacity_lt, wf.block⟩

theorem readBuffer_eq (wf : WellFormed sbuf) (there : sbuf.data = some data) :
    readBuffer sbuf =
      if sbuf.writePos - sbuf.readPos < 4 then some (none, sbuf)
      else
        let buffSize := lengthWord data sbuf.readPos
        let alignSize := getAlignSize (sizeOfInt buffSize)
        if buffSize = 0 then some (some ⟨none, 0⟩, { sbuf with readPos := sbuf.readPos + 4 })
        else if sbuf.writePos - (sbuf.readPos + 4) < alignSize then some (none, sbuf)
        else some (some ⟨some (sbuf.readPos + 4), buffSize.toUInt32.toNat⟩,
          { sbuf with readPos := sbuf.readPos + 4 + alignSize }) := by
  have inside := wf.write_le
  have capacity := wf.capacity_lt
  rw [readBuffer, if_neg (by simp [there]), readInt32_eq wf there]
  by_cases short : sbuf.writePos - sbuf.readPos < 4
  · rw [if_pos short]
    simp [short]
  · rw [if_neg short, if_neg short]
    have advanced : WellFormed { sbuf with readPos := sbuf.readPos + 4 } := wf.setReadPos (by omega)
    dsimp only
    rw [advanced.leftRead]
    dsimp only
    split
    case isTrue => rfl
    case isFalse =>
      split
      case isTrue =>
        rw [readRollback, getAlignSize_of_lt (by norm_num), roundUp4]
        dsimp only
        rw [if_neg (by omega)]
        simp
      case isFalse enough => rw [sizeT_of_lt (by omega)]

/-! ### What reads leave -/

theorem Read.refl (wf : WellFormed sbuf) : Read sbuf sbuf := ⟨wf, rfl⟩

theorem Read.of_readPos (wf : WellFormed sbuf) {pos : ℕ} (inside : pos ≤ sbuf.writePos) :
    Read sbuf { sbuf with readPos := pos } := ⟨wf.setReadPos inside, rfl⟩

theorem Read.stays (h : Read sbuf sbuf') : Stays sbuf sbuf' := by
  refine .of_eq ?_ ?_ ?_ <;> rw [← h.same]

theorem read_spec (wf : WellFormed sbuf) (nonempty : 0 < size) (word : size < 2 ^ 32) :
    ∃ r sbuf', read sbuf size = some (r, sbuf') ∧ Read sbuf sbuf' := by
  cases there : sbuf.data with
  | none => exact ⟨none, sbuf, by simp [read, there], .refl wf⟩
  | some data =>
    rw [read_eq wf there nonempty word]
    split
    case isTrue => exact ⟨_, _, rfl, .refl wf⟩
    case isFalse enough =>
      have := le_roundUp4 size
      exact ⟨_, _, rfl, .of_readPos wf (by omega)⟩

theorem readValue_spec {α : Type} (wf : WellFormed sbuf) (nonempty : 0 < size)
    (word : size < 2 ^ 32) (ofNat : ℕ → α) :
    ∃ r sbuf', readValue sbuf size ofNat = some (r, sbuf') ∧ Read sbuf sbuf' := by
  obtain ⟨r, sbuf', reads, outcome⟩ := read_spec wf nonempty word
  exact ⟨_, sbuf', by rw [readValue, reads]; rfl, outcome⟩

theorem readScalar_spec (wf : WellFormed sbuf) (type : ScalarType) :
    ∃ r sbuf', readScalar sbuf type = some (r, sbuf') ∧ Read sbuf sbuf' := by
  have typed {α : Type} (size : ℕ) (nonempty : 0 < size) (word : size < 2 ^ 32) (ofNat : ℕ → α)
      (wrap : α → Scalar) : ∃ r sbuf', ((readValue sbuf size ofNat).map fun r =>
        (r.1.map wrap, r.2)) = some (r, sbuf') ∧ Read sbuf sbuf' := by
    obtain ⟨r, sbuf', reads, outcome⟩ := readValue_spec wf nonempty word ofNat
    exact ⟨_, sbuf', by rw [reads]; rfl, outcome⟩
  cases type
  case uint64 => exact typed 8 (by norm_num) (by norm_num) _ _
  case uint32 => exact typed 4 (by norm_num) (by norm_num) _ _
  case uint16 => exact typed 2 (by norm_num) (by norm_num) _ _
  case uint8 => exact typed 1 (by norm_num) (by norm_num) _ _
  case int64 => exact typed 8 (by norm_num) (by norm_num) _ _
  case int32 => exact typed 4 (by norm_num) (by norm_num) _ _
  case int16 => exact typed 2 (by norm_num) (by norm_num) _ _
  case int8 => exact typed 1 (by norm_num) (by norm_num) _ _

theorem readBuffer_spec (wf : WellFormed sbuf) :
    ∃ r sbuf', readBuffer sbuf = some (r, sbuf') ∧ Read sbuf sbuf' := by
  cases there : sbuf.data with
  | none => exact ⟨none, sbuf, by simp [readBuffer, there], .refl wf⟩
  | some data =>
    rw [readBuffer_eq wf there]
    split
    case isTrue => exact ⟨_, _, rfl, .refl wf⟩
    case isFalse enough =>
      dsimp only
      split
      case isTrue => exact ⟨_, _, rfl, .of_readPos wf (by omega)⟩
      case isFalse =>
        split
        case isTrue => exact ⟨_, _, rfl, .refl wf⟩
        case isFalse fits => exact ⟨_, _, rfl, .of_readPos wf (by omega)⟩

theorem sizeOfInt_of_pos {n : Int32} (positive : 0 < n.toInt) :
    sizeOfInt n = n.toInt.toNat ∧ n.toInt.toNat < 2 ^ 31 := by
  have := n.toInt_lt
  rw [sizeOfInt]
  omega

theorem readString_eq (wf : WellFormed sbuf) (there : sbuf.data = some data) :
    readString sbuf =
      if sbuf.writePos - sbuf.readPos < 4 then some (none, sbuf)
      else
        let strLen := lengthWord data sbuf.readPos
        let alignSize := roundUp4 strLen.toInt.toNat
        if strLen ≤ 0 then some (none, { sbuf with readPos := sbuf.readPos + 4 })
        else if (int16Max : ℤ) < strLen.toInt ∨ sbuf.writePos - (sbuf.readPos + 4) < alignSize then
          some (none, sbuf)
        else
          (storeAt data.bytes (sbuf.readPos + 4 + (strLen.toInt.toNat - 1)) [0]).map fun bytes =>
            (some (sbuf.readPos + 4), {
              sbuf with
              data := some { data with bytes := bytes }
              readPos := sbuf.readPos + 4 + alignSize }) := by
  have inside := wf.write_le
  have capacity := wf.capacity_lt
  rw [readString, if_neg (by simp [there]), readInt32_eq wf there]
  by_cases short : sbuf.writePos - sbuf.readPos < 4
  · rw [if_pos short, if_pos short]
  · rw [if_neg short, if_neg short]
    have advanced : WellFormed { sbuf with readPos := sbuf.readPos + 4 } := wf.setReadPos (by omega)
    dsimp only
    rw [advanced.leftRead]
    dsimp only
    split
    case isTrue => rfl
    case isFalse positive =>
      rw [Int32.le_iff_toInt_le, Int32.toInt_zero, not_le] at positive
      obtain ⟨size, small⟩ := sizeOfInt_of_pos positive
      have padding := le_roundUp4 (lengthWord data sbuf.readPos).toInt.toNat
      rw [size, getAlignSize_of_lt (by omega)]
      split
      case isTrue =>
        rw [readRollback, getAlignSize_of_lt (by norm_num), roundUp4]
        dsimp only
        rw [if_neg (by omega)]
        simp
      case isFalse fits =>
        rw [there]
        dsimp only
        rw [sizeT_of_lt (by omega)]

/-- A string that is found lies behind its length word, and is terminated in place. -/
structure FoundString (sbuf : HdfSBufRaw) (data : Block) (p : ℕ) (sbuf' : HdfSBufRaw) : Prop where
  positive : 0 < (lengthWord data sbuf.readPos).toInt
  limit : (lengthWord data sbuf.readPos).toInt ≤ int16Max
  start : p = sbuf.readPos + 4
  readPos : sbuf'.readPos = p + roundUp4 (lengthWord data sbuf.readPos).toInt.toNat
  inside : sbuf'.readPos ≤ sbuf.writePos
  terminated : ∃ bytes, storeAt data.bytes (p + ((lengthWord data sbuf.readPos).toInt.toNat - 1))
    [0] =
    some bytes ∧ sbuf'.data = some { data with bytes := bytes }

theorem readString_spec (wf : WellFormed sbuf) (there : sbuf.data = some data) :
    ∃ r sbuf', readString sbuf = some (r, sbuf') ∧ WellFormed sbuf' ∧ Stays sbuf sbuf' ∧
      ∀ p, r = some p → FoundString sbuf data p sbuf' := by
  have inside := wf.write_le
  have capacity := wf.capacity_lt
  have length := wf.block data there
  rw [readString_eq wf there]
  split
  case isTrue => exact ⟨none, sbuf, rfl, wf, .refl sbuf, by simp⟩
  case isFalse short =>
    dsimp only
    split
    case isTrue =>
      exact ⟨none, _, rfl, wf.setReadPos (by omega), .of_eq rfl rfl rfl, by simp⟩
    case isFalse positive =>
      rw [Int32.le_iff_toInt_le, Int32.toInt_zero, not_le] at positive
      have padding := le_roundUp4 (lengthWord data sbuf.readPos).toInt.toNat
      split
      case isTrue => exact ⟨none, sbuf, rfl, wf, .refl sbuf, by simp⟩
      case isFalse fits =>
        obtain ⟨limit, room⟩ := not_or.mp fits
        obtain ⟨bytes, stored⟩ : ∃ bytes, storeAt data.bytes (sbuf.readPos + 4 +
            ((lengthWord data sbuf.readPos).toInt.toNat - 1)) [0] = some bytes :=
          exists_storeAt (by rw [List.length_singleton]; omega)
        rw [stored]
        refine ⟨_, _, rfl, ⟨?_, inside, capacity, ?_⟩, .of_eq rfl rfl (by rw [there]; rfl), ?_⟩
        · dsimp only
          omega
        · intro block same
          cases same
          rw [length_of_storeAt stored, length]
        · intro p same
          cases same
          exact ⟨positive, by omega, rfl, rfl, by dsimp only; omega, bytes, stored, rfl⟩

end

end Hdf.Sbuf
