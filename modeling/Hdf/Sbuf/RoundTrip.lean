import Hdf.Sbuf.Invariant

/-!
# Sbuf round trip

What is written to a fresh sbuf comes back when it is read in the same order,
however often the storage has grown and the sbuf has been copied or moved in
between. The written bytes are the padded elements of the items one after the
other, and a read takes the next element off the front.

## Main results

* `holds_of_filled`: the written bytes are the padded elements of the items
* `Unread.readItem`: reading an item takes its elements off the front
* `readItems_of_filled`: the round trip
-/

namespace Hdf.Sbuf

/-- A written integer or buffer. -/
inductive Item where
  | scalar (value : Scalar)
  | buffer (data : Option (List UInt8))

/-- The successful write of an item. -/
def writeItem (alloc alloc' : Option ℕ) (sbuf : HdfSBufRaw) : Item → Result Bool
  | .scalar value => writeScalar alloc sbuf value
  | .buffer data => writeBuffer alloc alloc' sbuf data

/-- The sbuf holds some items: it is fresh, an item was written, or it is the copy of an sbuf
that holds them or what such an sbuf was moved to. -/
inductive Filled : HdfSBufRaw → List Item → Prop
  | fresh {structAlloc : Bool} {alloc : Option ℕ} {capacity : ℕ} {sbuf : HdfSBufRaw}
    (h : obtainRaw structAlloc alloc capacity = some sbuf) : Filled sbuf []
  | write {sbuf sbuf' : HdfSBufRaw} {items : List Item} {item : Item} {alloc alloc' : Option ℕ}
    (before : Filled sbuf items) (h : writeItem alloc alloc' sbuf item = some (true, sbuf')) :
    Filled sbuf' (items ++ [item])
  | copy {sbuf new : HdfSBufRaw} {items : List Item} {structAlloc : Bool} {alloc : Option ℕ}
    (before : Filled sbuf items) (h : copy structAlloc alloc sbuf = some (some new)) :
    Filled new items
  | move {sbuf new : HdfSBufRaw} {items : List Item} {structAlloc : Bool}
    (before : Filled sbuf items) (h : (move structAlloc sbuf).1 = some new) : Filled new items

/-- The kind of an item, which tells how to read it. -/
inductive ItemType where
  | scalar (type : ScalarType)
  | buffer

/-- The kind of an item. -/
def Item.type : Item → ItemType
  | scalar value => .scalar value.type
  | buffer _ => .buffer

/-- What reading an item gives: an integer or a byte string. -/
inductive Content where
  | scalar (value : Scalar)
  | bytes (bytes : List UInt8)
  deriving DecidableEq

/-- The content of a written item; a buffer that is `NULL` is empty. -/
def Item.content : Item → Content
  | scalar value => .scalar value
  | buffer data => .bytes (data.getD [])

/-- The bytes that a found buffer points to. -/
def Found.bytes (found : Found) (sbuf : HdfSBufRaw) : Option (List UInt8) :=
  match found.data with
  | none => some []
  | some p => sbuf.data.bind fun data => loadAt data.bytes p found.readSize

/-- The read of an item of some type, with the bytes that a buffer points to. -/
def readItem (sbuf : HdfSBufRaw) : ItemType → Result (Option Content)
  | .scalar type => (readScalar sbuf type).map fun r => (r.1.map .scalar, r.2)
  | .buffer =>
    match readBuffer sbuf with
    | none => none
    | some (none, sbuf) => some (none, sbuf)
    | some (some found, sbuf) => (found.bytes sbuf).map fun bytes => (some (.bytes bytes), sbuf)

/-- The reads of items one after the other, as long as they succeed. -/
def readItems (sbuf : HdfSBufRaw) : List ItemType → Result (Option (List Content))
  | [] => some (some [], sbuf)
  | type :: types =>
    match readItem sbuf type with
    | none => none
    | some (none, sbuf) => some (none, sbuf)
    | some (some content, sbuf) =>
      (readItems sbuf types).map fun r => (r.1.map (content :: ·), r.2)

/-- The elements that an item is written as. -/
def Item.fields : Item → List (List UInt8)
  | scalar value => [value.bytes]
  | buffer data => bufferFields data

section

variable {sbuf sbuf' : HdfSBufRaw} {items : List Item} {item : Item} {data : Block}

/-! ### What is written -/

theorem writeItem_wrote {alloc alloc' : Option ℕ} (wf : WellFormed sbuf)
    (h : writeItem alloc alloc' sbuf item = some (true, sbuf')) :
    Wrote sbuf item.fields true sbuf' := by
  cases item with
  | scalar value =>
    obtain ⟨ok, sbuf₁, writes, wrote⟩ := writeScalar_spec wf alloc value
    cases writes.symm.trans h
    exact wrote
  | buffer data =>
    obtain ⟨ok, sbuf₁, writes, wrote⟩ := writeBuffer_spec wf alloc alloc' data
    cases writes.symm.trans h
    exact wrote

/-- A buffer that was written is at most as long as an sbuf can be. -/
theorem writeItem_short {alloc alloc' : Option ℕ} {src : List UInt8} (wf : WellFormed sbuf)
    (limit : sbuf.capacity ≤ hdfSbufMaxSize)
    (h : writeItem alloc alloc' sbuf (.buffer (some src)) = some (true, sbuf')) :
    src.length < 2 ^ 31 := by
  have wrote := writeItem_wrote wf h
  obtain ⟨bytes, padded, -, writePos⟩ := wrote.done rfl
  have inside := wrote.wellFormed.write_le
  have limit := wrote.stays.limit limit
  rw [hdfSbufMaxSize] at limit
  have longer : src.length ≤ bytes.length := by
    rw [Item.fields, bufferFields] at padded
    cases padded with
    | cons _ rest =>
      cases rest
      simp only [List.length_append]
      omega
  omega

/-- What `Filled` keeps: a fresh read position, the size limit, and the padded elements. -/
structure Holds (sbuf : HdfSBufRaw) (items : List Item) : Prop where
  wellFormed : WellFormed sbuf
  data : sbuf.data.isSome
  limit : sbuf.capacity ≤ hdfSbufMaxSize
  readPos : sbuf.readPos = 0
  padded : Padded (items.flatMap Item.fields) (written sbuf)
  short : ∀ src, Item.buffer (some src) ∈ items → src.length < 2 ^ 31

theorem Copied.holds {new : HdfSBufRaw} (copied : Copied sbuf new) (h : Holds sbuf items) :
    Holds new items where
  wellFormed := copied.wellFormed
  data := copied.data h.data
  limit := copied.capacity.trans_le h.limit
  readPos := copied.readPos
  padded := copied.written ▸ h.padded
  short := h.short

/-- Another sbuf with the same written bytes holds the same items. -/
theorem Holds.of_written {new : HdfSBufRaw} (h : Holds sbuf items) (wf : WellFormed new)
    (data : new.data.isSome) (limit : new.capacity ≤ hdfSbufMaxSize) (readPos : new.readPos = 0)
    (same : written new = written sbuf) : Holds new items :=
  ⟨wf, data, limit, readPos, same ▸ h.padded, h.short⟩

/-- A written item is added behind the others. -/
theorem Holds.writeItem {alloc alloc' : Option ℕ} (held : Holds sbuf items)
    (h : Sbuf.writeItem alloc alloc' sbuf item = some (true, sbuf')) :
    Holds sbuf' (items ++ [item]) := by
  have wrote := writeItem_wrote held.wellFormed h
  obtain ⟨bytes, padded, same, -⟩ := wrote.done rfl
  refine ⟨wrote.wellFormed, wrote.data held.data, wrote.stays.limit held.limit,
    wrote.readPos.trans held.readPos, ?_, ?_⟩
  · rw [List.flatMap_append, same]
    have one := held.padded.append padded
    simpa using one
  · intro src member
    rcases List.mem_append.mp member with old | added
    · exact held.short src old
    · obtain rfl := List.mem_singleton.mp added
      exact writeItem_short held.wellFormed held.limit h

/-- A write that fails leaves the items. -/
theorem Holds.wrote_failed {srcs : List (List UInt8)} (held : Holds sbuf items)
    (wrote : Wrote sbuf srcs false sbuf') : Holds sbuf' items :=
  held.of_written wrote.wellFormed (wrote.data held.data) (wrote.stays.limit held.limit)
    (wrote.readPos.trans held.readPos) (wrote.failed rfl).2

theorem holds_of_filled (h : Filled sbuf items) : Holds sbuf items := by
  induction h with
  | @fresh _ _ _ sbuf h =>
    obtain ⟨limit, base, rfl⟩ := newInstance_spec h
    have got := (Got.intact (.obtained h)).wellFormed _ (List.mem_singleton_self _)
    exact ⟨got, rfl, limit, rfl, .nil, by simp⟩
  | write _ h ih => exact ih.writeItem h
  | copy _ h ih =>
    obtain ⟨r, copies, copied⟩ := copy_spec ih.wellFormed _ _
    cases copies.symm.trans h
    exact (copied _ rfl).holds ih
  | move _ h ih => exact ((move_spec ih.wellFormed _).2.2 _ h).holds ih

/-! ### Reading it back -/

/-- Some elements are still to be read. -/
structure Unread (sbuf : HdfSBufRaw) (data : Block) (srcs : List (List UInt8)) : Prop where
  wellFormed : WellFormed sbuf
  there : sbuf.data = some data
  rest : ∃ consumed bytes, data.bytes.take sbuf.writePos = consumed ++ bytes ∧
    consumed.length = sbuf.readPos ∧ Padded srcs bytes

/-- Nothing has been read of an sbuf that holds some items. -/
theorem Holds.unread (h : Holds sbuf items) (there : sbuf.data = some data) :
    Unread sbuf data (items.flatMap Item.fields) :=
  ⟨h.wellFormed, there, [], _, rfl, h.readPos.symm, written_of_data there ▸ h.padded⟩

variable {src : List UInt8} {srcs : List (List UInt8)}

/-- The next element stands at the read position, with room for its padding. -/
theorem Unread.front (h : Unread sbuf data (src :: srcs)) :
    (data.bytes.drop sbuf.readPos).take src.length = src ∧
      sbuf.readPos + roundUp4 src.length ≤ sbuf.writePos := by
  obtain ⟨wf, there, consumed, bytes, known, pos, padded⟩ := h
  have inside : sbuf.writePos ≤ data.bytes.length := wf.block data there ▸ wf.write_le
  have total := congrArg List.length known
  rw [List.length_take, min_eq_left inside, List.length_append] at total
  cases padded with
  | @cons _ _ pad bytes length rest =>
    rw [List.length_append, List.length_append] at total
    have loads := loadAt_of_take known inside (show src.length ≤ _ by simp)
    rw [loadAt_eq (by omega), List.take_left, pos] at loads
    exact ⟨Option.some.inj loads, by omega⟩

theorem Unread.advance (h : Unread sbuf data (src :: srcs)) :
    Unread { sbuf with readPos := sbuf.readPos + roundUp4 src.length } data srcs := by
  refine ⟨h.wellFormed.setReadPos h.front.2, h.there, ?_⟩
  obtain ⟨_, _, consumed, bytes, known, pos, padded⟩ := h
  cases padded with
  | @cons _ _ pad bytes length rest =>
    refine ⟨consumed ++ (src ++ pad), bytes, ?_, ?_, rest⟩
    · rw [known, List.append_assoc, List.append_assoc]
    · rw [List.length_append, List.length_append, pos, length]

/-- When nothing is left to be read, the read position is at the end. -/
theorem Unread.readPos (h : Unread sbuf data []) : sbuf.readPos = sbuf.writePos := by
  obtain ⟨wf, there, consumed, bytes, known, pos, nothing⟩ := h
  cases nothing
  have length := length_written wf there
  rwa [written_of_data there, known, List.append_nil, pos] at length

theorem Unread.read (h : Unread sbuf data (src :: srcs)) (nonempty : 0 < src.length)
    (word : src.length < 2 ^ 32) :
    Sbuf.read sbuf src.length =
      some (some src, { sbuf with readPos := sbuf.readPos + roundUp4 src.length }) := by
  obtain ⟨here, room⟩ := h.front
  rw [read_eq h.wellFormed h.there nonempty word, if_neg (by omega), here]

/-- An integer comes back from its bytes. -/
theorem Unread.readScalar {value : Scalar} (h : Unread sbuf data (value.bytes :: srcs)) :
    ∃ sbuf', Sbuf.readScalar sbuf value.type = some (some value, sbuf') ∧
      Unread sbuf' data srcs := by
  have reads {α : Type} {size n : ℕ} (bytes : value.bytes = leBytes size n) (nonempty : 0 < size)
      (word : size < 2 ^ 32) (ofNat : ℕ → α) :
      readValue sbuf size ofNat = some (some (ofNat (n % 256 ^ size)),
        { sbuf with readPos := sbuf.readPos + roundUp4 value.bytes.length }) := by
    have length : value.bytes.length = size := by rw [bytes, length_leBytes]
    have taken := h.read (by omega) (by omega)
    rw [length] at taken
    rw [readValue, taken, length]
    simp [bytes, leNat_leBytes]
  refine ⟨_, ?_, h.advance⟩
  cases value with
  | uint64 v =>
    rw [Scalar.type, Sbuf.readScalar, readUint64, reads rfl (by norm_num) (by norm_num)]
    simp [Nat.mod_eq_of_lt v.toNat_lt]
  | uint32 v =>
    rw [Scalar.type, Sbuf.readScalar, readUint32, reads rfl (by norm_num) (by norm_num)]
    simp [Nat.mod_eq_of_lt v.toNat_lt]
  | uint16 v =>
    rw [Scalar.type, Sbuf.readScalar, readUint16, reads rfl (by norm_num) (by norm_num)]
    simp [Nat.mod_eq_of_lt v.toNat_lt]
  | uint8 v =>
    rw [Scalar.type, Sbuf.readScalar, readUint8, reads rfl (by norm_num) (by norm_num)]
    simp [Nat.mod_eq_of_lt v.toNat_lt]
  | int64 v =>
    rw [Scalar.type, Sbuf.readScalar, readInt64, reads rfl (by norm_num) (by norm_num)]
    simp [Nat.mod_eq_of_lt v.toUInt64.toNat_lt]
  | int32 v =>
    rw [Scalar.type, Sbuf.readScalar, readInt32, reads rfl (by norm_num) (by norm_num)]
    simp [Nat.mod_eq_of_lt v.toUInt32.toNat_lt]
  | int16 v =>
    rw [Scalar.type, Sbuf.readScalar, readInt16, reads rfl (by norm_num) (by norm_num)]
    simp [Nat.mod_eq_of_lt v.toUInt16.toNat_lt]
  | int8 v =>
    rw [Scalar.type, Sbuf.readScalar, readInt8, reads rfl (by norm_num) (by norm_num)]
    simp [Nat.mod_eq_of_lt v.toUInt8.toNat_lt]

/-- The length word of a short buffer is its length. -/
theorem Unread.lengthWord {n : ℕ} (h : Unread sbuf data (leBytes 4 n :: srcs))
    (small : n < 2 ^ 31) :
    (Sbuf.lengthWord data sbuf.readPos).toInt = n ∧
      (Sbuf.lengthWord data sbuf.readPos).toUInt32.toNat = n := by
  have front := h.front.1
  rw [length_leBytes] at front
  have word : Sbuf.lengthWord data sbuf.readPos = (UInt32.ofNat n).toInt32 := by
    rw [Sbuf.lengthWord, front, leNat_leBytes_of_lt (by omega)]
  have unsigned : (UInt32.ofNat n).toNat = n := by
    rw [UInt32.toNat_ofNat', Nat.mod_eq_of_lt (by omega)]
  rw [word]
  constructor
  · change (UInt32.ofNat n).toBitVec.toInt = n
    rw [BitVec.toInt_eq_toNat_cond]
    change (if 2 * (UInt32.ofNat n).toNat < 2 ^ 32 then _ else _) = _
    rw [unsigned, if_pos (by omega)]
    exact congrArg Nat.cast unsigned
  · simpa using unsigned

/-- A buffer comes back from its length and its bytes. -/
theorem Unread.readBuffer (h : Unread sbuf data (leBytes 4 src.length :: src :: srcs))
    (short : src.length < 2 ^ 31) :
    ∃ sbuf', readItem sbuf .buffer = some (some (.bytes src), sbuf') ∧ Unread sbuf' data srcs := by
  obtain ⟨signed, unsigned⟩ := h.lengthWord short
  have next := h.advance
  have room := h.front.2
  have four : roundUp4 4 = 4 := rfl
  rw [length_leBytes, four] at next room
  have zero : Sbuf.lengthWord data sbuf.readPos = 0 ↔ src.length = 0 := by
    rw [← Int32.toInt_inj, signed, Int32.toInt_zero, Int.natCast_eq_zero]
  have reads := readBuffer_eq h.wellFormed h.there
  rw [if_neg (by omega)] at reads
  refine ⟨_, ?_, next.advance⟩
  rw [readItem]
  by_cases empty : src.length = 0
  · rw [if_pos (zero.mpr empty)] at reads
    rw [reads]
    obtain rfl := List.length_eq_zero_iff.mp empty
    rfl
  · obtain ⟨here, inside⟩ := next.front
    dsimp only at here inside
    have size : getAlignSize (sizeOfInt (Sbuf.lengthWord data sbuf.readPos)) =
        roundUp4 src.length := by
      rw [(sizeOfInt_of_pos (by omega)).1, signed, Int.toNat_natCast, getAlignSize_of_lt (by omega)]
    have padding := le_roundUp4 src.length
    have length := h.wellFormed.block data h.there
    have written_le := h.wellFormed.write_le
    rw [if_neg (by rwa [zero]), size, if_neg (by omega)] at reads
    rw [reads]
    simp only [Found.bytes, unsigned, h.there, Option.bind_some]
    rw [loadAt_eq (by omega), here]
    rfl

/-- The elements of an item whose length is not truncated. -/
theorem bufferFields_short (short : src.length < 2 ^ 31) :
    bufferFields (some src) = [leBytes 4 src.length, src] := by
  rw [bufferFields, Nat.mod_eq_of_lt (by omega)]

theorem Unread.readItem (h : Unread sbuf data (item.fields ++ srcs))
    (short : ∀ src, item = .buffer (some src) → src.length < 2 ^ 31) :
    ∃ sbuf', Sbuf.readItem sbuf item.type = some (some item.content, sbuf') ∧
      Unread sbuf' data srcs := by
  cases item with
  | scalar value =>
    obtain ⟨sbuf', reads, rest⟩ := Unread.readScalar h
    exact ⟨sbuf', by rw [Item.type, Sbuf.readItem, reads]; rfl, rest⟩
  | buffer written =>
    cases written with
    | some src =>
      rw [Item.fields, bufferFields_short (short src rfl)] at h
      exact h.readBuffer (short src rfl)
    | none =>
      -- a buffer that is `NULL` is written like an empty one, less an element without bytes
      have empty : Unread sbuf data (leBytes 4 ([] : List UInt8).length :: [] :: srcs) := by
        obtain ⟨wf, there, consumed, bytes, known, pos, padded⟩ := h
        refine ⟨wf, there, consumed, bytes, known, pos, ?_⟩
        cases padded with
        | @cons _ _ pad bytes length rest => exact .cons length (@Padded.cons [] _ [] _ rfl rest)
      exact empty.readBuffer (by simp)

theorem readItems_spec (h : Unread sbuf data (items.flatMap Item.fields))
    (short : ∀ src, Item.buffer (some src) ∈ items → src.length < 2 ^ 31) :
    ∃ sbuf', readItems sbuf (items.map Item.type) = some (some (items.map Item.content), sbuf') ∧
      Unread sbuf' data [] := by
  induction items generalizing sbuf with
  | nil => exact ⟨sbuf, rfl, h⟩
  | cons item items ih =>
    rw [List.flatMap_cons] at h
    obtain ⟨sbuf₁, reads, rest⟩ := h.readItem fun src same => short src (same ▸ List.mem_cons_self)
    obtain ⟨sbuf₂, later, done⟩ :=
      ih rest fun src member => short src (List.mem_cons_of_mem _ member)
    refine ⟨sbuf₂, ?_, done⟩
    rw [List.map_cons, readItems, reads]
    dsimp only
    rw [later]
    rfl

/-- The items written to a fresh sbuf, or to the sbufs it was copied or moved to,
are read back in order, up to the write position. -/
theorem readItems_of_filled (h : Filled sbuf items) :
    ∃ sbuf', readItems sbuf (items.map Item.type) = some (some (items.map Item.content), sbuf') ∧
      sbuf'.readPos = sbuf'.writePos := by
  obtain ⟨wf, data, -, readPos, padded, short⟩ := holds_of_filled h
  obtain ⟨data, there⟩ := Option.isSome_iff_exists.mp data
  have start : Unread sbuf data (items.flatMap Item.fields) :=
    ⟨wf, there, [], _, rfl, readPos.symm, written_of_data there ▸ padded⟩
  obtain ⟨sbuf', reads, done⟩ := readItems_spec start short
  exact ⟨sbuf', reads, done.readPos⟩

end

/-! ### Examples -/

/-- A number and a buffer. -/
def numberAndBuffer : List Item := [.scalar (.int16 (-2)), .buffer (some [1, 2, 3])]

/-- The sbuf grows for the buffer and is copied afterwards. -/
theorem readItems_of_filled_grown :
    ∃ sbuf sbuf', Filled sbuf numberAndBuffer ∧
      readItems sbuf (numberAndBuffer.map Item.type) =
        some (some (numberAndBuffer.map Item.content), sbuf') ∧
      sbuf'.readPos = sbuf'.writePos := by
  have fresh : Filled ⟨0, 0, 4, some ⟨4096, [0, 0, 0, 0]⟩, false⟩ [] :=
    .fresh (show obtainRaw true (some 4096) 4 = some _ from rfl)
  have first : Filled ⟨4, 0, 4, some ⟨4096, [254, 255, 0, 0]⟩, false⟩ [.scalar (.int16 (-2))] :=
    fresh.write (show writeItem none none _ _ = _ from rfl)
  have second : Filled ⟨12, 0, 260, some ⟨8192, [254, 255, 0, 0, 3, 0, 0, 0, 1, 2, 3, 0] ++
      List.replicate 248 0⟩, false⟩ numberAndBuffer :=
    first.write (show writeItem (some 8192) none _ _ = _ by decide +kernel)
  have third : Filled ⟨12, 0, 260, some ⟨4096, [254, 255, 0, 0, 3, 0, 0, 0, 1, 2, 3, 0] ++
      List.replicate 248 0⟩, false⟩ numberAndBuffer :=
    second.copy (show copy true (some 4096) _ = _ by decide +kernel)
  obtain ⟨sbuf', reads, ends⟩ := readItems_of_filled third
  exact ⟨_, sbuf', third, reads, ends⟩

end Hdf.Sbuf
