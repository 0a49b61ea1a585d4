import Hdf.Sbuf.Invariant
import Hdf.Sbuf.ReadBounds
import Hdf.Sbuf.RoundTrip
import Hdf.Utils.CString

/-!
# The limits on strings

`SbufRawImplWriteString` writes every string for which there is room, which may be
half a megabyte or, in an sbuf that is bound, anything. `SbufRawImplReadString`
rejects a string of more than `INT16_MAX` bytes with its terminator.

## Main results

* `string_readsBack_iff`: a string comes back exactly when it is within the limit of the reader
-/

namespace Hdf.Sbuf

/-- A reader that stands where the write has begun gets the string with its terminator,
and ends behind the element. -/
def ReadsBack (sbuf sbuf' : HdfSBufRaw) (s : CString) : Prop :=
  ∃ p after data, readString { sbuf' with readPos := sbuf.writePos } = some (some p, after) ∧
    after.data = some data ∧ loadAt data.bytes p (s.length + 1) = some (s.val ++ [0]) ∧
    after.readPos = sbuf'.writePos

section

variable {sbuf sbuf' : HdfSBufRaw} {alloc alloc' : Option ℕ} {s : CString} {data : Block}

/-- The bytes that are written for a string. -/
def stringBytes (s : CString) : List UInt8 := (s.val ++ [0]).take (uint32T (s.length + 1))

theorem length_stringBytes (s : CString) : (stringBytes s).length = (s.length + 1) % 2 ^ 32 := by
  have shorter := Nat.mod_le (s.length + 1) (2 ^ 32)
  rw [stringBytes, List.length_take, List.length_append, List.length_singleton, uint32T]
  exact min_eq_left shorter

/-- What has been written stands in front of a reader at its start. -/
theorem Wrote.unread {srcs : List (List UInt8)} (wf : WellFormed sbuf)
    (there : sbuf.data.isSome) (wrote : Wrote sbuf srcs true sbuf') :
    ∃ data, sbuf'.data = some data ∧ Unread { sbuf' with readPos := sbuf.writePos } data srcs := by
  obtain ⟨bytes, padded, same, writePos⟩ := wrote.done rfl
  obtain ⟨data, there'⟩ := Option.isSome_iff_exists.mp (wrote.data there)
  obtain ⟨old, there⟩ := Option.isSome_iff_exists.mp there
  refine ⟨data, there', wrote.wellFormed.setReadPos (by omega), there', written sbuf, bytes, ?_, ?_,
    padded⟩
  · rw [← same, written_of_data there']
  · exact length_written wf there

/-- An sbuf without storage takes no string. -/
theorem isSome_of_writeString (writes : writeString alloc alloc' sbuf (some s.val) =
    some (true, sbuf')) : sbuf.data.isSome := by
  cases there : sbuf.data with
  | some data => rfl
  | none => simp [writeString, writeBuffer, writeInt32, writeValue, write, there] at writes

theorem unread_of_writeString (wf : WellFormed sbuf)
    (writes : writeString alloc alloc' sbuf (some s.val) = some (true, sbuf')) :
    ∃ data, sbuf'.data = some data ∧ Unread { sbuf' with readPos := sbuf.writePos } data
      [leBytes 4 ((s.length + 1) % 2 ^ 32), stringBytes s] := by
  obtain ⟨ok, _, writes', wrote⟩ := writeString_spec wf alloc alloc' (some s.val)
  cases writes'.symm.trans writes
  have fields : bufferFields ((some s.val).map fun t => (t ++ [0]).take (uint32T (t.length + 1))) =
      [leBytes 4 ((s.length + 1) % 2 ^ 32), stringBytes s] := by
    change [leBytes 4 ((stringBytes s).length % 2 ^ 32), stringBytes s] = _
    rw [length_stringBytes, Nat.mod_mod]
  rw [fields] at wrote
  exact wrote.unread wf (isSome_of_writeString writes)

theorem readsBack_of_short (wf : WellFormed sbuf)
    (writes : writeString alloc alloc' sbuf (some s.val) = some (true, sbuf'))
    (short : s.length + 1 ≤ int16Max) : ReadsBack sbuf sbuf' s := by
  obtain ⟨data, there, unread⟩ := unread_of_writeString wf writes
  have limit : int16Max = 32767 := rfl
  have whole : stringBytes s = s.val ++ [0] := by
    rw [stringBytes, uint32T, Nat.mod_eq_of_lt (by omega)]
    exact List.take_of_length_le (by rw [List.length_append]; rfl)
  have length : (s.val ++ [0]).length = s.length + 1 := List.length_append
  rw [Nat.mod_eq_of_lt (by omega), whole] at unread
  obtain ⟨word, -⟩ := unread.lengthWord (by omega)
  have next := unread.advance
  obtain ⟨here, room⟩ := next.front
  have ends := next.advance.readPos
  have four : roundUp4 4 = 4 := rfl
  have written_le := unread.wellFormed.write_le
  have stored := unread.wellFormed.block data there
  have padding := le_roundUp4 (s.length + 1)
  dsimp only at word here room ends written_le stored
  rw [length] at here room ends
  rw [length_leBytes, four] at here room ends
  have terminator : (data.bytes.drop (sbuf.writePos + 4 + s.length)).take 1 = [0] := by
    have last := congrArg (List.drop s.length) here
    rw [List.drop_take, List.drop_drop, Nat.add_sub_cancel_left] at last
    rw [last]
    exact List.drop_left' rfl
  have unchanged : storeAt data.bytes (sbuf.writePos + 4 + s.length) [0] = some data.bytes :=
    storeAt_self (by rw [List.length_singleton]; omega) terminator
  have reads := readString_eq unread.wellFormed unread.there
  dsimp only at reads
  have positive : ¬ lengthWord data sbuf.writePos ≤ 0 := by
    rw [Int32.le_iff_toInt_le, word, Int32.toInt_zero]
    omega
  rw [if_neg (by omega), if_neg positive, word, Int.toNat_natCast, if_neg (by omega),
    Nat.add_sub_cancel, unchanged] at reads
  refine ⟨_, _, data, reads, rfl, ?_, ends⟩
  rw [loadAt_eq (by omega), here]

/-- A length word that is positive as a signed number has not lost its sign. -/
theorem signed_lt_of_pos {n : ℕ} {srcs : List (List UInt8)}
    (h : Unread sbuf data (leBytes 4 (n % 2 ^ 32) :: srcs))
    (positive : 0 < (lengthWord data sbuf.readPos).toInt) : n % 2 ^ 32 < 2 ^ 31 := by
  have front := h.front.1
  rw [length_leBytes] at front
  have word : (lengthWord data sbuf.readPos).toUInt32.toNat = n % 2 ^ 32 := by
    have fits : n % 2 ^ 32 < 256 ^ 4 := (Nat.mod_lt n (by norm_num)).trans_eq (by norm_num)
    rw [lengthWord, front, leNat_leBytes_of_lt fits]
    simp
  have unsigned := toNat_toUInt32 (lengthWord data sbuf.readPos)
  have upper := (lengthWord data sbuf.readPos).toInt_lt
  omega

theorem short_of_readsBack (wf : WellFormed sbuf)
    (writes : writeString alloc alloc' sbuf (some s.val) = some (true, sbuf'))
    (readsBack : ReadsBack sbuf sbuf' s) : s.length + 1 ≤ int16Max := by
  obtain ⟨data, there, unread⟩ := unread_of_writeString wf writes
  obtain ⟨p, after, block, reads, there', loads, -⟩ := readsBack
  obtain ⟨_, _, reads', -, -, found⟩ := readString_spec unread.wellFormed there
  cases reads'.symm.trans reads
  obtain ⟨positive, limit, -, -, -, bytes, stored, there''⟩ := found p rfl
  have small := signed_lt_of_pos unread positive
  rw [(unread.lengthWord small).1] at positive limit stored
  rw [Int.toNat_natCast] at stored
  cases there'.symm.trans there''
  by_contra long
  -- a longer string has lost its high bits, and a byte in its middle is cleared
  have shorter : (s.length + 1) % 2 ^ 32 - 1 < s.length := by omega
  rw [loadAt] at loads
  split at loads
  case isFalse => cases loads
  case isTrue =>
    have cleared := congrArg (·[(s.length + 1) % 2 ^ 32 - 1]?) (Option.some.inj loads)
    dsimp only at cleared
    rw [List.getElem?_take_of_lt (by omega), List.getElem?_drop, getElem?_of_storeAt stored,
      List.getElem?_append_left shorter] at cleared
    exact s.property (List.mem_of_getElem? cleared.symm)

/-- A write succeeds where there is room. -/
theorem write_of_room {src : List UInt8} (alloc : Option ℕ) (wf : WellFormed sbuf)
    (there : sbuf.data = some data)
    (limit : sbuf.capacity ≤ securecMemMaxLen) (nonempty : 0 < src.length)
    (room : sbuf.writePos + roundUp4 src.length ≤ sbuf.capacity) :
    ∃ sbuf', write alloc sbuf src = some (true, sbuf') ∧ sbuf'.capacity = sbuf.capacity := by
  have padding := le_roundUp4 src.length
  have securec : securecMemMaxLen = 2 ^ 31 - 1 := rfl
  have length := wf.block data there
  obtain ⟨bytes, stored⟩ : ∃ bytes, storeAt data.bytes sbuf.writePos src = some bytes :=
    exists_storeAt (by omega)
  rw [write]
  dsimp only
  rw [there, getAlignSize_of_lt (by omega), if_neg (by simp), if_neg (by omega),
    if_neg (by omega), wf.leftWrite, if_neg (by omega), writeHere, there]
  dsimp only
  rw [wf.leftWrite, memcpyS, if_neg (by omega), if_neg (by omega), stored]
  exact ⟨_, rfl, rfl⟩

/-- A string is written where there is room for it. -/
theorem writeString_of_room (alloc alloc' : Option ℕ) (s : CString) (wf : WellFormed sbuf)
    (there : sbuf.data = some data)
    (limit : sbuf.capacity ≤ securecMemMaxLen)
    (room : sbuf.writePos + 4 + roundUp4 (s.length + 1) ≤ sbuf.capacity) :
    ∃ sbuf', writeString alloc alloc' sbuf (some s.val) = some (true, sbuf') := by
  have padding := le_roundUp4 (s.length + 1)
  have securec : securecMemMaxLen = 2 ^ 31 - 1 := rfl
  have four : roundUp4 4 = 4 := rfl
  have length : (stringBytes s).length = s.length + 1 := by
    rw [length_stringBytes, Nat.mod_eq_of_lt (by omega)]
  have word : (leBytes 4 ((stringBytes s).length % 2 ^ 32)).length = 4 := length_leBytes 4 _
  have fits : sbuf.writePos + roundUp4 (leBytes 4 ((stringBytes s).length % 2 ^ 32)).length ≤
      sbuf.capacity := by
    rw [word]
    omega
  obtain ⟨sbuf₁, writes, capacity⟩ := write_of_room alloc wf there limit (by omega) fits
  obtain ⟨_, _, writes', wrote⟩ := write_spec wf alloc
    (leBytes 4 ((stringBytes s).length % 2 ^ 32))
  cases writes'.symm.trans writes
  obtain ⟨bytes, padded, -, writePos⟩ := wrote.done rfl
  rw [padded.length_one, word, four] at writePos
  obtain ⟨block, there₁⟩ := Option.isSome_iff_exists.mp
    (wrote.data (Option.isSome_iff_exists.mpr ⟨data, there⟩))
  obtain ⟨sbuf₂, writes₂, -⟩ := write_of_room alloc' wrote.wellFormed there₁
    (capacity.trans_le limit) (show 0 < (stringBytes s).length by omega)
    (by rw [length]; omega)
  refine ⟨sbuf₂, ?_⟩
  change writeBuffer alloc alloc' sbuf (some (stringBytes s)) = _
  rw [writeBuffer, writeInt32_length, writes]
  dsimp only
  rw [writes₂]

/-- After every run, a string that is written comes back exactly when the reader takes
strings of its length. -/
theorem string_readsBack_iff {origin : Origin} {first : HdfSBufRaw} (got : Got origin first)
    {ops : List (ℕ × Op)} {sbufs : List HdfSBufRaw} (run : runs [first] ops = some sbufs)
    (member : sbuf ∈ sbufs)
    (writes : writeString alloc alloc' sbuf (some s.val) = some (true, sbuf')) :
    ReadsBack sbuf sbuf' s ↔ s.length + 1 ≤ int16Max := by
  obtain ⟨_, run', wellFormed, -⟩ := runs_wellFormed got ops
  cases run'.symm.trans run
  have wf := wellFormed sbuf member
  exact ⟨short_of_readsBack wf writes, readsBack_of_short wf writes⟩

end

/-! ### Examples -/

/-- An sbuf with room for a short string. -/
def smallSbuf : HdfSBufRaw := ⟨0, 0, 8, some ⟨4096, [0, 0, 0, 0, 0, 0, 0, 0]⟩, false⟩

theorem string_readsBack_short : ∃ sbuf', ReadsBack smallSbuf sbuf' (.ofAscii "io") ↔
    (CString.ofAscii "io").length + 1 ≤ int16Max :=
  ⟨_, string_readsBack_iff
    (.obtained (show obtainRaw true (some 4096) 8 = some smallSbuf from rfl))
    (show runs [smallSbuf] [] = some [smallSbuf] from rfl) List.mem_cons_self
    (show writeString none none smallSbuf (some (CString.ofAscii "io").val) =
      some (true, ⟨8, 0, 8, some ⟨4096, [3, 0, 0, 0, 105, 111, 0, 0]⟩, false⟩) from rfl)⟩

/-- A string that has `INT16_MAX` bytes without its terminator. -/
def longString : CString :=
  ⟨List.replicate 32767 97, fun member => absurd (List.eq_of_mem_replicate member) (by decide)⟩

/-- An sbuf with room for it. -/
def largeSbuf : HdfSBufRaw := ⟨0, 0, 32772, some ⟨4096, List.replicate 32772 0⟩, false⟩

theorem writeString_longString : ∃ sbuf',
    obtainRaw true (some 4096) 32772 = some largeSbuf ∧
    writeString none none largeSbuf (some longString.val) = some (true, sbuf') ∧
    ¬ ReadsBack largeSbuf sbuf' longString := by
  have length : longString.length = 32767 := List.length_replicate
  have wf : WellFormed largeSbuf :=
    ⟨le_rfl, Nat.zero_le _, by decide, fun data same => by cases same; exact List.length_replicate⟩
  obtain ⟨sbuf', writes⟩ := writeString_of_room none none longString wf rfl (by decide)
    (by rw [length]; decide)
  refine ⟨sbuf', rfl, writes, fun readsBack => ?_⟩
  have short := short_of_readsBack wf writes readsBack
  rw [length] at short
  exact absurd short (by decide)

end Hdf.Sbuf
