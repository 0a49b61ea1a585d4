import Mathlib.Data.List.Basic

/-!
# Source files

The reader of source files keeps a block of bytes and reads the next block when it has handed out
the last byte. Behind a block that the file did not fill stands a byte with the value -1, and the
file counts as ended in front of every such byte. When the last block has been filled, the end is
only seen once somebody looks for a byte behind it. A `char` is signed, and reading does not fail.

## Main results

* `File.Reads.isEof_eq`: the end is seen unless the last block has been filled
* `File.Reads.getChar`, `File.Reads.peekChar`: bytes are handed out in order, across all blocks
* `File.size_getChar_lt`: the reader goes on unless the file counts as ended
-/

namespace Hdf.HdiGen

/-- `BUFFER_SIZE - 1`. -/
def blockSize : ℕ := 1023

/-- The byte with the value -1. -/
def endMark : UInt8 := 0xff

/-- `File`: the rest of the block in the buffer, whether the file did not fill it, the bytes that
have not been read, and `isEof_`. -/
structure File where
  buffered : List UInt8
  short : Bool
  unread : List UInt8
  ended : Bool
  deriving DecidableEq, Repr

namespace File

/-- A file that has just been opened. -/
def opened (content : List UInt8) : File := ⟨[], false, content, false⟩

/-- `buffer_[position_]`. -/
def current (file : File) : UInt8 :=
  match file.buffered with
  | c :: _ => c
  | [] => if file.short then endMark else 0

/-- `Read`, with what `PeekChar` makes of its failure. -/
def read (file : File) : File :=
  if file.ended then file
  else ⟨file.unread.take blockSize, decide (file.unread.length < blockSize),
    file.unread.drop blockSize, file.unread.isEmpty⟩

/-- `PeekChar`. -/
def peekChar (file : File) : UInt8 × File :=
  let file := if file.buffered.isEmpty then file.read else file
  (file.current, file)

/-- `GetChar`. -/
def getChar (file : File) : UInt8 × File :=
  let (c, file) := file.peekChar
  (c, { file with buffered := file.buffered.tail })

/-- `IsEof`. -/
def isEof (file : File) : Bool := file.ended || file.current == endMark

/-! ### Going on -/

/-- The number of bytes that are still to be handed out, and one for the end. -/
def size (file : File) : ℕ :=
  file.buffered.length + file.unread.length + if file.ended then 0 else 1

variable {file : File} {c : UInt8} {w : List UInt8} {full : Bool}

theorem size_read_le : file.read.size ≤ file.size := by
  rw [read]
  split
  · exact Nat.le_refl _
  · rename_i more
    simp only [size, List.length_take, List.length_drop, more]
    split <;> simp <;> omega

theorem size_peekChar_le : file.peekChar.2.size ≤ file.size := by
  rw [peekChar]
  split
  · exact size_read_le
  · exact Nat.le_refl _

theorem size_getChar_le : file.getChar.2.size ≤ file.size := by
  have tail : file.peekChar.2.buffered.tail.length ≤ file.peekChar.2.buffered.length := by
    rw [List.length_tail]
    exact Nat.sub_le _ _
  exact Nat.le_trans (Nat.add_le_add_right (Nat.add_le_add_right tail _) _) size_peekChar_le

theorem not_ended_of_not_isEof (more : file.isEof = false) : file.ended = false :=
  (Bool.or_eq_false_iff.mp more).1

/-- Unless the file counts as ended, handing out a byte brings its end nearer. -/
theorem size_getChar_lt (more : file.isEof = false) : file.getChar.2.size < file.size := by
  have unended := not_ended_of_not_isEof more
  simp only [getChar, peekChar, read, unended]
  cases buffered : file.buffered with
  | cons c rest => simp [size, buffered]
  | nil =>
    cases unread : file.unread with
    | nil => simp [size, buffered, unread, unended]
    | cons c rest =>
      simp [size, buffered, unread, unended, blockSize]
      omega

/-- Looking at a byte twice is looking at it once. -/
theorem peekChar_peekChar : file.peekChar.2.peekChar = file.peekChar := by
  cases ended : file.ended with
  | true => cases buffered : file.buffered <;> simp [peekChar, read, ended, buffered]
  | false =>
    cases buffered : file.buffered with
    | cons c rest => simp [peekChar, buffered]
    | nil =>
      cases unread : file.unread <;> simp [peekChar, read, ended, buffered, unread, blockSize]

theorem getChar_peekChar : file.peekChar.2.getChar = file.getChar := by
  rw [getChar, peekChar_peekChar, getChar]

/-! ### The text that is left -/

/-- What is left of a file. -/
def rest (file : File) : List UInt8 := file.buffered ++ file.unread

/-- A text is left to be read, and `full` says that its last block will be filled. -/
structure Reads (file : File) (w : List UInt8) (full : Bool) : Prop where
  unended : file.ended = false
  rest_eq : file.rest = w
  noMark : endMark ∉ w
  last : file.short = true → file.unread = []
  full_eq : full = (!file.short && decide (file.unread.length % blockSize = 0))

theorem reads_opened (noMark : endMark ∉ w) :
    (opened w).Reads w (decide (w.length % blockSize = 0)) :=
  ⟨rfl, rfl, noMark, nofun, rfl⟩

/-- The end of a text is seen unless its last block has been filled. -/
theorem Reads.isEof_eq (reads : file.Reads w full) : file.isEof = (w.isEmpty && !full) := by
  obtain ⟨unended, rfl, noMark, last, rfl⟩ := reads
  rw [isEof, unended, Bool.false_or, current]
  rw [rest] at noMark ⊢
  cases buffered : file.buffered with
  | cons c behind =>
    rw [buffered] at noMark
    have other : c ≠ endMark := fun same => noMark (same ▸ List.mem_cons_self)
    simp [other]
  | nil =>
    cases short : file.short with
    | true => simp [last short]
    | false =>
      cases unread : file.unread with
      | nil | cons d behind => simp [endMark]

theorem Reads.isEof_cons (reads : file.Reads (c :: w) full) : file.isEof = false := reads.isEof_eq

/-- Reading the next block changes nothing of the text. -/
theorem Reads.read (reads : file.Reads (c :: w) full) (none : file.buffered = []) :
    file.read.Reads (c :: w) full := by
  obtain ⟨unended, rest_eq, noMark, last, rfl⟩ := reads
  rw [rest, none, List.nil_append] at rest_eq
  have unfilled : file.short = false := by
    by_contra short
    have nothing := last (Bool.not_eq_false _ ▸ short)
    rw [rest_eq] at nothing
    cases nothing
  rw [File.read, unended, if_neg Bool.false_ne_true, rest_eq, unfilled]
  refine ⟨rfl, List.take_append_drop _ _, noMark, fun short => ?_, ?_⟩
  · exact List.drop_eq_nil_of_le (Nat.le_of_lt (of_decide_eq_true short))
  · dsimp only
    rw [List.length_drop, Bool.not_false, Bool.true_and]
    by_cases less : (c :: w).length < blockSize
    · have positive : (c :: w).length % blockSize ≠ 0 := by
        rw [Nat.mod_eq_of_lt less]
        exact Nat.succ_ne_zero _
      rw [decide_eq_false positive, decide_eq_true less, Bool.not_true, Bool.false_and]
    · have same : (c :: w).length % blockSize = ((c :: w).length - blockSize) % blockSize :=
        Nat.mod_eq_sub_mod (Nat.not_lt.mp less)
      rw [decide_eq_false less, ← same, Bool.not_false, Bool.true_and]

/-- A byte that has been read is the next byte of the text. -/
theorem Reads.buffered_eq (reads : file.Reads (c :: w) full) (some : file.buffered ≠ []) :
    ∃ behind, file.buffered = c :: behind ∧ behind ++ file.unread = w := by
  have rest_eq := reads.rest_eq
  rw [rest] at rest_eq
  cases buffered : file.buffered with
  | nil => exact absurd buffered some
  | cons d behind =>
    rw [buffered] at rest_eq
    obtain ⟨rfl, same⟩ := List.cons.inj rest_eq
    exact ⟨behind, rfl, same⟩

theorem Reads.peekChar (reads : file.Reads (c :: w) full) :
    file.peekChar.1 = c ∧ file.peekChar.2.Reads (c :: w) full ∧ file.peekChar.2.buffered ≠ [] := by
  cases buffered : file.buffered with
  | cons d behind =>
    have some : file.buffered ≠ [] := by
      rw [buffered]
      exact List.cons_ne_nil _ _
    have unmoved : file.peekChar = (file.current, file) := by
      rw [File.peekChar, buffered]
      rfl
    obtain ⟨_, same, -⟩ := reads.buffered_eq some
    rw [unmoved]
    refine ⟨?_, reads, some⟩
    rw [current, same]
  | nil =>
    have moved : file.peekChar = (file.read.current, file.read) := by
      rw [File.peekChar, buffered]
      rfl
    have some : file.read.buffered ≠ [] := by
      have text := reads.rest_eq
      rw [rest, buffered, List.nil_append] at text
      rw [File.read, reads.unended, if_neg Bool.false_ne_true, text]
      exact List.cons_ne_nil _ _
    obtain ⟨_, same, -⟩ := (reads.read buffered).buffered_eq some
    rw [moved]
    refine ⟨?_, reads.read buffered, some⟩
    rw [current, same]

theorem Reads.getChar (reads : file.Reads (c :: w) full) :
    file.getChar.1 = c ∧ file.getChar.2.Reads w full := by
  obtain ⟨same, again, some⟩ := reads.peekChar
  obtain ⟨behind, front, rest_eq⟩ := again.buffered_eq some
  refine ⟨same, again.unended, ?_, fun mark => again.noMark (List.mem_cons_of_mem _ mark),
    again.last, again.full_eq⟩
  rw [File.getChar, rest, ← rest_eq]
  dsimp only
  rw [front, List.tail_cons]

/-! ### The end of the text -/

/-- The end has been seen, and nothing is left. -/
structure Ended (file : File) : Prop where
  isEof : file.isEof = true
  rest_eq : file.rest = []

theorem Ended.not_more (ended : file.Ended) : ¬ file.isEof = false := by
  rw [ended.isEof]
  decide

theorem Reads.nil_cases (reads : file.Reads [] full) :
    file.buffered = [] ∧ file.unread = [] :=
  List.append_eq_nil_iff.mp reads.rest_eq

theorem Reads.ended (reads : file.Reads [] full) (seen : file.isEof = true) : file.Ended :=
  ⟨seen, reads.rest_eq⟩

/-- Who looks behind the text sees its end. -/
theorem Reads.peekChar_nil (reads : file.Reads [] full) :
    file.peekChar.1 = endMark ∧ file.peekChar.2.Ended := by
  obtain ⟨buffered, unread⟩ := reads.nil_cases
  have moved : file.peekChar = (endMark, ⟨[], true, [], true⟩) := by
    rw [File.peekChar, buffered, File.read, reads.unended, unread]
    rfl
  rw [moved]
  exact ⟨rfl, rfl, rfl⟩

theorem Reads.getChar_nil (reads : file.Reads [] full) :
    file.getChar.1 = endMark ∧ file.getChar.2.Ended := by
  obtain ⟨buffered, unread⟩ := reads.nil_cases
  have moved : file.getChar = (endMark, ⟨[], true, [], true⟩) := by
    rw [File.getChar, File.peekChar, buffered, File.read, reads.unended, unread]
    rfl
  rw [moved]
  exact ⟨rfl, rfl, rfl⟩

end File

end Hdf.HdiGen
