import Hdf.HdiGen.SourceFile
import Hdf.HdiGen.Strings

/-!
# Tokens of interface definitions

The lexer reads one token after the other, and leaves out comments unless its caller wants them. The
texts of identifiers and numbers are collected in a `StringBuilder`, which drops what does not fit.
Each part of a token has a loop of its own that looks at the next byte and at the end of the file.
In the C locale no byte from 0x80 on is a letter or a space. Line and column numbers and the texts
of comments, which only reach messages, are left out.

## Main results

* `StringBuilder.buffer_appendChar`: a builder keeps the beginning of a text
* `File.readWhile_text`, `File.readWhile_stands`: a text is read to the first byte of another kind
* `File.readLineComment_stands`, `File.readBlockComment_stands`: comments are read to their ends
-/

namespace Hdf.HdiGen

/-- `Token`. -/
inductive Token where
  | unknown
  | void | boolean | byte | short | integer | long | string | float | double | fileDescriptor
  | list | map | smemQueue | char | unsigned
  | struct | enum | union
  | package | sequenceable | import_ | interface | extends_ | oneway | callback | full | lite
  | in_ | out
  | dot | comma | colon | assign | semicolon | bracesLeft | bracesRight
  | bracketsLeft | bracketsRight | parenthesesLeft | parenthesesRight
  | angleBracketsLeft | angleBracketsRight
  | identifier | digit | commentBlock | commentLine | endOfFile
  deriving DecidableEq, Repr

/-- The bytes of a text of the source. -/
def ascii (text : String) : List UInt8 := text.toList.map Char.toUInt8

/-- `keywords_`. -/
def keywords : List (List UInt8 × Token) :=
  [(ascii "boolean", .boolean), (ascii "byte", .byte), (ascii "callback", .callback),
    (ascii "char", .char), (ascii "double", .double), (ascii "enum", .enum),
    (ascii "extends", .extends_), (ascii "float", .float), (ascii "full", .full),
    (ascii "import", .import_), (ascii "in", .in_), (ascii "int", .integer),
    (ascii "interface", .interface), (ascii "List", .list), (ascii "lite", .lite),
    (ascii "long", .long), (ascii "Map", .map), (ascii "oneway", .oneway), (ascii "out", .out),
    (ascii "package", .package), (ascii "sequenceable", .sequenceable), (ascii "short", .short),
    (ascii "String", .string), (ascii "struct", .struct), (ascii "union", .union),
    (ascii "unsigned", .unsigned), (ascii "FileDescriptor", .fileDescriptor),
    (ascii "SharedMemQueue", .smemQueue)]

/-- `delimiters_`. -/
def delimiters : List (UInt8 × Token) :=
  [('<'.toUInt8, .angleBracketsLeft), ('>'.toUInt8, .angleBracketsRight),
    ('{'.toUInt8, .bracesLeft), ('}'.toUInt8, .bracesRight),
    ('['.toUInt8, .bracketsLeft), (']'.toUInt8, .bracketsRight),
    (','.toUInt8, .comma), ('('.toUInt8, .parenthesesLeft),
    (')'.toUInt8, .parenthesesRight), ('.'.toUInt8, .dot),
    (':'.toUInt8, .colon), (';'.toUInt8, .semicolon), ('='.toUInt8, .assign)]

def isAlphabet (c : UInt8) : Bool :=
  'a'.toUInt8 ≤ c && c ≤ 'z'.toUInt8 || 'A'.toUInt8 ≤ c && c ≤ 'Z'.toUInt8

def isDecimalDigital (c : UInt8) : Bool := '0'.toUInt8 ≤ c && c ≤ '9'.toUInt8

def isSpace (c : UInt8) : Bool := c == ' '.toUInt8 || 9 ≤ c && c ≤ 13

/-- What an identifier begins with. -/
def isIdentifierStart (c : UInt8) : Bool := isAlphabet c || c == '_'.toUInt8

/-- What an identifier goes on with. -/
def isIdentifierChar (c : UInt8) : Bool :=
  isAlphabet c || c == '_'.toUInt8 || isDecimalDigital c || c == '.'.toUInt8

/-! ### Texts of tokens -/

/-- A buffer that has grown has room for one more character. -/
theorem lt_of_room {position capacity size newSize : ℕ} (positive : 0 < size)
    (inside : position ≤ capacity) (grown : room position capacity size = some newSize) :
    position < newSize := by
  rw [room] at grown
  split at grown
  · cases grown
    omega
  · rw [grow] at grown
    split at grown
    · cases grown
    · cases grown
      omega

namespace StringBuilder

/-- `Append` for a character. What the buffer cannot grow for is left out. -/
def appendChar (sb : StringBuilder) (c : UInt8) (valid : c ≠ 0) : StringBuilder :=
  match grown : room sb.buffer.length sb.capacity 1 with
  | none => sb
  | some capacity =>
    ⟨sb.buffer ++ [c], capacity,
      fun zero => (List.mem_append.mp zero).elim sb.noNul fun last =>
        valid (List.mem_singleton.mp last).symm,
      List.length_append ▸ lt_of_room Nat.one_pos sb.length_le grown,
      room_le sb.capacity_le grown⟩

/-- A byte of the buffer is kept free, unless there is no buffer yet. -/
def Loose (sb : StringBuilder) : Prop := sb.capacity = 0 ∨ sb.buffer.length < sb.capacity

variable {sb : StringBuilder} {c : UInt8} (valid : c ≠ 0)

theorem loose_empty : empty.Loose := Or.inl rfl

theorem Loose.length_lt (loose : sb.Loose) : sb.buffer.length < maxSize := by
  have within := sb.length_le
  have small := sb.capacity_le
  rcases loose with none | inside
  · rw [none, Nat.le_zero] at within
    rw [within]
    decide
  · exact Nat.lt_of_lt_of_le inside small

/-- A loose buffer grows until its text has all but one of the bytes that there can be. -/
theorem room_of_loose (loose : sb.Loose) (inside : sb.buffer.length + 1 < maxSize) :
    ∃ capacity, room sb.buffer.length sb.capacity 1 = some capacity ∧
      sb.buffer.length + 1 < capacity := by
  have within := sb.length_le
  rw [room]
  split
  · exact ⟨_, rfl, ‹_›⟩
  · rename_i full
    have more : sb.capacity < maxSize := by
      rcases loose with none | free <;> omega
    refine ⟨min maxSize (max (doubled sb.capacity) (sb.capacity + 1)), ?_, ?_⟩
    · rw [grow, if_neg]
      intro stuck
      rcases stuck with beyond | same
      · omega
      · rw [doubled] at same
        omega
    · rw [doubled]
      split
      · rename_i none
        rw [none, Nat.le_zero] at within
        rw [within, none]
        decide
      · rcases loose with none | free
        · exact absurd none ‹_›
        · omega

theorem room_of_full (loose : sb.Loose) (full : maxSize ≤ sb.buffer.length + 1) :
    room sb.buffer.length sb.capacity 1 = none := by
  have small := sb.capacity_le
  have short := loose.length_lt
  have whole : sb.capacity = maxSize := by
    rcases loose with none | free
    · have within := sb.length_le
      rw [none, Nat.le_zero] at within
      rw [within] at full
      exact absurd full (by decide)
    · omega
  rw [room, if_neg (by omega), grow, if_pos (Or.inr (by omega))]

theorem appendChar_of_room {capacity : ℕ}
    (grown : room sb.buffer.length sb.capacity 1 = some capacity) :
    (sb.appendChar c valid).buffer = sb.buffer ++ [c] ∧
      (sb.appendChar c valid).capacity = capacity := by
  rw [appendChar]
  split
  · rename_i none
    rw [none] at grown
    cases grown
  · rename_i found
    rw [found] at grown
    cases grown
    exact ⟨rfl, rfl⟩

theorem appendChar_of_none (full : room sb.buffer.length sb.capacity 1 = none) :
    sb.appendChar c valid = sb := by
  rw [appendChar]
  split
  · rfl
  · rename_i found
    rw [full] at found
    cases found

/-- A builder that a text is appended to byte by byte keeps its beginning. -/
theorem buffer_appendChar (loose : sb.Loose) :
    (sb.appendChar c valid).Loose ∧
      (sb.appendChar c valid).buffer = (sb.buffer ++ [c]).take (maxSize - 1) := by
  have short := loose.length_lt
  by_cases inside : sb.buffer.length + 1 < maxSize
  · obtain ⟨capacity, grown, free⟩ := room_of_loose loose inside
    obtain ⟨buffer_eq, capacity_eq⟩ := appendChar_of_room valid grown
    refine ⟨Or.inr ?_, ?_⟩
    · rw [buffer_eq, capacity_eq, List.length_append]
      exact free
    · rw [buffer_eq, List.take_of_length_le]
      rw [List.length_append, List.length_singleton]
      omega
  · rw [appendChar_of_none valid (room_of_full loose (Nat.not_lt.mp inside))]
    refine ⟨loose, ?_⟩
    have whole : sb.buffer.length = maxSize - 1 := by omega
    rw [List.take_left' whole]

end StringBuilder

/-- A text that has been cut and goes on is cut at the same place. -/
theorem take_take_append (n : ℕ) (text more : List UInt8) :
    ((text.take n) ++ more).take n = (text ++ more).take n := by
  rw [List.take_append, List.take_take, Nat.min_self, List.take_append, List.length_take]
  congr 2
  omega

namespace File

/-- The loops of `ReadIdentifier` and `ReadDecimalDigital`: the builder takes the bytes of a kind,
and one byte behind them may be read as well. -/
def readWhile (kind : UInt8 → Bool) (valid : kind 0 = false) (eats : UInt8 → Bool)
    (sb : StringBuilder) (file : File) : StringBuilder × File :=
  if _ : file.isEof = false then
    let c := file.peekChar.1
    if goes_on : kind c = true then
      readWhile kind valid eats
        (sb.appendChar c fun zero => Bool.false_ne_true (valid ▸ zero ▸ goes_on))
        file.peekChar.2.getChar.2
    else (sb, if eats c then file.peekChar.2.getChar.2 else file.peekChar.2)
  else (sb, file)
termination_by file.size
decreasing_by
  rw [getChar_peekChar]
  exact size_getChar_lt ‹_›

/-- The loop of `ReadLineComment`. -/
def readLineComment (file : File) : File :=
  if _ : file.isEof = false then
    if file.getChar.1 = '\n'.toUInt8 then file.getChar.2 else readLineComment file.getChar.2
  else file
termination_by file.size
decreasing_by exact size_getChar_lt ‹_›

/-- The loop of `ReadBlockComment`. -/
def readBlockComment (file : File) : File :=
  if _ : file.isEof = false then
    if file.getChar.1 = '*'.toUInt8 then
      if file.getChar.2.peekChar.1 = '/'.toUInt8 then file.getChar.2.peekChar.2.getChar.2
      else readBlockComment file.getChar.2.peekChar.2
    else readBlockComment file.getChar.2
  else file
termination_by file.size
decreasing_by
  · exact Nat.lt_of_le_of_lt size_peekChar_le (size_getChar_lt ‹_›)
  · exact size_getChar_lt ‹_›

/-! ### What the loops leave -/

/-- A text is left to be read, unless the end has been seen. -/
def Stands (file : File) (w : List UInt8) (full seen : Bool) : Prop :=
  if seen then file.Ended else file.Reads w full

/-- What is behind the byte that may be read after a text. -/
def eat (eats : UInt8 → Bool) : List UInt8 → List UInt8
  | [] => []
  | c :: w => if eats c then w else c :: w

/-- What is behind the end of the line. -/
def behindLine : List UInt8 → Option (List UInt8)
  | [] => none
  | c :: w => if c = '\n'.toUInt8 then some w else behindLine w

/-- What is behind the first end of a block comment. -/
def behindBlock : List UInt8 → Option (List UInt8)
  | [] => none
  | c :: w =>
    if c = '*'.toUInt8 ∧ w.head? = some '/'.toUInt8 then some w.tail else behindBlock w

variable {file : File} {c : UInt8} {w : List UInt8} {full : Bool} {kind eats : UInt8 → Bool}
  {valid : kind 0 = false} {sb : StringBuilder}

theorem readWhile_ended (ended : file.Ended) :
    readWhile kind valid eats sb file = (sb, file) := by
  rw [readWhile, dif_neg ended.not_more]

theorem readLineComment_ended (ended : file.Ended) : file.readLineComment = file := by
  rw [readLineComment, dif_neg ended.not_more]

theorem readBlockComment_ended (ended : file.Ended) : file.readBlockComment = file := by
  rw [readBlockComment, dif_neg ended.not_more]

theorem readWhile_next (more : file.isEof = false) (next : file.peekChar.1 = c)
    (nonzero : c ≠ 0) (goes_on : kind c = true) :
    readWhile kind valid eats sb file =
      readWhile kind valid eats (sb.appendChar c nonzero) file.getChar.2 := by
  subst next
  rw [readWhile, dif_pos more]
  dsimp only
  rw [dif_pos goes_on, getChar_peekChar]

theorem readWhile_stop (more : file.isEof = false) (stops : kind file.peekChar.1 = false) :
    readWhile kind valid eats sb file =
      (sb, if eats file.peekChar.1 then file.getChar.2 else file.peekChar.2) := by
  rw [readWhile, dif_pos more]
  dsimp only
  rw [dif_neg (Bool.eq_false_iff.mp stops), getChar_peekChar]

/-- At the end of the text nothing is read. -/
theorem readWhile_nil (reads : file.Reads [] full) (unmarked : kind endMark = false)
    (uneaten : eats endMark = false) :
    (readWhile kind valid eats sb file).1 = sb ∧
      (readWhile kind valid eats sb file).2.Ended := by
  cases seen : file.isEof with
  | true =>
    have ended := reads.ended seen
    rw [readWhile_ended ended]
    exact ⟨rfl, ended⟩
  | false =>
    obtain ⟨mark, ended⟩ := reads.peekChar_nil
    rw [← mark] at unmarked uneaten
    rw [readWhile_stop seen unmarked, uneaten]
    exact ⟨rfl, ended⟩

theorem readWhile_stands_stop (reads : file.Reads (c :: w) full) (stops : kind c = false) :
    (readWhile kind valid eats sb file).1 = sb ∧
      (readWhile kind valid eats sb file).2.Reads (eat eats (c :: w)) full := by
  obtain ⟨next, again, -⟩ := reads.peekChar
  rw [← next] at stops
  rw [readWhile_stop reads.isEof_cons stops, next, eat]
  refine ⟨rfl, ?_⟩
  dsimp only
  split
  · exact reads.getChar.2
  · exact again

/-- A text is read up to the first byte of another kind. -/
theorem readWhile_text (reads : file.Reads w full) (loose : sb.Loose)
    (unmarked : kind endMark = false) (uneaten : eats endMark = false) :
    (readWhile kind valid eats sb file).1.buffer =
      (sb.buffer ++ w.takeWhile kind).take (maxSize - 1) := by
  have short : sb.buffer.length ≤ maxSize - 1 := Nat.le_sub_one_of_lt loose.length_lt
  induction w generalizing file sb with
  | nil =>
    rw [(readWhile_nil reads unmarked uneaten).1, List.takeWhile_nil, List.append_nil,
      List.take_of_length_le short]
  | cons c w ih =>
    cases goes_on : kind c with
    | false =>
      rw [(readWhile_stands_stop reads goes_on).1, List.takeWhile_cons_of_neg (by simp [goes_on]),
        List.append_nil, List.take_of_length_le short]
    | true =>
      have nonzero : c ≠ 0 := by
        rintro rfl
        rw [goes_on] at valid
        cases valid
      obtain ⟨still, buffer_eq⟩ := StringBuilder.buffer_appendChar nonzero loose
      rw [readWhile_next reads.isEof_cons reads.peekChar.1 nonzero goes_on,
        ih reads.getChar.2 still (Nat.le_sub_one_of_lt still.length_lt), buffer_eq,
        take_take_append, List.takeWhile_cons_of_pos goes_on, List.append_assoc,
        List.singleton_append]

/-- Behind a text, the end has been seen if it is there. -/
theorem readWhile_stands (reads : file.Reads w full) (unmarked : kind endMark = false)
    (uneaten : eats endMark = false) :
    (readWhile kind valid eats sb file).2.Stands (eat eats (w.dropWhile kind)) full
      (w.dropWhile kind).isEmpty := by
  induction w generalizing file sb with
  | nil => exact (readWhile_nil reads unmarked uneaten).2
  | cons c w ih =>
    cases goes_on : kind c with
    | false =>
      rw [List.dropWhile_cons_of_neg (by simp [goes_on])]
      exact (readWhile_stands_stop reads goes_on).2
    | true =>
      have nonzero : c ≠ 0 := by
        rintro rfl
        rw [goes_on] at valid
        cases valid
      rw [readWhile_next reads.isEof_cons reads.peekChar.1 nonzero goes_on,
        List.dropWhile_cons_of_pos goes_on]
      exact ih reads.getChar.2

theorem readLineComment_stands (reads : file.Reads w full) :
    file.readLineComment.Stands ((behindLine w).getD []) full (behindLine w).isNone := by
  induction w generalizing file with
  | nil =>
    change file.readLineComment.Ended
    cases seen : file.isEof with
    | true =>
      have ended := reads.ended seen
      rw [readLineComment_ended ended]
      exact ended
    | false =>
      obtain ⟨mark, ended⟩ := reads.getChar_nil
      rw [readLineComment, dif_pos seen, mark, if_neg (by decide), readLineComment_ended ended]
      exact ended
  | cons c w ih =>
    obtain ⟨next, behind⟩ := reads.getChar
    rw [readLineComment, dif_pos reads.isEof_cons, next, behindLine]
    split
    · exact behind
    · exact ih behind

theorem readBlockComment_stands (reads : file.Reads w full) :
    file.readBlockComment.Stands ((behindBlock w).getD []) full (behindBlock w).isNone := by
  induction w generalizing file with
  | nil =>
    change file.readBlockComment.Ended
    cases seen : file.isEof with
    | true =>
      have ended := reads.ended seen
      rw [readBlockComment_ended ended]
      exact ended
    | false =>
      obtain ⟨mark, ended⟩ := reads.getChar_nil
      rw [readBlockComment, dif_pos seen, mark, if_neg (by decide), readBlockComment_ended ended]
      exact ended
  | cons c w ih =>
    obtain ⟨next, behind⟩ := reads.getChar
    rw [readBlockComment, dif_pos reads.isEof_cons, next, behindBlock]
    by_cases star : c = '*'.toUInt8
    · rw [if_pos star]
      cases w with
      | nil =>
        -- The end is seen when the lexer looks for the slash.
        obtain ⟨mark, ended⟩ := behind.peekChar_nil
        have open_ : ¬ (c = '*'.toUInt8 ∧ ([] : List UInt8).head? = some '/'.toUInt8) :=
          fun closed => Option.some_ne_none _ closed.2.symm
        rw [mark, if_neg (by decide), readBlockComment_ended ended, if_neg open_]
        exact ended
      | cons d w =>
        obtain ⟨second, again, -⟩ := behind.peekChar
        rw [second]
        by_cases slash : d = '/'.toUInt8
        · rw [if_pos slash, if_pos ⟨star, congrArg some slash⟩, getChar_peekChar]
          exact behind.getChar.2
        · have open_ : ¬ (c = '*'.toUInt8 ∧ (d :: w).head? = some '/'.toUInt8) :=
            fun closed => slash (Option.some.inj closed.2)
          rw [if_neg slash, if_neg open_]
          exact ih again
    · rw [if_neg star, if_neg fun closed => star closed.1]
      exact ih behind

end File

/-! ### The lexer -/

/-- `Lexer`. -/
structure Lexer where
  currentFile : File
  currentToken : Token
  havePeek : Bool
  identifier : Str
  digit : Str

theorem ne_zero_of_kind {kind : UInt8 → Bool} {c : UInt8} (valid : kind 0 = false)
    (holds : kind c = true) : c ≠ 0 := by
  rintro rfl
  rw [holds] at valid
  cases valid

namespace Lexer

/-- `OpenSourceFile`, when there is the file. -/
def openSourceFile (content : List UInt8) : Lexer :=
  ⟨.opened content, .unknown, false, .null, .null⟩

/-- A token has been read. -/
def withToken (lexer : Lexer) (token : Token) (file : File) : Lexer :=
  { lexer with currentToken := token, currentFile := file }

/-- `ReadIdentifier`. -/
def readIdentifier (lexer : Lexer) (c : UInt8) (valid : c ≠ 0) (file : File) : Lexer :=
  let sb := StringBuilder.empty.appendChar c valid
  let (sb, file) := file.readWhile isIdentifierChar rfl isSpace sb
  let key := sb.toString
  match keywords.lookup key.bytes with
  | none => { lexer.withToken .identifier file with identifier := key }
  | some token => lexer.withToken token file

/-- `ReadDecimalDigital`. -/
def readDecimalDigital (lexer : Lexer) (c : UInt8) (valid : c ≠ 0) (file : File) : Lexer :=
  let sb := StringBuilder.empty.appendChar c valid
  let (sb, file) := file.readWhile isDecimalDigital rfl (fun _ => false) sb
  { lexer.withToken .digit file with digit := sb.toString }

end Lexer

namespace File

variable {file : File}

theorem size_readLineComment_le : file.readLineComment.size ≤ file.size := by
  fun_induction readLineComment file with
  | case1 => exact size_getChar_le
  | case2 file more goes_on ih => exact Nat.le_trans ih size_getChar_le
  | case3 => exact Nat.le_refl _

theorem size_readBlockComment_le : file.readBlockComment.size ≤ file.size := by
  fun_induction readBlockComment file with
  | case1 file more star slash =>
    rw [getChar_peekChar]
    exact Nat.le_trans size_getChar_le size_getChar_le
  | case2 file more star goes_on ih =>
    exact Nat.le_trans ih (Nat.le_trans size_peekChar_le size_getChar_le)
  | case3 file more goes_on ih => exact Nat.le_trans ih size_getChar_le
  | case4 => exact Nat.le_refl _

end File

namespace Lexer

/-- `ReadToken`, with the token in `currentToken_`. -/
def readToken (skipComment : Bool) (lexer : Lexer) : Lexer :=
  if _ : lexer.currentFile.isEof = false then
    let c := lexer.currentFile.getChar.1
    let file := lexer.currentFile.getChar.2
    if isSpace c then readToken skipComment { lexer with currentFile := file }
    else if letter : isIdentifierStart c = true then
      lexer.readIdentifier c (ne_zero_of_kind rfl letter) file
    else if digit : isDecimalDigital c = true then
      lexer.readDecimalDigital c (ne_zero_of_kind rfl digit) file
    else
      match delimiters.lookup c with
      | some token => lexer.withToken token file
      | none =>
        if c = '/'.toUInt8 then
          let next := file.peekChar.1
          let file := file.peekChar.2
          if next = '/'.toUInt8 then
            let lexer := lexer.withToken .commentLine file.readLineComment
            if skipComment then readToken skipComment lexer else lexer
          else if next = '*'.toUInt8 then
            let lexer := lexer.withToken .commentBlock file.readBlockComment
            if skipComment then readToken skipComment lexer else lexer
          else lexer.withToken .unknown file
        else lexer.withToken .unknown file
  else lexer.withToken .endOfFile lexer.currentFile
termination_by lexer.currentFile.size
decreasing_by
  · exact File.size_getChar_lt ‹_›
  · exact Nat.lt_of_le_of_lt (Nat.le_trans File.size_readLineComment_le File.size_peekChar_le)
      (File.size_getChar_lt ‹_›)
  · exact Nat.lt_of_le_of_lt (Nat.le_trans File.size_readBlockComment_le File.size_peekChar_le)
      (File.size_getChar_lt ‹_›)

/-- `GetToken`. -/
def getToken (skipComment : Bool) (lexer : Lexer) : Token × Lexer :=
  let lexer := if lexer.havePeek then lexer else lexer.readToken skipComment
  (lexer.currentToken, { lexer with havePeek := false })

/-- `PeekToken`. -/
def peekToken (skipComment : Bool) (lexer : Lexer) : Token × Lexer :=
  let lexer :=
    if lexer.havePeek then lexer else { lexer.readToken skipComment with havePeek := true }
  (lexer.currentToken, lexer)

/-- A token that has been looked at is the next one, whatever is asked for then. -/
theorem getToken_peekToken (skipComment again : Bool) (lexer : Lexer) :
    ((lexer.peekToken skipComment).2.getToken again).1 = (lexer.getToken skipComment).1 := by
  cases peeked : lexer.havePeek <;> simp [getToken, peekToken, peeked]

end Lexer

end Hdf.HdiGen
