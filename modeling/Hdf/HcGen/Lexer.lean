import Hdf.HcGen.Ast

/-!
# The lexer of hc-gen

The lexer reads a source file through a buffer that `readsome` refills. The
state is what is left of the buffer and the blocks that the next calls of
`readsome` deliver. A call that delivers nothing counts as the end of the file.

`char` is signed, as on the build hosts, so the byte 255 is the value `EOF`.
Positions within a line only reach log messages and are left out.
The loops take a bound on their rounds. Every round reads a character, and the
bound is larger than the number of characters left.
-/

namespace Hdf.HcGen

/-- The type of a token. -/
inductive TokenKind where
  | eof
  | char (c : UInt8)
  | token (type : TokenType)
  deriving DecidableEq, Repr

/-- `struct Token`, without the name of the source. -/
structure Token where
  type : TokenKind
  strval : Bytes := []
  numval : UInt64 := 0
  lineNo : ℕ := 0
  deriving DecidableEq, Repr

/-- The reading state of `class Lexer`. -/
structure Lexer where
  buffer : Bytes := []
  blocks : List Bytes
  lineno : ℕ := 1
  deriving Repr

namespace Lexer

/-- The `char` with the value `EOF`. -/
def eof : UInt8 := 255

/-- The byte of an ASCII character. -/
def byte (c : Char) : UInt8 := UInt8.ofNat c.toNat

def isSpace (c : UInt8) : Bool := c == byte ' ' || c == byte '\t' || c == byte '\r'

def isNum (c : UInt8) : Bool := byte '0' ≤ c && c ≤ byte '9'

def isAlpha (c : UInt8) : Bool :=
  (byte 'a' ≤ c && c ≤ byte 'z') || (byte 'A' ≤ c && c ≤ byte 'Z')

def isAlnum (c : UInt8) : Bool := isAlpha c || isNum c

/-- A bound on the characters left. -/
def size (l : Lexer) : ℕ := l.buffer.length + (l.blocks.map List.length).sum + 1

/-- `Lexer::FillBuffer`, which succeeds when the buffer is not empty afterwards. -/
def fillBuffer (l : Lexer) : Lexer :=
  match l.buffer, l.blocks with
  | [], block :: blocks => { l with buffer := block, blocks := blocks }
  | _, _ => l

/-- `Lexer::GetRawChar`. -/
def getRawChar (l : Lexer) : UInt8 × Lexer :=
  match l.fillBuffer.buffer with
  | [] => (eof, l.fillBuffer)
  | c :: buffer => (c, { l.fillBuffer with buffer := buffer })

/-- The space loop of `Lexer::GetChar`. -/
def skipSpaces : ℕ → UInt8 → Lexer → UInt8 × Lexer
  | 0, chr, l => (chr, l)
  | rounds + 1, chr, l =>
    if isSpace chr then
      let (chr, l) := l.getRawChar
      skipSpaces rounds chr l
    else (chr, l)

/-- A newline has been read. -/
def countLine (chr : UInt8) (l : Lexer) : Lexer :=
  if chr = byte '\n' then { l with lineno := l.lineno + 1 } else l

/-- `Lexer::GetChar`, which fails when it gives `eof`. -/
def getChar (l : Lexer) (skipSpace : Bool) : UInt8 × Lexer :=
  let (chr, l') := l.getRawChar
  let (chr, l') := if skipSpace then skipSpaces l.size chr l' else (chr, l')
  (chr, countLine chr l')

/-- `Lexer::ConsumeChar`. -/
def consumeChar (l : Lexer) : Lexer := (l.getChar false).2

/-- `Lexer::PeekChar`. White space, the newline included, is skipped in the
buffer only. -/
def peekChar (l : Lexer) (skipSpace : Bool) : Option UInt8 × Lexer :=
  let l := l.fillBuffer
  if skipSpace then
    let white := fun c => isSpace c || c == byte '\n'
    let buffer := l.buffer.dropWhile white
    let lines := (l.buffer.takeWhile white).count (byte '\n')
    (buffer.head?, { l with buffer := buffer, lineno := l.lineno + lines })
  else (l.buffer.head?, l)

/-! ### Comments -/

/-- The loop over a single line comment. -/
def lineComment : ℕ → Lexer → Lexer
  | 0, l => l
  | rounds + 1, l =>
    let (c, l) := l.getChar true
    if c = eof ∨ c = byte '\n' then l else lineComment rounds l

/-- The loop over a multi-line comment. After a star the next character is
consumed, also when it is another star. -/
def blockComment : ℕ → Lexer → Option Lexer
  | 0, _ => none
  | rounds + 1, l =>
    let (c, l) := l.getChar true
    if c = eof then none
    else if c = byte '*' then
      let (c, l) := l.getChar true
      if c = byte '/' then some l else blockComment rounds l
    else blockComment rounds l

/-- `Lexer::ProcessComment`. -/
def processComment (l : Lexer) : Option Lexer :=
  let (c, l) := l.consumeChar.getChar true
  if c = byte '/' then some (lineComment l.size l)
  else if c = byte '*' then blockComment l.size l
  else none

/-! ### Tokens -/

/-- Reads on while the next character passes a test. -/
def readWhile (test : UInt8 → Bool) (skipSpace : Bool) : ℕ → Lexer → Bytes × Lexer
  | 0, l => ([], l)
  | rounds + 1, l =>
    match l.peekChar skipSpace with
    | (some c, l) =>
      if test c then
        let (value, l) := readWhile test skipSpace rounds l.consumeChar
        (c :: value, l)
      else ([], l)
    | (none, l) => ([], l)

/-- The value of a digit. -/
def digitValue (c : UInt8) : ℕ :=
  if isNum c then c.toNat - (byte '0').toNat
  else if byte 'a' ≤ c ∧ c ≤ byte 'f' then c.toNat - (byte 'a').toNat + 10
  else if byte 'A' ≤ c ∧ c ≤ byte 'F' then c.toNat - (byte 'A').toNat + 10
  else 16

/-- The digits of a base that a text starts with, read as a number. -/
def digits (base : ℕ) (value : Bytes) : ℕ :=
  (value.takeWhile fun c => digitValue c < base).foldl (fun n c => n * base + digitValue c) 0

/-- `strtoll` on a text without white space and base prefix, cast to `uint64_t`.
There is no result when it sets `errno`. -/
def strtoll (value : Bytes) (base : ℕ) : Option UInt64 :=
  match value with
  | c :: rest =>
    if c = byte '-' then
      if digits base rest ≤ 2 ^ 63 then some (0 - UInt64.ofNat (digits base rest)) else none
    else
      let n := if c = byte '+' then digits base rest else digits base value
      if n < 2 ^ 63 then some (UInt64.ofNat n) else none
  | [] => some 0

def isHexDigit (c : UInt8) : Bool :=
  isNum c || (byte 'a' ≤ c && c ≤ byte 'f') || (byte 'A' ≤ c && c ≤ byte 'F')

/-- `Lexer::LexFromNumber`. -/
def lexFromNumber (l : Lexer) : Option (Token × Lexer) :=
  let number (v : Option UInt64) (l : Lexer) : Option (Token × Lexer) :=
    v.map fun v => ({ type := .token .number, numval := v, lineNo := l.lineno }, l)
  let (c, l) := l.getChar false
  if c = byte '0' then
    match l.peekChar true with
    | (none, l) => number (some 0) l
    | (some c, l) =>
      if isNum c then
        let (value, l) := readWhile isNum true l.size l
        number (strtoll value 8) l
      else if c = byte 'x' ∨ c = byte 'X' then
        let (value, l) := readWhile isHexDigit false l.size l.consumeChar
        number (strtoll value 16) l
      else if c = byte 'b' then
        let (value, l) :=
          readWhile (fun c => c == byte '0' || c == byte '1') false l.size l.consumeChar
        number (strtoll value 2) l
      else number (some 0) l
  else
    let (value, l) := readWhile isNum true l.size l
    number (strtoll (c :: value) 10) l

/-- `Lexer::keyWords_`. -/
def keyWords : List (Bytes × TokenType) :=
  [(ascii "#include", .include), (ascii "root", .root), (ascii "delete", .delete),
    (ascii "template", .template)]

/-- `Lexer::LexFromLiteral`. -/
def lexFromLiteral (l : Lexer) : Token × Lexer :=
  let (value, l) := readWhile
    (fun c => !isSpace c && (isAlnum c || c == byte '_' || c == byte '.' || c == byte '\\'))
    false l.size l
  let token (type : TokenType) (numval : UInt64) : Token :=
    { type := .token type, strval := value, numval := numval, lineNo := l.lineno }
  if value = ascii "true" then (token .number 1, l)
  else if value = ascii "false" then (token .number 0, l)
  else
    match keyWords.lookup value with
    | some keyword => (token keyword 0, l)
    | none => if dot ∈ value then (token .refPath 0, l) else (token .literal 0, l)

/-- `Lexer::LexInclude`. -/
def lexInclude (l : Lexer) : Option (Token × Lexer) :=
  let (token, l) := l.consumeChar.lexFromLiteral
  if token.strval = ascii "include" then some ({ token with type := .token .include }, l) else none

/-- The loop of `Lexer::LexFromString`. -/
def readString : ℕ → Lexer → Option (Bytes × Lexer)
  | 0, _ => none
  | rounds + 1, l =>
    let (c, l) := l.getChar false
    if c = eof then none
    else if c = byte '"' then some ([], l)
    else (readString rounds l).map fun (value, l) => (c :: value, l)

/-- `Lexer::LexFromString`. -/
def lexFromString (l : Lexer) : Option (Token × Lexer) :=
  (readString l.size l.consumeChar).map fun (value, l) =>
    ({ type := .token .string, strval := value, lineNo := l.lineno }, l)

/-- The characters that are tokens of their own. -/
def isPunctuation (c : UInt8) : Bool := (ascii ";,[]{}=&:").contains c

/-- The loop of `Lexer::Lex`, which goes round once for every comment. A token at the end of the
file has the line where the call started. -/
def lexLoop (lineNo : ℕ) : ℕ → Lexer → Option (Token × Lexer)
  | 0, _ => none
  | rounds + 1, l =>
    match l.peekChar true with
    | (none, l) => some ({ type := .eof, lineNo := lineNo }, l)
    | (some c, l) =>
      if c = byte '#' then l.lexInclude
      else if isAlpha c then some l.lexFromLiteral
      else if isNum c then l.lexFromNumber
      else if c = byte '/' then l.processComment.bind (lexLoop lineNo rounds)
      else if isPunctuation c then some ({ type := .char c, lineNo := l.lineno }, l.consumeChar)
      else if c = byte '"' then l.lexFromString
      else if c = byte '+' ∨ c = byte '-' then l.lexFromNumber
      else if c = eof then some ({ type := .eof, lineNo := lineNo }, l)
      else none

/-- `Lexer::Lex`. -/
def lex (l : Lexer) : Option (Token × Lexer) := lexLoop l.lineno l.size l

end Lexer

end Hdf.HcGen
