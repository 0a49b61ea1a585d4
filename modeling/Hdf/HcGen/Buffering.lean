import Hdf.HcGen.LexerText

/-!
# Tokens and the blocks of a file

Reading a character refills the buffer when it is empty. Skipping white space does
not: when it comes to the end of the buffer it gives up, although the file may go
on. So tokens do not depend on the blocks in which a file is delivered as long as
no white space that is skipped ends with a block that is not the last one.

## Main results

* `lex_alike`: calls that are not cut short give the same tokens
* `lexAll_eq`: so do runs of such calls
* `lex_of_white`: a block of white space ends the run
-/

namespace Hdf.HcGen.Lexer

/-- The tokens that repeated calls of `Lex` return, with their lines, up to the end of the file or
a call that fails. -/
def lexAll : ℕ → Lexer → List (Option Token)
  | 0, _ => []
  | calls + 1, l =>
    match l.lex with
    | none => [none]
    | some (token, l) => if token.type = .eof then [some token] else some token :: lexAll calls l

/-- `BUFFER_SIZE`, the bytes that `readsome` is asked for. -/
def bufferSize : ℕ := 1048576

/-- White space is skipped up to the end of the buffer, and another block is to come. -/
def Cut (l : Lexer) : Prop := (∀ c ∈ l.fillBuffer.buffer, isWhite c) ∧ l.fillBuffer.blocks ≠ []

/-- Where white space is skipped behind the digits of a number. -/
inductive DigitPeeks : Lexer → Lexer → Prop
  | here (l : Lexer) : DigitPeeks l l
  | next {l l' m : Lexer} {c : UInt8} (peek : l.peekChar true = (some c, l')) (digit : isNum c)
      (rest : DigitPeeks l'.consumeChar m) : DigitPeeks l m

/-- Where a call of `Lex` skips white space: at first, behind comments, and in a number behind its
first character and behind digits. -/
inductive Peeks : Lexer → Lexer → Prop
  | here (l : Lexer) : Peeks l l
  | comment {l l' l'' m : Lexer} (peek : l.peekChar true = (some (byte '/'), l'))
      (comment : l'.processComment = some l'') (rest : Peeks l'' m) : Peeks l m
  | number {l l' m : Lexer} {c : UInt8} (peek : l.peekChar true = (some c, l'))
      (number : isNum c ∨ c = byte '+' ∨ c = byte '-') (rest : DigitPeeks l'.consumeChar m) :
    Peeks l m

/-- A call that skips white space nowhere up to the end of a block that is not the last one. -/
def Smooth (l : Lexer) : Prop := ∀ m, Peeks l m → ¬ Cut m

/-- The lexers between the calls of a run. -/
inductive Reached (l : Lexer) : Lexer → Prop
  | start : Reached l l
  | call {l' l'' : Lexer} {token : Token} (before : Reached l l')
      (lexed : l'.lex = some (token, l'')) (more : token.type ≠ .eof) : Reached l l''

/-- A lexer, and one with the same text that has all of it in its buffer. -/
def Alike (l m : Lexer) : Prop :=
  ∃ t n, Reads l t n ∧ m.fillBuffer = { buffer := t, blocks := [], lineno := n }

/-- Functions give the same value and read to the same place. -/
def SameResult {α : Type} (r r' : α × Lexer) : Prop := r.1 = r'.1 ∧ Alike r.2 r'.2

variable {l m : Lexer} {c : UInt8}

/-- A call whose token needs no further look skips white space at first only. -/
theorem smooth_of_peekChar {l' : Lexer} {found : Option UInt8}
    (peek : l.peekChar true = (found, l'))
    (other : ∀ c ∈ found, c ≠ byte '/' ∧ ¬ (isNum c ∨ c = byte '+' ∨ c = byte '-'))
    (uncut : ¬ Cut l) : Smooth l := by
  intro m peeks
  cases peeks with
  | here => exact uncut
  | comment slash =>
    rw [peek, Prod.mk.injEq] at slash
    exact absurd rfl (other _ slash.1).1
  | number seen number =>
    rw [peek, Prod.mk.injEq] at seen
    exact absurd number (other _ seen.1).2

/-! ### Characters -/

theorem size_fillBuffer (l : Lexer) : l.fillBuffer.size = l.size := by
  rw [fillBuffer]
  split
  · rename_i empty more
    simp [size, empty, more]
  · rfl

theorem Alike.size (alike : Alike l m) : l.size = m.size := by
  obtain ⟨t, n, reads, whole⟩ := alike
  rw [← size_fillBuffer m, whole, Lexer.size, Lexer.size, ← List.length_flatten,
    ← List.length_append, reads.text]
  simp

theorem alike_of_reads {t : Bytes} {n : ℕ} (reads : Reads l t n) :
    Alike l { buffer := t, blocks := [], lineno := n } := by
  refine ⟨t, n, reads, ?_⟩
  cases t <;> rfl

theorem Alike.lineno (alike : Alike l m) : l.lineno = m.lineno := by
  obtain ⟨t, n, reads, whole⟩ := alike
  have same : m.fillBuffer.lineno = m.lineno := by
    rw [fillBuffer]
    split <;> rfl
  rw [← same, whole, reads.lineno]

theorem Alike.getRawChar (alike : Alike l m) : SameResult l.getRawChar m.getRawChar := by
  obtain ⟨t, n, reads, whole⟩ := alike
  rw [Lexer.getRawChar.eq_def m, whole]
  cases t with
  | nil =>
    obtain ⟨l', raw, reads'⟩ := reads.getRawChar_nil
    rw [raw]
    exact ⟨rfl, alike_of_reads reads'⟩
  | cons c t =>
    obtain ⟨l', raw, reads'⟩ := reads.getRawChar_cons
    rw [raw]
    exact ⟨rfl, alike_of_reads reads'⟩

theorem Alike.skipSpaces (rounds : ℕ) (alike : Alike l m) (c : UInt8) :
    SameResult (skipSpaces rounds c l) (skipSpaces rounds c m) := by
  induction rounds generalizing l m c with
  | zero => exact ⟨rfl, alike⟩
  | succ rounds ih =>
    rw [Lexer.skipSpaces, Lexer.skipSpaces]
    split
    · obtain ⟨same, alike'⟩ := alike.getRawChar
      dsimp only
      rw [same]
      exact ih alike' _
    · exact ⟨rfl, alike⟩

theorem Alike.countLine (alike : Alike l m) (c : UInt8) :
    Alike (countLine c l) (countLine c m) := by
  obtain ⟨t, n, reads, whole⟩ := alike
  have line (k : ℕ) : ({ m with lineno := k } : Lexer).fillBuffer =
      { m.fillBuffer with lineno := k } := by
    rw [fillBuffer, fillBuffer]
    dsimp only
    split <;> rfl
  have lineno : m.fillBuffer.lineno = m.lineno := by
    rw [fillBuffer]
    split <;> rfl
  refine ⟨t, n + lines [c], reads.countLine c, ?_⟩
  rw [Lexer.countLine, lines, List.count_singleton]
  by_cases newline : c = byte '\n'
  · rw [if_pos newline, if_pos (beq_iff_eq.mpr newline), line, ← lineno, whole]
  · rw [if_neg newline, if_neg (by simpa using newline), whole]
    rfl

theorem Alike.getChar (alike : Alike l m) (skipSpace : Bool) :
    SameResult (l.getChar skipSpace) (m.getChar skipSpace) := by
  obtain ⟨same, alike'⟩ := alike.getRawChar
  rw [Lexer.getChar, Lexer.getChar, ← alike.size]
  dsimp only
  rw [same]
  cases skipSpace with
  | false => exact ⟨rfl, alike'.countLine _⟩
  | true =>
    obtain ⟨same', alike''⟩ := alike'.skipSpaces l.size m.getRawChar.1
    simp only [if_true]
    rw [same']
    exact ⟨rfl, alike''.countLine _⟩

theorem Alike.consumeChar (alike : Alike l m) : Alike l.consumeChar m.consumeChar :=
  (alike.getChar false).2

theorem Alike.peekChar_false (alike : Alike l m) :
    SameResult (l.peekChar false) (m.peekChar false) := by
  obtain ⟨t, n, reads, whole⟩ := alike
  rw [reads.peekChar_false, peekChar]
  refine ⟨?_, ?_⟩
  · rw [whole]
    rfl
  · rw [whole]
    exact alike_of_reads reads.fillBuffer

/-- Skipping that is not cut short goes through all white space ahead. -/
theorem Reads.skipped_eq {t : Bytes} {n : ℕ} (reads : Reads l t n) (smooth : ¬ Cut l) :
    l.skipped = t.takeWhile isWhite ∧ l.afterWhite.buffer.head? = (t.dropWhile isWhite).head? := by
  have text := reads.fillBuffer.text
  rw [skipped, Lexer.afterWhite, ← text]
  by_cases white : ∀ c ∈ l.fillBuffer.buffer, isWhite c
  · have last : l.fillBuffer.blocks = [] := by
      by_contra more
      exact smooth ⟨white, more⟩
    rw [last, List.flatten_nil, List.append_nil]
    exact ⟨rfl, rfl⟩
  · have some : l.fillBuffer.buffer.dropWhile isWhite ≠ [] := by
      rwa [Ne, List.dropWhile_eq_nil_iff]
    have parts := congrArg List.length
      (List.takeWhile_append_dropWhile (p := isWhite) (l := l.fillBuffer.buffer))
    rw [List.length_append] at parts
    have positive := List.length_pos_of_ne_nil some
    rw [List.takeWhile_append, if_neg (by omega), List.dropWhile_append,
      if_neg (by simpa using some)]
    refine ⟨rfl, ?_⟩
    obtain ⟨c, rest, split⟩ := List.exists_cons_of_ne_nil some
    dsimp only
    rw [split]
    rfl

theorem Alike.peekChar_true (alike : Alike l m) (smooth : ¬ Cut l) :
    SameResult (l.peekChar true) (m.peekChar true) := by
  obtain ⟨t, n, reads, whole⟩ := alike
  obtain ⟨same, next⟩ := reads.skipped_eq smooth
  obtain ⟨t', split, reads'⟩ := reads.afterWhite
  have rest : t' = t.dropWhile isWhite := by
    rw [← List.takeWhile_append_dropWhile (p := isWhite) (l := t), ← same] at split
    exact (List.append_cancel_left split).symm
  rw [Lexer.peekChar_true, Lexer.peekChar_true m, afterWhite.eq_def m, skipped.eq_def m, whole]
  refine ⟨next, ?_⟩
  rw [same, rest] at reads'
  exact alike_of_reads reads'

/-! ### Comments -/

theorem Alike.lineComment {rounds : ℕ} (alike : Alike l m) :
    Alike (lineComment rounds l) (lineComment rounds m) := by
  induction rounds generalizing l m with
  | zero => exact alike
  | succ rounds ih =>
    obtain ⟨same, alike'⟩ := alike.getChar true
    rw [Lexer.lineComment, Lexer.lineComment]
    dsimp only
    rw [same]
    split
    · exact alike'
    · exact ih alike'

/-- Both functions fail, or they give the same value and read to the same place. -/
def SameOption {α : Type} : Option (α × Lexer) → Option (α × Lexer) → Prop :=
  Option.Rel SameResult

theorem SameOption.ite {α : Type} {p : Prop} [Decidable p] {a b a' b' : Option (α × Lexer)}
    (holds : p → SameOption a a') (fails : ¬p → SameOption b b') :
    SameOption (if p then a else b) (if p then a' else b') := by
  by_cases h : p
  · rw [if_pos h, if_pos h]
    exact holds h
  · rw [if_neg h, if_neg h]
    exact fails h

theorem Alike.blockComment {rounds : ℕ} (alike : Alike l m) :
    Option.Rel Alike (blockComment rounds l) (blockComment rounds m) := by
  induction rounds generalizing l m with
  | zero => exact .none
  | succ rounds ih =>
    obtain ⟨same, alike'⟩ := alike.getChar true
    obtain ⟨same', alike''⟩ := alike'.getChar true
    rw [Lexer.blockComment, Lexer.blockComment]
    dsimp only
    rw [same, same']
    split
    · exact .none
    split
    · split
      · exact .some alike''
      · exact ih alike''
    · exact ih alike'

theorem Alike.processComment (alike : Alike l m) :
    Option.Rel Alike l.processComment m.processComment := by
  obtain ⟨same, alike'⟩ := alike.consumeChar.getChar true
  rw [Lexer.processComment, Lexer.processComment]
  dsimp only
  rw [same, alike'.size]
  split
  · exact .some alike'.lineComment
  split
  · exact alike'.blockComment
  · exact .none

/-! ### Tokens -/

theorem Alike.readWhile_false (test : UInt8 → Bool) (rounds : ℕ) (alike : Alike l m) :
    SameResult (readWhile test false rounds l) (readWhile test false rounds m) := by
  induction rounds generalizing l m with
  | zero => exact ⟨rfl, alike⟩
  | succ rounds ih =>
    obtain ⟨same, alike'⟩ := alike.peekChar_false
    rw [readWhile, readWhile]
    revert same alike'
    generalize l.peekChar false = r
    generalize m.peekChar false = r'
    obtain ⟨found, l'⟩ := r
    obtain ⟨found', m'⟩ := r'
    rintro (rfl : found = found') alike'
    cases found with
    | none => exact ⟨rfl, alike'⟩
    | some c =>
      dsimp only
      split
      · obtain ⟨same, alike''⟩ := ih alike'.consumeChar
        exact ⟨congrArg (c :: ·) same, alike''⟩
      · exact ⟨rfl, alike'⟩

theorem Alike.readWhile_true (rounds : ℕ) (alike : Alike l m)
    (smooth : ∀ k, DigitPeeks l k → ¬ Cut k) :
    SameResult (readWhile isNum true rounds l) (readWhile isNum true rounds m) := by
  induction rounds generalizing l m with
  | zero => exact ⟨rfl, alike⟩
  | succ rounds ih =>
    obtain ⟨same, alike'⟩ := alike.peekChar_true (smooth l (.here l))
    rw [readWhile, readWhile]
    cases peek : l.peekChar true with
    | mk found l' =>
      cases peek' : m.peekChar true with
      | mk found' m' =>
        rw [peek, peek'] at same alike'
        obtain rfl : found = found' := same
        cases found with
        | none => exact ⟨rfl, alike'⟩
        | some c =>
          dsimp only
          split
          · rename_i digit
            obtain ⟨same, alike''⟩ := ih (Alike.consumeChar alike') fun k rest =>
              smooth k (.next peek digit rest)
            exact ⟨congrArg (c :: ·) same, alike''⟩
          · exact ⟨rfl, alike'⟩

theorem Alike.readString {rounds : ℕ} (alike : Alike l m) :
    SameOption (readString rounds l) (readString rounds m) := by
  induction rounds generalizing l m with
  | zero => exact .none
  | succ rounds ih =>
    obtain ⟨same, alike'⟩ := alike.getChar false
    rw [Lexer.readString, Lexer.readString]
    dsimp only
    rw [same]
    split
    · exact .none
    split
    · exact .some ⟨rfl, alike'⟩
    · have rest := ih alike'
      revert rest
      generalize Lexer.readString rounds (l.getChar false).2 = r
      generalize Lexer.readString rounds (m.getChar false).2 = r'
      rintro (⟨same, alike''⟩ | _)
      · exact .some ⟨congrArg (_ :: ·) same, alike''⟩
      · exact .none

theorem not_cut_of_peekChar {l' : Lexer} (peek : l.peekChar true = (some c, l')) : ¬ Cut l' := by
  obtain ⟨ink, rest, buffer⟩ := not_isWhite_of_peekChar peek
  intro cut
  rw [Cut, fillBuffer, buffer] at cut
  exact ink (cut.1 c (by rw [buffer]; exact List.mem_cons_self))

/-- The token of a number that has been read. -/
theorem Alike.number (alike : Alike l m) (v : Option UInt64) :
    SameOption
      (v.map fun v => ({ type := .token .number, numval := v, lineNo := l.lineno }, l) :
        Option (Token × Lexer))
      (v.map fun v => ({ type := .token .number, numval := v, lineNo := m.lineno }, m)) := by
  cases v with
  | none => exact .none
  | some v =>
    rw [alike.lineno]
    exact .some ⟨rfl, alike⟩

theorem Alike.lexFromNumber (alike : Alike l m)
    (smooth : ∀ k, DigitPeeks l.consumeChar k → ¬ Cut k) :
    SameOption l.lexFromNumber m.lexFromNumber := by
  obtain ⟨same, alike'⟩ := alike.getChar false
  rw [Lexer.consumeChar] at smooth
  rw [Lexer.lexFromNumber, Lexer.lexFromNumber]
  dsimp only
  rw [← same]
  revert alike' smooth
  generalize (l.getChar false).1 = c
  generalize (l.getChar false).2 = l
  generalize (m.getChar false).2 = m
  intro smooth alike
  split
  · -- Behind a zero there is one more look ahead.
    have seen := alike.peekChar_true (smooth l (.here l))
    have again (d : UInt8) (l' : Lexer) (peek : l.peekChar true = (some d, l')) (k : Lexer)
        (rest : DigitPeeks l' k) : ¬ Cut k := by
      cases rest with
      | here => exact not_cut_of_peekChar peek
      | next peek' digit rest =>
        rw [peekChar_twice peek, ← peek] at peek'
        exact smooth k (.next peek' digit rest)
    revert seen again
    generalize l.peekChar true = r
    generalize m.peekChar true = r'
    obtain ⟨found, l'⟩ := r
    obtain ⟨found', m'⟩ := r'
    rintro ⟨rfl : found = found', alike' : Alike l' m'⟩ again
    cases found with
    | none => exact alike'.number _
    | some d =>
      dsimp only
      rw [← alike'.size]
      split
      · obtain ⟨value, alike''⟩ := alike'.readWhile_true l'.size (again d l' rfl)
        rw [value]
        exact alike''.number _
      split
      · obtain ⟨value, alike''⟩ := alike'.consumeChar.readWhile_false isHexDigit l'.size
        rw [value]
        exact alike''.number _
      split
      · obtain ⟨value, alike''⟩ := alike'.consumeChar.readWhile_false
          (fun c => c == byte '0' || c == byte '1') l'.size
        rw [value]
        exact alike''.number _
      · exact alike'.number _
  · -- another digit starts a decimal number
    obtain ⟨value, alike'⟩ := alike.readWhile_true l.size smooth
    rw [← alike.size, value]
    exact alike'.number _

theorem Alike.lexFromLiteral (alike : Alike l m) :
    SameResult l.lexFromLiteral m.lexFromLiteral := by
  have read := alike.readWhile_false
    (fun c => !isSpace c && (isAlnum c || c == byte '_' || c == byte '.' || c == byte '\\'))
    l.size
  rw [Lexer.lexFromLiteral, Lexer.lexFromLiteral, ← alike.size]
  dsimp only
  obtain ⟨value, alike'⟩ := read
  rw [value, alike'.lineno]
  split
  · exact ⟨rfl, alike'⟩
  split
  · exact ⟨rfl, alike'⟩
  split
  · exact ⟨rfl, alike'⟩
  split
  · exact ⟨rfl, alike'⟩
  · exact ⟨rfl, alike'⟩

theorem Alike.lexInclude (alike : Alike l m) : SameOption l.lexInclude m.lexInclude := by
  obtain ⟨token, alike'⟩ := alike.consumeChar.lexFromLiteral
  rw [Lexer.lexInclude, Lexer.lexInclude]
  dsimp only
  rw [token]
  split
  · exact .some ⟨rfl, alike'⟩
  · exact .none

theorem Alike.lexFromString (alike : Alike l m) : SameOption l.lexFromString m.lexFromString := by
  have read : SameOption (Lexer.readString l.size l.consumeChar) _ := alike.consumeChar.readString
  rw [Lexer.lexFromString, Lexer.lexFromString, ← alike.size]
  revert read
  generalize Lexer.readString l.size l.consumeChar = r
  generalize Lexer.readString l.size m.consumeChar = r'
  rintro (⟨value, alike'⟩ | _)
  · refine .some ⟨?_, alike'⟩
    dsimp only
    rw [value, alike'.lineno]
  · exact .none

/-! ### Calls -/

theorem Alike.lexLoop (lineNo : ℕ) {rounds : ℕ} (alike : Alike l m) (smooth : Smooth l) :
    SameOption (lexLoop lineNo rounds l) (lexLoop lineNo rounds m) := by
  induction rounds generalizing l m with
  | zero => exact .none
  | succ rounds ih =>
    obtain ⟨same, alike'⟩ := alike.peekChar_true (smooth l (.here l))
    rw [Lexer.lexLoop, Lexer.lexLoop]
    cases peek : l.peekChar true with
    | mk found l' =>
      cases peek' : m.peekChar true with
      | mk found' m' =>
        rw [peek, peek'] at same alike'
        obtain rfl : found = found' := same
        replace alike' : Alike l' m' := alike'
        cases found with
        | none => exact .some ⟨rfl, alike'⟩
        | some c =>
          have number (number : isNum c ∨ c = byte '+' ∨ c = byte '-') :
              SameOption l'.lexFromNumber m'.lexFromNumber :=
            alike'.lexFromNumber fun k rest => smooth k (.number peek number rest)
          -- both calls go into the branch of the same character
          refine .ite (fun _ => alike'.lexInclude) fun _ => ?_
          refine .ite (fun _ => .some alike'.lexFromLiteral) fun _ => ?_
          refine .ite (fun digit => number (.inl digit)) fun _ => ?_
          refine .ite (fun slash => ?_) fun _ => ?_
          · subst slash
            have comment := alike'.processComment
            cases done : l'.processComment with
            | none =>
              rw [done] at comment
              cases done' : m'.processComment with
              | none => exact .none
              | some m'' => rw [done'] at comment; cases comment
            | some l'' =>
              rw [done] at comment
              cases done' : m'.processComment with
              | none => rw [done'] at comment; cases comment
              | some m'' =>
                rw [done'] at comment
                cases comment with
                | some alike'' => exact ih alike'' fun k rest => smooth k (.comment peek done rest)
          refine .ite (fun _ => .some ⟨by rw [alike'.lineno], alike'.consumeChar⟩) fun _ => ?_
          refine .ite (fun _ => alike'.lexFromString) fun _ => ?_
          refine .ite (fun sign => number (.inr sign)) fun _ => ?_
          exact .ite (fun _ => .some ⟨rfl, alike'⟩) fun _ => .none

/-- A call that is not cut short gives the same token on the same line, and reads as far. -/
theorem lex_alike (alike : Alike l m) (smooth : Smooth l) : SameOption l.lex m.lex := by
  rw [lex, lex, ← alike.size, ← alike.lineno]
  exact alike.lexLoop l.lineno smooth

theorem Reached.trans {l' l'' : Lexer} (before : Reached l l') (after : Reached l' l'') :
    Reached l l'' := by
  induction after with
  | start => exact before
  | call _ lexed more ih => exact .call ih lexed more

theorem Alike.lexAll (calls : ℕ) (alike : Alike l m) (smooth : ∀ l', Reached l l' → Smooth l') :
    lexAll calls l = lexAll calls m := by
  induction calls generalizing l m with
  | zero => rfl
  | succ calls ih =>
    have same := lex_alike alike (smooth l .start)
    rw [Lexer.lexAll, Lexer.lexAll]
    cases lexed : l.lex with
    | none =>
      rw [lexed] at same
      cases lexed' : m.lex with
      | none => rfl
      | some r => rw [lexed'] at same; cases same
    | some r =>
      rw [lexed] at same
      cases lexed' : m.lex with
      | none => rw [lexed'] at same; cases same
      | some r' =>
        rw [lexed'] at same
        obtain ⟨token, l'⟩ := r
        obtain ⟨token', m'⟩ := r'
        obtain ⟨rfl, alike'⟩ : token = token' ∧ Alike l' m' := by
          cases same with
          | some same => exact same
        dsimp only
        split
        · rfl
        · rename_i more
          rw [ih alike' fun l'' after => smooth l'' (Reached.trans (.call .start lexed more) after)]

/-- The tokens of a file do not depend on its blocks as long as no call skips white space up to the
end of a block that is not the last one. -/
theorem lexAll_eq (calls : ℕ) {blocks : List Bytes} (whole : [] ∉ blocks)
    (smooth : ∀ l, Reached { blocks := blocks } l → Smooth l) :
    lexAll calls { blocks := blocks } = lexAll calls { blocks := [blocks.flatten] } := by
  have alike : Alike { blocks := blocks } { blocks := [blocks.flatten] } :=
    ⟨blocks.flatten, 1, ⟨whole, rfl, rfl⟩, rfl⟩
  exact alike.lexAll calls smooth

/-- A word that goes on in the next block. -/
theorem lexAll_eq_word :
    lexAll 2 { blocks := [ascii "a", ascii "b "] } = lexAll 2 { blocks := [ascii "ab "] } := by
  have word : lex { blocks := [ascii "a", ascii "b "] } =
      some ({ type := .token .literal, strval := ascii "ab", lineNo := 1 },
        { buffer := ascii " ", blocks := [] }) := by rfl
  have done : lex { buffer := ascii " ", blocks := [] } =
      some ({ type := .eof, lineNo := 1 }, { buffer := [], blocks := [] }) := by rfl
  refine lexAll_eq 2 (by decide) fun l reached => ?_
  have states : l = { blocks := [ascii "a", ascii "b "] } ∨
      l = { buffer := ascii " ", blocks := [] } := by
    induction reached with
    | start => exact .inl rfl
    | call before lexed more ih =>
      obtain rfl | rfl := ih
      · rw [word, Option.some.injEq, Prod.mk.injEq] at lexed
        exact .inr lexed.2.symm
      · rw [done, Option.some.injEq, Prod.mk.injEq] at lexed
        exact absurd lexed.1.symm fun same => more (by rw [same])
  obtain rfl | rfl := states
  · refine smooth_of_peekChar (show peekChar _ true = (some (byte 'a'), _) from rfl) ?_ ?_
    · rintro c ⟨⟩
      decide
    · rintro ⟨white, -⟩
      exact absurd (white (byte 'a') (by decide)) (by decide)
  · refine smooth_of_peekChar rfl ?_ ?_
    · rintro c ⟨⟩
    · rintro ⟨-, more⟩
      exact more rfl

/-- A block of white space ends the run, whatever is to come. -/
theorem lex_of_white (white : ∀ c ∈ l.fillBuffer.buffer, isWhite c) :
    ∃ l', l.lex = some ({ type := .eof, lineNo := l.lineno }, l') := by
  have drained : l.afterWhite.buffer = [] := List.dropWhile_eq_nil_iff.mpr white
  rw [lex, size, Lexer.lexLoop, Lexer.peekChar_true, drained]
  exact ⟨l.afterWhite, rfl⟩

/-- Within one block white space is skipped. -/
theorem lex_white_append {w : Bytes} (white : ∀ c ∈ w, isWhite c) :
    ∃ token l', lex { blocks := [w ++ ascii "a"] } = some (token, l') ∧
      token.type = .token .literal := by
  have rest : afterWhite { blocks := [w ++ ascii "a"] } =
      { buffer := ascii "a", blocks := [], lineno := 1 + lines w } := by
    have taken : (w ++ ascii "a").takeWhile isWhite = w := by
      rw [List.takeWhile_append_of_pos white]
      exact List.append_nil w
    have left : (w ++ ascii "a").dropWhile isWhite = ascii "a" :=
      List.dropWhile_append_of_pos white
    rw [afterWhite, skipped]
    simp only [fillBuffer, taken, left]
  rw [lex, size, Lexer.lexLoop, Lexer.peekChar_true, rest]
  exact ⟨_, _, rfl, rfl⟩

/-- A file whose first block is blank is taken for an empty one. -/
theorem blankBlock_lexAll_ne :
    ∃ (blocks : List Bytes) (calls : ℕ), [] ∉ blocks ∧
      (∀ block ∈ blocks, block.length ≤ bufferSize) ∧
      lexAll calls { blocks := blocks } ≠ lexAll calls { blocks := [blocks.flatten] } := by
  have white : ∀ c ∈ List.replicate bufferSize (byte ' '), isWhite c := by
    intro c member
    rw [List.eq_of_mem_replicate member]
    decide
  refine ⟨[List.replicate bufferSize (byte ' '), ascii "a"], 1, ?_, ?_, ?_⟩
  · rw [List.mem_cons, List.mem_singleton, not_or]
    exact ⟨by rw [bufferSize]; exact nofun, by decide⟩
  · intro block member
    rw [List.mem_cons, List.mem_singleton] at member
    obtain rfl | rfl := member
    · rw [List.length_replicate]
    · decide
  · obtain ⟨l, early⟩ :=
      lex_of_white (l := { blocks := [List.replicate bufferSize (byte ' '), ascii "a"] }) white
    obtain ⟨token, l', lexed, type⟩ := lex_white_append white
    rw [lexAll, lexAll, early, List.flatten_cons, List.flatten_singleton, lexed]
    dsimp only
    rw [if_pos rfl, type]
    intro same
    rw [if_neg (by decide), List.cons.injEq, Option.some.injEq] at same
    rw [← same.1] at type
    cases type

end Hdf.HcGen.Lexer
