import Hdf.HdiGen.Tokens

/-!
# Texts of interface definitions and their tokens

A text is made of white space, comments, words, numbers and delimiters. A line comment goes on to
the end of its line, and a block comment to the first end that begins behind its beginning; the
tokens are what remains without comments and white space. The lexer finds a byte behind a text that
fills the last block that is read, takes the star that begins a block comment for the star that may
end it, and cuts texts that do not fit into a string.

## Main definitions

* `Lexeme`, `getTokens`: what calls of `GetToken` give
* `piece`, `pieces`: the pieces of a text, and the pieces as they are read
* `LexesText`: the tokens of a file are the tokens of its text, and then its end
* `plain`: no piece of a text is read in another way

## Main results

* `Lexer.getTokens_eq`: the tokens of a file are the pieces of its text, as they are read
* `pieces_eq_iff`: when the pieces are read as they are
* `lexesText_iff`: the tokens are right exactly for plain texts
-/

namespace Hdf.HdiGen

/-- A token with the text of an identifier or a number, or with what is left behind a comment. -/
inductive Lexeme where
  | word (token : Token)
  | identifier (text : List UInt8)
  | digit (text : List UInt8)
  | commentLine (behind : List UInt8)
  | commentBlock (behind : List UInt8)
  deriving DecidableEq, Repr

def Lexeme.isComment : Lexeme → Bool
  | commentLine _ | commentBlock _ => true
  | _ => false

/-- The end of the file. -/
def Lexeme.endOfFile : Lexeme := .word .endOfFile

namespace Lexer

/-- The current token, with what `GetIdentifier` or `GetDigit` say of it. -/
def lexeme (lexer : Lexer) : Lexeme :=
  match lexer.currentToken with
  | .identifier => .identifier lexer.identifier.bytes
  | .digit => .digit lexer.digit.bytes
  | .commentLine => .commentLine lexer.currentFile.rest
  | .commentBlock => .commentBlock lexer.currentFile.rest
  | token => .word token

/-- What some calls of `GetToken` in turn give. -/
def getTokens (skipComment : Bool) : ℕ → Lexer → List Lexeme
  | 0, _ => []
  | n + 1, lexer =>
    let after := (lexer.getToken skipComment).2
    after.lexeme :: getTokens skipComment n after

end Lexer

/-! ### The pieces of a text -/

open File

/-- The first piece of a text: its token unless it is white space, what is behind it, and whether
one has to look behind the text to see its end. -/
structure Piece where
  lexeme? : Option Lexeme
  rest : List UInt8
  seen : Bool
  deriving DecidableEq

/-- A keyword or an identifier. -/
def word (text : List UInt8) : Lexeme :=
  match keywords.lookup text with
  | some token => .word token
  | none => .identifier text

/-- What a string takes of a text. -/
def kept (asRead : Bool) (text : List UInt8) : List UInt8 :=
  if asRead then text.take (maxSize - 1) else text

/-- A piece that goes on as long as the bytes are of a kind. -/
def longest (kind : UInt8 → Bool) (lexeme : List UInt8 → Lexeme) (c : UInt8) (w : List UInt8) :
    Piece :=
  ⟨some (lexeme (c :: w.takeWhile kind)), w.dropWhile kind, (w.dropWhile kind).isEmpty⟩

/-- A comment, given what is behind its end. -/
def comment (lexeme : List UInt8 → Lexeme) (behind : Option (List UInt8)) : Piece :=
  ⟨some (lexeme (behind.getD [])), behind.getD [], behind.isNone⟩

/-- What a slash begins. The lexer takes the star behind it for one that may end the comment. -/
def slashPiece (asRead : Bool) : List UInt8 → Piece
  | [] => ⟨some (.word .unknown), [], true⟩
  | c :: w =>
    if c = '/'.toUInt8 then comment .commentLine (behindLine w)
    else if c = '*'.toUInt8 then
      comment .commentBlock (behindBlock (if asRead then c :: w else w))
    else ⟨some (.word .unknown), c :: w, false⟩

/-- The first piece of a text, or, with `asRead`, what the lexer makes of it. -/
def piece (asRead : Bool) (c : UInt8) (w : List UInt8) : Piece :=
  if isSpace c then ⟨none, w, false⟩
  else if isIdentifierStart c then longest isIdentifierChar (word <| kept asRead ·) c w
  else if isDecimalDigital c then longest isDecimalDigital (.digit <| kept asRead ·) c w
  else
    match delimiters.lookup c with
    | some token => ⟨some (.word token), w, false⟩
    | none =>
      if c = '/'.toUInt8 then slashPiece asRead w else ⟨some (.word .unknown), w, false⟩

theorem length_behindLine_le (w : List UInt8) : ((behindLine w).getD []).length ≤ w.length := by
  induction w with
  | nil => exact Nat.le_refl _
  | cons c w ih =>
    rw [behindLine]
    split
    · exact Nat.le_succ _
    · exact Nat.le_succ_of_le ih

/-- An end of a comment is at least two bytes long. -/
theorem length_behindBlock_le (w : List UInt8) :
    ((behindBlock w).getD []).length ≤ w.length - 1 := by
  induction w with
  | nil => exact Nat.le_refl _
  | cons c w ih =>
    rw [behindBlock]
    split
    · rw [Option.getD_some, List.length_tail]
      exact Nat.sub_le _ _
    · exact Nat.le_trans ih (Nat.sub_le _ _)

theorem length_dropWhile_le (kind : UInt8 → Bool) (w : List UInt8) :
    (w.dropWhile kind).length ≤ w.length := (w.dropWhile_sublist kind).length_le

theorem length_slashPiece_le (asRead : Bool) (w : List UInt8) :
    (slashPiece asRead w).rest.length ≤ w.length := by
  cases w with
  | nil => exact Nat.le_refl _
  | cons c w =>
    rw [slashPiece]
    split
    · exact Nat.le_succ_of_le (length_behindLine_le w)
    split
    · cases asRead with
      | false => exact Nat.le_succ_of_le (Nat.le_trans (length_behindBlock_le w) (Nat.sub_le _ _))
      | true => exact Nat.le_trans (length_behindBlock_le (c :: w)) (Nat.sub_le _ _)
    · exact Nat.le_refl _

theorem length_rest_le (asRead : Bool) (c : UInt8) (w : List UInt8) :
    (piece asRead c w).rest.length ≤ w.length := by
  have whole : w.length ≤ w.length := Nat.le_refl _
  rw [piece]
  split
  · exact whole
  split
  · exact length_dropWhile_le _ _
  split
  · exact length_dropWhile_le _ _
  split
  · exact whole
  split
  · exact length_slashPiece_le asRead w
  · exact whole

/-- The pieces of a text without white space. A file is `full` when the end of its text is the end
of a block, and then a byte is found behind it unless the end has been seen. -/
def pieces (asRead full : Bool) : List UInt8 → List Lexeme
  | [] => if full then [.word .unknown] else []
  | c :: w =>
    let first := piece asRead c w
    first.lexeme?.toList ++ if first.seen then [] else pieces asRead full first.rest
termination_by w => w.length
decreasing_by exact Nat.lt_succ_of_le (length_rest_le asRead c w)

/-! ### Reading one piece -/

/-- Apart from identifiers, numbers and comments a token has no text. -/
def Token.isWord : Token → Bool
  | .identifier | .digit | .commentLine | .commentBlock => false
  | _ => true

theorem mem_of_lookup {α β : Type} [BEq α] [LawfulBEq α] {entries : List (α × β)} {key : α}
    {value : β} (found : entries.lookup key = some value) : (key, value) ∈ entries := by
  obtain ⟨before, after, rfl, -⟩ := List.lookup_eq_some_iff.mp found
  exact List.mem_append_right _ List.mem_cons_self

theorem isWord_of_keyword {text : List UInt8} {token : Token}
    (found : keywords.lookup text = some token) : token.isWord = true :=
  (by decide : ∀ keyword ∈ keywords, keyword.2.isWord = true) _ (mem_of_lookup found)

theorem isWord_of_delimiter {c : UInt8} {token : Token}
    (found : delimiters.lookup c = some token) : token.isWord = true :=
  (by decide : ∀ delimiter ∈ delimiters, delimiter.2.isWord = true) _ (mem_of_lookup found)

section Reading

variable {lexer : Lexer} {file : File} {c : UInt8} {w : List UInt8} {full seen : Bool}
  {skipComment : Bool}

theorem File.Stands.rest_eq (stands : file.Stands w full seen) (last : seen = true → w = []) :
    file.rest = w := by
  cases seen with
  | true =>
    rw [last rfl]
    exact File.Ended.rest_eq stands
  | false => exact File.Reads.rest_eq stands

theorem Lexer.lexeme_withToken {token : Token} (isWord : token.isWord = true) :
    (lexer.withToken token file).lexeme = .word token := by
  cases token <;> first | rfl | cases isWord

/-- What has been read of a file is its first piece. A space behind an identifier may be gone. -/
structure Shows (after : Lexer) (first : Piece) (full : Bool) : Prop where
  lexeme : ∀ lexeme ∈ first.lexeme?, after.lexeme = lexeme
  stands : ∃ w, after.currentFile.Stands w full first.seen ∧
    (first.rest = w ∨ ∃ space, isSpace space = true ∧ first.rest = space :: w)

/-- The text of an identifier or a number is collected, and the file stands behind it. -/
theorem readWhile_longest {kind eats : UInt8 → Bool} (zero : kind 0 = false) (valid : c ≠ 0)
    (reads : file.Reads w full) (unmarked : kind endMark = false) (uneaten : eats endMark = false) :
    (file.readWhile kind zero eats (StringBuilder.empty.appendChar c valid)).1.toString.bytes =
        kept true (c :: w.takeWhile kind) ∧
      (file.readWhile kind zero eats (StringBuilder.empty.appendChar c valid)).2.Stands
        (eat eats (w.dropWhile kind)) full (w.dropWhile kind).isEmpty := by
  obtain ⟨loose, buffer_eq⟩ :=
    StringBuilder.buffer_appendChar valid StringBuilder.loose_empty
  refine ⟨?_, readWhile_stands reads unmarked uneaten⟩
  rw [StringBuilder.bytes_toString, readWhile_text reads loose unmarked uneaten, buffer_eq,
    take_take_append]
  rfl

theorem eat_cases (eats : UInt8 → Bool) (w : List UInt8) :
    w = eat eats w ∨ ∃ c, eats c = true ∧ w = c :: eat eats w := by
  cases w with
  | nil => exact Or.inl rfl
  | cons c w =>
    rw [eat]
    split
    · rename_i eaten
      exact Or.inr ⟨c, eaten, rfl⟩
    · exact Or.inl rfl

theorem shows_readIdentifier (valid : c ≠ 0) (reads : file.Reads w full) :
    Shows (lexer.readIdentifier c valid file)
      (longest isIdentifierChar (word <| kept true ·) c w) full := by
  have zero : isIdentifierChar 0 = false := rfl
  have mark : isSpace endMark = false := rfl
  obtain ⟨text, stands⟩ := readWhile_longest zero valid reads rfl mark
  rw [Lexer.readIdentifier]
  dsimp only
  rw [text]
  split
  · rename_i unknown
    refine ⟨fun lexeme same => ?_, _, stands, eat_cases _ _⟩
    obtain rfl := Option.some.inj same
    change _ = word _
    rw [word, unknown]
    exact congrArg _ text
  · rename_i token known
    refine ⟨fun lexeme same => ?_, _, stands, eat_cases _ _⟩
    obtain rfl := Option.some.inj same
    change _ = word _
    rw [word, known]
    exact Lexer.lexeme_withToken (isWord_of_keyword known)

theorem shows_readDecimalDigital (valid : c ≠ 0) (reads : file.Reads w full) :
    Shows (lexer.readDecimalDigital c valid file)
      (longest isDecimalDigital (.digit <| kept true ·) c w) full := by
  have zero : isDecimalDigital 0 = false := rfl
  obtain ⟨text, stands⟩ :=
    @readWhile_longest file c w full isDecimalDigital (fun _ => false) zero valid reads rfl rfl
  have uneaten (v : List UInt8) : eat (fun _ => false) v = v := by
    cases v <;> rfl
  rw [uneaten] at stands
  refine ⟨fun lexeme same => ?_, _, stands, Or.inl rfl⟩
  obtain rfl := Option.some.inj same
  exact congrArg Lexeme.digit text

/-- White space is passed over, and comments are when they are not wanted. -/
def Piece.isSkipped (first : Piece) (skipComment : Bool) : Bool :=
  match first.lexeme? with
  | none => true
  | some lexeme => skipComment && lexeme.isComment

/-- What is left of a comment is what the lexer says of it. -/
theorem shows_comment {token : Token} {lexeme : List UInt8 → Lexeme} {behind : Option (List UInt8)}
    (stands : file.Stands (behind.getD []) full behind.isNone)
    (text : (lexer.withToken token file).lexeme = lexeme file.rest) :
    Shows (lexer.withToken token file) (comment lexeme behind) full := by
  refine ⟨fun shown same => ?_, _, stands, Or.inl rfl⟩
  obtain rfl := Option.some.inj same
  rw [text, stands.rest_eq fun none => by rw [Option.isNone_iff_eq_none.mp none]; rfl]

theorem shows_word {token : Token} {rest : List UInt8} (isWord : token.isWord = true)
    (stands : file.Stands rest full seen) :
    Shows (lexer.withToken token file) ⟨some (.word token), rest, seen⟩ full := by
  refine ⟨fun shown same => ?_, _, stands, Or.inl rfl⟩
  obtain rfl := Option.some.inj same
  exact Lexer.lexeme_withToken isWord

theorem isComment_word (text : List UInt8) : (word text).isComment = false := by
  rw [word]
  split <;> rfl

/-- A token that is not a comment is returned. -/
theorem returned_of_token {after : Lexer} {first : Piece} {lexeme : Lexeme}
    (shown : first.lexeme? = some lexeme) (noComment : lexeme.isComment = false) :
    after = if first.isSkipped skipComment then after.readToken skipComment else after := by
  have returned : first.isSkipped skipComment = false := by
    rw [Piece.isSkipped, shown]
    dsimp only
    rw [noComment, Bool.and_false]
  rw [returned, if_neg Bool.false_ne_true]

/-- The lexer reads what a slash begins. -/
theorem readToken_slash (reads : file.Reads w full) :
    ∃ after : Lexer, Shows after (slashPiece true w) full ∧
      (if file.peekChar.1 = '/'.toUInt8 then
        if skipComment then
          (lexer.withToken .commentLine file.peekChar.2.readLineComment).readToken skipComment
        else lexer.withToken .commentLine file.peekChar.2.readLineComment
      else if file.peekChar.1 = '*'.toUInt8 then
        if skipComment then
          (lexer.withToken .commentBlock file.peekChar.2.readBlockComment).readToken skipComment
        else lexer.withToken .commentBlock file.peekChar.2.readBlockComment
      else lexer.withToken .unknown file.peekChar.2) =
        if (slashPiece true w).isSkipped skipComment then after.readToken skipComment
        else after := by
  cases w with
  | nil =>
    obtain ⟨mark, ended⟩ := reads.peekChar_nil
    rw [mark, if_neg (by decide), if_neg (by decide)]
    exact ⟨_, shows_word rfl ended, returned_of_token rfl rfl⟩
  | cons c w =>
    obtain ⟨next, again, -⟩ := reads.peekChar
    rw [next, slashPiece]
    by_cases line : c = '/'.toUInt8
    · have behind : (behindLine (c :: w)) = behindLine w := by
        rw [behindLine, line, if_neg (by decide)]
      have stands := readLineComment_stands again
      rw [behind] at stands
      rw [if_pos line, if_pos line]
      refine ⟨lexer.withToken .commentLine file.peekChar.2.readLineComment,
        shows_comment stands rfl, ?_⟩
      cases skipComment <;> rfl
    · rw [if_neg line, if_neg line]
      by_cases block : c = '*'.toUInt8
      · rw [if_pos block, if_pos block]
        refine ⟨lexer.withToken .commentBlock file.peekChar.2.readBlockComment,
          shows_comment (readBlockComment_stands again) rfl, ?_⟩
        cases skipComment <;> rfl
      · rw [if_neg block, if_neg block]
        exact ⟨_, shows_word rfl again, returned_of_token rfl rfl⟩

/-- The lexer reads the first piece of a text, and goes on if it is not a token. -/
theorem readToken_of_reads (skipComment : Bool)
    (reads : lexer.currentFile.Reads (c :: w) full) :
    ∃ after : Lexer, Shows after (piece true c w) full ∧
      lexer.readToken skipComment =
        if (piece true c w).isSkipped skipComment then after.readToken skipComment else after := by
  obtain ⟨rfl, behind⟩ := reads.getChar
  rw [Lexer.readToken, dif_pos reads.isEof_cons, piece]
  dsimp only
  by_cases space : isSpace lexer.currentFile.getChar.1
  · rw [if_pos space, if_pos space]
    exact ⟨{ lexer with currentFile := lexer.currentFile.getChar.2 },
      ⟨nofun, w, behind, Or.inl rfl⟩, rfl⟩
  rw [if_neg space, if_neg space]
  by_cases letter : isIdentifierStart lexer.currentFile.getChar.1
  · rw [dif_pos letter, if_pos letter]
    exact ⟨_, shows_readIdentifier _ behind, returned_of_token rfl (isComment_word _)⟩
  rw [dif_neg letter, if_neg letter]
  by_cases digit : isDecimalDigital lexer.currentFile.getChar.1
  · rw [dif_pos digit, if_pos digit]
    exact ⟨_, shows_readDecimalDigital _ behind, returned_of_token rfl rfl⟩
  rw [dif_neg digit, if_neg digit]
  cases delimiter : delimiters.lookup lexer.currentFile.getChar.1 with
  | some token =>
    exact ⟨_, shows_word (isWord_of_delimiter delimiter) behind, returned_of_token rfl rfl⟩
  | none =>
    dsimp only
    by_cases slash : lexer.currentFile.getChar.1 = '/'.toUInt8
    · rw [if_pos slash, if_pos slash]
      exact readToken_slash behind
    · rw [if_neg slash, if_neg slash]
      exact ⟨_, shows_word rfl behind, returned_of_token rfl rfl⟩

/-! ### Reading all pieces -/

/-- The pieces that a caller gets. -/
def wanted (skipComment : Bool) (lexemes : List Lexeme) : List Lexeme :=
  lexemes.filter fun lexeme => !(skipComment && lexeme.isComment)

theorem pieces_nil (asRead full : Bool) :
    pieces asRead full [] = if full then [.word .unknown] else [] := by
  rw [pieces]

theorem pieces_cons (asRead full : Bool) (c : UInt8) (w : List UInt8) :
    pieces asRead full (c :: w) = (piece asRead c w).lexeme?.toList ++
      if (piece asRead c w).seen then [] else pieces asRead full (piece asRead c w).rest := by
  rw [pieces]

theorem pieces_space {asRead : Bool} (space : isSpace c = true) :
    pieces asRead full (c :: w) = pieces asRead full w := by
  rw [pieces_cons, piece, if_pos space]
  rfl

theorem wanted_skipped {first : Piece} {behind : List Lexeme}
    (skipped : first.isSkipped skipComment = true) :
    wanted skipComment (first.lexeme?.toList ++ behind) = wanted skipComment behind := by
  rw [Piece.isSkipped] at skipped
  cases shown : first.lexeme? with
  | none => rfl
  | some lexeme =>
    rw [shown] at skipped
    dsimp only at skipped
    exact List.filter_cons_of_neg (by rw [skipped]; decide)

/-- A piece that is not passed over is a token. -/
theorem wanted_returned {first : Piece} (behind : List Lexeme)
    (returned : first.isSkipped skipComment = false) :
    ∃ lexeme ∈ first.lexeme?, wanted skipComment (first.lexeme?.toList ++ behind) =
      lexeme :: wanted skipComment behind := by
  rw [Piece.isSkipped] at returned
  cases shown : first.lexeme? with
  | none =>
    rw [shown] at returned
    cases returned
  | some lexeme =>
    rw [shown] at returned
    dsimp only at returned
    exact ⟨lexeme, rfl, List.filter_cons_of_pos (by rw [returned]; decide)⟩

/-- What one call makes of the tokens that are left. -/
inductive Gives (after : Lexer) (full skipComment : Bool) : List Lexeme → Prop where
  | token (w : List UInt8) (reads : after.currentFile.Reads w full) :
    Gives after full skipComment (after.lexeme :: wanted skipComment (pieces true full w))
  | last (ended : after.currentFile.Ended) : Gives after full skipComment [after.lexeme]
  | over_ (ended : after.currentFile.Ended) (none : after.lexeme = .endOfFile) :
    Gives after full skipComment []

theorem readToken_ended (ended : lexer.currentFile.Ended) :
    lexer.readToken skipComment = lexer.withToken .endOfFile lexer.currentFile := by
  rw [Lexer.readToken, dif_neg ended.not_more]

/-- Behind a text whose end has not been seen there is one more byte. -/
theorem gives_nil (reads : lexer.currentFile.Reads [] full) :
    Gives (lexer.readToken skipComment) full skipComment
      (wanted skipComment (pieces true full [])) := by
  have isEof := reads.isEof_eq
  rw [pieces_nil]
  cases full with
  | false =>
    have ended := reads.ended isEof
    rw [readToken_ended ended]
    exact .over_ ended rfl
  | true =>
    obtain ⟨mark, ended⟩ := reads.getChar_nil
    have unknown : lexer.readToken skipComment =
        lexer.withToken .unknown lexer.currentFile.getChar.2 := by
      have more : lexer.currentFile.isEof = false := isEof
      rw [Lexer.readToken, dif_pos more]
      dsimp only
      rw [if_neg (by rw [mark]; decide), dif_neg (by rw [mark]; decide),
        dif_neg (by rw [mark]; decide)]
      rw [mark]
      rfl
    rw [unknown]
    have only : wanted skipComment [.word .unknown] = [.word .unknown] := by
      cases skipComment <;> rfl
    rw [if_pos rfl, only]
    exact .last ended

/-- The pieces behind the first one, whether or not a space has been read with it. -/
theorem Shows.behind {after : Lexer} {first : Piece} (shows_ : Shows after first full) :
    first.seen = true ∧ after.currentFile.Ended ∨
      first.seen = false ∧ ∃ w, w.length ≤ first.rest.length ∧ after.currentFile.Reads w full ∧
        pieces true full first.rest = pieces true full w := by
  obtain ⟨w, stands, left⟩ := shows_.stands
  cases seen : first.seen with
  | true =>
    rw [seen] at stands
    exact Or.inl ⟨rfl, stands⟩
  | false =>
    rw [seen] at stands
    refine Or.inr ⟨rfl, w, ?_, stands, ?_⟩
    · rcases left with same | ⟨space, -, same⟩ <;> rw [same]
      exact Nat.le_succ _
    · rcases left with same | ⟨space, isSpace, same⟩
      · rw [same]
      · rw [same, pieces_space isSpace]

/-- A call of `ReadToken` gives the first token that is left. -/
theorem gives_readToken (skipComment : Bool) (reads : lexer.currentFile.Reads w full) :
    Gives (lexer.readToken skipComment) full skipComment
      (wanted skipComment (pieces true full w)) := by
  -- Every piece makes the text shorter, also one that is passed over.
  induction size : w.length using Nat.strong_induction_on generalizing w lexer with
  | _ n ih =>
    cases w with
    | nil => exact gives_nil reads
    | cons c w =>
      obtain ⟨after, shows_, read⟩ := readToken_of_reads skipComment reads
      have shorter := length_rest_le true c w
      rw [read, pieces_cons]
      cases skipped : (piece true c w).isSkipped skipComment with
      | true =>
        rw [if_pos rfl, wanted_skipped skipped]
        rcases shows_.behind with ⟨seen, ended⟩ | ⟨seen, v, within, left, same⟩
        · rw [readToken_ended ended, if_pos seen]
          exact .over_ ended rfl
        · rw [if_neg (by rw [seen]; decide), same]
          refine ih v.length ?_ left rfl
          rw [← size]
          exact Nat.lt_succ_of_le (Nat.le_trans within shorter)
      | false =>
        obtain ⟨lexeme, shown, first⟩ := wanted_returned
          (if (piece true c w).seen then [] else pieces true full (piece true c w).rest) skipped
        rw [if_neg Bool.false_ne_true, first, ← shows_.lexeme lexeme shown]
        rcases shows_.behind with ⟨seen, ended⟩ | ⟨seen, v, -, left, same⟩
        · rw [if_pos seen]
          exact .last ended
        · rw [if_neg (by rw [seen]; decide), same]
          exact .token v left

/-- Behind the end of a file there is only its end. -/
theorem getTokens_ended (n : ℕ) (unpeeked : lexer.havePeek = false)
    (ended : lexer.currentFile.Ended) :
    lexer.getTokens skipComment n = List.replicate n Lexeme.endOfFile := by
  induction n generalizing lexer with
  | zero => rfl
  | succ n ih =>
    have next : (lexer.getToken skipComment).2 =
        { lexer.withToken .endOfFile lexer.currentFile with havePeek := false } := by
      rw [Lexer.getToken, unpeeked, if_neg Bool.false_ne_true, readToken_ended ended]
    rw [Lexer.getTokens, next, List.replicate_succ]
    exact congrArg _ (ih rfl ended)

theorem take_append_replicate {α : Type} (l : List α) (x : α) (n : ℕ) :
    (l ++ List.replicate (n + 1) x).take n = (l ++ List.replicate n x).take n := by
  rw [List.take_append, List.take_append, List.take_replicate, List.take_replicate,
    Nat.min_eq_left (by omega), Nat.min_eq_left (by omega)]

/-- The tokens of a file are the pieces of its text, as they are read, and then its end. -/
theorem Lexer.getTokens_eq (n : ℕ) (unpeeked : lexer.havePeek = false)
    (reads : lexer.currentFile.Reads w full) :
    lexer.getTokens skipComment n =
      (wanted skipComment (pieces true full w) ++ List.replicate n Lexeme.endOfFile).take n := by
  induction n generalizing lexer w with
  | zero => rfl
  | succ n ih =>
    have next : (lexer.getToken skipComment).2 =
        { lexer.readToken skipComment with havePeek := false } := by
      rw [Lexer.getToken, unpeeked, if_neg Bool.false_ne_true]
    rw [Lexer.getTokens, next]
    generalize left : wanted skipComment (pieces true full w) = lexemes
    have gives := gives_readToken skipComment reads
    rw [left] at gives
    cases gives with
    | token w reads =>
      rw [List.cons_append, List.take_succ_cons, take_append_replicate]
      exact congrArg _ (ih rfl reads)
    | last ended =>
      rw [List.singleton_append, List.take_succ_cons, List.take_replicate,
        Nat.min_eq_left (Nat.le_succ n)]
      exact congrArg _ (getTokens_ended n rfl ended)
    | over_ ended none =>
      rw [List.nil_append, List.take_replicate, Nat.min_self, List.replicate_succ]
      exact congr (congrArg _ none) (getTokens_ended n rfl ended)

end Reading

/-! ### Plain texts -/

/-- Reading the first piece of a text is no exception: identifiers and numbers are shorter than
a string can be, and a slash behind the star of a comment is the end of the file, which is seen. -/
def plainPiece (full : Bool) (c : UInt8) (w : List UInt8) : Bool :=
  if isSpace c then true
  else if isIdentifierStart c then decide ((w.takeWhile isIdentifierChar).length + 1 < maxSize)
  else if isDecimalDigital c then decide ((w.takeWhile isDecimalDigital).length + 1 < maxSize)
  else if c = '/'.toUInt8 ∧ ['*'.toUInt8, '/'.toUInt8] <+: w then
    decide (w.length = 2) && !full
  else true

/-- No piece of a text is an exception, and nothing is found behind the text. -/
def plain (full : Bool) : List UInt8 → Bool
  | [] => !full
  | c :: w => plainPiece full c w && ((piece false c w).seen || plain full (piece false c w).rest)
termination_by w => w.length
decreasing_by exact Nat.lt_succ_of_le (length_rest_le false c w)

section Plain

variable {c : UInt8} {w : List UInt8} {full : Bool}

theorem kept_eq {text : List UInt8} (short : text.length < maxSize) :
    kept true text = kept false text := by
  rw [kept, kept, if_pos rfl, if_neg Bool.false_ne_true,
    List.take_of_length_le (Nat.le_sub_one_of_lt short)]

theorem length_kept_le (text : List UInt8) : (kept true text).length < maxSize := by
  rw [kept, if_pos rfl, List.length_take]
  exact Nat.lt_of_le_of_lt (Nat.min_le_left _ _) (by decide)

theorem kept_ne {text : List UInt8} (long : ¬ text.length < maxSize) :
    kept true text ≠ kept false text := by
  intro same
  have short := length_kept_le text
  rw [same] at short
  exact long short

/-- No keyword is as long as a string can be. -/
theorem word_kept_ne {text : List UInt8} (long : ¬ text.length < maxSize) :
    word (kept true text) ≠ word (kept false text) := by
  intro same
  have unknown : keywords.lookup text = none := by
    cases known : keywords.lookup text with
    | none => rfl
    | some token =>
      have short : text.length ≤ 14 :=
        (by decide : ∀ keyword ∈ keywords, keyword.1.length ≤ 14) _ (mem_of_lookup known)
      exact absurd (Nat.lt_of_le_of_lt short (by decide)) long
  have whole : word (kept false text) = .identifier text := by
    change word text = _
    rw [word, unknown]
  rw [whole, word] at same
  split at same
  · cases same
  · exact kept_ne long (Lexeme.identifier.inj same)

/-- How the lexer reads a first piece: as it is, or another token, or it does not see that the end
of a comment is the end of the file. -/
inductive Reading (full : Bool) (c : UInt8) (w : List UInt8) : Prop where
  | same (plain : plainPiece full c w = true) (same : piece true c w = piece false c w)
  | other (exceptional : plainPiece full c w = false) {read lexeme : Lexeme}
    (isRead : (piece true c w).lexeme? = some read)
    (first : (piece false c w).lexeme? = some lexeme) (differ : read ≠ lexeme)
  | unseen (unfull : plainPiece full c w = !full)
    (isRead : piece true c w = ⟨some (.commentBlock []), [], false⟩)
    (first : piece false c w = ⟨some (.commentBlock []), [], true⟩)

/-- A text is cut exactly when it does not fit into a string. -/
theorem reading_longest (kind : UInt8 → Bool) (lexeme : List UInt8 → Lexeme)
    (differ : ∀ {text : List UInt8}, ¬ text.length < maxSize →
      lexeme (kept true text) ≠ lexeme (kept false text))
    (isRead : piece true c w = longest kind (lexeme <| kept true ·) c w)
    (first : piece false c w = longest kind (lexeme <| kept false ·) c w)
    (plain : plainPiece full c w = decide ((w.takeWhile kind).length + 1 < maxSize)) :
    Reading full c w := by
  by_cases short : (c :: w.takeWhile kind).length < maxSize
  · refine .same ?_ ?_
    · rw [plain]
      exact decide_eq_true short
    · rw [isRead, first, longest, longest, kept_eq short]
  · refine .other ?_ (congrArg Piece.lexeme? isRead) (congrArg Piece.lexeme? first) (differ short)
    rw [plain]
    exact decide_eq_false short

/-- What is behind the first end of a comment is shorter than what is behind its beginning. -/
theorem behindBlock_ne (nonempty : w ≠ []) : w ≠ (behindBlock ('/'.toUInt8 :: w)).getD [] := by
  intro same
  have other : behindBlock ('/'.toUInt8 :: w) = behindBlock w := by
    rw [behindBlock, if_neg fun closed => absurd closed.1 (by decide)]
  have shorter := length_behindBlock_le w
  have positive := List.length_pos_of_ne_nil nonempty
  rw [other] at same
  rw [← same] at shorter
  omega

theorem behindBlock_star (next : w.head? ≠ some '/'.toUInt8) :
    behindBlock ('*'.toUInt8 :: w) = behindBlock w := by
  rw [behindBlock, if_neg fun closed => next closed.2]

theorem behindBlock_closed :
    behindBlock ('*'.toUInt8 :: '/'.toUInt8 :: w) = some w := by
  rw [behindBlock, if_pos ⟨rfl, rfl⟩]
  rfl

/-- The star that begins a comment ends it if a slash is behind it. -/
theorem reading_slash (isRead : piece true c w = slashPiece true w)
    (first : piece false c w = slashPiece false w)
    (plain : plainPiece full c w =
      if ['*'.toUInt8, '/'.toUInt8] <+: w then decide (w.length = 2) && !full else true) :
    Reading full c w := by
  by_cases closed : ['*'.toUInt8, '/'.toUInt8] <+: w
  · obtain ⟨v, rfl⟩ := closed
    have readAs : slashPiece true ('*'.toUInt8 :: '/'.toUInt8 :: v) =
        ⟨some (.commentBlock v), v, false⟩ := by
      rw [slashPiece, if_neg (by decide), if_pos rfl, if_pos rfl, behindBlock_closed]
      rfl
    have really : slashPiece false ('*'.toUInt8 :: '/'.toUInt8 :: v) =
        comment .commentBlock (behindBlock ('/'.toUInt8 :: v)) := by
      rw [slashPiece, if_neg (by decide), if_pos rfl, if_neg Bool.false_ne_true]
    rw [if_pos (List.prefix_append _ _)] at plain
    cases v with
    | nil => exact .unseen plain (isRead.trans readAs) (first.trans really)
    | cons d v =>
      refine .other plain (congrArg Piece.lexeme? (isRead.trans readAs))
        (congrArg Piece.lexeme? (first.trans really)) fun same => ?_
      exact behindBlock_ne (List.cons_ne_nil d v) (Lexeme.commentBlock.inj same)
  · rw [if_neg closed] at plain
    refine .same plain ?_
    rw [isRead, first]
    cases w with
    | nil => rfl
    | cons d w =>
      rw [slashPiece, slashPiece]
      by_cases star : d = '*'.toUInt8
      · have next : w.head? ≠ some '/'.toUInt8 := by
          intro slash
          cases w with
          | nil => cases slash
          | cons e w =>
            obtain rfl := Option.some.inj slash
            exact closed ⟨w, by rw [star]; rfl⟩
        have other : '*'.toUInt8 ≠ '/'.toUInt8 := by decide
        rw [star, if_neg other, if_neg other, if_pos rfl, if_pos rfl, if_pos rfl,
          if_neg Bool.false_ne_true, behindBlock_star next]
      · rw [if_neg star, if_neg star]

theorem reading (full : Bool) (c : UInt8) (w : List UInt8) : Reading full c w := by
  by_cases space : isSpace c
  · refine .same ?_ ?_
    · rw [plainPiece, if_pos space]
    · rw [piece, piece, if_pos space, if_pos space]
  by_cases letter : isIdentifierStart c
  · refine reading_longest isIdentifierChar word word_kept_ne ?_ ?_ ?_
    · rw [piece, if_neg space, if_pos letter]
    · rw [piece, if_neg space, if_pos letter]
    · rw [plainPiece, if_neg space, if_pos letter]
  by_cases digit : isDecimalDigital c
  · refine reading_longest isDecimalDigital .digit
      (fun long same => kept_ne long (Lexeme.digit.inj same)) ?_ ?_ ?_
    · rw [piece, if_neg space, if_neg letter, if_pos digit]
    · rw [piece, if_neg space, if_neg letter, if_pos digit]
    · rw [plainPiece, if_neg space, if_neg letter, if_pos digit]
  by_cases slash : c = '/'.toUInt8
  · subst slash
    refine reading_slash rfl rfl ?_
    rw [plainPiece, if_neg space, if_neg letter, if_neg digit]
    by_cases closed : ['*'.toUInt8, '/'.toUInt8] <+: w
    · rw [if_pos ⟨rfl, closed⟩, if_pos closed]
    · rw [if_neg fun both => closed both.2, if_neg closed]
  · refine .same ?_ ?_
    · rw [plainPiece, if_neg space, if_neg letter, if_neg digit, if_neg fun both => slash both.1]
    · rw [piece, piece, if_neg space, if_neg letter, if_neg digit, if_neg space, if_neg letter,
        if_neg digit, if_neg slash, if_neg slash]

/-- The pieces of a text are read as they are exactly when it is plain. -/
theorem pieces_eq_iff (full : Bool) (w : List UInt8) :
    pieces true full w = pieces false false w ↔ plain full w = true := by
  induction size : w.length using Nat.strong_induction_on generalizing w with
  | _ n ih =>
    cases w with
    | nil =>
      rw [pieces_nil, pieces_nil, plain]
      cases full <;> decide
    | cons c w =>
      rw [pieces_cons, pieces_cons, plain]
      cases reading full c w with
      | same plain same =>
        rw [same, plain, Bool.true_and, List.append_cancel_left_eq]
        cases seen : (piece false c w).seen with
        | true => exact iff_of_true rfl rfl
        | false =>
          refine ih _ ?_ (piece false c w).rest rfl
          rw [← size]
          exact Nat.lt_succ_of_le (length_rest_le false c w)
      | other exceptional isRead first differ =>
        rw [isRead, first, exceptional]
        exact iff_of_false (fun same => differ (List.cons.inj same).1) Bool.false_ne_true
      | unseen unfull isRead first =>
        rw [isRead, first, unfull]
        dsimp only
        rw [pieces_nil]
        cases full <;> decide

end Plain

/-! ### The claim of a file -/

/-- A text without the byte that marks an end. -/
structure SourceText where
  bytes : List UInt8
  noMark : endMark ∉ bytes

/-- The calls of `GetToken` give the tokens of the text, with its comments if they are wanted, and
then always the end of the file. -/
def LexesText (text : SourceText) : Prop :=
  ∀ skipComment n, (Lexer.openSourceFile text.bytes).getTokens skipComment n =
    (wanted skipComment (pieces false false text.bytes) ++
      List.replicate n Lexeme.endOfFile).take n

/-- A text whose last block is filled. -/
def SourceText.isFull (text : SourceText) : Bool := decide (text.bytes.length % blockSize = 0)

theorem getTokens_openSourceFile (text : SourceText) (skipComment : Bool) (n : ℕ) :
    (Lexer.openSourceFile text.bytes).getTokens skipComment n =
      (wanted skipComment (pieces true text.isFull text.bytes) ++
        List.replicate n Lexeme.endOfFile).take n :=
  Lexer.getTokens_eq n rfl (reads_opened text.noMark)

theorem word_ne_endOfFile (text : List UInt8) : word text ≠ .endOfFile := by
  intro same
  rw [word] at same
  split at same
  · rename_i token known
    have other : token ≠ .endOfFile :=
      (by decide : ∀ keyword ∈ keywords, keyword.2 ≠ .endOfFile) _ (mem_of_lookup known)
    exact other (Lexeme.word.inj same)
  · cases same

/-- No piece is the end of the file. -/
theorem piece_ne_endOfFile (asRead : Bool) (c : UInt8) (w : List UInt8) :
    (piece asRead c w).lexeme? ≠ some .endOfFile := by
  intro same
  rw [piece] at same
  split at same
  · cases same
  split at same
  · exact word_ne_endOfFile _ (Option.some.inj same)
  split at same
  · cases same
  split at same
  · rename_i token found
    have other : token ≠ .endOfFile :=
      (by decide : ∀ delimiter ∈ delimiters, delimiter.2 ≠ .endOfFile) _ (mem_of_lookup found)
    exact other (Lexeme.word.inj (Option.some.inj same))
  split at same
  · cases w with
    | nil => cases same
    | cons d w =>
      rw [slashPiece] at same
      split at same
      · cases same
      split at same <;> cases same
  · cases same

theorem endOfFile_notMem_pieces (asRead full : Bool) (w : List UInt8) :
    Lexeme.endOfFile ∉ pieces asRead full w := by
  induction size : w.length using Nat.strong_induction_on generalizing w with
  | _ n ih =>
    cases w with
    | nil =>
      rw [pieces_nil]
      cases full <;> decide
    | cons c w =>
      rw [pieces_cons]
      intro member
      rcases List.mem_append.mp member with first | behind
      · exact piece_ne_endOfFile asRead c w (Option.mem_toList.mp first)
      · split at behind
        · cases behind
        · refine ih _ ?_ _ rfl behind
          rw [← size]
          exact Nat.lt_succ_of_le (length_rest_le asRead c w)

/-- Two lists that agree with ends behind them agree. -/
theorem eq_of_take_append_replicate {α : Type} [DecidableEq α] {l m : List α} {x : α}
    (notL : x ∉ l) (notM : x ∉ m)
    (same : ∀ n, (l ++ List.replicate n x).take n = (m ++ List.replicate n x).take n) : l = m := by
  have cut (k : List α) (notK : x ∉ k) (n : ℕ) (inside : k.length ≤ n) :
      ((k ++ List.replicate n x).take n).filter (· ≠ x) = k := by
    rw [List.take_append, List.take_of_length_le inside, List.filter_append,
      List.filter_eq_self.mpr, List.filter_eq_nil_iff.mpr, List.append_nil]
    · intro y member
      rw [List.eq_of_mem_replicate (List.mem_of_mem_take member)]
      simp
    · intro y member
      exact decide_eq_true fun equal => notK (equal ▸ member)
  rw [← cut l notL (l.length + m.length) (Nat.le_add_right _ _), same,
    cut m notM (l.length + m.length) (Nat.le_add_left _ _)]

theorem wanted_false (lexemes : List Lexeme) : wanted false lexemes = lexemes :=
  List.filter_eq_self.mpr fun _ _ => rfl

/-- The empty file fills no blocks, and its first token is not its end. -/
theorem finds_byte_behind_text :
    (Lexer.openSourceFile []).getTokens true 1 = [.word .unknown] ∧
      ¬ ∀ text, LexesText text := by
  have first : (Lexer.openSourceFile []).getTokens true 1 = [.word .unknown] :=
    getTokens_openSourceFile ⟨[], List.not_mem_nil⟩ true 1 |>.trans (by rw [pieces_nil]; rfl)
  refine ⟨first, fun all => ?_⟩
  have lexes := all ⟨[], List.not_mem_nil⟩ true 1
  rw [first, pieces_nil] at lexes
  cases lexes

/-- The tokens of a file are those of its text exactly when the text is plain. -/
theorem lexesText_iff (text : SourceText) :
    LexesText text ↔ plain text.isFull text.bytes = true := by
  rw [← pieces_eq_iff]
  constructor
  · intro lexes
    apply eq_of_take_append_replicate (endOfFile_notMem_pieces _ _ _)
      (endOfFile_notMem_pieces _ _ _)
    intro n
    have calls := lexes false n
    rw [getTokens_openSourceFile, wanted_false, wanted_false] at calls
    exact calls
  · intro same skipComment n
    rw [getTokens_openSourceFile, same]

end Hdf.HdiGen
