import Hdf.HcGen.NumberText

/-!
# Number literals

A number token should be the longest literal that the text starts with. It is not:
digits are joined across white space, an octal number goes on over the digits 8
and 9, a sign or a `0x` without digits is a number, and values from 2^63 on are
rejected, because they go through a signed conversion. The last of these also
concerns what the decompiler prints.

## Main definitions

* `Literal`, `Longest`: the four notations
* `ReadsLiteral`: a call reads the longest literal
* `Clean`: texts where it does

## Main results

* `readsLiteral_iff`: when a call reads the longest literal
* `numbers_iff`: so, and which printed values are read back
-/

namespace Hdf.HcGen.Lexer

/-! ### Literals -/

def isOctal (c : UInt8) : Bool := byte '0' ≤ c && c ≤ byte '7'

/-- The literals of the four notations, and their values. -/
inductive Literal : Bytes → ℤ → Prop
  | decimal {c : UInt8} {ds : Bytes} (first : c ≠ byte '0') (digits : ∀ d ∈ c :: ds, isNum d) :
    Literal (c :: ds) (value 10 (c :: ds))
  | plus {ds : Bytes} (more : ds ≠ []) (digits : ∀ d ∈ ds, isNum d) :
    Literal (byte '+' :: ds) (value 10 ds)
  | minus {ds : Bytes} (more : ds ≠ []) (digits : ∀ d ∈ ds, isNum d) :
    Literal (byte '-' :: ds) (-(value 10 ds : ℤ))
  | octal {ds : Bytes} (digits : ∀ d ∈ ds, isOctal d) : Literal (byte '0' :: ds) (value 8 ds)
  | hexadecimal {x : UInt8} {ds : Bytes} (letter : x = byte 'x' ∨ x = byte 'X') (more : ds ≠ [])
      (digits : ∀ d ∈ ds, isHexDigit d) : Literal (byte '0' :: x :: ds) (value 16 ds)
  | binary {ds : Bytes} (more : ds ≠ []) (digits : ∀ d ∈ ds, isBinary d) :
    Literal (byte '0' :: byte 'b' :: ds) (value 2 ds)

/-- The longest literal that a text starts with. -/
structure Longest (t p : Bytes) (z : ℤ) : Prop where
  starts : p <+: t
  literal : Literal p z
  longest : ∀ q y, q <+: t → Literal q y → q.length ≤ p.length

/-- The values that a token can have. -/
def InRange (z : ℤ) : Prop := -2 ^ 63 ≤ z ∧ z < 2 ^ 64

/-- A call of `Lex` reads the longest literal of the text ahead, and white space behind it at
most. It fails when there is no literal or its value is out of range. -/
structure ReadsLiteral (l : Lexer) (t : Bytes) (n : ℕ) : Prop where
  fits : ∀ p z, Longest t p z → InRange z → ∃ token l' w rest, l.lex = some (token, l') ∧
    token.type = .token .number ∧ (token.numval.toNat : ℤ) = z % 2 ^ 64 ∧
    (∀ c ∈ w, isWhite c) ∧ Took t n (p ++ w) rest l'
  overflows : ∀ p z, Longest t p z → ¬ InRange z → l.lex = none
  lacks : (∀ p z, p <+: t → ¬ Literal p z) → l.lex = none

/-- Digits with a value are seen up to the end of the adjacent ones, and converted or out of
range. -/
def Ends (l : Lexer) (m : ℕ) (ds : Bytes) : Prop := 2 ^ 64 ≤ m ∨ m < 2 ^ 63 ∧ Spaced l ds

/-- The texts behind a zero where a call reads the longest literal. -/
inductive ZeroClean (l : Lexer) (t : Bytes) : Prop
  | zero (other : ∀ d ∈ l.afterWhite.buffer.head?, ¬ GoesOn d)
  | octal (more : t.takeWhile isOctal ≠ [])
      (ends : Ends l (value 8 (t.takeWhile isOctal)) (t.takeWhile isOctal))
  | hexadecimal {x : UInt8} {h : Bytes} (letter : x = byte 'x' ∨ x = byte 'X') (split : t = x :: h)
      (more : h.takeWhile isHexDigit ≠ [])
      (fits : 2 ^ 64 ≤ value 16 (h.takeWhile isHexDigit) ∨
        value 16 (h.takeWhile isHexDigit) < 2 ^ 63)
  | binary {h : Bytes} (split : t = byte 'b' :: h) (more : h.takeWhile isBinary ≠ [])
      (fits : 2 ^ 64 ≤ value 2 (h.takeWhile isBinary) ∨ value 2 (h.takeWhile isBinary) < 2 ^ 63)

/-- The texts behind a first character where a call reads the longest literal. A sign without
digits is rejected when the digits behind white space are out of range. -/
def Clean (l : Lexer) (t : Bytes) (c : UInt8) : Prop :=
  if c = byte '0' then ZeroClean l t
  else if c = byte '+' then
    if t.takeWhile isNum = [] then ∃ ds, Spaced l ds ∧ 2 ^ 63 ≤ value 10 ds
    else Ends l (value 10 (t.takeWhile isNum)) (t.takeWhile isNum)
  else if c = byte '-' then
    if t.takeWhile isNum = [] then ∃ ds, Spaced l ds ∧ 2 ^ 63 < value 10 ds
    else 2 ^ 63 < value 10 (t.takeWhile isNum) ∨ Spaced l (t.takeWhile isNum)
  else Ends l (value 10 (c :: t.takeWhile isNum)) (t.takeWhile isNum)

variable {l : Lexer} {t : Bytes} {n : ℕ} {c : UInt8}

/-- The value of a literal, by the characters that it starts with. -/
def literalValue : Bytes → ℤ
  | [] => 0
  | c :: ds =>
    if c = byte '+' then value 10 ds
    else if c = byte '-' then -(value 10 ds : ℤ)
    else if c = byte '0' then
      if ds.head? = some (byte 'x') ∨ ds.head? = some (byte 'X') then value 16 ds.tail
      else if ds.head? = some (byte 'b') then value 2 ds.tail
      else value 8 ds
    else value 10 (c :: ds)

theorem Literal.eq_literalValue {p : Bytes} {z : ℤ} (literal : Literal p z) :
    z = literalValue p := by
  cases literal with
  | @decimal c ds first digits =>
    have digit := digits c List.mem_cons_self
    have plus : c ≠ byte '+' := by
      rintro rfl
      exact absurd digit (by decide)
    have minus : c ≠ byte '-' := by
      rintro rfl
      exact absurd digit (by decide)
    rw [literalValue, if_neg plus, if_neg minus, if_neg first]
  | plus more digits | minus more digits => rfl
  | @octal ds digits =>
    have other (x : UInt8) (letter : ¬ isOctal x) : ds.head? ≠ some x := by
      intro head
      exact letter (digits x (List.mem_of_head? head))
    rw [literalValue, if_neg (by decide), if_neg (by decide), if_pos rfl, if_neg, if_neg]
    · exact other _ (by decide)
    · exact not_or.mpr ⟨other _ (by decide), other _ (by decide)⟩
  | hexadecimal letter more digits =>
    obtain rfl | rfl := letter <;> rfl
  | binary more digits => rfl

/-- The notation of a text and its value are determined by the text. -/
theorem Literal.unique {p : Bytes} {y z : ℤ} (literal : Literal p y) (literal' : Literal p z) :
    y = z :=
  literal.eq_literalValue.trans literal'.eq_literalValue.symm

theorem Longest.unique {p q : Bytes} {y z : ℤ} (longest : Longest t p y)
    (longest' : Longest t q z) :
    p = q ∧ y = z := by
  have length : p.length = q.length :=
    le_antisymm (longest'.longest p y longest.starts longest.literal)
      (longest.longest q z longest'.starts longest'.literal)
  obtain rfl : p = q := by
    have first := List.prefix_iff_eq_take.mp longest.starts
    have second := List.prefix_iff_eq_take.mp longest'.starts
    rw [first, second, length]
  exact ⟨rfl, longest.literal.unique longest'.literal⟩

/-- A prefix whose characters pass a test is no longer than the longest one. -/
theorem prefix_takeWhile {test : UInt8 → Bool} {q : Bytes} (starts : q <+: t)
    (all : ∀ d ∈ q, test d) : q <+: t.takeWhile test := by
  obtain ⟨rest, rfl⟩ := starts
  rw [List.takeWhile_append_of_pos all]
  exact List.prefix_append _ _

theorem length_le_takeWhile {test : UInt8 → Bool} {q : Bytes} (starts : q <+: t)
    (all : ∀ d ∈ q, test d) : q.length ≤ (t.takeWhile test).length :=
  (prefix_takeWhile starts all).length_le

theorem eq_nil_of_takeWhile {test : UInt8 → Bool} {q : Bytes} (starts : q <+: t)
    (all : ∀ d ∈ q, test d) (lacks : t.takeWhile test = []) : q = [] := by
  have length := length_le_takeWhile starts all
  rw [lacks] at length
  exact List.length_eq_zero_iff.mp (Nat.le_zero.mp length)

/-- What a literal is behind its first character. -/
inductive Tail : UInt8 → Bytes → Prop
  | decimal {c : UInt8} {ds : Bytes} (first : isNum c) (nonzero : c ≠ byte '0')
      (digits : ∀ d ∈ ds, isNum d) : Tail c ds
  | signed {c : UInt8} {ds : Bytes} (sign : c = byte '+' ∨ c = byte '-') (more : ds ≠ [])
      (digits : ∀ d ∈ ds, isNum d) : Tail c ds
  | octal {ds : Bytes} (digits : ∀ d ∈ ds, isOctal d) : Tail (byte '0') ds
  | hexadecimal {x : UInt8} {ds : Bytes} (letter : x = byte 'x' ∨ x = byte 'X') (more : ds ≠ [])
      (digits : ∀ d ∈ ds, isHexDigit d) : Tail (byte '0') (x :: ds)
  | binary {ds : Bytes} (more : ds ≠ []) (digits : ∀ d ∈ ds, isBinary d) :
    Tail (byte '0') (byte 'b' :: ds)

theorem Literal.tail {q : Bytes} {y : ℤ} (literal : Literal q y) (starts : q <+: c :: t) :
    ∃ ds, q = c :: ds ∧ ds <+: t ∧ Tail c ds := by
  cases literal with
  | decimal first digits =>
    obtain ⟨rfl, starts'⟩ := List.cons_prefix_cons.mp starts
    obtain ⟨digit, digits⟩ := List.forall_mem_cons.mp digits
    exact ⟨_, rfl, starts', .decimal digit first digits⟩
  | plus more digits =>
    obtain ⟨rfl, starts'⟩ := List.cons_prefix_cons.mp starts
    exact ⟨_, rfl, starts', .signed (.inl rfl) more digits⟩
  | minus more digits =>
    obtain ⟨rfl, starts'⟩ := List.cons_prefix_cons.mp starts
    exact ⟨_, rfl, starts', .signed (.inr rfl) more digits⟩
  | octal digits =>
    obtain ⟨rfl, starts'⟩ := List.cons_prefix_cons.mp starts
    exact ⟨_, rfl, starts', .octal digits⟩
  | hexadecimal letter more digits =>
    obtain ⟨rfl, starts'⟩ := List.cons_prefix_cons.mp starts
    exact ⟨_, rfl, starts', .hexadecimal letter more digits⟩
  | binary more digits =>
    obtain ⟨rfl, starts'⟩ := List.cons_prefix_cons.mp starts
    exact ⟨_, rfl, starts', .binary more digits⟩

/-- A literal is the longest one when no tail is longer. -/
theorem longest_of {ds : Bytes} {z : ℤ} (starts : ds <+: t) (literal : Literal (c :: ds) z)
    (longest : ∀ es, es <+: t → Tail c es → es.length ≤ ds.length) :
    Longest (c :: t) (c :: ds) z := by
  refine ⟨List.cons_prefix_cons.mpr ⟨rfl, starts⟩, literal, fun q y starts' literal' => ?_⟩
  obtain ⟨es, rfl, shorter, tail⟩ := literal'.tail starts'
  rw [List.length_cons, List.length_cons]
  exact Nat.succ_le_succ (longest es shorter tail)

theorem longest_decimal (first : isNum c) (nonzero : c ≠ byte '0') :
    Longest (c :: t) (c :: t.takeWhile isNum) (value 10 (c :: t.takeWhile isNum)) := by
  refine longest_of (List.takeWhile_prefix _) (.decimal nonzero ?_) fun es starts tail => ?_
  · exact List.forall_mem_cons.mpr ⟨first, fun d member => List.mem_takeWhile_imp member⟩
  · cases tail with
    | decimal _ _ digits | signed _ _ digits => exact length_le_takeWhile starts digits
    | octal | hexadecimal | binary => exact absurd rfl nonzero

/-- Behind a sign there are digits or there is no literal. -/
theorem digits_of_sign {es : Bytes} (sign : c = byte '+' ∨ c = byte '-') (tail : Tail c es) :
    es ≠ [] ∧ ∀ d ∈ es, isNum d := by
  have noDigit : ¬ isNum c := by
    obtain rfl | rfl := sign <;> decide
  cases tail with
  | decimal first => exact absurd first noDigit
  | signed _ more digits => exact ⟨more, digits⟩
  | octal | hexadecimal | binary => exact absurd (by decide) noDigit

theorem longest_plus (more : t.takeWhile isNum ≠ []) :
    Longest (byte '+' :: t) (byte '+' :: t.takeWhile isNum) (value 10 (t.takeWhile isNum)) :=
  longest_of (List.takeWhile_prefix _) (.plus more fun _ member => List.mem_takeWhile_imp member)
    fun _ starts tail => length_le_takeWhile starts (digits_of_sign (.inl rfl) tail).2

theorem longest_minus (more : t.takeWhile isNum ≠ []) :
    Longest (byte '-' :: t) (byte '-' :: t.takeWhile isNum) (-(value 10 (t.takeWhile isNum) : ℤ)) :=
  longest_of (List.takeWhile_prefix _) (.minus more fun _ member => List.mem_takeWhile_imp member)
    fun _ starts tail => length_le_takeWhile starts (digits_of_sign (.inr rfl) tail).2

theorem not_literal_of_sign (sign : c = byte '+' ∨ c = byte '-') (lacks : t.takeWhile isNum = [])
    {p : Bytes} {z : ℤ} (starts : p <+: c :: t) : ¬ Literal p z := by
  intro literal
  obtain ⟨ds, rfl, starts', tail⟩ := literal.tail starts
  obtain ⟨more, digits⟩ := digits_of_sign sign tail
  exact more (eq_nil_of_takeWhile starts' digits lacks)

/-- Behind a zero the notation goes by the next character. -/
theorem longest_octal
    (noLetter : ∀ x ∈ t.head?, ¬ ((x = byte 'x' ∨ x = byte 'X') ∨ x = byte 'b')) :
    Longest (byte '0' :: t) (byte '0' :: t.takeWhile isOctal) (value 8 (t.takeWhile isOctal)) := by
  refine longest_of (List.takeWhile_prefix _)
    (.octal fun _ member => List.mem_takeWhile_imp member) fun es starts tail => ?_
  cases tail with
  | decimal _ nonzero => exact absurd rfl nonzero
  | signed sign => exact absurd sign (by decide)
  | octal digits => exact length_le_takeWhile starts digits
  | hexadecimal letter =>
    obtain ⟨rest, rfl⟩ := starts
    exact absurd (.inl letter) (noLetter _ rfl)
  | binary =>
    obtain ⟨rest, rfl⟩ := starts
    exact absurd (.inr rfl) (noLetter _ rfl)

theorem longest_hexadecimal {x : UInt8} (letter : x = byte 'x' ∨ x = byte 'X')
    (more : t.takeWhile isHexDigit ≠ []) :
    Longest (byte '0' :: x :: t) (byte '0' :: x :: t.takeWhile isHexDigit)
      (value 16 (t.takeWhile isHexDigit)) := by
  refine longest_of (List.cons_prefix_cons.mpr ⟨rfl, List.takeWhile_prefix _⟩)
    (.hexadecimal letter more fun _ member => List.mem_takeWhile_imp member)
    fun es starts tail => ?_
  cases tail with
  | decimal _ nonzero => exact absurd rfl nonzero
  | signed sign => exact absurd sign (by decide)
  | octal digits =>
    cases es with
    | nil => exact Nat.zero_le _
    | cons d es =>
      obtain ⟨rfl, -⟩ := List.cons_prefix_cons.mp starts
      have digit := digits d List.mem_cons_self
      obtain rfl | rfl := letter <;> exact absurd digit (by decide)
  | hexadecimal _ _ digits =>
    obtain ⟨-, starts'⟩ := List.cons_prefix_cons.mp starts
    exact Nat.succ_le_succ (length_le_takeWhile starts' digits)
  | binary =>
    obtain ⟨rfl, -⟩ := List.cons_prefix_cons.mp starts
    exact absurd letter (by decide)

theorem longest_binary (more : t.takeWhile isBinary ≠ []) :
    Longest (byte '0' :: byte 'b' :: t) (byte '0' :: byte 'b' :: t.takeWhile isBinary)
      (value 2 (t.takeWhile isBinary)) := by
  refine longest_of (List.cons_prefix_cons.mpr ⟨rfl, List.takeWhile_prefix _⟩)
    (.binary more fun _ member => List.mem_takeWhile_imp member) fun es starts tail => ?_
  cases tail with
  | decimal _ nonzero => exact absurd rfl nonzero
  | signed sign => exact absurd sign (by decide)
  | octal digits =>
    cases es with
    | nil => exact Nat.zero_le _
    | cons d es =>
      obtain ⟨rfl, -⟩ := List.cons_prefix_cons.mp starts
      exact absurd (digits _ List.mem_cons_self) (by decide)
  | hexadecimal letter =>
    obtain ⟨rfl, -⟩ := List.cons_prefix_cons.mp starts
    exact absurd letter (by decide)
  | binary _ digits =>
    obtain ⟨-, starts⟩ := List.cons_prefix_cons.mp starts
    exact Nat.succ_le_succ (length_le_takeWhile starts digits)

/-- A letter without digits behind it belongs to no literal. -/
theorem longest_zero {x : UInt8}
    (lacks : (x = byte 'x' ∨ x = byte 'X') ∧ t.takeWhile isHexDigit = [] ∨
      x = byte 'b' ∧ t.takeWhile isBinary = []) :
    Longest (byte '0' :: x :: t) [byte '0'] 0 := by
  have notOctal : ¬ isOctal x := by
    obtain ⟨rfl | rfl, -⟩ | ⟨rfl, -⟩ := lacks <;> decide
  refine longest_of List.nil_prefix (.octal fun d none => absurd none List.not_mem_nil)
    fun es starts tail => ?_
  cases tail with
  | decimal _ nonzero => exact absurd rfl nonzero
  | signed sign => exact absurd sign (by decide)
  | octal digits =>
    cases es with
    | nil => exact Nat.zero_le _
    | cons d es =>
      obtain ⟨rfl, -⟩ := List.cons_prefix_cons.mp starts
      exact absurd (digits d List.mem_cons_self) notOctal
  | hexadecimal letter more digits =>
    obtain ⟨rfl, starts'⟩ := List.cons_prefix_cons.mp starts
    obtain ⟨-, lacks⟩ | ⟨rfl, -⟩ := lacks
    · exact absurd (eq_nil_of_takeWhile starts' digits lacks) more
    · exact absurd letter (by decide)
  | binary more digits =>
    obtain ⟨rfl, starts'⟩ := List.cons_prefix_cons.mp starts
    obtain ⟨letter, -⟩ | ⟨-, lacks⟩ := lacks
    · exact absurd letter (by decide)
    · exact absurd (eq_nil_of_takeWhile starts' digits lacks) more

/-! ### What a call does -/

theorem inked_eq_nil_iff {w : Bytes} : inked w = [] ↔ ∀ c ∈ w, isWhite c := by
  simp [inked, List.filter_eq_nil_iff]

/-- The part that has been read is a literal and white space when it has the literal's
characters. -/
theorem exists_white_iff {used rest ds : Bytes} (split : t = used ++ rest) (starts : ds <+: t)
    (ink : ∀ c ∈ ds, ¬ isWhite c) :
    (∃ w, used = ds ++ w ∧ ∀ c ∈ w, isWhite c) ↔ inked used = ds := by
  constructor
  · rintro ⟨w, rfl, white⟩
    rw [inked_append, inked_eq_self ink, inked_eq_nil_iff.mpr white, List.append_nil]
  · intro inks
    obtain ⟨w, rfl⟩ | ⟨w, rfl⟩ :=
      List.prefix_or_prefix_of_prefix starts ⟨rest, split.symm⟩
    · rw [inked_append, inked_eq_self ink, List.append_right_eq_self] at inks
      exact ⟨w, rfl, inked_eq_nil_iff.mp inks⟩
    · rw [inked_eq_self fun c member => ink c (List.mem_append_left w member)] at inks
      exact ⟨[], by rw [List.append_nil]; exact inks, fun c none => absurd none List.not_mem_nil⟩

/-- A value and the characters read are those of a literal. -/
def Right (v : Option UInt64) (seen ds : Bytes) (z : ℤ) : Prop :=
  (InRange z → (∃ u, v = some u ∧ (u.toNat : ℤ) = z % 2 ^ 64) ∧ seen = ds) ∧
    (¬ InRange z → v = none)

theorem readsLiteral_iff_right {v : Option UInt64} {used rest ds : Bytes} {l' : Lexer} {z : ℤ}
    (lexed : l.lex = v.map (numberAt l')) (took : Took t (n + lines [c]) used rest l')
    (longest : Longest (c :: t) (c :: ds) z) (ink : ∀ d ∈ ds, ¬ isWhite d) :
    ReadsLiteral l (c :: t) n ↔ Right v (inked used) ds z := by
  have starts : ds <+: t := (List.cons_prefix_cons.mp longest.starts).2
  constructor
  · intro reads
    refine ⟨fun inRange => ?_, fun outside => ?_⟩
    · obtain ⟨token, l'', w, rest', lexed', type, numval, white, took'⟩ :=
        reads.fits _ _ longest inRange
      rw [lexed] at lexed'
      obtain ⟨u, rfl, same⟩ := Option.map_eq_some_iff.mp lexed'
      obtain ⟨rfl, rfl⟩ := Prod.mk.inj same
      refine ⟨⟨u, rfl, numval⟩, (exists_white_iff took.split starts ink).mp ⟨w, ?_, white⟩⟩
      have text : rest' = rest := took'.reads.text.symm.trans took.reads.text
      have split := took'.split
      rw [text, took.split, List.cons_append, List.cons_append, List.cons.injEq] at split
      exact List.append_cancel_right split.2
    · have none := reads.overflows _ _ longest outside
      rw [lexed] at none
      exact Option.map_eq_none_iff.mp none
  · rintro ⟨fits, overflows⟩
    refine ⟨fun p y longest' inRange => ?_, fun p y longest' outside => ?_, fun lacks => ?_⟩
    · obtain ⟨rfl, rfl⟩ := longest.unique longest'
      obtain ⟨⟨u, rfl, numval⟩, inks⟩ := fits inRange
      obtain ⟨w, rfl, white⟩ := (exists_white_iff took.split starts ink).mpr inks
      refine ⟨_, l', w, rest, lexed, rfl, numval, white, ?_, ?_⟩
      · rw [List.cons_append, List.cons_append, took.split]
      · have reads' := took.reads
        rw [add_assoc, ← lines_append] at reads'
        exact reads'
    · obtain ⟨rfl, rfl⟩ := longest.unique longest'
      rw [lexed, overflows outside]
      rfl
    · exact absurd longest.literal (lacks _ _ longest.starts)

theorem readsLiteral_iff_none {v : Option UInt64} {l' : Lexer}
    (lexed : l.lex = v.map (numberAt l')) (lacks : ∀ p z, p <+: t → ¬ Literal p z) :
    ReadsLiteral l t n ↔ v = none := by
  constructor
  · intro reads
    have none := reads.lacks lacks
    rw [lexed] at none
    exact Option.map_eq_none_iff.mp none
  · rintro rfl
    refine ⟨fun p z longest => ?_, fun p z longest => ?_, fun _ => lexed⟩
    · exact absurd longest.literal (lacks p z longest.starts)
    · exact absurd longest.literal (lacks p z longest.starts)

theorem not_isAlpha_of_isNum (digit : isNum c) : ¬ isAlpha c := by
  have lower : (byte '9').toNat < (byte 'a').toNat := by decide
  have upper : (byte '9').toNat < (byte 'A').toNat := by decide
  simp only [isNum, isAlpha, Bool.and_eq_true, Bool.or_eq_true, decide_eq_true_eq,
    UInt8.le_iff_toNat_le] at digit ⊢
  omega

theorem getChar_afterWhite (reads : Reads l (c :: t) n) (ink : ¬ isWhite c) :
    l.afterWhite.getChar false = l.getChar false := by
  have same : l.afterWhite.fillBuffer = l.fillBuffer := by
    have text := reads.fillBuffer.text
    cases buffer : l.fillBuffer.buffer with
    | nil => cases (reads.fillBuffer_eq_nil buffer).1
    | cons d more =>
      rw [buffer, List.cons_append] at text
      obtain ⟨rfl, -⟩ := List.cons.inj text
      have filled : l.afterWhite = l.fillBuffer := by
        rw [Lexer.afterWhite, skipped, buffer, List.takeWhile_cons_of_neg ink,
          List.dropWhile_cons_of_neg ink, ← buffer]
        rfl
      rw [filled, Lexer.fillBuffer.eq_def l.fillBuffer, buffer]
  rw [getChar, getChar, getRawChar, getRawChar, same]
  rfl

/-- A text that starts with a digit or a sign is read as a number. -/
theorem lex_eq_lexFromNumber (reads : Reads l (c :: t) n)
    (start : isNum c ∨ c = byte '+' ∨ c = byte '-') : l.lex = l.lexFromNumber := by
  have ink : ¬ isWhite c := by
    obtain digit | rfl | rfl := start
    · exact not_isWhite_of_isNum digit
    · decide
    · decide
  have same : l.afterWhite.lexFromNumber = l.lexFromNumber := by
    rw [lexFromNumber, lexFromNumber, getChar_afterWhite reads ink]
  rw [lex, size, lexLoop, peekChar_true, (reads.peek_of_not_isWhite ink).1]
  dsimp only
  obtain digit | sign := start
  · have sharp : c ≠ byte '#' := by
      rintro rfl
      exact absurd digit (by decide)
    rw [if_neg sharp, if_neg (not_isAlpha_of_isNum digit), if_pos digit, same]
  · rw [← same]
    obtain rfl | rfl := sign <;> rfl

/-! ### Conversion -/

/-- The result of a signed conversion of a number without a minus sign. -/
def converted (m : ℕ) : Option UInt64 := if m < 2 ^ 63 then some (UInt64.ofNat m) else none

theorem strtoll_unsigned {base : ℕ} {ds : Bytes}
    (first : ∀ c ∈ ds.head?, ¬ (c = byte '+' ∨ c = byte '-')) :
    strtoll ds base = converted (digits base ds) := by
  cases ds with
  | nil => rfl
  | cons c ds =>
    obtain ⟨plus, minus⟩ := not_or.mp (first c rfl)
    rw [strtoll, if_neg minus, if_neg plus]
    rfl

theorem strtoll_plus (base : ℕ) (ds : Bytes) :
    strtoll (byte '+' :: ds) base = converted (digits base ds) := rfl

theorem strtoll_minus (base : ℕ) (ds : Bytes) :
    strtoll (byte '-' :: ds) base =
      if digits base ds ≤ 2 ^ 63 then some (0 - UInt64.ofNat (digits base ds)) else none := rfl

/-- A converted number is right when it is read to its end and less than 2^63, or out of range. -/
theorem right_converted_iff {m k : ℕ} {seen ds : Bytes} (le : m ≤ k) (same : seen = ds → k = m) :
    Right (converted k) seen ds m ↔ 2 ^ 64 ≤ m ∨ m < 2 ^ 63 ∧ seen = ds := by
  have inRange : InRange (m : ℤ) ↔ m < 2 ^ 64 := by
    rw [InRange]
    omega
  rw [Right, inRange, converted]
  by_cases large : 2 ^ 64 ≤ m
  · rw [if_neg (by omega)]
    exact ⟨fun _ => .inl large, fun _ => ⟨fun small => absurd small (by omega), fun _ => rfl⟩⟩
  constructor
  · rintro ⟨fits, -⟩
    obtain ⟨⟨u, some, -⟩, seen⟩ := fits (by omega)
    refine .inr ⟨?_, seen⟩
    by_contra half
    rw [if_neg (by omega)] at some
    cases some
  · rintro (large' | ⟨small, seen⟩)
    · exact absurd large' large
    · have number : (UInt64.ofNat m).toNat = m := UInt64.toNat_ofNat_of_lt' (by
        rw [UInt64.size]
        omega)
      rw [same seen, if_pos small]
      refine ⟨fun _ => ⟨⟨_, rfl, ?_⟩, seen⟩, fun outside => absurd (by omega) outside⟩
      rw [number]
      omega

theorem right_minus_iff {m k : ℕ} {seen ds : Bytes} (le : m ≤ k) (same : seen = ds → k = m) :
    Right (if k ≤ 2 ^ 63 then some (0 - UInt64.ofNat k) else none) seen ds (-(m : ℤ)) ↔
      2 ^ 63 < m ∨ seen = ds := by
  have inRange : InRange (-(m : ℤ)) ↔ m ≤ 2 ^ 63 := by
    rw [InRange]
    omega
  rw [Right, inRange]
  by_cases large : 2 ^ 63 < m
  · rw [if_neg (by omega)]
    exact ⟨fun _ => .inl large, fun _ => ⟨fun small => absurd small (by omega), fun _ => rfl⟩⟩
  constructor
  · rintro ⟨fits, -⟩
    exact .inr (fits (by omega)).2
  · rintro (large' | seen)
    · exact absurd large' large
    · have number : (UInt64.ofNat m).toNat = m := UInt64.toNat_ofNat_of_lt' (by
        rw [UInt64.size]
        omega)
      have negated : (0 - UInt64.ofNat m).toNat = (2 ^ 64 - m) % 2 ^ 64 := by
        rw [UInt64.toNat_sub, number]
        rfl
      rw [same seen, if_pos (by omega)]
      refine ⟨fun _ => ⟨⟨_, rfl, ?_⟩, seen⟩, fun outside => absurd (by omega) outside⟩
      rw [negated]
      omega

/-! ### Decimal numbers -/

theorem Spaced.iff {seen ds : Bytes} (spaced : Spaced l seen) : Spaced l ds ↔ seen = ds :=
  ⟨fun spaced' => spaced.unique spaced', fun same => same ▸ spaced⟩

theorem ends_iff {seen ds : Bytes} {m : ℕ} (spaced : Spaced l seen) :
    2 ^ 64 ≤ m ∨ m < 2 ^ 63 ∧ seen = ds ↔ Ends l m ds := by
  rw [Ends, spaced.iff]

theorem Scan.of_nonzero {v : Option UInt64} {seen : Bytes} (scan : Scan l t c v seen)
    (nonzero : c ≠ byte '0') : Spaced l seen ∧ v = strtoll (c :: seen) 10 := by
  cases scan with
  | zero | octal | hexadecimal | binary => exact absurd rfl nonzero
  | decimal _ spaced => exact ⟨spaced, rfl⟩

theorem digits_of_spaced {ds : Bytes} (spaced : Spaced l ds) : digits 10 ds = value 10 ds :=
  digits_of_isDigit fun c member => isDigit_of_isNum (isNum_of_spaced spaced c member)

theorem value_le_of_prefix {base : ℕ} (positive : 0 < base) {ds es : Bytes} (starts : ds <+: es) :
    value base ds ≤ value base es := by
  obtain ⟨more, rfl⟩ := starts
  exact value_le_append positive ds more

theorem not_isWhite_of_mem_takeWhile {d : UInt8} (member : d ∈ t.takeWhile isNum) : ¬ isWhite d :=
  not_isWhite_of_isNum (List.mem_takeWhile_imp member)

theorem converted_eq_none_iff {m : ℕ} : converted m = none ↔ 2 ^ 63 ≤ m := by
  rw [converted]
  by_cases small : m < 2 ^ 63
  · rw [if_pos small]
    exact ⟨nofun, fun large => absurd small (not_lt.mpr large)⟩
  · rw [if_neg small]
    exact ⟨fun _ => not_lt.mp small, fun _ => rfl⟩

theorem readsLiteral_decimal_iff (reads : Reads l (c :: t) n) (first : isNum c)
    (nonzero : c ≠ byte '0') :
    ReadsLiteral l (c :: t) n ↔
      Ends l.consumeChar (value 10 (c :: t.takeWhile isNum)) (t.takeWhile isNum) := by
  obtain ⟨v, seen, used, rest, l', scan, lexed, inks, took⟩ := lexFromNumber_scan reads
  obtain ⟨spaced, rfl⟩ := scan.of_nonzero nonzero
  have starts := prefix_of_spaced spaced reads.consumeChar
  have unsigned : ¬ (c = byte '+' ∨ c = byte '-') := by
    rintro (rfl | rfl) <;> exact absurd first (by decide)
  have all : ∀ d ∈ c :: seen, IsDigit 10 d := by
    intro d member
    obtain rfl | member := List.mem_cons.mp member
    · exact isDigit_of_isNum first
    · exact isDigit_of_isNum (isNum_of_spaced spaced d member)
  rw [readsLiteral_iff_right ((lex_eq_lexFromNumber reads (.inl first)).trans lexed) took
    (longest_decimal first nonzero) fun _ => not_isWhite_of_mem_takeWhile]
  rw [inks, strtoll_unsigned (by rintro d ⟨⟩; exact unsigned), digits_of_isDigit all,
    right_converted_iff, ends_iff spaced]
  · exact value_le_of_prefix (by decide) (List.cons_prefix_cons.mpr ⟨rfl, starts⟩)
  · rintro rfl
    rfl

theorem readsLiteral_plus_iff (reads : Reads l (byte '+' :: t) n) :
    ReadsLiteral l (byte '+' :: t) n ↔ Clean l.consumeChar t (byte '+') := by
  obtain ⟨v, seen, used, rest, l', scan, lexed, inks, took⟩ := lexFromNumber_scan reads
  obtain ⟨spaced, rfl⟩ := scan.of_nonzero (by decide)
  have starts := prefix_of_spaced spaced reads.consumeChar
  have lexed' := (lex_eq_lexFromNumber reads (.inr (.inl rfl))).trans lexed
  rw [Clean, if_neg (by decide), if_pos rfl]
  rw [strtoll_plus, digits_of_spaced spaced] at lexed'
  by_cases alone : t.takeWhile isNum = []
  · rw [if_pos alone, readsLiteral_iff_none lexed' fun p z =>
      not_literal_of_sign (.inl rfl) alone, converted_eq_none_iff]
    constructor
    · exact fun large => ⟨seen, spaced, large⟩
    · rintro ⟨ds, spaced', large⟩
      rwa [spaced.unique spaced']
  · rw [if_neg alone, readsLiteral_iff_right lexed' took (longest_plus alone)
      fun _ => not_isWhite_of_mem_takeWhile, inks, right_converted_iff, ends_iff spaced]
    · exact value_le_of_prefix (by decide) starts
    · rintro rfl
      rfl

theorem readsLiteral_minus_iff (reads : Reads l (byte '-' :: t) n) :
    ReadsLiteral l (byte '-' :: t) n ↔ Clean l.consumeChar t (byte '-') := by
  obtain ⟨v, seen, used, rest, l', scan, lexed, inks, took⟩ := lexFromNumber_scan reads
  obtain ⟨spaced, rfl⟩ := scan.of_nonzero (by decide)
  have starts := prefix_of_spaced spaced reads.consumeChar
  have lexed' := (lex_eq_lexFromNumber reads (.inr (.inr rfl))).trans lexed
  rw [Clean, if_neg (by decide), if_neg (by decide), if_pos rfl]
  rw [strtoll_minus, digits_of_spaced spaced] at lexed'
  by_cases alone : t.takeWhile isNum = []
  · rw [if_pos alone, readsLiteral_iff_none lexed' fun p z =>
      not_literal_of_sign (.inr rfl) alone, ite_eq_right_iff]
    constructor
    · exact fun large => ⟨seen, spaced, not_le.mp fun small => nomatch large small⟩
    · rintro ⟨ds, spaced', large⟩
      rw [spaced.unique spaced']
      exact fun small => absurd small (not_le.mpr large)
  · rw [if_neg alone, readsLiteral_iff_right lexed' took (longest_minus alone)
      fun _ => not_isWhite_of_mem_takeWhile, inks, right_minus_iff, spaced.iff]
    · exact value_le_of_prefix (by decide) starts
    · rintro rfl
      rfl

/-! ### Numbers that start with a zero -/

theorem Spaced.head {seen : Bytes} (spaced : Spaced l seen) (more : seen ≠ []) :
    ∃ d ds, l.afterWhite.buffer.head? = some d ∧ isNum d ∧ seen = d :: ds := by
  cases spaced with
  | done => exact absurd rfl more
  | next peek digit =>
    rw [peekChar_true, Prod.mk.injEq] at peek
    exact ⟨_, _, peek.1, digit, rfl⟩

/-- The first character that is read behind a zero is the one that is seen, if it goes on with the
number. -/
theorem Scan.head {v : Option UInt64} {seen : Bytes} (scan : Scan l t c v seen)
    (zero : c = byte '0') :
    (v = some 0 ∧ seen = [] ∧ ∀ d ∈ l.afterWhite.buffer.head?, ¬ GoesOn d) ∨
      ∃ d ds, l.afterWhite.buffer.head? = some d ∧ GoesOn d ∧ seen = d :: ds := by
  cases scan with
  | zero other => exact .inl ⟨rfl, rfl, other⟩
  | octal spaced more =>
    obtain ⟨d, ds, head, digit, seen⟩ := spaced.head more
    exact .inr ⟨d, ds, head, .inl digit, seen⟩
  | hexadecimal letter head => exact .inr ⟨_, _, head, .inr (.inl letter), rfl⟩
  | binary head => exact .inr ⟨_, _, head, .inr (.inr rfl), rfl⟩
  | decimal nonzero => exact absurd zero nonzero

theorem not_isWhite_of_goesOn (goes : GoesOn c) : ¬ isWhite c := by
  obtain digit | (rfl | rfl) | rfl := goes
  · exact not_isWhite_of_isNum digit
  · decide
  · decide
  · decide

theorem isNum_of_isOctal (digit : isOctal c) : isNum c := by
  have seven : (byte '7').toNat ≤ (byte '9').toNat := by decide
  simp only [isOctal, isNum, Bool.and_eq_true, decide_eq_true_eq, UInt8.le_iff_toNat_le] at digit ⊢
  omega

/-- Nothing that goes on with a zero stands behind it: then the zero is the literal. -/
theorem longest_alone (apart : ∀ d ∈ t.head?, ¬ GoesOn d) :
    Longest (byte '0' :: t) [byte '0'] 0 := by
  have none : t.takeWhile isOctal = [] := by
    cases t with
    | nil => rfl
    | cons d t =>
      rw [List.takeWhile_cons_of_neg]
      exact fun digit => apart d rfl (.inl (isNum_of_isOctal digit))
  have longest := longest_octal (t := t) fun x head letter => apart x head (.inr letter)
  rw [none] at longest
  exact longest

theorem right_alone {v : Option UInt64} {seen : Bytes} :
    Right v seen [] 0 ↔ v = some 0 ∧ seen = [] := by
  have inRange : InRange 0 := ⟨by decide, by decide⟩
  constructor
  · rintro ⟨fits, -⟩
    obtain ⟨⟨u, rfl, number⟩, seen⟩ := fits inRange
    refine ⟨congrArg some (UInt64.toNat_inj.mp ?_), seen⟩
    have zero : (0 : UInt64).toNat = 0 := rfl
    omega
  · rintro ⟨rfl, seen⟩
    exact ⟨fun _ => ⟨⟨0, rfl, rfl⟩, seen⟩, fun outside => absurd inRange outside⟩

/-- What follows a zero where a call reads a longer literal is what is seen there. -/
theorem ZeroClean.head {d : UInt8} (clean : ZeroClean l t) (reads : Reads l t n)
    (head : l.afterWhite.buffer.head? = some d) (goes : GoesOn d) :
    ∃ h, t = d :: h ∧
      (isOctal d ∧ Ends l (value 8 (t.takeWhile isOctal)) (t.takeWhile isOctal) ∨
        (d = byte 'x' ∨ d = byte 'X') ∧ h.takeWhile isHexDigit ≠ [] ∧
          (2 ^ 64 ≤ value 16 (h.takeWhile isHexDigit) ∨
            value 16 (h.takeWhile isHexDigit) < 2 ^ 63) ∨
        d = byte 'b' ∧ h.takeWhile isBinary ≠ [] ∧
          (2 ^ 64 ≤ value 2 (h.takeWhile isBinary) ∨ value 2 (h.takeWhile isBinary) < 2 ^ 63)) := by
  have same {x : UInt8} {h : Bytes} (split : t = x :: h) (goes' : GoesOn x) : x = d := by
    rw [split] at reads
    rw [(reads.peek_of_not_isWhite (not_isWhite_of_goesOn goes')).1, Option.some.injEq] at head
    exact head
  cases clean with
  | zero other => exact absurd goes (other d head)
  | octal more ends =>
    cases t with
    | nil => exact absurd rfl more
    | cons x h =>
      have digit : isOctal x := by
        by_contra other
        rw [List.takeWhile_cons_of_neg other] at more
        exact more rfl
      obtain rfl := same rfl (.inl (isNum_of_isOctal digit))
      exact ⟨h, rfl, .inl ⟨digit, ends⟩⟩
  | @hexadecimal x h letter split more fits =>
    obtain rfl := same split (.inr (.inl letter))
    exact ⟨h, split, .inr (.inl ⟨letter, more, fits⟩)⟩
  | @binary h split more fits =>
    obtain rfl := same split (.inr (.inr rfl))
    exact ⟨h, split, .inr (.inr ⟨rfl, more, fits⟩)⟩

/-- What is read behind a zero goes by the character that is seen there. -/
theorem Scan.of_head {v : Option UInt64} {seen h : Bytes} {d : UInt8}
    (scan : Scan l (d :: h) c v seen) (zero : c = byte '0') (reads : Reads l (d :: h) n)
    (goes : GoesOn d) :
    isNum d ∧ Spaced l seen ∧ v = strtoll seen 8 ∨
      (d = byte 'x' ∨ d = byte 'X') ∧ v = strtoll (h.takeWhile isHexDigit) 16 ∧
        seen = d :: h.takeWhile isHexDigit ∨
      d = byte 'b' ∧ v = strtoll (h.takeWhile isBinary) 2 ∧ seen = d :: h.takeWhile isBinary := by
  obtain ⟨head, skipped⟩ := reads.peek_of_not_isWhite (not_isWhite_of_goesOn goes)
  cases scan with
  | zero other => exact absurd goes (other d head)
  | octal spaced more =>
    obtain ⟨e, ds, head', digit, -⟩ := spaced.head more
    obtain rfl : d = e := Option.some.inj (head.symm.trans head')
    exact .inl ⟨digit, spaced, rfl⟩
  | hexadecimal letter _ split =>
    rw [skipped, List.nil_append] at split
    obtain ⟨rfl, rfl⟩ := List.cons.inj split
    exact .inr (.inl ⟨letter, rfl, rfl⟩)
  | binary _ split =>
    rw [skipped, List.nil_append] at split
    obtain ⟨rfl, rfl⟩ := List.cons.inj split
    exact .inr (.inr ⟨rfl, rfl, rfl⟩)
  | decimal nonzero => exact absurd zero nonzero

theorem isDigit_of_isOctal (digit : isOctal c) : IsDigit 8 c := by
  rw [IsDigit, digitValue, if_pos (isNum_of_isOctal digit)]
  simp only [isOctal, Bool.and_eq_true, decide_eq_true_eq, UInt8.le_iff_toNat_le] at digit
  have seven : (byte '7').toNat = (byte '0').toNat + 7 := rfl
  omega

theorem isDigit_of_isBinary (digit : isBinary c) : IsDigit 2 c := by
  rw [isBinary, Bool.or_eq_true, beq_iff_eq, beq_iff_eq] at digit
  obtain rfl | rfl := digit <;> (rw [IsDigit]; decide)

theorem isDigit_of_isHexDigit (digit : isHexDigit c) : IsDigit 16 c := by
  have nine : (byte '9').toNat = (byte '0').toNat + 9 := rfl
  have lower : (byte 'f').toNat = (byte 'a').toNat + 5 := rfl
  have upper : (byte 'F').toNat = (byte 'A').toNat + 5 := rfl
  simp only [isHexDigit, isNum, Bool.and_eq_true, Bool.or_eq_true, decide_eq_true_eq,
    UInt8.le_iff_toNat_le] at digit
  simp only [IsDigit, digitValue, isNum, Bool.and_eq_true, decide_eq_true_eq,
    UInt8.le_iff_toNat_le]
  split
  · omega
  split
  · omega
  split
  · omega
  · omega

/-- Adjacent octal digits are the first ones of those that are converted. -/
theorem octal_of_spaced {seen : Bytes} (spaced : Spaced l seen) (reads : Reads l t n) :
    t.takeWhile isOctal <+: seen.takeWhile fun c => digitValue c < 8 := by
  have adjacent : t.takeWhile isOctal <+: t.takeWhile isNum :=
    prefix_takeWhile (List.takeWhile_prefix _) fun d member =>
      isNum_of_isOctal (List.mem_takeWhile_imp member)
  refine prefix_takeWhile (adjacent.trans (prefix_of_spaced spaced reads)) fun d member => ?_
  exact decide_eq_true (isDigit_of_isOctal (List.mem_takeWhile_imp member))

theorem right_fits_iff {m : ℕ} {ds : Bytes} :
    Right (converted m) ds ds m ↔ 2 ^ 64 ≤ m ∨ m < 2 ^ 63 := by
  rw [right_converted_iff le_rfl fun _ => rfl]
  simp only [and_true]

theorem digits_takeWhile {test : UInt8 → Bool} {base : ℕ} (all : ∀ c, test c → IsDigit base c) :
    digits base (t.takeWhile test) = value base (t.takeWhile test) :=
  digits_of_isDigit fun c member => all c (List.mem_takeWhile_imp member)

/-- Digits of a notation do not start with a sign. -/
theorem strtoll_takeWhile {test : UInt8 → Bool} {base : ℕ} (all : ∀ c, test c → IsDigit base c)
    (small : base ≤ 16) :
    strtoll (t.takeWhile test) base = converted (value base (t.takeWhile test)) := by
  rw [strtoll_unsigned, digits_takeWhile all]
  intro c head sign
  have digit : digitValue c < base := all c (List.mem_takeWhile_imp (List.mem_of_head? head))
  obtain rfl | rfl := sign
  · have large : digitValue (byte '+') = 16 := by decide
    omega
  · have large : digitValue (byte '-') = 16 := by decide
    omega

theorem readsLiteral_zero_iff (reads : Reads l (byte '0' :: t) n) :
    ReadsLiteral l (byte '0' :: t) n ↔ Clean l.consumeChar t (byte '0') := by
  obtain ⟨v, seen, used, rest, l', scan, lexed, inks, took⟩ := lexFromNumber_scan reads
  have lexed' := (lex_eq_lexFromNumber reads (.inl (by decide))).trans lexed
  have reads' := reads.consumeChar
  have alone (longest : Longest (byte '0' :: t) [byte '0'] 0) :
      ReadsLiteral l (byte '0' :: t) n ↔ v = some 0 ∧ seen = [] := by
    rw [readsLiteral_iff_right lexed' took longest fun d none => absurd none List.not_mem_nil, inks,
      right_alone]
  rw [Clean, if_pos rfl]
  obtain ⟨rfl, rfl, other⟩ | ⟨d, ds, head, goes, rfl⟩ := scan.head rfl
  · rw [alone]
    · exact ⟨fun _ => .zero other, fun _ => ⟨rfl, rfl⟩⟩
    · refine longest_alone fun d first goes => ?_
      obtain ⟨h, rfl⟩ : ∃ h, t = d :: h := ⟨_, List.eq_cons_of_mem_head? first⟩
      exact other d (reads'.peek_of_not_isWhite (not_isWhite_of_goesOn goes)).1 goes
  have never (unclean : ¬ ZeroClean l.consumeChar t)
      (longest : Longest (byte '0' :: t) [byte '0'] 0) :
      ReadsLiteral l (byte '0' :: t) n ↔ ZeroClean l.consumeChar t := by
    rw [alone longest]
    exact ⟨fun right => absurd right.2 (List.cons_ne_nil _ _), fun clean => absurd clean unclean⟩
  by_cases adjacent : ∃ h, t = d :: h
  swap
  · -- What is seen stands behind white space, so the zero is the literal.
    refine never (fun clean => ?_) (longest_alone fun e first goes' => ?_)
    · obtain ⟨h, split, -⟩ := clean.head reads' head goes
      exact adjacent ⟨h, split⟩
    · obtain ⟨h, rfl⟩ : ∃ h, t = e :: h := ⟨_, List.eq_cons_of_mem_head? first⟩
      rw [(reads'.peek_of_not_isWhite (not_isWhite_of_goesOn goes')).1, Option.some.injEq] at head
      exact adjacent ⟨h, by rw [head]⟩
  obtain ⟨h, rfl⟩ := adjacent
  obtain ⟨digit, spaced, rfl⟩ | ⟨letter, rfl, seen⟩ | ⟨rfl, rfl, seen⟩ :=
    scan.of_head rfl reads' goes
  · have noLetter : ¬ ((d = byte 'x' ∨ d = byte 'X') ∨ d = byte 'b') := by
      rintro ((rfl | rfl) | rfl) <;> exact absurd digit (by decide)
    have longest := longest_octal (t := d :: h) fun x first letter => noLetter (by
      cases first
      exact letter)
    by_cases octal : isOctal d
    · have unsigned : ∀ c ∈ (d :: ds).head?, ¬ (c = byte '+' ∨ c = byte '-') := by
        rintro c ⟨⟩ (rfl | rfl) <;> exact absurd digit (by decide)
      rw [readsLiteral_iff_right lexed' took longest fun e member =>
        not_isWhite_of_isNum (isNum_of_isOctal (List.mem_takeWhile_imp member)), inks,
        strtoll_unsigned unsigned, right_converted_iff, ends_iff spaced]
      · constructor
        · refine .octal ?_
          rw [List.takeWhile_cons_of_pos octal]
          exact List.cons_ne_nil _ _
        · intro clean
          obtain ⟨h', -, ⟨-, ends⟩ | ⟨letter, -⟩ | ⟨letter, -⟩⟩ := clean.head reads' head goes
          · exact ends
          · exact absurd (.inl letter) noLetter
          · exact absurd (.inr letter) noLetter
      · rw [digits_eq]
        exact value_le_of_prefix (by decide) (octal_of_spaced spaced reads')
      · intro same
        rw [same, digits_takeWhile fun c => isDigit_of_isOctal]
    · rw [List.takeWhile_cons_of_neg octal] at longest
      refine never (fun clean => ?_) longest
      obtain ⟨h', -, ⟨octal', -⟩ | ⟨letter, -⟩ | ⟨letter, -⟩⟩ := clean.head reads' head goes
      · exact octal octal'
      · exact noLetter (.inl letter)
      · exact noLetter (.inr letter)
  · have other : ¬ isOctal d ∧ d ≠ byte 'b' := by
      obtain rfl | rfl := letter <;> decide
    by_cases lacks : h.takeWhile isHexDigit = []
    · refine never (fun clean => ?_) (longest_zero (.inl ⟨letter, lacks⟩))
      obtain ⟨h', split, ⟨octal, -⟩ | ⟨-, more, -⟩ | ⟨binary, -⟩⟩ := clean.head reads' head goes
      · exact other.1 octal
      · rw [← (List.cons.inj split).2] at more
        exact more lacks
      · exact other.2 binary
    · have ink : ∀ e ∈ d :: h.takeWhile isHexDigit, ¬ isWhite e :=
        List.forall_mem_cons.mpr ⟨not_isWhite_of_goesOn goes, fun e member =>
          not_isWhite_of_isHexDigit (List.mem_takeWhile_imp member)⟩
      rw [readsLiteral_iff_right lexed' took (longest_hexadecimal letter lacks) ink, inks, seen,
        strtoll_takeWhile (fun c => isDigit_of_isHexDigit) le_rfl, right_fits_iff]
      constructor
      · exact .hexadecimal letter rfl lacks
      · intro clean
        obtain ⟨h', split, ⟨octal, -⟩ | ⟨-, -, fits⟩ | ⟨binary, -⟩⟩ := clean.head reads' head goes
        · exact absurd octal other.1
        · rwa [← (List.cons.inj split).2] at fits
        · exact absurd binary other.2
  · by_cases lacks : h.takeWhile isBinary = []
    · refine never (fun clean => ?_) (longest_zero (.inr ⟨rfl, lacks⟩))
      obtain ⟨h', split, ⟨octal, -⟩ | ⟨letter, -⟩ | ⟨-, more, -⟩⟩ := clean.head reads' head goes
      · exact absurd octal (by decide)
      · exact absurd letter (by decide)
      · rw [← (List.cons.inj split).2] at more
        exact more lacks
    · have ink : ∀ e ∈ byte 'b' :: h.takeWhile isBinary, ¬ isWhite e :=
        List.forall_mem_cons.mpr ⟨not_isWhite_of_goesOn goes, fun e member =>
          not_isWhite_of_isNum (isNum_of_isBinary (List.mem_takeWhile_imp member))⟩
      rw [readsLiteral_iff_right lexed' took (longest_binary lacks) ink, inks, seen,
        strtoll_takeWhile (fun c => isDigit_of_isBinary) (by decide), right_fits_iff]
      constructor
      · exact .binary rfl lacks
      · intro clean
        obtain ⟨h', split, ⟨octal, -⟩ | ⟨letter, -⟩ | ⟨-, -, fits⟩⟩ := clean.head reads' head goes
        · exact absurd octal (by decide)
        · exact absurd letter (by decide)
        · rwa [← (List.cons.inj split).2] at fits

/-- A call reads the longest literal of a text exactly when the text is clean. -/
theorem readsLiteral_iff (reads : Reads l (c :: t) n)
    (start : isNum c ∨ c = byte '+' ∨ c = byte '-') :
    ReadsLiteral l (c :: t) n ↔ Clean l.consumeChar t c := by
  by_cases zero : c = byte '0'
  · subst zero
    exact readsLiteral_zero_iff reads
  obtain first | rfl | rfl := start
  · have unsigned : c ≠ byte '+' ∧ c ≠ byte '-' := by
      constructor <;> (rintro rfl; exact absurd first (by decide))
    rw [readsLiteral_decimal_iff reads first zero, Clean, if_neg zero, if_neg unsigned.1,
      if_neg unsigned.2]
  · exact readsLiteral_plus_iff reads
  · exact readsLiteral_minus_iff reads

/-! ### Printed values -/

/-- A digit as `std::uppercase` and `std::hex` print it. -/
def upperHexDigit (d : ℕ) : UInt8 :=
  if d < 10 then UInt8.ofNat ((byte '0').toNat + d) else UInt8.ofNat ((byte 'A').toNat + (d - 10))

/-- A number as `std::uppercase` and `std::hex` print it. -/
def hexText (m : ℕ) : Bytes :=
  if m = 0 then [byte '0'] else (Nat.digits 16 m).reverse.map upperHexDigit

/-- The integers in `DecompileGen::PrintBaseType`. -/
def printInteger (v : UInt64) : Bytes := ascii "0x" ++ hexText v.toNat

theorem upperHexDigit_spec :
    ∀ d < 16, isHexDigit (upperHexDigit d) ∧ digitValue (upperHexDigit d) = d := by
  decide

theorem isHexDigit_of_mem_hexText {m : ℕ} (member : c ∈ hexText m) : isHexDigit c := by
  rw [hexText] at member
  split at member
  · rw [List.mem_singleton] at member
    subst member
    decide
  · obtain ⟨d, digit, rfl⟩ := List.mem_map.mp member
    have small : d < 16 := Nat.digits_lt_base (by decide) (List.mem_reverse.mp digit)
    exact (upperHexDigit_spec d small).1

theorem value_hexText (m : ℕ) : value 16 (hexText m) = m := by
  rw [hexText]
  split
  · rename_i zero
    rw [zero]
    rfl
  · have back : (Nat.digits 16 m).map (digitValue ∘ upperHexDigit) = Nat.digits 16 m := by
      refine List.map_congr_left (g := id) (fun d digit => ?_) |>.trans (List.map_id _)
      exact (upperHexDigit_spec d (Nat.digits_lt_base (by decide) digit)).2
    rw [value, ← List.map_reverse, List.reverse_reverse, List.map_map, back, Nat.ofDigits_digits]

theorem takeWhile_hexText {m : ℕ} (ends : ∀ c ∈ t.head?, ¬ isHexDigit c) :
    (hexText m ++ t).takeWhile isHexDigit = hexText m := by
  have none : t.takeWhile isHexDigit = [] := by
    cases t with
    | nil => rfl
    | cons c t => exact List.takeWhile_cons_of_neg (ends c rfl)
  rw [List.takeWhile_append_of_pos fun c => isHexDigit_of_mem_hexText, none, List.append_nil]

/-- A printed value is converted. -/
theorem lex_printInteger {v : UInt64} (reads : Reads l (printInteger v ++ t) n)
    (ends : ∀ c ∈ t.head?, ¬ isHexDigit c) :
    ∃ l', l.lex = (converted v.toNat).map (numberAt l') := by
  have split : printInteger v ++ t = byte '0' :: byte 'x' :: (hexText v.toNat ++ t) := rfl
  rw [split] at reads
  obtain ⟨w, seen, used, rest, l', scan, lexed, -, -⟩ := lexFromNumber_scan reads
  refine ⟨l', (lex_eq_lexFromNumber reads (.inl (by decide))).trans (lexed.trans ?_)⟩
  obtain ⟨digit, -⟩ | ⟨-, rfl, -⟩ | ⟨binary, -⟩ :=
    scan.of_head rfl reads.consumeChar (.inr (.inl (.inl rfl)))
  · exact absurd digit (by decide)
  · rw [strtoll_takeWhile (fun c => isDigit_of_isHexDigit) le_rfl, takeWhile_hexText ends,
      value_hexText]
  · exact absurd binary (by decide)

theorem readsBack_iff {v : UInt64} (reads : Reads l (printInteger v ++ t) n)
    (ends : ∀ c ∈ t.head?, ¬ isHexDigit c) :
    (∃ token l', l.lex = some (token, l') ∧ token.type = .token .number ∧ token.numval = v) ↔
      v.toNat < 2 ^ 63 := by
  obtain ⟨l', lexed⟩ := lex_printInteger reads ends
  rw [lexed, converted]
  by_cases small : v.toNat < 2 ^ 63
  · rw [if_pos small]
    exact ⟨fun _ => small, fun _ => ⟨_, l', rfl, rfl, UInt64.ofNat_toNat⟩⟩
  · rw [if_neg small]
    exact ⟨nofun, fun small' => absurd small' small⟩

/-- A call reads the longest literal of a text exactly when the text is clean, and a printed value
is read back exactly when it is less than 2^63. -/
theorem numbers_iff (l : Lexer) (c : UInt8) (v : UInt64) (t : Bytes) (n : ℕ) :
    (Reads l (c :: t) n → (isNum c ∨ c = byte '+' ∨ c = byte '-') →
      (ReadsLiteral l (c :: t) n ↔ Clean l.consumeChar t c)) ∧
    (Reads l (printInteger v ++ t) n → (∀ c ∈ t.head?, ¬ isHexDigit c) →
      ((∃ token l', l.lex = some (token, l') ∧ token.type = .token .number ∧ token.numval = v) ↔
        v.toNat < 2 ^ 63)) :=
  ⟨readsLiteral_iff, readsBack_iff⟩

theorem numbers_iff_twelve :
    ReadsLiteral { blocks := [ascii "12;"] } (ascii "12;") 1 ∧
      ∃ token l', lex { blocks := [printInteger 1] } = some (token, l') ∧
        token.type = .token .number ∧ token.numval = 1 := by
  refine ⟨((numbers_iff _ (byte '1') 0 (ascii "2;") 1).1 ⟨by decide, rfl, rfl⟩ (.inl rfl)).mpr ?_,
    ((numbers_iff _ 0 1 [] 1).2 ⟨?_, ?_, rfl⟩ nofun).mpr (by decide)⟩
  · refine .inr ⟨by decide, ?_⟩
    refine .next rfl rfl (.done rfl ?_)
    rintro c ⟨⟩
    decide
  · rw [List.mem_singleton]
    exact nofun
  · rw [List.flatten_singleton, List.append_nil]
    rfl

/-- Numbers that are apart are joined, and a value from 2^63 on is rejected. -/
theorem joined_not_readsLiteral :
    ¬ ReadsLiteral { blocks := [ascii "1 2"] } (ascii "1 2") 1 ∧
      lex { blocks := [ascii "0x8000000000000000"] } = none := by
  constructor
  · intro reads
    have longest : Longest (ascii "1 2") [byte '1'] 1 :=
      longest_decimal (t := ascii " 2") rfl (by decide)
    obtain ⟨token, l', w, rest, lexed, -, numval, -⟩ :=
      reads.fits _ _ longest ⟨by decide, by decide⟩
    have joined : lex { blocks := [ascii "1 2"] } =
        some ({ type := .token .number, numval := 12, lineNo := 1 },
          { buffer := [], blocks := [] }) := by rfl
    rw [joined, Option.some.injEq, Prod.mk.injEq] at lexed
    rw [← lexed.1] at numval
    exact absurd numval (by decide)
  · decide +kernel

end Hdf.HcGen.Lexer
