import Hdf.HcGen.LexerText
import Mathlib.Data.Nat.Digits.Defs

/-!
# What a number token is read from

The digits of decimal and octal numbers are looked for behind white space, so
digits that are apart are joined, and the first character behind a zero is looked
for in the same way. The digits of hexadecimal and binary numbers are adjacent.
What is left out of a text that has been read is white space only.

## Main results

* `strtoll_digits`: the value of digits, as far as it is less than 2^63
* `lex_scan`: every number token is a `Scan`
-/

namespace Hdf.HcGen.Lexer

/-! ### Values -/

/-- The number that digits of a base stand for. -/
def value (base : ℕ) (ds : Bytes) : ℕ := Nat.ofDigits base (ds.reverse.map digitValue)

theorem value_append (base : ℕ) (ds es : Bytes) :
    value base (ds ++ es) = value base es + base ^ es.length * value base ds := by
  rw [value, List.reverse_append, List.map_append, Nat.ofDigits_append, List.length_map,
    List.length_reverse, value, value]

/-- More digits make no smaller number. -/
theorem value_le_append {base : ℕ} (positive : 0 < base) (ds es : Bytes) :
    value base ds ≤ value base (ds ++ es) := by
  rw [value_append]
  have factor : 1 ≤ base ^ es.length := Nat.one_le_pow _ _ positive
  calc value base ds = 1 * value base ds := (one_mul _).symm
    _ ≤ base ^ es.length * value base ds := Nat.mul_le_mul_right _ factor
    _ ≤ _ := Nat.le_add_left _ _

theorem foldl_eq_value (base : ℕ) (ds : Bytes) :
    ds.foldl (fun n c => n * base + digitValue c) 0 = value base ds := by
  induction ds using List.reverseRecOn with
  | nil => rfl
  | append_singleton ds c ih =>
    rw [List.foldl_append, List.foldl_cons, List.foldl_nil, ih, value_append, List.length_singleton,
      pow_one, add_comm, mul_comm]
    rfl

theorem digits_eq (base : ℕ) (ds : Bytes) :
    digits base ds = value base (ds.takeWhile fun c => digitValue c < base) :=
  foldl_eq_value base _

/-- The digits of a base. -/
def IsDigit (base : ℕ) (c : UInt8) : Prop := digitValue c < base

theorem digits_of_isDigit {base : ℕ} {ds : Bytes} (all : ∀ c ∈ ds, IsDigit base c) :
    digits base ds = value base ds := by
  rw [digits_eq, List.takeWhile_eq_self_iff.mpr]
  intro c member
  exact decide_eq_true (all c member)

theorem isDigit_of_isNum {c : UInt8} (digit : isNum c) : IsDigit 10 c := by
  rw [IsDigit, digitValue, if_pos digit]
  simp only [isNum, Bool.and_eq_true, decide_eq_true_eq, UInt8.le_iff_toNat_le] at digit
  have nine : (byte '9').toNat = (byte '0').toNat + 9 := rfl
  omega

/-! ### Reading on -/

/-- The characters of a text that are not white space. -/
def inked (t : Bytes) : Bytes := t.filter fun c => !isWhite c

/-- Digits that are seen one after another when white space is skipped. -/
inductive Spaced : Lexer → Bytes → Prop
  | done {l l' : Lexer} {found : Option UInt8} (peek : l.peekChar true = (found, l'))
      (other : ∀ c ∈ found, ¬ isNum c) : Spaced l []
  | next {l l' : Lexer} {c : UInt8} {ds : Bytes} (peek : l.peekChar true = (some c, l'))
      (digit : isNum c) (rest : Spaced l'.consumeChar ds) : Spaced l (c :: ds)

/-- A lexer has read the first part of a text and is left with the rest of it. -/
structure Took (t : Bytes) (n : ℕ) (used rest : Bytes) (l : Lexer) : Prop where
  split : t = used ++ rest
  reads : Reads l rest (n + lines used)

variable {l : Lexer} {t : Bytes} {n : ℕ} {c : UInt8}

theorem Spaced.unique {ds es : Bytes} (spaced : Spaced l ds) (spaced' : Spaced l es) : ds = es := by
  induction spaced generalizing es with
  | done peek other =>
    cases spaced' with
    | done => rfl
    | next peek' digit =>
      rw [peek, Prod.mk.injEq] at peek'
      exact absurd digit (other _ peek'.1)
  | next peek digit rest ih =>
    cases spaced' with
    | done peek' other =>
      rw [peek, Prod.mk.injEq] at peek'
      exact absurd digit (other _ peek'.1.symm)
    | next peek' digit' rest' =>
      rw [peek, Prod.mk.injEq, Option.some.injEq] at peek'
      obtain ⟨rfl, rfl⟩ := peek'
      rw [ih rest']

theorem isNum_of_spaced {ds : Bytes} (spaced : Spaced l ds) : ∀ c ∈ ds, isNum c := by
  induction spaced with
  | done => exact fun c none => absurd none List.not_mem_nil
  | next peek digit rest ih => exact List.forall_mem_cons.mpr ⟨digit, ih⟩

theorem isWhite_cases (white : isWhite c) :
    c = byte ' ' ∨ c = byte '\t' ∨ c = byte '\r' ∨ c = byte '\n' := by
  simpa only [isWhite, isSpace, Bool.or_eq_true, beq_iff_eq, or_assoc] using white

theorem not_isWhite_of_isNum (digit : isNum c) : ¬ isWhite c := by
  intro white
  obtain rfl | rfl | rfl | rfl := isWhite_cases white <;> exact absurd digit (by decide)

theorem Took.trans {used rest used' rest' : Bytes} {l' : Lexer} (took : Took t n used rest l)
    (took' : Took rest (n + lines used) used' rest' l') : Took t n (used ++ used') rest' l' := by
  obtain ⟨rfl, -⟩ := took
  obtain ⟨rfl, reads⟩ := took'
  exact ⟨(List.append_assoc _ _ _).symm, by rwa [lines_append, ← add_assoc]⟩

theorem Reads.took_consumeChar (reads : Reads l (c :: t) n) : Took (c :: t) n [c] t l.consumeChar :=
  ⟨rfl, reads.consumeChar⟩

/-- White space that is skipped is not part of what is read. -/
theorem inked_skipped (l : Lexer) : inked l.skipped = [] := by
  rw [inked, List.filter_eq_nil_iff]
  intro c member
  simp [isWhite_of_mem_skipped member]

theorem inked_append (t u : Bytes) : inked (t ++ u) = inked t ++ inked u := List.filter_append ..

theorem inked_of_not_isWhite (ink : ¬ isWhite c) : inked [c] = [c] := by
  simp [inked, ink]

/-- Looking at the next character behind white space. -/
theorem Reads.took_peekChar (reads : Reads l t n) :
    ∃ rest, Took t n l.skipped rest l.afterWhite ∧
      ∀ c ∈ l.afterWhite.buffer.head?, ∃ rest', rest = c :: rest' ∧ ¬ isWhite c := by
  obtain ⟨rest, split, reads'⟩ := reads.afterWhite
  refine ⟨rest, ⟨split, reads'⟩, fun c head => ?_⟩
  obtain ⟨ink, more, buffer⟩ := not_isWhite_of_peekChar (l.peekChar_true.trans (by rw [head]))
  have text := reads'.text
  rw [buffer, List.cons_append] at text
  exact ⟨_, text.symm, ink⟩

/-- A character that is not white space is seen where it stands. -/
theorem Reads.peek_of_not_isWhite (reads : Reads l (c :: t) n) (ink : ¬ isWhite c) :
    l.afterWhite.buffer.head? = some c ∧ l.skipped = [] := by
  have text := reads.fillBuffer.text
  cases buffer : l.fillBuffer.buffer with
  | nil => cases (reads.fillBuffer_eq_nil buffer).1
  | cons d more =>
    rw [buffer, List.cons_append] at text
    obtain ⟨rfl, -⟩ := List.cons.inj text
    rw [Lexer.afterWhite, skipped, buffer, List.takeWhile_cons_of_neg ink,
      List.dropWhile_cons_of_neg ink]
    exact ⟨rfl, rfl⟩

theorem Reads.readWhile_false (test : UInt8 → Bool) (rounds : ℕ) (reads : Reads l t n)
    (enough : t.length < rounds) :
    ∃ l', readWhile test false rounds l = (t.takeWhile test, l') ∧
      Took t n (t.takeWhile test) (t.dropWhile test) l' := by
  induction rounds generalizing l t n with
  | zero => exact absurd enough (Nat.not_lt_zero _)
  | succ rounds ih =>
    rw [readWhile, reads.peekChar_false]
    cases t with
    | nil => exact ⟨l.fillBuffer, rfl, rfl, reads.fillBuffer⟩
    | cons c t =>
      by_cases pass : test c
      · have took := reads.fillBuffer.took_consumeChar
        obtain ⟨l', read, took'⟩ := ih took.reads (Nat.lt_of_succ_lt_succ enough)
        refine ⟨l', ?_, ?_⟩
        · simp only [List.head?_cons, pass, if_true, read, List.takeWhile_cons_of_pos]
        · rw [List.takeWhile_cons_of_pos pass, List.dropWhile_cons_of_pos pass]
          exact took.trans took'
      · refine ⟨l.fillBuffer, ?_, ?_⟩
        · rw [List.takeWhile_cons_of_neg pass]
          exact if_neg pass
        · rw [List.takeWhile_cons_of_neg pass, List.dropWhile_cons_of_neg pass]
          exact ⟨rfl, reads.fillBuffer⟩

theorem Reads.readWhile_true (rounds : ℕ) (reads : Reads l t n) (enough : t.length < rounds) :
    ∃ ds used rest l', readWhile isNum true rounds l = (ds, l') ∧ Spaced l ds ∧
      inked used = ds ∧ Took t n used rest l' := by
  induction rounds generalizing l t n with
  | zero => exact absurd enough (Nat.not_lt_zero _)
  | succ rounds ih =>
    obtain ⟨rest, took, ahead⟩ := reads.took_peekChar
    rw [readWhile, peekChar_true]
    cases head : l.afterWhite.buffer.head? with
    | none =>
      refine ⟨[], l.skipped, rest, l.afterWhite, rfl, .done (l.peekChar_true) ?_,
        inked_skipped l, took⟩
      rw [head]
      exact fun c none => absurd none (Option.not_mem_none c)
    | some c =>
      have peek : l.peekChar true = (some c, l.afterWhite) := by rw [peekChar_true, head]
      by_cases digit : isNum c
      · obtain ⟨rest', rfl, ink⟩ := ahead c head
        have took' := took.reads.took_consumeChar
        have shorter : rest'.length < rounds := by
          have length := congrArg List.length took.split
          rw [List.length_append, List.length_cons] at length
          omega
        obtain ⟨ds, used, rest'', l', read, spaced, inks, took''⟩ := ih took'.reads shorter
        refine ⟨c :: ds, l.skipped ++ ([c] ++ used), rest'', l', ?_, .next peek digit spaced, ?_,
          took.trans (took'.trans took'')⟩
        · simp only [digit, if_true, read]
        · rw [inked_append, inked_append, inked_skipped, inked_of_not_isWhite ink, inks]
          rfl
      · refine ⟨[], l.skipped, rest, l.afterWhite, ?_, .done peek ?_, inked_skipped l, took⟩
        · simp only [digit]
          rfl
        · rintro d ⟨⟩
          exact digit

/-- Adjacent digits are seen one after another. -/
theorem prefix_of_spaced {ds : Bytes} (spaced : Spaced l ds) (reads : Reads l t n) :
    t.takeWhile isNum <+: ds := by
  induction spaced generalizing t n with
  | @done l l' found peek other =>
    cases t with
    | nil => exact List.prefix_rfl
    | cons c t =>
      have ends : ¬ isNum c := by
        intro digit
        have seen := (reads.peek_of_not_isWhite (not_isWhite_of_isNum digit)).1
        rw [peekChar_true, Prod.mk.injEq, seen] at peek
        exact other c peek.1.symm digit
      rw [List.takeWhile_cons_of_neg ends]
  | @next l l' c ds peek digit rest ih =>
    rw [peekChar_true, Prod.mk.injEq] at peek
    obtain ⟨head, rfl⟩ := peek
    cases t with
    | nil => exact List.nil_prefix
    | cons d t =>
      by_cases digit' : isNum d
      · obtain ⟨seen, skipped⟩ := reads.peek_of_not_isWhite (not_isWhite_of_isNum digit')
        obtain rfl : d = c := Option.some.inj (seen.symm.trans head)
        obtain ⟨rest', took, -⟩ := reads.took_peekChar
        have split := took.split
        rw [skipped, List.nil_append] at split
        subst split
        rw [List.takeWhile_cons_of_pos digit']
        exact (List.cons_prefix_cons).mpr ⟨rfl, ih took.reads.consumeChar⟩
      · rw [List.takeWhile_cons_of_neg digit']
        exact List.nil_prefix

/-! ### Number tokens -/

/-- A character that goes on with a number behind a zero. -/
def GoesOn (c : UInt8) : Prop := isNum c ∨ (c = byte 'x' ∨ c = byte 'X') ∨ c = byte 'b'

def isBinary (c : UInt8) : Bool := c == byte '0' || c == byte '1'

/-- What a number token is read from: its value, and the characters behind the first one that are
read and no white space. The lexer is behind the first character. -/
inductive Scan (l : Lexer) (t : Bytes) : UInt8 → Option UInt64 → Bytes → Prop
  | zero (other : ∀ d ∈ l.afterWhite.buffer.head?, ¬ GoesOn d) : Scan l t (byte '0') (some 0) []
  | octal {ds : Bytes} (spaced : Spaced l ds) (more : ds ≠ []) :
    Scan l t (byte '0') (strtoll ds 8) ds
  | hexadecimal {x : UInt8} {h : Bytes} (letter : x = byte 'x' ∨ x = byte 'X')
      (head : l.afterWhite.buffer.head? = some x) (split : t = l.skipped ++ x :: h) :
    Scan l t (byte '0') (strtoll (h.takeWhile isHexDigit) 16) (x :: h.takeWhile isHexDigit)
  | binary {h : Bytes} (head : l.afterWhite.buffer.head? = some (byte 'b'))
      (split : t = l.skipped ++ byte 'b' :: h) :
    Scan l t (byte '0') (strtoll (h.takeWhile isBinary) 2) (byte 'b' :: h.takeWhile isBinary)
  | decimal {c : UInt8} {ds : Bytes} (other : c ≠ byte '0') (spaced : Spaced l ds) :
    Scan l t c (strtoll (c :: ds) 10) ds

/-- A token with a value, at the place where the lexer is. -/
def numberAt (l : Lexer) (v : UInt64) : Token × Lexer :=
  ({ type := .token .number, numval := v, lineNo := l.lineno }, l)

theorem inked_eq_self {t : Bytes} (ink : ∀ c ∈ t, ¬ isWhite c) : inked t = t := by
  rw [inked, List.filter_eq_self]
  intro c member
  simpa using ink c member

theorem isNum_of_isBinary (digit : isBinary c) : isNum c := by
  rw [isBinary, Bool.or_eq_true, beq_iff_eq, beq_iff_eq] at digit
  obtain rfl | rfl := digit <;> decide

theorem not_isWhite_of_isHexDigit (digit : isHexDigit c) : ¬ isWhite c := by
  intro white
  obtain rfl | rfl | rfl | rfl := isWhite_cases white <;> exact absurd digit (by decide)

/-- Reading on behind the letter of a notation. -/
theorem Reads.took_notation {x : UInt8} {h : Bytes} {test : UInt8 → Bool} {rest : Bytes}
    (took : Took t n l.skipped rest l.afterWhite) (head : rest = x :: h) (ink : ¬ isWhite x)
    (inks : ∀ c, test c → ¬ isWhite c) :
    ∃ used rest' l',
      readWhile test false l.afterWhite.size l.afterWhite.consumeChar = (h.takeWhile test, l') ∧
      inked used = x :: h.takeWhile test ∧ Took t n used rest' l' := by
  subst head
  have took' := took.reads.took_consumeChar
  have enough : h.length < l.afterWhite.size :=
    Nat.lt_of_succ_lt took.reads.length_lt_size
  obtain ⟨l', read, took''⟩ := took'.reads.readWhile_false test _ enough
  refine ⟨_, _, l', read, ?_, took.trans (took'.trans took'')⟩
  rw [inked_append, inked_append, inked_skipped, inked_of_not_isWhite ink,
    inked_eq_self fun c member => inks c (List.mem_takeWhile_imp member)]
  rfl

theorem lexFromNumber_scan (reads : Reads l (c :: t) n) :
    ∃ v seen used rest l', Scan l.consumeChar t c v seen ∧
      l.lexFromNumber = v.map (numberAt l') ∧ inked used = seen ∧
      Took t (n + lines [c]) used rest l' := by
  obtain ⟨l₁, got, reads'⟩ := reads.getChar_cons
  have consumed : l.consumeChar = l₁ := by rw [consumeChar, got]
  rw [consumed, lexFromNumber, got]
  dsimp only
  obtain ⟨rest, took, ahead⟩ := reads'.took_peekChar
  by_cases zero : c = byte '0'
  · subst zero
    rw [if_pos rfl, peekChar_true]
    cases head : l₁.afterWhite.buffer.head? with
    | none =>
      refine ⟨some 0, [], l₁.skipped, rest, l₁.afterWhite, .zero ?_, rfl, inked_skipped l₁, took⟩
      rw [head]
      exact fun d none => absurd none (Option.not_mem_none d)
    | some d =>
      obtain ⟨h, text, ink⟩ := ahead d head
      have split : t = l₁.skipped ++ d :: h := text ▸ took.split
      dsimp only
      by_cases digit : isNum d
      · -- The digit is looked at again, where nothing is skipped.
        rw [if_pos digit]
        have peek : l₁.peekChar true = (some d, l₁.afterWhite) := by rw [peekChar_true, head]
        obtain ⟨ds, used, rest', l', read, spaced, inks, took'⟩ :=
          took.reads.readWhile_true _ took.reads.length_lt_size
        have again : Spaced l₁ ds ∧ ds ≠ [] := by
          cases spaced with
          | done peek' other =>
            rw [peekChar_twice peek, Prod.mk.injEq] at peek'
            exact absurd digit (other d peek'.1.symm)
          | next peek' digit' rest =>
            rw [peekChar_twice peek, ← peek] at peek'
            exact ⟨.next peek' digit' rest, List.cons_ne_nil _ _⟩
        rw [read]
        refine ⟨_, _, _, rest', l', .octal again.1 again.2, rfl, ?_, took.trans took'⟩
        rw [inked_append, inked_skipped, inks]
        rfl
      rw [if_neg digit]
      by_cases hexadecimal : d = byte 'x' ∨ d = byte 'X'
      · obtain ⟨used, rest', l', read, inks, took'⟩ :=
          Reads.took_notation took text ink fun c => not_isWhite_of_isHexDigit (c := c)
        rw [if_pos hexadecimal, read]
        exact ⟨_, _, used, rest', l', .hexadecimal hexadecimal head split, rfl, inks, took'⟩
      rw [if_neg hexadecimal]
      by_cases binary : d = byte 'b'
      · subst binary
        obtain ⟨used, rest', l', read, inks, took'⟩ :=
          Reads.took_notation took text ink fun c digit =>
            not_isWhite_of_isNum (isNum_of_isBinary (c := c) digit)
        have test : (fun c => c == byte '0' || c == byte '1') = isBinary := rfl
        rw [if_pos rfl, test, read]
        exact ⟨_, _, used, rest', l', .binary head split, rfl, inks, took'⟩
      rw [if_neg binary]
      refine ⟨some 0, [], l₁.skipped, rest, l₁.afterWhite, .zero ?_, rfl, inked_skipped l₁, took⟩
      rw [head]
      rintro d ⟨⟩
      rintro (digit' | hexadecimal' | binary')
      · exact digit digit'
      · exact hexadecimal hexadecimal'
      · exact binary binary'
  · rw [if_neg zero]
    obtain ⟨ds, used, rest', l', read, spaced, inks, took'⟩ :=
      reads'.readWhile_true l₁.size reads'.length_lt_size
    rw [read]
    exact ⟨_, _, used, rest', l', .decimal zero spaced, rfl, inks, took'⟩

end Hdf.HcGen.Lexer
