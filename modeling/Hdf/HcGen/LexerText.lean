import Hdf.HcGen.Lexer
import Mathlib.Data.List.TakeWhile

/-!
# The text that a lexer reads

A lexer has a text ahead of it: what is left of the buffer, and the blocks to
come, of which none is empty. Reading a character takes the first one of that
text, wherever the blocks end, and counts it when it is a newline.

## Main results

* `Reads.getChar_cons`: reading a character
* `Reads.getChar_true`: reading one behind blanks
* `Reads.peekChar_false`, `peekChar_true`: looking at the next one
-/

namespace Hdf.HcGen.Lexer

/-- The text ahead of a lexer, and its line. `readsome` delivers nothing at the end only. -/
structure Reads (l : Lexer) (t : Bytes) (n : ℕ) : Prop where
  whole : [] ∉ l.blocks
  text : l.buffer ++ l.blocks.flatten = t
  lineno : l.lineno = n

/-- The newlines in a text. -/
def lines (t : Bytes) : ℕ := t.count (byte '\n')

/-- White space that `PeekChar` skips. -/
def isWhite (c : UInt8) : Bool := isSpace c || c == byte '\n'

variable {l : Lexer} {t : Bytes} {n : ℕ} {c : UInt8}

theorem lines_append (t u : Bytes) : lines (t ++ u) = lines t + lines u := List.count_append

theorem lines_cons (c : UInt8) (t : Bytes) : lines (c :: t) = lines [c] + lines t :=
  lines_append [c] t

theorem lines_of_isSpace (blank : isSpace c) : lines [c] = 0 := by
  rw [lines, List.count_singleton, if_neg]
  rintro newline
  rw [beq_iff_eq] at newline
  subst newline
  exact absurd blank (by decide)

theorem not_isSpace_eof : ¬ isSpace eof := by decide

/-! ### One character -/

theorem Reads.length_lt_size (reads : Reads l t n) : t.length < l.size := by
  rw [← reads.text, size, List.length_append, List.length_flatten]
  exact Nat.lt_succ_self _

theorem Reads.fillBuffer (reads : Reads l t n) : Reads l.fillBuffer t n := by
  obtain ⟨whole, text, lineno⟩ := reads
  rw [Lexer.fillBuffer]
  split
  · rename_i block blocks empty more
    rw [empty, more] at text
    rw [more, List.mem_cons, not_or] at whole
    exact ⟨whole.2, text, lineno⟩
  · exact ⟨whole, text, lineno⟩

/-- The buffer is empty after a refill at the end of the text only. -/
theorem Reads.fillBuffer_eq_nil (reads : Reads l t n) (empty : l.fillBuffer.buffer = []) :
    t = [] ∧ l.fillBuffer.blocks = [] := by
  obtain ⟨whole, text, -⟩ := reads
  rw [Lexer.fillBuffer] at empty ⊢
  cases buffer : l.buffer with
  | nil =>
    cases blocks : l.blocks with
    | nil =>
      rw [buffer, blocks] at text
      exact ⟨text.symm, blocks⟩
    | cons block rest =>
      rw [buffer, blocks] at empty
      rw [blocks] at whole
      exact absurd (by rw [show block = [] from empty]; exact List.mem_cons_self) whole
  | cons c rest =>
    rw [buffer] at empty
    cases blocks : l.blocks <;> rw [blocks] at empty <;>
      exact absurd (buffer.symm.trans empty) (by simp)

theorem Reads.getRawChar_nil (reads : Reads l [] n) :
    ∃ l', l.getRawChar = (eof, l') ∧ Reads l' [] n := by
  have filled := reads.fillBuffer
  have empty : l.fillBuffer.buffer = [] := (List.append_eq_nil_iff.mp filled.text).1
  exact ⟨l.fillBuffer, by rw [getRawChar, empty], filled⟩

theorem Reads.getRawChar_cons (reads : Reads l (c :: t) n) :
    ∃ l', l.getRawChar = (c, l') ∧ Reads l' t n := by
  have filled := reads.fillBuffer
  cases buffer : l.fillBuffer.buffer with
  | nil => cases (reads.fillBuffer_eq_nil buffer).1
  | cons d rest =>
    have text := filled.text
    rw [buffer, List.cons_append] at text
    obtain ⟨rfl, rfl⟩ := List.cons.inj text
    exact ⟨{ l.fillBuffer with buffer := rest }, by rw [getRawChar, buffer],
      ⟨filled.whole, rfl, filled.lineno⟩⟩

theorem Reads.countLine (reads : Reads l t n) (c : UInt8) :
    Reads (countLine c l) t (n + lines [c]) := by
  obtain ⟨whole, text, lineno⟩ := reads
  rw [Lexer.countLine, lines, List.count_singleton]
  by_cases newline : c = byte '\n'
  · rw [if_pos newline, if_pos (beq_iff_eq.mpr newline)]
    exact ⟨whole, text, by rw [← lineno]⟩
  · rw [if_neg newline, if_neg (by simpa using newline)]
    exact ⟨whole, text, lineno⟩

theorem Reads.getChar_cons (reads : Reads l (c :: t) n) :
    ∃ l', l.getChar false = (c, l') ∧ Reads l' t (n + lines [c]) := by
  obtain ⟨l', raw, reads'⟩ := reads.getRawChar_cons
  exact ⟨Lexer.countLine c l', by rw [getChar, raw]; rfl, reads'.countLine c⟩

theorem Reads.consumeChar (reads : Reads l (c :: t) n) :
    Reads l.consumeChar t (n + lines [c]) := by
  obtain ⟨l', got, reads'⟩ := reads.getChar_cons
  rw [Lexer.consumeChar, got]
  exact reads'

/-! ### A character behind blanks -/

theorem Reads.skipSpaces_nil {rounds : ℕ} (reads : Reads l t n) (enough : t.length < rounds)
    (blank : isSpace c) (rest : t.dropWhile isSpace = []) :
    ∃ l', skipSpaces rounds c l = (eof, l') ∧ Reads l' [] n := by
  induction rounds generalizing l t c with
  | zero => exact absurd enough (Nat.not_lt_zero _)
  | succ rounds ih =>
    rw [skipSpaces, if_pos blank]
    cases t with
    | nil =>
      obtain ⟨l', raw, reads'⟩ := reads.getRawChar_nil
      refine ⟨l', ?_, reads'⟩
      rw [raw]
      cases rounds with
      | zero => rfl
      | succ rounds => exact if_neg not_isSpace_eof
    | cons d t =>
      obtain ⟨l', raw, reads'⟩ := reads.getRawChar_cons
      rw [raw]
      by_cases blank' : isSpace d
      · rw [List.dropWhile_cons_of_pos blank'] at rest
        exact ih reads' (Nat.lt_of_succ_lt_succ enough) blank' rest
      · rw [List.dropWhile_cons_of_neg blank'] at rest
        cases rest

theorem Reads.skipSpaces_cons {rounds : ℕ} {d : UInt8} {t' : Bytes} (reads : Reads l t n)
    (enough : t.length < rounds) (rest : (c :: t).dropWhile isSpace = d :: t') :
    ∃ l', skipSpaces rounds c l = (d, l') ∧ Reads l' t' n := by
  induction rounds generalizing l t c with
  | zero => exact absurd enough (Nat.not_lt_zero _)
  | succ rounds ih =>
    rw [skipSpaces]
    by_cases blank : isSpace c
    · rw [if_pos blank]
      rw [List.dropWhile_cons_of_pos blank] at rest
      cases t with
      | nil => cases rest
      | cons e t =>
        obtain ⟨l', raw, reads'⟩ := reads.getRawChar_cons
        rw [raw]
        exact ih reads' (Nat.lt_of_succ_lt_succ enough) rest
    · rw [if_neg blank]
      rw [List.dropWhile_cons_of_neg blank] at rest
      obtain ⟨rfl, rfl⟩ := List.cons.inj rest
      exact ⟨l, rfl, reads⟩

theorem Reads.getChar_true_nil (reads : Reads l t n) (rest : t.dropWhile isSpace = []) :
    ∃ l', l.getChar true = (eof, l') ∧ Reads l' [] n := by
  have enough := reads.length_lt_size
  cases t with
  | nil =>
    obtain ⟨l', raw, reads'⟩ := reads.getRawChar_nil
    refine ⟨Lexer.countLine eof l', ?_, reads'.countLine eof⟩
    rw [getChar, raw]
    obtain ⟨rounds, more⟩ := Nat.exists_eq_add_one.mpr (Nat.zero_lt_of_lt enough)
    simp only [more, skipSpaces, not_isSpace_eof]
    rfl
  | cons c t =>
    obtain ⟨l', raw, reads'⟩ := reads.getRawChar_cons
    have blank : isSpace c := by
      by_contra other
      rw [List.dropWhile_cons_of_neg other] at rest
      cases rest
    rw [List.dropWhile_cons_of_pos blank] at rest
    obtain ⟨l'', skipped, reads''⟩ := reads'.skipSpaces_nil (Nat.lt_of_succ_lt enough) blank rest
    refine ⟨Lexer.countLine eof l'', ?_, reads''.countLine eof⟩
    rw [getChar, raw]
    simp only [if_true, skipped]

theorem Reads.getChar_true_cons {t' : Bytes} (reads : Reads l t n)
    (rest : t.dropWhile isSpace = c :: t') :
    ∃ l', l.getChar true = (c, l') ∧ Reads l' t' (n + lines [c]) := by
  have enough := reads.length_lt_size
  cases t with
  | nil => cases rest
  | cons d t =>
    obtain ⟨l', raw, reads'⟩ := reads.getRawChar_cons
    obtain ⟨l'', skipped, reads''⟩ := reads'.skipSpaces_cons (Nat.lt_of_succ_lt enough) rest
    refine ⟨Lexer.countLine c l'', ?_, reads''.countLine c⟩
    rw [getChar, raw]
    simp only [if_true, skipped]

/-! ### Looking ahead -/

theorem Reads.peekChar_false (reads : Reads l t n) :
    l.peekChar false = (t.head?, l.fillBuffer) := by
  rw [peekChar]
  simp only [Bool.false_eq_true, if_false, Prod.mk.injEq, and_true]
  cases buffer : l.fillBuffer.buffer with
  | nil => rw [(reads.fillBuffer_eq_nil buffer).1]
  | cons c rest => rw [← reads.fillBuffer.text, buffer]; rfl

/-- The white space that is skipped before the next character is looked at. It ends with the
buffer. -/
def skipped (l : Lexer) : Bytes := l.fillBuffer.buffer.takeWhile isWhite

/-- The lexer behind that white space. -/
def afterWhite (l : Lexer) : Lexer :=
  { l.fillBuffer with
    buffer := l.fillBuffer.buffer.dropWhile isWhite
    lineno := l.fillBuffer.lineno + lines l.skipped }

theorem peekChar_true (l : Lexer) :
    l.peekChar true = (l.afterWhite.buffer.head?, l.afterWhite) := rfl

theorem isWhite_of_mem_skipped (member : c ∈ l.skipped) : isWhite c := List.mem_takeWhile_imp member

theorem Reads.afterWhite (reads : Reads l t n) :
    ∃ t', t = l.skipped ++ t' ∧ Reads l.afterWhite t' (n + lines l.skipped) := by
  have filled := reads.fillBuffer
  refine ⟨_, ?_, filled.whole, rfl, by rw [← filled.lineno]; rfl⟩
  rw [← filled.text, ← List.append_assoc]
  exact congrArg (· ++ _) (List.takeWhile_append_dropWhile).symm

theorem not_isWhite_of_peekChar {l' : Lexer} (peek : l.peekChar true = (some c, l')) :
    ¬ isWhite c ∧ ∃ rest, l'.buffer = c :: rest := by
  rw [peekChar_true, Prod.mk.injEq] at peek
  obtain ⟨head, rfl⟩ := peek
  have buffer := List.eq_cons_of_mem_head? head
  have first := List.head?_dropWhile_not isWhite l.fillBuffer.buffer
  rw [show (l.fillBuffer.buffer.dropWhile isWhite).head? = some c from head] at first
  exact ⟨by simpa using first, _, buffer⟩

/-- A second look skips nothing. -/
theorem peekChar_twice {l' : Lexer} (peek : l.peekChar true = (some c, l')) :
    l'.peekChar true = (some c, l') := by
  obtain ⟨ink, rest, buffer⟩ := not_isWhite_of_peekChar peek
  have filled : l'.fillBuffer = l' := by
    rw [Lexer.fillBuffer, buffer]
  have same : l'.afterWhite = l' := by
    rw [Lexer.afterWhite, skipped, filled, buffer, List.takeWhile_cons_of_neg ink,
      List.dropWhile_cons_of_neg ink, ← buffer]
    rfl
  rw [peekChar_true, same, buffer]
  rfl

end Hdf.HcGen.Lexer
