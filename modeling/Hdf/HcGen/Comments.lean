import Hdf.HcGen.LexerText

/-!
# Where comments end

A comment between `/*` and `*/` is read through a reader that skips blanks, and
the character behind a star is consumed while it is compared with a slash. So of a
run of stars every second one is not seen as a star, blanks between a star and a
slash are not seen at all, and a byte 255 is taken for the end of the file.

## Main results

* `blockComment_eq`: the loop goes by `closes`
* `commentsEnd_iff`: when comments end where they should
-/

namespace Hdf.HcGen.Lexer

/-! ### What the loops do with a text -/

/-- What is left of a text behind a multi-line comment, after a star or not. -/
def closes : Bool → Bytes → Option Bytes
  | _, [] => none
  | afterStar, c :: t =>
    if isSpace c then closes afterStar t
    else if afterStar then if c = byte '/' then some t else closes false t
    else if c = eof then none
    else closes (c == byte '*') t

/-- What is left of a text behind a single line comment. -/
def endsLine : Bytes → Bytes
  | [] => []
  | c :: t => if c = eof ∨ c = byte '\n' then t else endsLine t

variable {l : Lexer} {t : Bytes} {n : ℕ}

theorem closes_dropWhile (afterStar : Bool) (t : Bytes) :
    closes afterStar t = closes afterStar (t.dropWhile isSpace) := by
  induction t with
  | nil => rfl
  | cons c t ih =>
    by_cases blank : isSpace c
    · rw [List.dropWhile_cons_of_pos blank, closes, if_pos blank, ih]
    · rw [List.dropWhile_cons_of_neg blank]

theorem endsLine_dropWhile (t : Bytes) : endsLine t = endsLine (t.dropWhile isSpace) := by
  induction t with
  | nil => rfl
  | cons c t ih =>
    by_cases blank : isSpace c
    · have other : ¬ (c = eof ∨ c = byte '\n') := by
        rintro (rfl | rfl) <;> exact absurd blank (by decide)
      rw [List.dropWhile_cons_of_pos blank, endsLine, if_neg other, ih]
    · rw [List.dropWhile_cons_of_neg blank]

theorem not_isSpace_of_dropWhile {c : UInt8} {t' : Bytes} (rest : t.dropWhile isSpace = c :: t') :
    ¬ isSpace c := by
  have head := List.head?_dropWhile_not isSpace t
  rw [rest] at head
  simpa using head

/-- Blanks are no newlines. -/
theorem lines_dropWhile (t : Bytes) : lines (t.dropWhile isSpace) = lines t := by
  induction t with
  | nil => rfl
  | cons c t ih =>
    by_cases blank : isSpace c
    · rw [List.dropWhile_cons_of_pos blank, ih, lines_cons c t, lines_of_isSpace blank, zero_add]
    · rw [List.dropWhile_cons_of_neg blank]

/-- A lexer has read a text up to what is left of it, and counted the lines. -/
def ReadTo (t : Bytes) (n : ℕ) (rest : Bytes) (l : Lexer) : Prop :=
  ∃ m, Reads l rest m ∧ m + lines rest = n + lines t

/-- A function reads a text up to what is left of it, or fails when nothing is. -/
def ReadsTo (t : Bytes) (n : ℕ) : Option Bytes → Option Lexer → Prop
  | none, result => result = none
  | some rest, result => ∃ l, result = some l ∧ ReadTo t n rest l

theorem ReadTo.mono {t' rest : Bytes} {m : ℕ} (read : ReadTo t' m rest l)
    (same : m + lines t' = n + lines t) : ReadTo t n rest l := by
  obtain ⟨k, reads, count⟩ := read
  exact ⟨k, reads, count.trans same⟩

theorem ReadsTo.mono {t' : Bytes} {m : ℕ} {rest : Option Bytes} {result : Option Lexer}
    (read : ReadsTo t' m rest result) (same : m + lines t' = n + lines t) :
    ReadsTo t n rest result := by
  cases rest with
  | none => exact read
  | some rest =>
    obtain ⟨l, eq, read⟩ := read
    exact ⟨l, eq, read.mono same⟩

/-- Lines are counted behind blanks and a character. -/
theorem lines_of_dropWhile {c : UInt8} {t' : Bytes} (rest : t.dropWhile isSpace = c :: t') (n : ℕ) :
    n + lines [c] + lines t' = n + lines t := by
  rw [← lines_dropWhile t, rest, lines_cons c t', Nat.add_assoc]

/-- By induction on the rounds, of which each reads one character or two. -/
theorem blockComment_readsTo {rounds : ℕ} (reads : Reads l t n) (enough : t.length < rounds) :
    ReadsTo t n (closes false t) (blockComment rounds l) := by
  induction rounds generalizing l t n with
  | zero => exact absurd enough (Nat.not_lt_zero _)
  | succ rounds ih =>
    have shorter (u : Bytes) : (u.dropWhile isSpace).length ≤ u.length :=
      (List.dropWhile_sublist _).length_le
    rw [blockComment, closes_dropWhile]
    cases first : t.dropWhile isSpace with
    | nil =>
      obtain ⟨l', got, -⟩ := reads.getChar_true_nil first
      rw [got]
      rfl
    | cons c t' =>
      obtain ⟨l', got, reads'⟩ := reads.getChar_true_cons first
      have less := shorter t
      rw [first, List.length_cons] at less
      simp only [got, closes, not_isSpace_of_dropWhile first, if_false, Bool.false_eq_true]
      by_cases atEnd : c = eof
      · rw [if_pos atEnd, if_pos atEnd]
        rfl
      rw [if_neg atEnd, if_neg atEnd]
      by_cases isStar : c = byte '*'
      · rw [if_pos isStar, isStar, beq_self_eq_true, closes_dropWhile]
        cases second : t'.dropWhile isSpace with
        | nil =>
          obtain ⟨l'', got', reads''⟩ := reads'.getChar_true_nil second
          rw [got']
          exact ih reads'' (by rw [List.length_nil]; omega)
        | cons d t'' =>
          obtain ⟨l'', got', reads''⟩ := reads'.getChar_true_cons second
          have less' := shorter t'
          rw [second, List.length_cons] at less'
          simp only [got', closes, not_isSpace_of_dropWhile second, if_true]
          have lines :=
            (lines_of_dropWhile second (n + lines [c])).trans (lines_of_dropWhile first n)
          by_cases closed : d = byte '/'
          · rw [if_pos closed, if_pos closed]
            exact ⟨l'', rfl, _, reads'', lines⟩
          · rw [if_neg closed, if_neg closed]
            exact (ih reads'' (by omega)).mono lines
      · rw [if_neg isStar, beq_eq_false_iff_ne.mpr isStar]
        exact (ih reads' (by omega)).mono (lines_of_dropWhile first n)

theorem lineComment_readTo {rounds : ℕ} (reads : Reads l t n) (enough : t.length < rounds) :
    ReadTo t n (endsLine t) (lineComment rounds l) := by
  induction rounds generalizing l t n with
  | zero => exact absurd enough (Nat.not_lt_zero _)
  | succ rounds ih =>
    rw [lineComment, endsLine_dropWhile]
    have shorter := (List.dropWhile_sublist (l := t) isSpace).length_le
    cases first : t.dropWhile isSpace with
    | nil =>
      obtain ⟨l', got, reads'⟩ := reads.getChar_true_nil first
      rw [got]
      refine ⟨n, reads', ?_⟩
      rw [← lines_dropWhile t, first]
      rfl
    | cons c t' =>
      obtain ⟨l', got, reads'⟩ := reads.getChar_true_cons first
      rw [first, List.length_cons] at shorter
      simp only [got, endsLine]
      by_cases last : c = eof ∨ c = byte '\n'
      · rw [if_pos last, if_pos last]
        exact ⟨_, reads', lines_of_dropWhile first n⟩
      · rw [if_neg last, if_neg last]
        exact (ih reads' (by omega)).mono (lines_of_dropWhile first n)

/-! ### What the loops should do -/

/-- What is left of a text behind the first star with a slash next to it. -/
def behindClose : Bytes → Option Bytes
  | [] => none
  | c :: t => if c = byte '*' ∧ t.head? = some (byte '/') then some t.tail else behindClose t

/-- What is left of a text behind the first newline. -/
def behindNewline : Bytes → Bytes
  | [] => []
  | c :: t => if c = byte '\n' then t else behindNewline t

/-- A comment ends behind the first `*/` next to each other and fails without one, or it ends behind
the first newline, or with the text. -/
def CommentEnds (l : Lexer) : Prop :=
  ∀ t n, (Reads l (byte '/' :: byte '*' :: t) n →
      ReadsTo (byte '/' :: byte '*' :: t) n (behindClose t) l.processComment) ∧
    (Reads l (byte '/' :: byte '/' :: t) n →
      ReadsTo (byte '/' :: byte '/' :: t) n (some (behindNewline t)) l.processComment)

def withoutBlanks (t : Bytes) : Bytes := t.filter fun c => !isSpace c

/-- A text of single characters, and of stars that have a character other than a slash behind them.
The single ones are neither stars nor the byte 255. -/
inductive Paired : Bytes → Prop
  | nil : Paired []
  | char {c : UInt8} {t : Bytes} (star : c ≠ byte '*') (atEnd : c ≠ eof) (rest : Paired t) :
    Paired (c :: t)
  | star {c : UInt8} {t : Bytes} (slash : c ≠ byte '/') (rest : Paired t) :
    Paired (byte '*' :: c :: t)

/-- But for blanks, the text before the first `*/` is paired. Without a `*/`, no paired text is
followed by `*/` when all blanks are gone. -/
def BlockClean (t : Bytes) : Prop :=
  (∃ u rest, t = u ++ byte '*' :: byte '/' :: rest ∧ behindClose (u ++ [byte '*']) = none ∧
    Paired (withoutBlanks u)) ∨
  (behindClose t = none ∧
    ∀ u rest, withoutBlanks t = u ++ byte '*' :: byte '/' :: rest → ¬ Paired u)

/-- The byte 255 does not come before the first newline, unless nothing comes behind it. -/
def LineClean (t : Bytes) : Prop := ∀ u v, t = u ++ eof :: v → byte '\n' ∉ u → v = []

theorem length_behindNewline_lt (some : t ≠ []) : (behindNewline t).length < t.length := by
  induction t with
  | nil => exact absurd rfl some
  | cons c t ih =>
    rw [behindNewline, List.length_cons]
    split
    · exact Nat.lt_succ_self _
    · cases t with
      | nil => exact Nat.zero_lt_one
      | cons d t => exact Nat.lt_succ_of_lt (ih (List.cons_ne_nil d t))

theorem endsLine_eq_iff : endsLine t = behindNewline t ↔ LineClean t := by
  induction t with
  | nil => exact iff_of_true rfl fun u v split => by simp at split
  | cons c t ih =>
    rw [endsLine, behindNewline]
    by_cases newline : c = byte '\n'
    · rw [if_pos (.inr newline), if_pos newline]
      refine iff_of_true rfl fun u v split noNewline => ?_
      cases u with
      | nil => exact absurd (newline.symm.trans (List.cons.inj split).1) (by decide)
      | cons d u =>
        obtain ⟨rfl, -⟩ := List.cons.inj split
        exact absurd (newline ▸ List.mem_cons_self) noNewline
    by_cases atEnd : c = eof
    · rw [if_pos (.inl atEnd), if_neg newline]
      constructor
      · intro same u v split noNewline
        have empty : t = [] := by
          by_contra some
          exact absurd (congrArg List.length same) (length_behindNewline_lt some).ne'
        rw [empty] at split
        have length := congrArg List.length split
        simp only [List.length_cons, List.length_nil, List.length_append] at length
        exact List.eq_nil_of_length_eq_zero (by omega)
      · intro clean
        rw [clean [] t (by rw [atEnd]; rfl) List.not_mem_nil]
        rfl
    · rw [if_neg (not_or.mpr ⟨atEnd, newline⟩), if_neg newline, ih]
      constructor
      · intro clean u v split noNewline
        cases u with
        | nil => exact absurd (List.cons.inj split).1 atEnd
        | cons d u =>
          obtain ⟨rfl, rfl⟩ := List.cons.inj split
          exact clean u v rfl fun member => noNewline (List.mem_cons_of_mem c member)
      · intro clean u v split noNewline
        refine clean (c :: u) v (by rw [split]; rfl) ?_
        rw [List.mem_cons, not_or]
        exact ⟨Ne.symm newline, noNewline⟩

/-! ### Multi-line comments -/

theorem withoutBlanks_cons_of_pos {c : UInt8} (blank : isSpace c) :
    withoutBlanks (c :: t) = withoutBlanks t :=
  List.filter_cons_of_neg (by simpa using blank)

theorem withoutBlanks_cons_of_neg {c : UInt8} (other : ¬ isSpace c) :
    withoutBlanks (c :: t) = c :: withoutBlanks t :=
  List.filter_cons_of_pos (by simpa using other)

theorem closes_blanks (afterStar : Bool) {b : Bytes} (blanks : ∀ c ∈ b, isSpace c) (t : Bytes) :
    closes afterStar (b ++ t) = closes afterStar t := by
  induction b with
  | nil => rfl
  | cons c b ih =>
    rw [List.forall_mem_cons] at blanks
    rw [List.cons_append, closes, if_pos blanks.1, ih blanks.2]

/-- The loop ends at a slash behind a star behind a paired text. Behind a star, that star is the
first one of what has to be paired. -/
theorem exists_paired_of_closes {afterStar : Bool} {rest : Bytes}
    (closed : closes afterStar t = some rest) :
    ∃ u b, (if afterStar then byte '*' :: t else t) = u ++ byte '*' :: b ++ byte '/' :: rest ∧
      (∀ c ∈ b, isSpace c) ∧ Paired (withoutBlanks u) := by
  induction t generalizing afterStar with
  | nil => cases closed
  | cons c t ih =>
    rw [closes] at closed
    by_cases blank : isSpace c
    · rw [if_pos blank] at closed
      obtain ⟨u, b, split, blanks, paired⟩ := ih closed
      cases afterStar with
      | false =>
        refine ⟨c :: u, b, ?_, blanks, by rwa [withoutBlanks_cons_of_pos blank]⟩
        simpa using split
      | true =>
        rw [if_pos rfl] at split ⊢
        cases u with
        | nil =>
          obtain ⟨-, split⟩ := List.cons.inj split
          exact ⟨[], c :: b, by rw [split]; rfl, List.forall_mem_cons.mpr ⟨blank, blanks⟩, paired⟩
        | cons d u =>
          obtain ⟨rfl, tail⟩ := List.cons.inj split
          refine ⟨byte '*' :: c :: u, b, by rw [tail]; rfl, blanks, ?_⟩
          rwa [withoutBlanks_cons_of_neg (by decide), withoutBlanks_cons_of_pos blank,
            ← withoutBlanks_cons_of_neg (by decide)]
    rw [if_neg blank] at closed
    cases afterStar with
    | true =>
      rw [if_pos rfl] at closed ⊢
      by_cases slash : c = byte '/'
      · rw [if_pos slash, Option.some.injEq] at closed
        exact ⟨[], [], by rw [slash, closed]; rfl, by simp, .nil⟩
      · rw [if_neg slash] at closed
        obtain ⟨u, b, split, blanks, paired⟩ := ih closed
        rw [if_neg Bool.false_ne_true] at split
        refine ⟨byte '*' :: c :: u, b, by rw [split]; rfl, blanks, ?_⟩
        rw [withoutBlanks_cons_of_neg (by decide), withoutBlanks_cons_of_neg blank]
        exact .star slash paired
    | false =>
      rw [if_neg Bool.false_ne_true] at closed ⊢
      by_cases atEnd : c = eof
      · rw [if_pos atEnd] at closed
        cases closed
      rw [if_neg atEnd] at closed
      obtain ⟨u, b, split, blanks, paired⟩ := ih closed
      by_cases star : c = byte '*'
      · rw [star, beq_self_eq_true, if_pos rfl] at split
        exact ⟨u, b, star ▸ split, blanks, paired⟩
      · rw [beq_eq_false_iff_ne.mpr star, if_neg Bool.false_ne_true] at split
        refine ⟨c :: u, b, by rw [split]; rfl, blanks, ?_⟩
        rw [withoutBlanks_cons_of_neg blank]
        exact .char star atEnd paired

/-- Of a text that is not all blanks. -/
theorem exists_of_withoutBlanks {c : UInt8} {p : Bytes} (h : withoutBlanks t = c :: p) :
    ∃ b u, t = b ++ c :: u ∧ (∀ d ∈ b, isSpace d) ∧ ¬ isSpace c ∧ withoutBlanks u = p := by
  obtain ⟨b, u, rfl, blanks, other, rest⟩ := List.filter_eq_cons_iff.mp h
  exact ⟨b, u, rfl, fun d member => by simpa using blanks d member, by simpa using other, rest⟩

theorem closes_of_paired {u b : Bytes} (paired : Paired (withoutBlanks u))
    (blanks : ∀ c ∈ b, isSpace c) (rest : Bytes) :
    closes false (u ++ byte '*' :: b ++ byte '/' :: rest) = some rest := by
  generalize known : withoutBlanks u = p at paired
  induction paired generalizing u with
  | nil =>
    have all c (member : c ∈ u) : isSpace c := by
      simpa using List.filter_eq_nil_iff.mp known c member
    have step : closes false (byte '*' :: (b ++ byte '/' :: rest)) =
        closes true (b ++ byte '/' :: rest) := rfl
    rw [List.append_assoc, closes_blanks false all, List.cons_append, step,
      closes_blanks true blanks]
    rfl
  | @char c p star atEnd _ ih =>
    obtain ⟨b', u', rfl, blanks', other, known'⟩ := exists_of_withoutBlanks known
    rw [List.append_assoc, List.append_assoc, closes_blanks false blanks', List.cons_append, closes,
      if_neg other, if_neg Bool.false_ne_true, if_neg atEnd, beq_eq_false_iff_ne.mpr star,
      ← List.append_assoc]
    exact ih known'
  | @star c p slash _ ih =>
    obtain ⟨b', u', rfl, blanks', other, known'⟩ := exists_of_withoutBlanks known
    obtain ⟨b'', u'', rfl, blanks'', other', known''⟩ := exists_of_withoutBlanks known'
    have step (t : Bytes) : closes false (byte '*' :: t) = closes true t := rfl
    rw [List.append_assoc, List.append_assoc, closes_blanks false blanks', List.cons_append, step,
      List.append_assoc, closes_blanks true blanks'', List.cons_append, closes, if_neg other',
      if_pos rfl, if_neg slash, ← List.append_assoc]
    exact ih known''

theorem behindClose_of_split {u rest : Bytes} (first : behindClose (u ++ [byte '*']) = none) :
    behindClose (u ++ byte '*' :: byte '/' :: rest) = some rest := by
  induction u with
  | nil => rfl
  | cons c u ih =>
    rw [List.cons_append, behindClose] at first ⊢
    by_cases here : c = byte '*' ∧ (u ++ [byte '*']).head? = some (byte '/')
    · rw [if_pos here] at first
      cases first
    · rw [if_neg here] at first
      rw [if_neg, ih first]
      rintro ⟨star, slash⟩
      refine here ⟨star, ?_⟩
      cases u with
      | nil => exact absurd (Option.some.inj slash) (by decide)
      | cons d u => exact slash

theorem split_of_behindClose {rest : Bytes} (found : behindClose t = some rest) :
    ∃ u, t = u ++ byte '*' :: byte '/' :: rest ∧ behindClose (u ++ [byte '*']) = none := by
  induction t with
  | nil => cases found
  | cons c t ih =>
    rw [behindClose] at found
    by_cases here : c = byte '*' ∧ t.head? = some (byte '/')
    · rw [if_pos here, Option.some.injEq] at found
      obtain ⟨rfl, slash⟩ := here
      cases t with
      | nil => cases slash
      | cons d t =>
        rw [List.head?_cons, Option.some.injEq] at slash
        exact ⟨[], by rw [slash, ← found]; rfl, by decide⟩
    · rw [if_neg here] at found
      obtain ⟨u, rfl, first⟩ := ih found
      refine ⟨c :: u, rfl, ?_⟩
      rw [List.cons_append, behindClose, if_neg, first]
      rintro ⟨star, slash⟩
      refine here ⟨star, ?_⟩
      cases u with
      | nil => exact absurd slash (by decide)
      | cons d u => exact slash

theorem withoutBlanks_append (t u : Bytes) :
    withoutBlanks (t ++ u) = withoutBlanks t ++ withoutBlanks u := List.filter_append t u

theorem withoutBlanks_of_blanks {b : Bytes} (blanks : ∀ c ∈ b, isSpace c) : withoutBlanks b = [] :=
  List.filter_eq_nil_iff.mpr (by simpa using blanks)

/-- The loop goes through a clean text to the first `*/`, and through no other one. -/
theorem closes_eq_iff : closes false t = behindClose t ↔ BlockClean t := by
  constructor
  · intro same
    cases found : behindClose t with
    | some rest =>
      obtain ⟨u, split, first⟩ := split_of_behindClose found
      obtain ⟨u', b, split', blanks, paired⟩ := exists_paired_of_closes (same.trans found)
      have whole : u ++ [byte '*'] = u' ++ byte '*' :: b := by
        rw [if_neg Bool.false_ne_true, split, List.append_cons] at split'
        exact List.append_cancel_right split'
      -- the star before the slash is no blank
      obtain rfl | ⟨b, c, rfl⟩ := List.eq_nil_or_concat b
      · exact .inl ⟨u, rest, split, first, (List.append_cancel_right whole) ▸ paired⟩
      · have last := congrArg List.getLast? whole
        simp only [List.getLast?_append, List.getLast?_cons, List.concat_eq_append] at last
        simp at last
        exact absurd (blanks c (by simp)) (last ▸ by decide)
    | none =>
      refine .inr ⟨found, fun u rest split paired => ?_⟩
      obtain ⟨u', t', rfl, rfl, there⟩ := List.filter_eq_append_iff.mp split
      obtain ⟨b, t'', rfl, blanks, -, there'⟩ := exists_of_withoutBlanks there
      obtain ⟨b', rest', rfl, blanks', -, -⟩ := exists_of_withoutBlanks there'
      have paired' : Paired (withoutBlanks (u' ++ b)) := by
        rw [withoutBlanks_append, withoutBlanks_of_blanks blanks, List.append_nil]
        exact paired
      have closed := closes_of_paired paired' blanks' rest'
      simp only [List.append_assoc, List.cons_append] at closed
      cases closed.symm.trans (same.trans found)
  · rintro (⟨u, rest, rfl, first, paired⟩ | ⟨none, unpaired⟩)
    · rw [behindClose_of_split first, List.append_cons]
      exact closes_of_paired paired (fun c member => absurd member List.not_mem_nil) rest
    · rw [none, Option.eq_none_iff_forall_ne_some]
      intro rest closed
      obtain ⟨u, b, split, blanks, paired⟩ := exists_paired_of_closes closed
      refine unpaired (withoutBlanks u) (withoutBlanks rest) ?_ paired
      rw [if_neg Bool.false_ne_true] at split
      rw [split, withoutBlanks_append, withoutBlanks_append, withoutBlanks_cons_of_neg (by decide),
        withoutBlanks_of_blanks blanks, withoutBlanks_cons_of_neg (by decide), List.append_assoc]
      rfl

/-! ### The comments of a file -/

theorem ReadsTo.unique {rest rest' : Option Bytes} {result : Option Lexer}
    (read : ReadsTo t n rest result) (read' : ReadsTo t n rest' result) : rest = rest' := by
  cases rest with
  | none =>
    cases rest' with
    | none => rfl
    | some rest' =>
      obtain ⟨l, eq, -⟩ := read'
      cases (show result = none from read).symm.trans eq
  | some rest =>
    obtain ⟨l, rfl, m, reads, -⟩ := read
    cases rest' with
    | none => cases read'
    | some rest' =>
      obtain ⟨l', eq, m', reads', -⟩ := read'
      rw [← reads.text, Option.some.inj eq, reads'.text]

theorem processComment_block (reads : Reads l (byte '/' :: byte '*' :: t) n) :
    ReadsTo (byte '/' :: byte '*' :: t) n (closes false t) l.processComment := by
  have front : (byte '*' :: t).dropWhile isSpace = byte '*' :: t := rfl
  obtain ⟨l', got, reads'⟩ := reads.consumeChar.getChar_true_cons front
  rw [processComment, got]
  exact (blockComment_readsTo reads' reads'.length_lt_size).mono (by
    rw [lines_cons _ (byte '*' :: t), lines_cons _ t, Nat.add_assoc, Nat.add_assoc])

theorem processComment_line (reads : Reads l (byte '/' :: byte '/' :: t) n) :
    ReadsTo (byte '/' :: byte '/' :: t) n (some (endsLine t)) l.processComment := by
  have front : (byte '/' :: t).dropWhile isSpace = byte '/' :: t := rfl
  obtain ⟨l', got, reads'⟩ := reads.consumeChar.getChar_true_cons front
  rw [processComment, got]
  exact ⟨_, rfl, (lineComment_readTo reads' reads'.length_lt_size).mono (by
    rw [lines_cons _ (byte '/' :: t), lines_cons _ t, Nat.add_assoc, Nat.add_assoc])⟩

/-- A comment ends where it should if and only if its text is clean. -/
theorem commentEnds_iff (l : Lexer) : CommentEnds l ↔
    ∀ t n, (Reads l (byte '/' :: byte '*' :: t) n → BlockClean t) ∧
      (Reads l (byte '/' :: byte '/' :: t) n → LineClean t) := by
  refine forall₂_congr fun t n => and_congr (forall_congr' fun reads => ?_)
    (forall_congr' fun reads => ?_)
  · rw [← closes_eq_iff]
    constructor
    · exact fun ends => (processComment_block reads).unique ends
    · exact fun same => same ▸ processComment_block reads
  · rw [← endsLine_eq_iff]
    constructor
    · exact fun ends => Option.some.inj ((processComment_line reads).unique ends)
    · exact fun same => same ▸ processComment_line reads

/-- A comment with three stars in a row. -/
theorem threeStars_not_commentEnds : ¬ CommentEnds { blocks := [ascii "/***/"] } := by
  intro ends
  have failed : processComment { blocks := [ascii "/***/"] } = none := by decide +kernel
  obtain ⟨l, closed, -⟩ := (ends (ascii "**/") 1).1 ⟨by decide, by decide, rfl⟩
  cases failed.symm.trans closed

end Hdf.HcGen.Lexer
