import TagBox.Proofs.Halves
import Mathlib.Data.List.Chain

/-!
# Where tokens end

Whether one token can be printed behind another is decided by the second one's first character, and in
most cases a blank is enough to keep the two apart: a word, a number or an operator ends in front of it.
Two kinds of tokens go on to the end of their line and take the blank along, comments that start with
`#` or `//` and heredocs.

* `Lexeme.measure_append_break` — what a bracket, a blank or a line feed does to a lexeme in front of it.
* `Lexeme.spans_of_measure` — how comments, heredocs and line ends are made up.
* `Token.openEnded`, `Token.breaksLine` — tokens that go on to the end of their line, and tokens that
  start with one.
* `Token.Stands.before_stop` — every other token ends in front of a bracket or a blank.
* `Token.Stands.isLineEnd` — an open-ended token ends nowhere but at the end of a line.
* `Token.Apart`, `apart_iff` — two tokens that are read back from their print.
* `apart_iff_breaksLine` — when a blank between two tokens that would join is enough.
* `tokenize_print_extract` — a run of the tokens of a source, printed on its own, is read back.
-/

namespace TagBox

open Lexeme (isSpace isLineEnd kindOf)

/-! ## Lexemes in front of a break -/

/-- Brackets, blanks and line feeds: a name, a number or an operator does not go on with one of them. -/
def isBreak (c : Char) : Bool :=
  isStop c || c == '\n'

section Break

variable {c : Char}

theorem isBreak_of_isStop (h : isStop c = true) : isBreak c = true := by
  simp [isBreak, h]

theorem isDigit_of_isBreak (h : isBreak c = true) : c.isDigit = false := by
  rcases Bool.or_eq_true_iff.1 h with h | h
  · exact isDigit_of_isStop h
  · rw [eq_of_beq h]
    rfl

theorem isNamePart_of_isBreak (h : isBreak c = true) : isNamePart c = false := by
  rcases Bool.or_eq_true_iff.1 h with h | h
  · exact isNamePart_of_isStop h
  · rw [eq_of_beq h]
    rfl

theorem takeWhile_append_stop {p : Char → Bool} (hc : p c = false) (u s : Text) :
    (u ++ c :: s).takeWhile p = u.takeWhile p := by
  induction u with
  | nil => simp [hc]
  | cons d u ih => by_cases hd : p d = true <;> simp [hd, ih]

theorem head?_append_ne {d : Char} (hne : c ≠ d) (u s : Text) :
    (u ++ c :: s).head? = some d ↔ u.head? = some d := by
  cases u with
  | nil => simp [hne]
  | cons e u => simp

theorem head?_append_break {d : Char} (hc : isBreak c = true) (hd : isBreak d = false) (u s : Text) :
    (u ++ c :: s).head? = some d ↔ u.head? = some d := by
  apply head?_append_ne
  rintro rfl
  simp [hc] at hd

namespace Lexeme

theorem digitCount_append_break (hc : isBreak c = true) (u s : Text) :
    digitCount (u ++ c :: s) = digitCount u := by
  rw [digitCount, takeWhile_append_stop (isDigit_of_isBreak hc), digitCount]

theorem fractionLength_append_break (hc : isBreak c = true) (u s : Text) :
    fractionLength (u ++ c :: s) = fractionLength u := by
  by_cases hu : u.head? = some '.'
  · obtain ⟨u, rfl⟩ := List.head?_eq_some_iff.1 hu
    rw [List.cons_append, fractionLength_point, fractionLength_point, digitCount_append_break hc]
  · have hu' : (u ++ c :: s).head? ≠ some '.' := by rwa [Ne, head?_append_break hc (by decide)]
    rw [fractionLength_of_head hu, fractionLength_of_head hu']

theorem exponentLength_append_break (hc : isBreak c = true) (u s : Text) :
    exponentLength (u ++ c :: s) = exponentLength u := by
  match u with
  | [] =>
    -- a break is no mark
    cases s with
    | nil => rfl
    | cons d s =>
      have hmark : ¬ (c = 'e' ∨ c = 'E') := by
        rintro (rfl | rfl)
        · exact absurd hc (by decide)
        · exact absurd hc (by decide)
      rw [List.nil_append, exponentLength_cons_cons, if_neg hmark]
      rfl
  | [mark] =>
    -- a break is neither a sign nor a digit
    have hsign : ¬ (c = '+' ∨ c = '-') := by
      rintro (rfl | rfl)
      · exact absurd hc (by decide)
      · exact absurd hc (by decide)
    have hdigit : digitCount (c :: s) = 0 := digitCount_append_break hc [] s
    rw [List.singleton_append, exponentLength_cons_cons, if_neg hsign, if_pos hdigit, ite_self]
    rfl
  | mark :: sign :: u =>
    have hcount := digitCount_append_break hc (sign :: u) s
    rw [List.cons_append] at hcount
    rw [List.cons_append, List.cons_append, exponentLength_cons_cons, exponentLength_cons_cons,
      digitCount_append_break hc u s, hcount]

theorem numberLength_append_break (hc : isBreak c = true) (u s : Text) :
    numberLength (u ++ c :: s) = numberLength u := by
  have hwhole := digitCount_le u
  have hfraction := fractionLength_le (u.drop (digitCount u))
  rw [List.length_drop] at hfraction
  simp only [numberLength]
  rw [digitCount_append_break hc, List.drop_append_of_le_length hwhole, fractionLength_append_break hc,
    List.drop_append_of_le_length (by omega), exponentLength_append_break hc]

end Lexeme

namespace Heredoc

theorem openingBehind_append_stop (hc : isStop c = true) (k : Nat) (marker x s : Text) :
    openingBehind k marker (x ++ c :: s) = openingBehind k marker x := by
  have hfeed : c ≠ '\n' := by
    rintro rfl
    exact absurd hc (by decide)
  have hreturn : c ≠ '\r' := by
    rintro rfl
    exact absurd hc (by decide)
  unfold openingBehind
  match x with
  | [] => simp [hfeed, hreturn]
  | [d] => by_cases hd : d = '\n' <;> by_cases hd' : d = '\r' <;> simp [hd, hd', hfeed]
  | d :: e :: x =>
    by_cases hd : d = '\n' <;> by_cases hd' : d = '\r' <;> by_cases he : e = '\n' <;>
      simp [hd, hd', he]

theorem openingAfter_append_stop (hc : isStop c = true) (k : Nat) (q s : Text) :
    openingAfter k (q ++ c :: s) = openingAfter k q := by
  rcases openingAfter_cases q with ⟨habsent, hhead⟩ | ⟨d, m, x, rfl, hd, hm, hx⟩
  · rw [habsent]
    cases q with
    | nil => simp [openingAfter, isNameStart_of_isStop hc]
    | cons d q => simp [openingAfter, hhead d rfl]
  · have hx' : (x ++ c :: s).takeWhile isNamePart = [] := by
      rw [takeWhile_append_stop (isNamePart_of_isStop hc), hx]
    rw [List.append_assoc, openingAfter_marker hd hm hx, openingAfter_marker hd hm hx',
      openingBehind_append_stop hc]

theorem opening_append_stop (hc : isStop c = true) (u s : Text) :
    opening (u ++ c :: s) = opening u := by
  have hbreak := isBreak_of_isStop hc
  by_cases hless : u.head? = some '<'
  · obtain ⟨u, rfl⟩ := List.head?_eq_some_iff.1 hless
    by_cases hdash : u.head? = some '-'
    · obtain ⟨u, rfl⟩ := List.head?_eq_some_iff.1 hdash
      exact openingAfter_append_stop hc 2 u s
    · have hdash' : (u ++ c :: s).head? ≠ some '-' := by rwa [Ne, head?_append_break hbreak (by decide)]
      rw [List.cons_append, opening_less hdash, opening_less hdash', openingAfter_append_stop hc]
  · have hless' : (u ++ c :: s).head? ≠ some '<' := by rwa [Ne, head?_append_break hbreak (by decide)]
    rw [opening_of_head hless, opening_of_head hless']

end Heredoc

namespace Lexeme

variable {reading : Except Fault Shape} {k : Kind} {first : Char} {n : Nat} {tail u w s : Text}

theorem measureSlash_append_break (hc : isBreak c = true) (hk : kindOf reading = some k)
    (hline : reading = .ok .lineComment → isLineEnd c = true) (h : measureSlash u = (reading, n)) :
    measureSlash (u ++ c :: s) = (reading, n) := by
  unfold measureSlash at h
  split at h
  · have hc' := hline (Prod.mk.inj h).1.symm
    rw [← h, ← takeWhile_append_stop (p := (!isLineEnd ·)) (c := c) (by simp [hc']) _ s]
    rfl
  · rename_i body
    cases hbody : commentLength body with
    | none =>
      simp only [hbody] at h
      rw [← (Prod.mk.inj h).1] at hk
      simp [kindOf] at hk
    | some m =>
      simp only [hbody] at h
      obtain ⟨-, -, htake⟩ := commentLength_take hbody
      have hsame := htake (body.drop m ++ c :: s)
      rw [← List.append_assoc, List.take_append_drop] at hsame
      rw [List.cons_append, measureSlash]
      simp only [hsame]
      exact h
  · rename_i hslash hstar
    have hne : ∀ d, isBreak d = false → (∀ body, u ≠ d :: body) → (u ++ c :: s).head? ≠ some d := by
      intro d hd hcons
      rw [Ne, head?_append_break hc hd, List.head?_eq_some_iff]
      rintro ⟨body, rfl⟩
      exact hcons body rfl
    rw [measureSlash_operator (hne '/' (by decide) hslash) (hne '*' (by decide) hstar)]
    exact h

theorem measureLess_append_break (hc : isBreak c = true) (hk : kindOf reading = some k)
    (hheredoc : reading = .ok .heredoc → Heredoc.AtLineEnd w → Heredoc.AtLineEnd (w ++ c :: s))
    (hsame : Heredoc.opening (tail ++ w ++ c :: s) = Heredoc.opening (tail ++ w))
    (h : measureLess (tail ++ w) = (reading, tail.length)) :
    measureLess (tail ++ w ++ c :: s) = (reading, tail.length) := by
  by_cases hread : reading = .ok .heredoc
  · rw [hread] at h ⊢
    obtain ⟨hend, hends⟩ := measureLess_heredoc h
    rw [List.append_assoc]
    exact hends _ (hheredoc hread hend)
  unfold measureLess at h ⊢
  rw [hsame]
  cases ho : Heredoc.opening (tail ++ w) with
  | absent =>
    simp only [ho] at h
    simpa only [head?_append_break hc (show isBreak '=' = false by decide)] using h
  | broken n =>
    simp only [ho] at h
    exact h
  | line marker n =>
    simp only [ho] at h
    cases hb : Heredoc.bodyLength marker ((tail ++ w).drop n) with
    | none =>
      simp only [hb] at h
      rw [← (Prod.mk.inj h).1] at hk
      simp [kindOf] at hk
    | some body =>
      simp only [hb] at h
      exact absurd (Prod.mk.inj h).1.symm hread

theorem oneOrTwo_append_break {second : Char} (hc : isBreak c = true) (hs : isBreak second = false)
    (two one : Except Fault Shape) :
    oneOrTwo second two one (u ++ c :: s) = oneOrTwo second two one u := by
  simp only [oneOrTwo, head?_append_break hc hs]

theorem take_two_append_break (hc : isBreak c = true) :
    (u ++ c :: s).take 2 = ['.', '.'] ↔ u.take 2 = ['.', '.'] := by
  have hdot : c ≠ '.' := by
    rintro rfl
    exact absurd hc (by decide)
  match u with
  | [] => simp [hdot]
  | [d] => simp [hdot]
  | d :: e :: u => simp

/-- A break at the end of a text does not change a lexeme in it, unless it goes on a line comment or the
last line of a heredoc, or completes a line end or the opening line of a heredoc. -/
theorem measure_append_break (hc : isBreak c = true) (hk : kindOf reading = some k)
    (hline : reading = .ok .lineComment → isLineEnd c = true)
    (hheredoc : reading = .ok .heredoc → Heredoc.AtLineEnd w → Heredoc.AtLineEnd (w ++ c :: s))
    (hreturn : first = '\r' →
      ((tail ++ w ++ c :: s).head? = some '\n' ↔ (tail ++ w).head? = some '\n'))
    (hopening : first = '<' → Heredoc.opening (tail ++ w ++ c :: s) = Heredoc.opening (tail ++ w))
    (h : measure first (tail ++ w) = (reading, tail.length)) :
    measure first (tail ++ w ++ c :: s) = (reading, tail.length) := by
  unfold measure at h ⊢
  split at h
  case h_4 => simpa only [oneOrTwo, hreturn rfl] using h
  any_goals exact h
  any_goals rwa [oneOrTwo_append_break hc (by decide)]
  case h_1 | h_2 =>
    obtain ⟨rfl, -⟩ := Prod.mk.inj h
    simp [kindOf, Shape.kind?] at hk
  case h_5 =>
    have hc' := hline (Prod.mk.inj h).1.symm
    rwa [takeWhile_append_stop (by simp [hc'])]
  case h_6 => exact measureSlash_append_break hc hk hline h
  case h_7 =>
    rw [List.append_assoc]
    exact quoted_alike hk h (w ++ c :: s)
  case h_8 => exact measureLess_append_break hc hk hheredoc (hopening rfl) h
  case h_15 =>
    simpa only [head?_append_break hc (show isBreak '>' = false by decide),
      oneOrTwo_append_break hc (show isBreak '=' = false by decide)] using h
  case h_16 => simpa only [take_two_append_break hc] using h
  case h_28 =>
    simpa only [numberLength_append_break hc, takeWhile_append_stop (isNamePart_of_isBreak hc)] using h

end Lexeme

end Break

/-! ## Tokens that go on to the end of their line -/

/-- Does the token go on to the end of its line?  That is so of a heredoc, and of a comment unless it
starts with `/*`. -/
def Token.openEnded (t : Token) : Bool :=
  t.kind == .heredoc || t.kind == .comment && t.text.take 2 != ['/', '*']

/-- Does the token start with the end of a line, without blanks in front of it? -/
def Token.breaksLine (t : Token) : Bool :=
  t.lead.isEmpty && t.text.head?.any isLineEnd

namespace Lexeme

variable {first : Char} {rest : Text} {n : Nat}

/-- How a lexeme that starts with `first` and has `n` further characters is made up, for the shapes that
have to do with ends of lines. -/
def Spans (first : Char) (rest : Text) (n : Nat) : Shape → Prop
  | .newline => first = '\n' ∧ n = 0 ∨ first = '\r' ∧ rest.head? = some '\n' ∧ n = 1
  | .lineComment => (first = '#' ∨ first = '/' ∧ rest.head? = some '/') ∧
      n = (rest.takeWhile (!isLineEnd ·)).length
  | .blockComment => first = '/' ∧ rest.head? = some '*' ∧ 1 ≤ n
  | .heredoc => measureLess rest = (.ok .heredoc, n)
  | _ => True

theorem spans_of_measure {shape : Shape} (h : measure first rest = (.ok shape, n)) :
    Spans first rest n shape := by
  unfold measure at h
  split at h
  case h_3 =>
    cases h
    exact Or.inl ⟨rfl, rfl⟩
  case h_4 =>
    unfold oneOrTwo at h
    split_ifs at h with hfeed
    · cases h
      exact Or.inr ⟨rfl, hfeed, rfl⟩
    · simp at h
  case h_5 =>
    cases h
    exact ⟨Or.inl rfl, rfl⟩
  case h_6 =>
    unfold measureSlash at h
    split at h
    · cases h
      exact ⟨Or.inr ⟨rfl, rfl⟩, rfl⟩
    · split at h
      · cases h
        exact ⟨rfl, rfl, by omega⟩
      · simp at h
    · cases h
      trivial
  case h_8 =>
    have hless := h
    unfold measureLess at h
    split at h
    · split at h
      · cases h
        exact hless
      · simp at h
    · simp at h
    · cases h
      trivial
  -- all other shapes do without ends of lines
  all_goals revert h
  any_goals unfold oneOrTwo
  all_goals repeat' split
  all_goals rintro ⟨⟩
  all_goals trivial

end Lexeme

section OpenEnded

variable {t : Token} {r : Text}

theorem eq_of_kindOf_heredoc {reading : Except Fault Shape} (h : kindOf reading = some .heredoc) :
    reading = .ok .heredoc := by
  cases reading with
  | error fault => cases fault <;> simp [kindOf] at h
  | ok shape => cases shape <;> simp [kindOf, Shape.kind?] at h ⊢

theorem eq_of_kindOf_comment {reading : Except Fault Shape} (h : kindOf reading = some .comment) :
    reading = .ok .lineComment ∨ reading = .ok .blockComment := by
  cases reading with
  | error fault => cases fault <;> simp [kindOf] at h
  | ok shape => cases shape <;> simp [kindOf, Shape.kind?] at h ⊢

/-- What an open-ended token is read as. -/
theorem Token.openEnded_iff {first : Char} {tail : Text} {reading : Except Fault Shape}
    (htext : t.text = first :: tail)
    (hm : Lexeme.measure first (tail ++ r) = (reading, tail.length)) (hk : kindOf reading = some t.kind) :
    t.openEnded = true ↔ reading = .ok .lineComment ∨ reading = .ok .heredoc := by
  have hopen : t.openEnded = true ↔
      t.kind = .heredoc ∨ t.kind = .comment ∧ (first :: tail).take 2 ≠ ['/', '*'] := by
    simp [Token.openEnded, htext]
  rw [hopen]
  constructor
  · rintro (hkind | ⟨hkind, hstart⟩)
    · exact Or.inr (eq_of_kindOf_heredoc (hkind ▸ hk))
    · rcases eq_of_kindOf_comment (hkind ▸ hk) with hline | rfl
      · exact Or.inl hline
      · obtain ⟨rfl, hstar, hlen⟩ := Lexeme.spans_of_measure hm
        obtain ⟨d, tail, rfl⟩ := List.exists_cons_of_length_pos hlen
        obtain rfl : d = '*' := by simpa using hstar
        exact absurd rfl hstart
  · rintro (rfl | rfl)
    · refine Or.inr ⟨(Option.some.inj hk).symm, ?_⟩
      obtain ⟨rfl | ⟨rfl, hslash⟩, -⟩ := Lexeme.spans_of_measure hm
      · simp
      · cases tail with
        | nil => simp
        | cons d tail =>
          obtain rfl : d = '/' := by simpa using hslash
          simp
    · exact Or.inl (Option.some.inj hk).symm

/-- A token that is not open-ended ends in front of a bracket or a blank. -/
theorem Token.Stands.before_stop (h : t.Stands r) (ho : t.openEnded = false) {c : Char}
    (hc : isStop c = true) (s : Text) : t.Stands (c :: s) := by
  obtain ⟨first, tail, reading, htext, hm, hk⟩ := h
  have hopen := mt (Token.openEnded_iff htext hm hk).2 (by simp [ho])
  rw [not_or] at hopen
  have hne : c ≠ '\n' := by
    rintro rfl
    exact absurd hc (by decide)
  have hstop := Lexeme.measure_append_break (isBreak_of_isStop hc) hk
    (fun hline => absurd hline hopen.1) (fun hheredoc => absurd hheredoc hopen.2)
    (fun _ => head?_append_ne hne _ s) (fun _ => Heredoc.opening_append_stop hc _ s)
    (Lexeme.measure_alike (.cut r) hk hm)
  rw [List.append_nil] at hstop
  exact ⟨first, tail, reading, htext, hstop, hk⟩

/-- An open-ended token ends nowhere but at the end of a line or of the text. -/
theorem Token.Stands.isLineEnd (h : t.Stands r) (ho : t.openEnded = true) :
    ∀ c ∈ r.head?, Lexeme.isLineEnd c = true := by
  obtain ⟨first, tail, reading, htext, hm, hk⟩ := h
  intro c hc
  obtain ⟨r, rfl⟩ := List.head?_eq_some_iff.1 hc
  rcases (Token.openEnded_iff htext hm hk).1 ho with rfl | rfl
  · obtain ⟨-, hlen⟩ := Lexeme.spans_of_measure hm
    have hnil := (takeWhile_append_length_eq_iff.1 hlen.symm).2
    by_contra hne
    simp [hne] at hnil
  · rcases (Lexeme.measureLess_heredoc (Lexeme.spans_of_measure hm)).1 with hend | hend
    · have hreturn : c = '\r' := by
        by_contra hne
        simp [hne] at hend
      rw [hreturn]
      rfl
    · by_cases hreturn : c = '\r'
      · rw [hreturn]
        rfl
      · have hfeed : c = '\n' := by simpa [hreturn] using hend
        rw [hfeed]
        rfl

end OpenEnded

/-! ## Tokens side by side -/

/-- The text of the first token, with the second one printed behind it, is read as these two. -/
def Token.Apart (a b : Token) : Prop :=
  tokenize (a.text ++ b.print) = .ok [a.withLead [], b, eofToken []]

section Apart

variable {a b : Token} {r : Text}

theorem apart_iff :
    a.Apart b ↔ (∀ c ∈ b.lead, isSpace c = true) ∧ a.Stands b.print ∧ b.Stands [] := by
  have hprint : print [a.withLead [], b] = a.text ++ b.print := by simp [Token.print]
  rw [Token.Apart, tokenize_eq_ok_iff]
  constructor
  · rintro ⟨ts, trail, hts, -, -, hreads⟩
    obtain ⟨rfl, htrail⟩ := List.append_inj' (show [a.withLead [], b] ++ [eofToken []] = _ from hts) rfl
    obtain rfl : [] = trail := congrArg Token.lead (List.cons.inj htrail).1
    obtain ⟨-, ha, hlead, hb, -⟩ := hreads
    have ha' : a.Stands (print [b] ++ []) := ha
    refine ⟨hlead, ?_, hb⟩
    simpa using ha'
  · rintro ⟨hlead, ha, hb⟩
    refine ⟨[a.withLead [], b], [], rfl, by rw [hprint, List.append_nil], by simp, by simp, ?_, hlead, hb,
      trivial⟩
    simpa using ha.withLead []

/-- Behind an open-ended token only a token that starts with the end of a line is apart. -/
theorem Token.Apart.breaksLine (h : a.Apart b) (ho : a.openEnded = true) : b.breaksLine = true := by
  obtain ⟨hlead, ha, first, tail, -, htext, -⟩ := apart_iff.1 h
  have hend := ha.isLineEnd ho
  cases hb : b.lead with
  | nil => simpa [Token.breaksLine, Token.print, hb, htext] using hend
  | cons c lead =>
    have hspace := hlead c (by simp [hb])
    have hline := hend c (by simp [Token.print, hb])
    have hcases : c = ' ' ∨ c = '\t' := by simpa [Lexeme.isSpace] using hspace
    rcases hcases with rfl | rfl
    · exact absurd hline (by decide)
    · exact absurd hline (by decide)

theorem Token.Stands.text_ne_nil (h : a.Stands r) : a.text ≠ [] := by
  obtain ⟨first, tail, -, htext, -⟩ := h
  simp [htext]

/-- Tokens that do not join are read back from their texts. -/
theorem stands_of_joins (ha : a.text ≠ []) (hb : b.text ≠ []) (h : joins a b = false) :
    a.Stands b.text ∧ b.Stands [] := by
  unfold joins at h
  rw [if_neg (by simp [ha, hb])] at h
  split at h
  · rename_i x y last htokens
    simp only [Bool.not_eq_false', Bool.and_eq_true, beq_iff_eq] at h
    obtain ⟨⟨hx, hy⟩, -⟩ := h
    obtain ⟨hxkind, hxtext⟩ := Prod.mk.inj hx
    obtain ⟨hykind, hytext⟩ := Prod.mk.inj hy
    obtain ⟨ts, trail, hts, hprint, -, hreads⟩ := tokenize_eq_ok_iff.1 htokens
    obtain ⟨rfl, -⟩ := List.append_inj' (show [x, y] ++ [last] = _ from hts) rfl
    -- the texts alone are as long as the print
    have hlen := congrArg List.length hprint
    simp only [print_cons, print_nil, Token.print, hxtext, hytext, List.length_append,
      List.length_nil] at hlen
    have hlead : y.lead = [] := List.length_eq_zero_iff.1 (by omega)
    obtain rfl : trail = [] := List.length_eq_zero_iff.1 (by omega)
    obtain ⟨-, hxs, -, hys, -⟩ := hreads
    constructor
    · have hstands : x.Stands b.text := by
        simpa [Token.print, hlead, hytext] using hxs
      simpa only [Token.Stands, hxkind, hxtext] using hstands
    · have hstands : y.Stands [] := hys
      simpa only [Token.Stands, hykind, hytext] using hstands
  · simp at h

/-- If two tokens without a blank between them do not join, then they are apart, but for a second one
that should start with the end of a line and does not. -/
theorem apart_iff_breaksLine (ha : a.Stands r) (hb : b.Stands [])
    (hlead : ∀ c ∈ b.lead, isSpace c = true) (hjoin : b.lead = [] → joins a b = false) :
    a.Apart b ↔ (a.openEnded = true → b.breaksLine = true) := by
  constructor
  · exact Token.Apart.breaksLine
  · intro hopen
    refine apart_iff.2 ⟨hlead, ?_, hb⟩
    cases hnil : b.lead with
    | nil =>
      rw [Token.print, hnil]
      exact (stands_of_joins ha.text_ne_nil hb.text_ne_nil (hjoin hnil)).1
    | cons c lead =>
      have hclosed : a.openEnded = false := by
        by_contra hne
        have hline := hopen (by simpa using hne)
        simp [Token.breaksLine, hnil] at hline
      have hc : isStop c = true := isStop_of_isSpace (hlead c (by simp [hnil]))
      rw [Token.print, hnil]
      exact ha.before_stop hclosed hc _

/-- Neighbours of tokens that are read back are apart. -/
theorem Reads.isChain_apart {ts : List Token} (h : Reads ts r) : ts.IsChain Token.Apart := by
  induction ts with
  | nil => exact .nil
  | cons a ts ih =>
    obtain ⟨-, ha, hrest⟩ := h
    refine List.isChain_cons.2 ⟨?_, ih hrest⟩
    intro b hb
    obtain ⟨ts, rfl⟩ := List.head?_eq_some_iff.1 hb
    obtain ⟨hlead, hstands, -⟩ := hrest
    refine apart_iff.2 ⟨hlead, ?_, hstands.alike (.cut _)⟩
    have hcut := Alike.append b.print (.cut (print ts ++ r))
    rw [print_cons, List.append_assoc] at ha
    rw [List.append_nil] at hcut
    exact ha.alike hcut

end Apart

/-! ## Runs of tokens on their own -/

/-- Tokens that are read back in front of a text are so without the tokens before and after them. -/
theorem Reads.extract {ts : List Token} {r : Text} (h : Reads ts r) (i j : Nat) :
    Reads (ts.extract i j) [] := by
  have hcut : ts = ts.take i ++ (ts.extract i j ++ (ts.drop i).drop (j - i)) := by
    rw [List.extract_eq_take_drop, List.take_append_drop, List.take_append_drop]
  rw [hcut, reads_append, reads_append] at h
  -- what stands before a token is of no matter, and nothing is alike to every text
  exact h.2.1.alike (.cut _)

/-- Tokens of a source, taken out of their context and printed, are read back as they are. -/
theorem tokenize_print_extract {source : Text} {tokens : List Token} (h : tokenize source = .ok tokens)
    {i j : Nat} (hj : j < tokens.length) :
    tokenize (print (tokens.extract i j)) = .ok (tokens.extract i j ++ [eofToken []]) := by
  obtain ⟨ts, trail, rfl, -, -, hreads⟩ := tokenize_eq_ok_iff.1 h
  have hend : j ≤ ts.length := by
    rw [List.length_append, List.length_singleton] at hj
    omega
  have hrun : (ts ++ [eofToken trail]).extract i j = ts.extract i j := by
    rw [List.extract_eq_drop_take', List.extract_eq_drop_take', List.take_append_of_le_length hend]
  rw [hrun]
  exact tokenize_eq_ok_iff.2 ⟨_, [], rfl, by rw [List.append_nil], by simp, hreads.extract i j⟩

/-- A run from a number in front of a point up to a heredoc without the end of its last line. -/
theorem tokenize_print_extract_heredoc :
    ∃ tokens, tokenize "a=1.e #c\r<<B x <<-E\n \"\n E\n".toList = .ok tokens ∧ 10 < tokens.length ∧
      print (tokens.extract 2 10) = "1.e #c\r<<B x <<-E\n \"\n E".toList ∧
      tokenize (print (tokens.extract 2 10)) = .ok (tokens.extract 2 10 ++ [eofToken []]) := by
  have htokens : tokenize "a=1.e #c\r<<B x <<-E\n \"\n E\n".toList =
      .ok [⟨.identifier, ['a'], []⟩, ⟨.equals, ['='], []⟩, ⟨.number, ['1'], []⟩, ⟨.dot, ['.'], []⟩,
        ⟨.identifier, ['e'], []⟩, ⟨.comment, "#c".toList, [' ']⟩, ⟨.other, ['\r'], []⟩,
        ⟨.other, "<<B".toList, []⟩, ⟨.identifier, ['x'], [' ']⟩,
        ⟨.heredoc, "<<-E\n \"\n E".toList, [' ']⟩, ⟨.newline, ['\n'], []⟩, eofToken []] := by
    decide +kernel
  exact ⟨_, htokens, by decide, by decide +kernel, tokenize_print_extract htokens (by decide)⟩

end TagBox
