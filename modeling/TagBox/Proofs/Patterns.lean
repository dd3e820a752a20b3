import TagBox.Proofs.Locality
import Mathlib.Computability.Language

/-!
# The patterns of lexemes

Each shape of a lexeme has a pattern, a regular language over characters.  Here the patterns are written
down as such, without regard to how a text is read.  Then it is found out which texts that begin with a
given character are in them, and how far numbers and the opening lines of heredocs reach.

* `Shape.pattern` — the pattern of a shape.
* `cons_mem_pattern` — the texts of a pattern by their first character.
* `length_le_numberLength`, `continues_number` — a number is read as far as its pattern goes.
* `Heredoc.opening_of_line`, `Heredoc.opening_cases` — so is an opening line.
-/

namespace TagBox

open Lexeme (isSpace isLineEnd digitCount fractionLength exponentLength numberLength)
open Computability

namespace Pattern

/-- The text alone. -/
def word (text : Text) : Language Char :=
  {text}

/-- The texts of one character with a property. -/
def one (p : Char → Prop) : Language Char :=
  {text | ∃ c, text = [c] ∧ p c}

/-- A space or a tab. -/
def space : Language Char :=
  one (· ∈ [' ', '\t'])

/-- A line feed, with a carriage return in front of it or not. -/
def lineEnd : Language Char :=
  (1 + word ['\r']) * word ['\n']

/-- What a comment takes of its line. -/
def remark : Language Char :=
  (one (· ∉ ['\r', '\n']))∗

/-- Names, also those of markers. -/
def name : Language Char :=
  one (fun c => 'A' ≤ c ∧ c ≤ 'Z' ∨ 'a' ≤ c ∧ c ≤ 'z' ∨ c = '_') *
    (one fun c => 'A' ≤ c ∧ c ≤ 'Z' ∨ 'a' ≤ c ∧ c ≤ 'z' ∨ '0' ≤ c ∧ c ≤ '9' ∨ c = '_' ∨ c = '-')∗

/-- At least one digit. -/
def digits : Language Char :=
  one (fun c => '0' ≤ c ∧ c ≤ '9') * (one fun c => '0' ≤ c ∧ c ≤ '9')∗

/-- A point and digits. -/
def fraction : Language Char :=
  word ['.'] * digits

/-- A mark, a sign or none, and digits. -/
def exponent : Language Char :=
  one (· ∈ ['e', 'E']) * ((1 + one (· ∈ ['+', '-'])) * digits)

/-- The dash that may stand in front of a marker. -/
def dash : Language Char :=
  1 + word ['-']

end Pattern

open Pattern

/-- The pattern of a shape.  Of block comments, quoted texts and heredocs it is the pattern of the
opening. -/
def Shape.pattern : Shape → Language Char
  | .blank => space * space∗
  | .newline => lineEnd
  | .lineComment => word ['#'] * remark + word ['/', '/'] * remark
  | .blockComment => word ['/', '*']
  | .quoted => word ['"']
  | .heredoc => word ['<', '<'] * (dash * (name * lineEnd))
  | .openBrace => word ['{']
  | .closeBrace => word ['}']
  | .openParen => word ['(']
  | .closeParen => word [')']
  | .openBracket => word ['[']
  | .closeBracket => word [']']
  | .equals => word ['=']
  | .arrow => word ['=', '>']
  | .colon => word [':']
  | .dot => word ['.']
  | .ellipsis => word ['.', '.', '.']
  | .question => word ['?']
  | .comma => word [',']
  | .operator => word ['=', '='] + word ['!', '='] + word ['<', '='] + word ['>', '='] +
      word ['&', '&'] + word ['|', '|'] + one (· ∈ ['+', '-', '*', '/', '%', '<', '>', '!'])
  | .number => digits * ((1 + fraction) * (1 + exponent))
  | .identifier => name

/-! ## Texts of a pattern -/

section Membership

variable {c : Char} {t : Text} {p : Char → Prop} {l m : Language Char}

theorem mem_word {w : Text} : t ∈ word w ↔ t = w := Iff.rfl

theorem mem_one : t ∈ one p ↔ ∃ c, t = [c] ∧ p c := Iff.rfl

theorem mem_one_kstar : t ∈ (one p)∗ ↔ ∀ c ∈ t, p c := by
  rw [Language.mem_kstar]
  constructor
  · rintro ⟨parts, rfl, hparts⟩ c hc
    obtain ⟨part, hpart, hin⟩ := List.mem_flatten.1 hc
    obtain ⟨d, rfl, hd⟩ := hparts part hpart
    rwa [List.mem_singleton.1 hin]
  · intro h
    refine ⟨t.map fun c => [c], by rw [← List.flatMap_def, List.flatMap_singleton'], fun part hpart => ?_⟩
    obtain ⟨c, hc, rfl⟩ := List.mem_map.1 hpart
    exact ⟨c, rfl, h c hc⟩

theorem mem_word_mul {w : Text} : t ∈ word w * l ↔ ∃ u, t = w ++ u ∧ u ∈ l := by
  rw [Language.mem_mul]
  constructor
  · rintro ⟨_, rfl, u, hu, rfl⟩
    exact ⟨u, rfl, hu⟩
  · rintro ⟨u, rfl, hu⟩
    exact ⟨w, rfl, u, hu, rfl⟩

theorem mem_one_mul : t ∈ one p * l ↔ ∃ c u, t = c :: u ∧ p c ∧ u ∈ l := by
  rw [Language.mem_mul]
  constructor
  · rintro ⟨_, ⟨c, rfl, hc⟩, u, hu, rfl⟩
    exact ⟨c, u, rfl, hc, hu⟩
  · rintro ⟨c, u, rfl, hc, hu⟩
    exact ⟨[c], ⟨c, rfl, hc⟩, u, hu, rfl⟩

theorem cons_mem_one_mul : c :: t ∈ one p * l ↔ p c ∧ t ∈ l := by
  rw [mem_one_mul]
  constructor
  · rintro ⟨d, u, heq, hd, hu⟩
    obtain ⟨rfl, rfl⟩ := List.cons.inj heq
    exact ⟨hd, hu⟩
  · rintro ⟨hc, ht⟩
    exact ⟨c, t, rfl, hc, ht⟩

theorem mem_optional : t ∈ 1 + m ↔ t = [] ∨ t ∈ m := by
  rw [Language.mem_add, Language.mem_one]

theorem mem_optional_mul : t ∈ (1 + m) * l ↔ t ∈ l ∨ t ∈ m * l := by
  rw [add_mul, one_mul, Language.mem_add]

/-! ### Classes of characters -/

theorem isSpace_iff : isSpace c = true ↔ c ∈ [' ', '\t'] := by
  simp [isSpace]

theorem isLineEnd_iff : isLineEnd c = false ↔ c ∉ ['\r', '\n'] := by
  simp [isLineEnd]

theorem isDigit_iff : c.isDigit = true ↔ '0' ≤ c ∧ c ≤ '9' :=
  Bool.and_eq_true_iff.trans (and_congr decide_eq_true_iff decide_eq_true_iff)

theorem isAlpha_iff : c.isAlpha = true ↔ 'A' ≤ c ∧ c ≤ 'Z' ∨ 'a' ≤ c ∧ c ≤ 'z' := by
  have hupper : c.isUpper = true ↔ 'A' ≤ c ∧ c ≤ 'Z' := decide_eq_true_iff
  have hlower : c.isLower = true ↔ 'a' ≤ c ∧ c ≤ 'z' :=
    Bool.and_eq_true_iff.trans (and_congr decide_eq_true_iff decide_eq_true_iff)
  exact Bool.or_eq_true_iff.trans (or_congr hupper hlower)

theorem isNameStart_iff :
    isNameStart c = true ↔ 'A' ≤ c ∧ c ≤ 'Z' ∨ 'a' ≤ c ∧ c ≤ 'z' ∨ c = '_' := by
  simp only [isNameStart, Bool.or_eq_true, isAlpha_iff, beq_iff_eq, or_assoc]

theorem isNamePart_iff :
    isNamePart c = true ↔
      'A' ≤ c ∧ c ≤ 'Z' ∨ 'a' ≤ c ∧ c ≤ 'z' ∨ '0' ≤ c ∧ c ≤ '9' ∨ c = '_' ∨ c = '-' := by
  have halnum : c.isAlphanum = true ↔ c.isAlpha = true ∨ c.isDigit = true := Bool.or_eq_true_iff
  simp only [isNamePart, Bool.or_eq_true, halnum, isAlpha_iff, isDigit_iff, beq_iff_eq, or_assoc]

theorem isNameStart_of_isDigit (h : c.isDigit = true) : isNameStart c = false := by
  obtain ⟨-, hle⟩ := isDigit_iff.1 h
  by_contra hne
  rcases isNameStart_iff.1 (by simpa using hne) with ⟨hA, -⟩ | ⟨ha, -⟩ | rfl
  · exact absurd (Char.le_trans hA hle) (by decide)
  · exact absurd (Char.le_trans ha hle) (by decide)
  · exact absurd hle (by decide)

theorem mem_lineEnd : t ∈ lineEnd ↔ t = ['\n'] ∨ t = ['\r', '\n'] := by
  rw [lineEnd, mem_optional_mul, mem_word_mul, mem_word]
  constructor
  · rintro (rfl | ⟨_, rfl, rfl⟩)
    · exact Or.inl rfl
    · exact Or.inr rfl
  · rintro (rfl | rfl)
    · exact Or.inl rfl
    · exact Or.inr ⟨_, rfl, rfl⟩

theorem mem_remark : t ∈ remark ↔ ∀ d ∈ t, isLineEnd d = false := by
  simp only [remark, mem_one_kstar, isLineEnd_iff]

theorem mem_dash : t ∈ dash ↔ t = [] ∨ t = ['-'] := by
  rw [dash, mem_optional, mem_word]

theorem mem_name :
    t ∈ name ↔ ∃ c u, t = c :: u ∧ isNameStart c = true ∧ ∀ d ∈ u, isNamePart d = true := by
  simp only [name, mem_one_mul, mem_one_kstar, isNameStart_iff, isNamePart_iff]

theorem isNamePart_of_mem_name (h : t ∈ name) : ∀ d ∈ t, isNamePart d = true := by
  obtain ⟨c, u, rfl, hc, hu⟩ := mem_name.1 h
  exact List.forall_mem_cons.2 ⟨Heredoc.isNamePart_of_isNameStart hc, hu⟩

theorem mem_digits :
    t ∈ digits ↔ ∃ c u, t = c :: u ∧ c.isDigit = true ∧ ∀ d ∈ u, d.isDigit = true := by
  simp only [digits, mem_one_mul, mem_one_kstar, isDigit_iff]

/-- Behind its first character a text of the pattern goes on as follows. -/
def Shape.Continues (c : Char) (t : Text) : Shape → Prop
  | .blank => isSpace c = true ∧ ∀ d ∈ t, isSpace d = true
  | .newline => c = '\n' ∧ t = [] ∨ c = '\r' ∧ t = ['\n']
  | .lineComment => (c = '#' ∨ c = '/' ∧ t.head? = some '/') ∧ ∀ d ∈ t, isLineEnd d = false
  | .blockComment => c = '/' ∧ t = ['*']
  | .quoted => c = '"' ∧ t = []
  | .heredoc => c = '<' ∧ ∃ minus marker stop, t = '<' :: (minus ++ (marker ++ stop)) ∧
      minus ∈ dash ∧ marker ∈ name ∧ stop ∈ lineEnd
  | .openBrace => c = '{' ∧ t = []
  | .closeBrace => c = '}' ∧ t = []
  | .openParen => c = '(' ∧ t = []
  | .closeParen => c = ')' ∧ t = []
  | .openBracket => c = '[' ∧ t = []
  | .closeBracket => c = ']' ∧ t = []
  | .equals => c = '=' ∧ t = []
  | .arrow => c = '=' ∧ t = ['>']
  | .colon => c = ':' ∧ t = []
  | .dot => c = '.' ∧ t = []
  | .ellipsis => c = '.' ∧ t = ['.', '.']
  | .question => c = '?' ∧ t = []
  | .comma => c = ',' ∧ t = []
  | .operator => c ∈ ['+', '-', '*', '/', '%', '<', '>', '!'] ∧ t = [] ∨
      c ∈ ['=', '!', '<', '>'] ∧ t = ['='] ∨ c = '&' ∧ t = ['&'] ∨ c = '|' ∧ t = ['|']
  | .number => c.isDigit = true ∧ ∃ whole part scale, t = whole ++ (part ++ scale) ∧
      (∀ d ∈ whole, d.isDigit = true) ∧ part ∈ 1 + fraction ∧ scale ∈ 1 + exponent
  | .identifier => isNameStart c = true ∧ ∀ d ∈ t, isNamePart d = true

theorem cons_mem_lineComment : c :: t ∈ Shape.lineComment.pattern ↔ Shape.lineComment.Continues c t := by
  simp only [Shape.pattern, Shape.Continues, Language.mem_add, mem_word_mul, mem_remark]
  constructor
  · rintro (⟨u, heq, hu⟩ | ⟨u, heq, hu⟩)
    · obtain ⟨rfl, rfl⟩ := List.cons.inj heq
      exact ⟨Or.inl rfl, hu⟩
    · obtain ⟨rfl, rfl⟩ := List.cons.inj heq
      refine ⟨Or.inr ⟨rfl, rfl⟩, List.forall_mem_cons.2 ⟨by decide, hu⟩⟩
  · rintro ⟨rfl | ⟨rfl, hhead⟩, ht⟩
    · exact Or.inl ⟨t, rfl, ht⟩
    · obtain ⟨u, rfl⟩ := List.head?_eq_some_iff.1 hhead
      exact Or.inr ⟨u, rfl, (List.forall_mem_cons.1 ht).2⟩

theorem cons_mem_heredoc : c :: t ∈ Shape.heredoc.pattern ↔ Shape.heredoc.Continues c t := by
  simp only [Shape.pattern, Shape.Continues, mem_word_mul]
  constructor
  · rintro ⟨u, heq, minus, hminus, _, ⟨marker, hmarker, stop, hstop, rfl⟩, rfl⟩
    obtain ⟨rfl, rfl⟩ := List.cons.inj heq
    exact ⟨rfl, minus, marker, stop, rfl, hminus, hmarker, hstop⟩
  · rintro ⟨rfl, minus, marker, stop, rfl, hminus, hmarker, hstop⟩
    exact ⟨_, rfl, minus, hminus, _, ⟨marker, hmarker, stop, hstop, rfl⟩, rfl⟩

theorem cons_mem_operator : c :: t ∈ Shape.operator.pattern ↔ Shape.operator.Continues c t := by
  simp only [Shape.pattern, Shape.Continues, Language.mem_add, mem_word, mem_one, List.cons.injEq,
    List.mem_cons, List.not_mem_nil, or_false]
  grind

theorem cons_mem_number : c :: t ∈ Shape.number.pattern ↔ Shape.number.Continues c t := by
  simp only [Shape.pattern, Shape.Continues]
  constructor
  · rintro ⟨_, hdigits, _, ⟨part, hpart, scale, hscale, rfl⟩, heq⟩
    obtain ⟨d, whole, rfl, hd, hwhole⟩ := mem_digits.1 hdigits
    obtain ⟨rfl, rfl⟩ := List.cons.inj heq
    exact ⟨hd, whole, part, scale, rfl, hwhole, hpart, hscale⟩
  · rintro ⟨hc, whole, part, scale, rfl, hwhole, hpart, hscale⟩
    exact ⟨c :: whole, mem_digits.2 ⟨c, whole, rfl, hc, hwhole⟩, _,
      ⟨part, hpart, scale, hscale, rfl⟩, rfl⟩

theorem cons_mem_pattern {shape : Shape} : c :: t ∈ shape.pattern ↔ shape.Continues c t := by
  cases shape with
  | blank =>
    simp only [Shape.pattern, Shape.Continues, space, cons_mem_one_mul, mem_one_kstar, isSpace_iff]
  | newline => simp only [Shape.pattern, Shape.Continues, mem_lineEnd, List.cons.injEq]
  | lineComment => exact cons_mem_lineComment
  | heredoc => exact cons_mem_heredoc
  | operator => exact cons_mem_operator
  | number => exact cons_mem_number
  | identifier =>
    simp only [Shape.pattern, Shape.Continues, name, cons_mem_one_mul, mem_one_kstar, isNameStart_iff,
      isNamePart_iff]
  | _ => simp only [Shape.pattern, Shape.Continues, mem_word, List.cons.injEq]

/-- The characters that texts of the pattern start with, apart from digits and the starts of names. -/
def Shape.initials : Shape → List Char
  | .blank => [' ', '\t']
  | .newline => ['\n', '\r']
  | .lineComment => ['#', '/']
  | .blockComment => ['/']
  | .quoted => ['"']
  | .heredoc => ['<']
  | .openBrace => ['{']
  | .closeBrace => ['}']
  | .openParen => ['(']
  | .closeParen => [')']
  | .openBracket => ['[']
  | .closeBracket => [']']
  | .equals | .arrow => ['=']
  | .colon => [':']
  | .dot | .ellipsis => ['.']
  | .question => ['?']
  | .comma => [',']
  | .operator => ['=', '!', '<', '>', '&', '|', '+', '-', '*', '/', '%']
  | .number | .identifier => []

theorem Shape.Continues.mem_initials {shape : Shape} (h : shape.Continues c t) :
    c ∈ shape.initials ∨ (shape = .number ∧ c.isDigit = true) ∨
      (shape = .identifier ∧ isNameStart c = true) := by
  cases shape with
  | blank => exact Or.inl (isSpace_iff.1 h.1)
  | newline => exact Or.inl (by rcases h with ⟨rfl, -⟩ | ⟨rfl, -⟩ <;> decide)
  | lineComment => exact Or.inl (by rcases h.1 with rfl | ⟨rfl, -⟩ <;> decide)
  | operator =>
    left
    rcases h with ⟨hc, -⟩ | ⟨hc, -⟩ | ⟨rfl, -⟩ | ⟨rfl, -⟩
    · exact (by decide : ['+', '-', '*', '/', '%', '<', '>', '!'] ⊆ Shape.operator.initials) hc
    · exact (by decide : ['=', '!', '<', '>'] ⊆ Shape.operator.initials) hc
    · decide
    · decide
  | number => exact Or.inr (Or.inl ⟨rfl, h.1⟩)
  | identifier => exact Or.inr (Or.inr ⟨rfl, h.1⟩)
  | _ => exact Or.inl (List.mem_singleton.2 h.1)

theorem Shape.initials_subset (shape : Shape) :
    shape.initials ⊆ [' ', '\t', '\n', '\r', '#', '/', '"', '<', '{', '}', '(', ')', '[', ']', '=', '.',
      ':', '?', ',', '!', '>', '&', '|', '+', '-', '*', '%'] := by
  cases shape <;> decide

/-- A character that texts of one pattern start with. -/
theorem Shape.Continues.eq_of_initials {shape other : Shape} (h : other.Continues c t)
    (hdigit : c.isDigit = false) (hname : isNameStart c = false)
    (honly : ∀ other : Shape, c ∈ other.initials → other = shape) : other = shape := by
  rcases h.mem_initials with hin | ⟨-, hc⟩ | ⟨-, hc⟩
  · exact honly other hin
  · rw [hdigit] at hc
    cases hc
  · rw [hname] at hc
    cases hc

/-- No pattern has the empty text. -/
theorem nil_notMem_pattern (shape : Shape) : [] ∉ shape.pattern := by
  cases shape with
  | blank => simp [Shape.pattern, space, mem_one_mul]
  | newline => simp [Shape.pattern, mem_lineEnd]
  | lineComment =>
    simp only [Shape.pattern, Language.mem_add, mem_word_mul]
    rintro (⟨u, heq, -⟩ | ⟨u, heq, -⟩) <;> cases heq
  | heredoc => simp [Shape.pattern, mem_word_mul]
  | operator =>
    simp only [Shape.pattern, Language.mem_add, mem_word, mem_one]
    simp
  | number =>
    rintro ⟨_, hdigits, _, -, heq⟩
    obtain ⟨d, u, rfl, -⟩ := mem_digits.1 hdigits
    cases heq
  | identifier => simp [Shape.pattern, mem_name]
  | _ => simp [Shape.pattern, mem_word]

end Membership

/-! ## Runs of characters of a class -/

section Run

variable {p : Char → Bool} {rest t : Text}

theorem length_le_takeWhile (ht : t <+: rest) (h : ∀ d ∈ t, p d = true) :
    t.length ≤ (rest.takeWhile p).length := by
  obtain ⟨z, rfl⟩ := ht
  rw [List.takeWhile_append_of_pos h, List.length_append]
  exact Nat.le_add_right _ _

theorem mem_take_takeWhile {d : Char} (h : d ∈ rest.take (rest.takeWhile p).length) : p d = true := by
  rw [← List.prefix_iff_eq_take.1 (List.takeWhile_prefix p)] at h
  exact List.mem_takeWhile_imp h

end Run

/-! ## Numbers -/

section Number

open Lexeme (digitCount_cons fractionLength_point fractionLength_of_head exponentLength_cons_cons)

variable {t u w : Text}

theorem mem_fraction : t ∈ fraction ↔ ∃ u, t = '.' :: u ∧ u ∈ digits := mem_word_mul

theorem mem_exponent :
    t ∈ exponent ↔ ∃ mark u, t = mark :: u ∧ (mark = 'e' ∨ mark = 'E') ∧
      (u ∈ digits ∨ ∃ sign v, u = sign :: v ∧ (sign = '+' ∨ sign = '-') ∧ v ∈ digits) := by
  simp only [exponent, mem_one_mul, mem_optional_mul, List.mem_cons, List.not_mem_nil, or_false]

theorem digitCount_append (h : ∀ d ∈ w, d.isDigit = true) (u : Text) :
    digitCount (w ++ u) = w.length + digitCount u := by
  rw [digitCount, List.takeWhile_append_of_pos h, List.length_append]
  rfl

theorem digitCount_digits (h : w ∈ digits) (u : Text) :
    0 < w.length ∧ digitCount (w ++ u) = w.length + digitCount u := by
  obtain ⟨c, v, rfl, hc, hv⟩ := mem_digits.1 h
  exact ⟨by simp, digitCount_append (List.forall_mem_cons.2 ⟨hc, hv⟩) u⟩

/-- A fraction is no end of a whole number, and digits behind it make it longer. -/
theorem fractionLength_append (h : w ∈ fraction) (u : Text) :
    digitCount (w ++ u) = 0 ∧ fractionLength (w ++ u) = w.length + digitCount u := by
  obtain ⟨v, rfl, hv⟩ := mem_fraction.1 h
  obtain ⟨hpos, hcount⟩ := digitCount_digits hv u
  constructor
  · rw [List.cons_append, digitCount_cons]
    rfl
  · rw [List.cons_append, fractionLength_point, hcount, if_neg (by omega), List.length_cons]
    omega

/-- Neither does an exponent go on with what is in front of it. -/
theorem exponentLength_append (h : w ∈ exponent) (u : Text) :
    digitCount (w ++ u) = 0 ∧ fractionLength (w ++ u) = 0 ∧
      exponentLength (w ++ u) = w.length + digitCount u := by
  obtain ⟨mark, v, rfl, hmark, hv⟩ := mem_exponent.1 h
  refine ⟨?_, fractionLength_of_head ?_, ?_⟩
  · rw [List.cons_append, digitCount_cons]
    rcases hmark with rfl | rfl <;> rfl
  · rcases hmark with rfl | rfl <;> simp
  · rcases hv with hv | ⟨sign, v, rfl, hsign, hv⟩
    · obtain ⟨c, v, rfl, hc, hdigits⟩ := mem_digits.1 hv
      have hsign : ¬ (c = '+' ∨ c = '-') := by
        rintro (rfl | rfl) <;> exact absurd hc (by decide)
      obtain ⟨hpos, hcount⟩ := digitCount_digits hv u
      rw [List.cons_append] at hcount
      rw [List.cons_append, List.cons_append, exponentLength_cons_cons, if_pos hmark, if_neg hsign, hcount,
        if_neg (by omega)]
      simp only [List.length_cons]
      omega
    · obtain ⟨hpos, hcount⟩ := digitCount_digits hv u
      rw [List.cons_append, List.cons_append, exponentLength_cons_cons, if_pos hmark, if_pos hsign, hcount,
        if_neg (by omega), List.length_cons, List.length_cons]
      omega

/-- No number at the front of a text is longer than the one that is read. -/
theorem length_le_numberLength {c : Char} (h : Shape.number.Continues c t) (u : Text) :
    t.length ≤ numberLength (t ++ u) := by
  obtain ⟨-, whole, part, scale, rfl, hwhole, hpart, hscale⟩ := h
  rw [List.append_assoc, List.append_assoc]
  simp only [numberLength, digitCount_append hwhole, List.length_append]
  rcases mem_optional.1 hscale with rfl | hscale
  · rcases mem_optional.1 hpart with rfl | hpart
    · simp only [List.length_nil]
      omega
    · -- the fraction is as long as its digits go on
      obtain ⟨hcount, hlength⟩ := fractionLength_append hpart ([] ++ u)
      rw [hcount, Nat.add_zero, List.drop_left, hlength, List.length_nil]
      omega
  · obtain ⟨hcount, hpoint, hlength⟩ := exponentLength_append hscale u
    rcases mem_optional.1 hpart with rfl | hpart
    · rw [List.nil_append, hcount, Nat.add_zero, List.drop_left, hpoint, Nat.add_zero, List.drop_left,
        hlength, List.length_nil]
      omega
    · obtain ⟨hcount', hlength'⟩ := fractionLength_append hpart (scale ++ u)
      rw [hcount', Nat.add_zero, List.drop_left, hlength', hcount, Nat.add_zero, ← List.drop_drop,
        List.drop_left, List.drop_left, hlength]
      omega

theorem take_mem_digits (h : digitCount u ≠ 0) : u.take (digitCount u) ∈ digits := by
  have hall : ∀ d ∈ u.take (digitCount u), d.isDigit = true := fun d hd => mem_take_takeWhile hd
  cases hu : u.take (digitCount u) with
  | nil =>
    cases u with
    | nil => exact absurd rfl h
    | cons c u => simp [h] at hu
  | cons c v =>
    rw [hu] at hall
    exact mem_digits.2 ⟨c, v, rfl, List.forall_mem_cons.1 hall⟩

theorem take_mem_fraction (u : Text) : u.take (fractionLength u) ∈ 1 + fraction := by
  rw [mem_optional]
  unfold fractionLength
  split
  · split
    · exact Or.inl rfl
    · rename_i hcount
      exact Or.inr (mem_fraction.2 ⟨_, rfl, take_mem_digits hcount⟩)
  · exact Or.inl rfl

theorem take_mem_exponent (u : Text) : u.take (exponentLength u) ∈ 1 + exponent := by
  rw [mem_optional]
  match u with
  | [] => exact Or.inl rfl
  | [c] => exact Or.inl rfl
  | mark :: sign :: u =>
    rw [exponentLength_cons_cons]
    split_ifs with hmark hsign hcount hcount
    · exact Or.inl rfl
    · exact Or.inr (mem_exponent.2
        ⟨mark, _, rfl, hmark, Or.inr ⟨sign, _, rfl, hsign, take_mem_digits hcount⟩⟩)
    · exact Or.inl rfl
    · exact Or.inr (mem_exponent.2 ⟨mark, _, rfl, hmark, Or.inl (take_mem_digits hcount)⟩)
    · exact Or.inl rfl

/-- What is read as a number is one. -/
theorem continues_number {c : Char} (hc : c.isDigit = true) (rest : Text) :
    Shape.number.Continues c (rest.take (numberLength rest)) := by
  refine ⟨hc, rest.take (digitCount rest), (rest.drop (digitCount rest)).take
    (fractionLength (rest.drop (digitCount rest))), (rest.drop (digitCount rest +
      fractionLength (rest.drop (digitCount rest)))).take _, ?_, fun d hd => mem_take_takeWhile hd,
    take_mem_fraction _, take_mem_exponent _⟩
  rw [numberLength, List.take_add, List.take_add, List.append_assoc]

end Number

/-! ## Opening lines of heredocs -/

namespace Heredoc

variable {minus marker stop u : Text}

/-- A marker behind `<<` or `<<-`, as far as its name goes. -/
theorem opening_of_marker (hminus : minus ∈ dash) (hmarker : marker ∈ name)
    (hu : u.takeWhile isNamePart = []) :
    opening ('<' :: (minus ++ (marker ++ u))) = openingBehind (1 + minus.length) marker u := by
  obtain ⟨c, m, rfl, hc, hm⟩ := mem_name.1 hmarker
  rcases mem_dash.1 hminus with rfl | rfl
  · have hhead : (c :: m ++ u).head? ≠ some '-' := by
      rintro heq
      obtain rfl : c = '-' := Option.some.inj heq
      exact absurd hc (by decide)
    rw [List.nil_append, opening_less hhead]
    exact openingAfter_marker hc hm hu
  · exact openingAfter_marker hc hm hu

theorem opening_cases (u : Text) :
    opening u = .absent ∨ ∃ minus marker behind, u = '<' :: (minus ++ (marker ++ behind)) ∧
      minus ∈ dash ∧ marker ∈ name ∧ behind.takeWhile isNamePart = [] := by
  unfold opening
  split
  · rename_i rest
    rcases openingAfter_cases rest with ⟨habsent, -⟩ | ⟨c, m, x, rfl, hc, hm, hx⟩
    · exact Or.inl (habsent 2)
    · exact Or.inr ⟨['-'], c :: m, x, rfl, mem_dash.2 (Or.inr rfl), mem_name.2 ⟨c, m, rfl, hc, hm⟩, hx⟩
  · rename_i rest _
    rcases openingAfter_cases rest with ⟨habsent, -⟩ | ⟨c, m, x, rfl, hc, hm, hx⟩
    · exact Or.inl (habsent 1)
    · exact Or.inr ⟨[], c :: m, x, rfl, mem_dash.2 (Or.inl rfl), mem_name.2 ⟨c, m, rfl, hc, hm⟩, hx⟩
  · exact Or.inl rfl

/-- An opening line is read up to its end. -/
theorem opening_of_line (hminus : minus ∈ dash) (hmarker : marker ∈ name) (hstop : stop ∈ lineEnd)
    (u : Text) :
    opening ('<' :: (minus ++ (marker ++ stop)) ++ u) =
      .line marker ('<' :: (minus ++ (marker ++ stop))).length := by
  have hcut : '<' :: (minus ++ (marker ++ stop)) ++ u = '<' :: (minus ++ (marker ++ (stop ++ u))) := by
    simp
  have hname : (stop ++ u).takeWhile isNamePart = [] := by
    rcases mem_lineEnd.1 hstop with rfl | rfl <;> rfl
  have hline : openingBehind (1 + minus.length) marker (stop ++ u) =
      .line marker (1 + minus.length + marker.length + stop.length) := by
    rcases mem_lineEnd.1 hstop with rfl | rfl <;> rfl
  have hlength : 1 + minus.length + marker.length + stop.length =
      ('<' :: (minus ++ (marker ++ stop))).length := by
    simp only [List.length_cons, List.length_append]
    omega
  rw [hcut, opening_of_marker hminus hmarker hname, hline, hlength]

theorem openingBehind_cases (u : Text) :
    (∃ stop behind, u = stop ++ behind ∧ stop ∈ lineEnd) ∨
      (∀ stop, stop <+: u → stop ∉ lineEnd) ∧
        ∀ k marker, openingBehind k marker u = .broken (k + marker.length) := by
  by_cases h : ∃ stop behind, u = stop ++ behind ∧ stop ∈ lineEnd
  · exact Or.inl h
  · have hnone : ∀ stop, stop <+: u → stop ∉ lineEnd := by
      rintro stop ⟨behind, rfl⟩ hstop
      exact h ⟨stop, behind, rfl, hstop⟩
    refine Or.inr ⟨hnone, fun k marker => ?_⟩
    unfold openingBehind
    split
    · exact absurd (mem_lineEnd.2 (Or.inl rfl)) (hnone ['\n'] ⟨_, rfl⟩)
    · exact absurd (mem_lineEnd.2 (Or.inr rfl)) (hnone ['\r', '\n'] ⟨_, rfl⟩)
    · rfl

end Heredoc

end TagBox
