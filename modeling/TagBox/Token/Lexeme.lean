import TagBox.Token.Quoted
import TagBox.Token.Heredoc

/-!
# Lexemes

The lexical grammar of the tokenizer of yorbox (its specification, §10.1).

A lexeme is a non-empty piece of source text together with what it was read as: one of the shapes
of the language, or a fault.  At each position the longest lexeme wins; comments, quoted texts and
heredocs are then extended to their end.  A text is cut into lexemes without a gap, and reading goes
on behind a fault.

* `Shape`, `Fault` — what a piece of text can be.
* `Lexeme.measure` — shape and length of the lexeme at the front of a text.
* `lexemes` — all lexemes of a text.
-/

namespace TagBox

/-- The shapes of lexemes. -/
inductive Shape where
  /-- Spaces and tabs. -/
  | blank
  | newline
  | lineComment
  | blockComment
  | quoted
  | heredoc
  | openBrace
  | closeBrace
  | openParen
  | closeParen
  | openBracket
  | closeBracket
  | equals
  | arrow
  | colon
  | dot
  | ellipsis
  | question
  | comma
  | operator
  | number
  | identifier
  deriving DecidableEq, Repr

/-- Why a piece of text is no lexeme of the language. -/
inductive Fault where
  | unrecognized
  | unterminatedString
  | unterminatedComment
  | unterminatedHeredoc
  deriving DecidableEq, Repr

/-- A piece of source text and what it was read as. -/
structure Lexeme where
  reading : Except Fault Shape
  text : Text

namespace Lexeme

/-- Is the character a space or a tab? -/
def isSpace (c : Char) : Bool :=
  c == ' ' || c == '\t'

/-- Does the character end a line comment? -/
def isLineEnd (c : Char) : Bool :=
  c == '\r' || c == '\n'

/-- Length of a block comment from behind its `/*`, the `*/` included. -/
def commentLength : Text → Option Nat
  | [] => none
  | '*' :: '/' :: _ => some 2
  | _ :: rest => (commentLength rest).map (· + 1)

/-- Number of digits that the text starts with. -/
def digitCount (text : Text) : Nat :=
  (text.takeWhile Char.isDigit).length

/-- Length of the fraction that the text starts with: a point and at least one digit. -/
def fractionLength : Text → Nat
  | '.' :: rest => if digitCount rest = 0 then 0 else digitCount rest + 1
  | _ => 0

/-- Length of the exponent that the text starts with: a mark, a sign or none, and at least one
digit. -/
def exponentLength : Text → Nat
  | mark :: sign :: rest =>
    if mark = 'e' ∨ mark = 'E' then
      if sign = '+' ∨ sign = '-' then
        if digitCount rest = 0 then 0 else digitCount rest + 2
      else if digitCount (sign :: rest) = 0 then 0 else digitCount (sign :: rest) + 1
    else 0
  | _ => 0

/-- Length of the rest of a number whose first digit has been read. -/
def numberLength (rest : Text) : Nat :=
  let whole := digitCount rest
  let fraction := fractionLength (rest.drop whole)
  whole + fraction + exponentLength (rest.drop (whole + fraction))

/-- The lexeme whose first character is `<`. -/
def measureLess (rest : Text) : Except Fault Shape × Nat :=
  match Heredoc.opening rest with
  | .line marker length =>
    match Heredoc.bodyLength marker (rest.drop length) with
    | some body => (.ok .heredoc, length + body)
    | none => (.error .unterminatedHeredoc, length)
  | .broken length => (.error .unrecognized, length)
  | .absent => (.ok .operator, if rest.head? = some '=' then 1 else 0)

/-- The lexeme whose first character is `/`. -/
def measureSlash (rest : Text) : Except Fault Shape × Nat :=
  match rest with
  | '/' :: _ => (.ok .lineComment, (rest.takeWhile (!isLineEnd ·)).length)
  | '*' :: body =>
    match commentLength body with
    | some length => (.ok .blockComment, length + 1)
    | none => (.error .unterminatedComment, 1)
  | _ => (.ok .operator, 0)

/-- A lexeme of two characters if `second` follows, and of one otherwise. -/
def oneOrTwo (second : Char) (two one : Except Fault Shape) (rest : Text) :
    Except Fault Shape × Nat :=
  if rest.head? = some second then (two, 1) else (one, 0)

/-- What the lexeme that starts with `first` is, and how many characters of `rest` belong to it. -/
def measure (first : Char) (rest : Text) : Except Fault Shape × Nat :=
  match first with
  | ' ' | '\t' => (.ok .blank, (rest.takeWhile isSpace).length)
  | '\n' => (.ok .newline, 0)
  | '\r' => oneOrTwo '\n' (.ok .newline) (.error .unrecognized) rest
  | '#' => (.ok .lineComment, (rest.takeWhile (!isLineEnd ·)).length)
  | '/' => measureSlash rest
  | '"' =>
    match Quoted.length? rest with
    | some length => (.ok .quoted, length)
    | none => (.error .unterminatedString, 0)
  | '<' => measureLess rest
  | '{' => (.ok .openBrace, 0)
  | '}' => (.ok .closeBrace, 0)
  | '(' => (.ok .openParen, 0)
  | ')' => (.ok .closeParen, 0)
  | '[' => (.ok .openBracket, 0)
  | ']' => (.ok .closeBracket, 0)
  | '=' => if rest.head? = some '>' then (.ok .arrow, 1)
           else oneOrTwo '=' (.ok .operator) (.ok .equals) rest
  | '.' => if rest.take 2 = ['.', '.'] then (.ok .ellipsis, 2) else (.ok .dot, 0)
  | ':' => (.ok .colon, 0)
  | '?' => (.ok .question, 0)
  | ',' => (.ok .comma, 0)
  | '!' | '>' => oneOrTwo '=' (.ok .operator) (.ok .operator) rest
  | '&' => oneOrTwo '&' (.ok .operator) (.error .unrecognized) rest
  | '|' => oneOrTwo '|' (.ok .operator) (.error .unrecognized) rest
  | '+' | '-' | '*' | '%' => (.ok .operator, 0)
  | _ =>
    if first.isDigit then (.ok .number, numberLength rest)
    else if isNameStart first then (.ok .identifier, (rest.takeWhile isNamePart).length)
    else (.error .unrecognized, 0)

/-- The lexeme that starts with `first`. -/
def read (first : Char) (rest : Text) : Lexeme :=
  { reading := (measure first rest).1, text := first :: rest.take (measure first rest).2 }

end Lexeme

/-- The lexemes of a text of which the first `skip` characters have been read already. -/
def lexemesAfter : (skip : Nat) → Text → List Lexeme
  | _, [] => []
  | skip + 1, _ :: rest => lexemesAfter skip rest
  | 0, first :: rest =>
    Lexeme.read first rest :: lexemesAfter (Lexeme.measure first rest).2 rest

/-- The lexemes of a text, in order and without a gap. -/
def lexemes (source : Text) : List Lexeme :=
  lexemesAfter 0 source

theorem lexemesAfter_eq_drop (skip : Nat) (source : Text) :
    lexemesAfter skip source = lexemes (source.drop skip) := by
  induction source generalizing skip with
  | nil => cases skip <;> rfl
  | cons c rest ih =>
    cases skip with
    | zero => rfl
    | succ n => simpa [lexemesAfter] using ih n

@[simp]
theorem lexemes_nil : lexemes [] = [] := rfl

theorem lexemes_cons (first : Char) (rest : Text) :
    lexemes (first :: rest) =
      Lexeme.read first rest :: lexemes (rest.drop (Lexeme.measure first rest).2) := by
  rw [← lexemesAfter_eq_drop]
  rfl

end TagBox
