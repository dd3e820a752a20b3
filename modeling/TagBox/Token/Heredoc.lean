import TagBox.Text.Blank

/-!
# Heredocs

The heredocs of the tokenizer of yorbox (its specification, §10.1).

A heredoc opens with `<<` or `<<-`, a marker and a line end, and runs to the first line that holds
nothing but the marker and white space.  The line end behind that line is not part of it.

* `Heredoc.opening` — what stands behind a `<` that may open a heredoc.
* `Heredoc.bodyLength` — where the body ends.
-/

namespace TagBox

/-- May an identifier start with the character? -/
def isNameStart (c : Char) : Bool :=
  c.isAlpha || c == '_'

/-- May the character continue an identifier? -/
def isNamePart (c : Char) : Bool :=
  c.isAlphanum || c == '_' || c == '-'

namespace Heredoc

/-- What follows the first `<` of a text that may open a heredoc. -/
inductive Opening where
  /-- No marker follows. -/
  | absent
  /-- A marker follows but no line end behind it; `length` characters belong to it all. -/
  | broken (length : Nat)
  /-- An opening line of `length` further characters, line end included. -/
  | line (marker : Text) (length : Nat)
  deriving DecidableEq, Repr

/-- Read the marker of an opening line, `skipped` characters behind the first `<`. -/
def openingAfter (skipped : Nat) (rest : Text) : Opening :=
  match rest with
  | [] => .absent
  | c :: _ =>
    if isNameStart c then
      let marker := rest.takeWhile isNamePart
      match rest.dropWhile isNamePart with
      | '\n' :: _ => .line marker (skipped + marker.length + 1)
      | '\r' :: '\n' :: _ => .line marker (skipped + marker.length + 2)
      | _ => .broken (skipped + marker.length)
    else .absent

/-- What follows the first `<` of a text that may open a heredoc. -/
def opening : Text → Opening
  | '<' :: '-' :: rest => openingAfter 2 rest
  | '<' :: rest => openingAfter 1 rest
  | _ => .absent

/-- The lines of a text, each with its line end. -/
def lines : Text → List Text
  | [] => []
  | '\n' :: rest => ['\n'] :: lines rest
  | c :: rest =>
    match lines rest with
    | [] => [[c]]
    | line :: more => (c :: line) :: more

/-- A line without its line end. -/
def lineContent (line : Text) : Text :=
  line.dropEndWhile fun c => c == '\n' || c == '\r'

/-- Length of the lines up to the end of the first one that holds only the marker. -/
def linesLength (marker : Text) : List Text → Option Nat
  | [] => none
  | line :: more =>
    let content := lineContent line
    if Text.trim content = marker then some content.length
    else (linesLength marker more).map (· + line.length)

/-- Length of a heredoc from behind its opening line. -/
def bodyLength (marker : Text) (body : Text) : Option Nat :=
  linesLength marker (lines body)

end Heredoc

end TagBox
