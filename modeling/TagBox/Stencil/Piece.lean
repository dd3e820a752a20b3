import TagBox.Stencil.Argument

/-!
# Pieces of a stencil

The part of the language of templates, handlebars, that stands around placeholders.  Partials, decorators
and raw blocks are left out and refused.

A stencil is cut into texts and tags.  A tag shows a value, starts, divides or ends a section, or is a
comment.  White space around tags goes away in two cases: a `~` at the edge of a tag takes the white
space on its side, and a tag that shows nothing and stands alone on its line takes the line with it.

* `Tag`, `Piece` — what a stencil is cut into.
* `readTag` — a tag, from behind its opening braces.
* `pieces` — the pieces of a stencil.
* `settle` — the pieces without the white space that goes away.
-/

namespace TagBox.Stencil

/-- What stands between double braces. -/
inductive Tag where
  /-- Show a value. -/
  | value (subject : Argument)
  /-- Start a section. -/
  | start (helper : Text) (arguments : List Argument) (named : List (Text × Argument))
  /-- The other branch of a section. -/
  | otherwise
  /-- The other branch, which is a section of its own. -/
  | otherwiseStart (helper : Text) (arguments : List Argument) (named : List (Text × Argument))
  /-- End a section. -/
  | finish (helper : Text)
  | comment

/-- A tag with what it does to the white space around it. -/
structure Placed where
  tag : Tag
  trimBefore : Bool := false
  trimAfter : Bool := false
  /-- Does it stand alone on its line? -/
  alone : Bool := false

/-- A text or a tag. -/
inductive Piece where
  | text (text : Text)
  | tag (placed : Placed)

/-! ## Reading tags -/

/-- The end of a tag: perhaps a `~`, then `closing`. -/
def readEnd (closing t : Text) : Option (Bool × Text) :=
  match expect ['~'] t with
  | some rest => (expect closing rest).map fun rest => (true, rest)
  | none => (expect closing t).map fun rest => (false, rest)

/-- The braces that open a tag. -/
def openingBraces : Text := ['{', '{']

/-- The braces that close a tag. -/
def closingBraces : Text := ['}', '}']

/-- Put a tag together: what was read, and the end behind it. -/
def finishTag (trimBefore : Bool) (closing : Text) (tag : Tag) (rest : Text) : Option (Placed × Text) :=
  (readEnd closing rest).map fun (trimAfter, rest) => ({ tag, trimBefore, trimAfter }, rest)

/-- The text behind the first occurrence of `mark`. -/
def behind (mark : Text) : Text → Option Text
  | [] => none
  | c :: rest =>
    match Text.stripStart mark (c :: rest) with
    | some found => some found
    | none => behind mark rest

/-- The rest of a comment.  One that starts with two dashes may end with two dashes, and then holds
closing braces. -/
def readComment (t : Text) : Option (Placed × Text) :=
  let dashed := (expect ['-', '-'] t).bind (behind ['-', '-', '}', '}'])
  (dashed <|> behind closingBraces t).map fun rest => ({ tag := .comment }, rest)

/-- A value within three braces, from behind two of them. -/
def readTriple (trimBefore : Bool) (t : Text) : Option (Placed × Text) := do
  let rest ← expect ['{'] t
  let (subject, rest) ← readExpression (skipGap rest)
  let rest ← expect ['}'] rest
  finishTag trimBefore closingBraces (.value subject) rest

/-- A value within three braces that stand together, from behind two of them. -/
def readTight (t : Text) : Option (Placed × Text) := do
  let rest ← Text.stripStart ['{'] t
  let trimmed := expect ['~'] rest
  let (subject, rest) ← readExpression (skipGap (trimmed.getD rest))
  finishTag trimmed.isSome ['}', '}', '}'] (.value subject) rest

/-- The branch mark of a section, `else` or `^`; a helper may follow it, also without a gap. -/
def readOtherwise (trimBefore : Bool) (t : Text) : Option (Placed × Text) := do
  let rest ← Text.stripStart "else".toList t <|> Text.stripStart ['^'] t
  let plain := finishTag trimBefore closingBraces .otherwise rest
  let chained := do
    let ((helper, arguments, named), rest) ← readCall (skipGap rest)
    finishTag trimBefore closingBraces (.otherwiseStart helper arguments named) rest
  plain <|> chained

/-- A tag, from behind its opening braces.  Only the mark of a comment has to stand right there. -/
def readTag (t : Text) : Option (Placed × Text) :=
  let trimmed := expect ['~'] t
  let trimBefore := trimmed.isSome
  let inner := skipGap (trimmed.getD t)
  match t, inner with
  | '!' :: rest, _ => readComment rest
  | _, '#' :: rest => do
    let ((helper, arguments, named), rest) ← readCall (skipGap rest)
    finishTag trimBefore closingBraces (.start helper arguments named) rest
  | _, '/' :: rest => do
    let (helper, rest) ← readName (skipGap rest)
    finishTag trimBefore closingBraces (.finish helper) rest
  | _, '&' :: rest => do
    let (subject, rest) ← readSubject (skipGap rest)
    finishTag trimBefore closingBraces (.value subject) rest
  | _, '{' :: _ => readTight t <|> readTriple trimBefore inner
  | _, _ =>
    readOtherwise trimBefore inner <|> do
      let (subject, rest) ← readExpression inner
      finishTag trimBefore closingBraces (.value subject) rest

/-! ## Cutting a stencil -/

/-- Is the character a space or a tab? -/
def isSpace (c : Char) : Bool :=
  c == ' ' || c == '\t'

/-- Does a line end where the text starts, spaces aside?  It also ends where the text is empty, but not
where only spaces are left of it. -/
def startsLine (t : Text) : Bool :=
  match t.dropWhile isSpace with
  | [] => t.isEmpty
  | c :: _ => c == '\n' || c == '\r'

/-- Does a line start behind the text, which is given last character first? -/
def endsLine (reversed : Text) : Bool :=
  match reversed.dropWhile isSpace with
  | [] => true
  | c :: _ => c == '\n' || c == '\r'

/-- A tag that shows a value stands in its line; any other may stand alone. -/
def Tag.showsValue : Tag → Bool
  | .value _ => true
  | _ => false

/-- The tag with the mark whether it stands alone between two texts. -/
def Placed.between (before behind : Text) (placed : Placed) : Placed :=
  { placed with alone := !placed.tag.showsValue && endsLine before && startsLine behind }

/-- A text with characters still in reverse, if there are any. -/
def textPiece (reversed : Text) : List Piece :=
  if reversed = [] then [] else [.text reversed.reverse]

/-- Number of backslashes that the text starts with. -/
def backslashCount (t : Text) : Nat :=
  (t.takeWhile (· == '\\')).length

/-- Cut a stencil.  `before` is the source up to here and `pending` the text read since the last tag,
both last character first.

One backslash in front of opening braces makes them plain text; of several backslashes in front of
them one is dropped. -/
def cut : Nat → (before pending : Text) → Text → Option (List Piece)
  | 0, _, _, _ => none
  | _, _, pending, [] => some (textPiece pending)
  | steps + 1, before, pending, c :: rest =>
    let count := backslashCount (c :: rest)
    let braced := Text.stripStart openingBraces ((c :: rest).drop count)
    match count, braced with
    | 0, some inner =>
      match readTag inner with
      | none => none
      | some (placed, behind) =>
        let source := (c :: rest).take ((c :: rest).length - behind.length)
        (cut steps (source.reverse ++ before) [] behind).map fun more =>
          textPiece pending ++ .tag (placed.between before behind) :: more
    | 1, some inner =>
      match Text.stripStart openingBraces inner with
      | some behind =>
        cut steps (openingBraces ++ openingBraces ++ '\\' :: before)
          (openingBraces ++ openingBraces ++ pending) behind
      | none => cut steps (openingBraces ++ '\\' :: before) (openingBraces ++ pending) inner
    | _ + 2, some inner =>
      let slashes := List.replicate count '\\'
      cut steps (slashes ++ before) (slashes.drop 1 ++ pending) (openingBraces ++ inner)
    | _, _ => cut steps (c :: before) (c :: pending) rest

/-- The pieces of a stencil, if every tag can be read. -/
def pieces? (source : Text) : Option (List Piece) :=
  cut (source.length + 1) [] [] source

/-! ## White space around tags -/

/-- The text without the line end it starts with. -/
def dropLineEnd : Text → Text
  | '\r' :: '\n' :: rest => rest
  | '\n' :: rest => rest
  | t => t

/-- What is left of the start of a text behind a tag. -/
def settleStart (dropBlanks dropLine : Bool) (t : Text) : Text :=
  if dropBlanks then Text.trimStart t
  else if dropLine then dropLineEnd (t.dropWhile isSpace)
  else t

/-- What is left of the end of a text in front of other pieces. -/
def settleEnd (more : List Piece) (t : Text) : Text :=
  match more with
  | .tag placed :: _ =>
    let t := if placed.trimBefore then Text.trimEnd t else t
    if placed.alone then Text.dropEndWhile isSpace t else t
  | _ => t

/-- The pieces without the white space that goes away.  `dropBlanks` says that the last tag takes the
white space behind it, and `dropLine` that a line end is still to be dropped. -/
def settle (dropBlanks dropLine : Bool) : List Piece → List Piece
  | [] => []
  | .text t :: more =>
    if dropBlanks && t.all isGap then settle dropBlanks dropLine more
    else .text (settleEnd more (settleStart dropBlanks dropLine t)) :: settle dropBlanks false more
  | .tag placed :: more =>
    let dropBlanks := match placed.tag with
      | .comment => dropBlanks
      | _ => placed.trimAfter
    let dropLine := if placed.tag.showsValue then dropLine else placed.alone
    .tag placed :: settle dropBlanks dropLine more

end TagBox.Stencil
