import TagBox.Body.Bracket

/-!
# Statements of a body

The body locator of yorbox (its specification, §10.3).

A body is read one statement at a time: an attribute, `name = value` up to the end of its line, or
a block, `kind "label" … { body }`.  Values and nested bodies are stepped over by matching brackets;
whatever else stands in between is passed by.

* `Span` — a stretch of positions in a token list, both ends included.
* `Attribute`, `Block`, `Statement` — what a body holds.
* `statements` — the statements between two positions.
* `blocks` — the blocks of a whole file.
-/

namespace TagBox

/-- The positions from `first` to `last`, both included. -/
structure Span where
  first : Nat
  last : Nat
  deriving DecidableEq, Repr

/-- The tokens at the positions of a span. -/
def Span.slice (span : Span) (tokens : List Token) : List Token :=
  (tokens.drop span.first).take (span.last + 1 - span.first)

/-- An attribute and the positions of its value. -/
structure Attribute where
  name : Text
  value : Span
  deriving DecidableEq, Repr

/-- The header of a block and the positions of its braces. -/
structure Block where
  kind : Text
  labels : List Text
  opening : Nat
  closing : Nat
  deriving DecidableEq, Repr

/-- A statement of a body. -/
inductive Statement where
  | assign (assigned : Attribute)
  | block (nested : Block)
  deriving DecidableEq, Repr

/-- A label is an identifier or a quoted literal. -/
def Token.isLabel (t : Token) : Bool :=
  t.kind == .identifier || t.kind == .quoted

/-- End, not included, of the value that begins at position `i`: the first line end or end of file
outside of brackets, or else the position `limit`.  Tokens before position `next` are inside of
brackets. -/
def valueEnd (limit next i : Nat) : List Token → Except NestingError Nat
  | [] => .ok limit
  | t :: rest =>
    if limit ≤ i then .ok limit
    else if i < next then valueEnd limit next (i + 1) rest
    else if t.kind.isOpening then
      match closeOf i t rest with
      | .error e => .error e
      | .ok close => valueEnd limit (close + 1) (i + 1) rest
    else if t.kind.isClosing then .error (.unmatchedClose i t.text)
    else if t.kind = .newline ∨ t.kind = .eof then .ok i
    else valueEnd limit next (i + 1) rest

/-- The statement that starts with the identifier `name` at position `i` in front of `rest`, if one
does, and the position behind it. -/
def namedStatement (limit i : Nat) (name : Token) (rest : List Token) :
    Except NestingError (Option Statement × Nat) :=
  let labels := (rest.take (limit - (i + 1))).takeWhile Token.isLabel
  let j := i + 1 + labels.length
  match rest.drop labels.length with
  | [] => .ok (none, j)
  | mark :: after =>
    if mark.kind = .equals ∧ labels = [] then
      match valueEnd limit 0 (j + 1) after with
      | .error e => .error e
      | .ok stop =>
        if j + 1 < stop then .ok (some (.assign ⟨name.text, ⟨j + 1, stop - 1⟩⟩), stop)
        else .ok (none, stop)
    else if mark.kind = .openBrace ∧ j < limit then
      match closeOf j mark after with
      | .error e => .error e
      | .ok close =>
        .ok (some (.block ⟨name.text, labels.map Token.text, j, close⟩), close + 1)
    else .ok (none, j)

/-- The statement that starts with `t` at position `i` in front of `rest`, if one does, and the
position from which to go on. -/
def statementAt (limit i : Nat) (t : Token) (rest : List Token) :
    Except NestingError (Option Statement × Nat) :=
  if t.kind = .identifier then namedStatement limit i t rest
  else if t.kind.isOpening then
    match closeOf i t rest with
    | .error e => .error e
    | .ok close => .ok (none, close + 1)
  else if t.kind.isClosing then .error (.unmatchedClose i t.text)
  else .ok (none, i + 1)

/-- The statements of tokens that start at position `i`, up to position `limit`.  Tokens before
position `next` belong to what has been read already. -/
def statementsFrom (limit next i : Nat) : List Token → Except NestingError (List Statement)
  | [] => .ok []
  | t :: rest =>
    if limit ≤ i then .ok []
    else if i < next then statementsFrom limit next (i + 1) rest
    else
      match statementAt limit i t rest with
      | .error e => .error e
      | .ok (found, next) =>
        (statementsFrom limit next (i + 1) rest).map (found.toList ++ ·)

/-- The statements at the positions from `start` up to, and without, `limit`. -/
def statements (tokens : List Token) (start limit : Nat) : Except NestingError (List Statement) :=
  statementsFrom limit 0 start (tokens.drop start)

namespace Block

/-- A label without its quotes. -/
def unquote (label : Text) : Text :=
  ((Text.stripStart ['"'] label).bind (Text.stripEnd ['"'])).getD label

/-- The label at position `i` of the header, without its quotes. -/
def label? (block : Block) (i : Nat) : Option Text :=
  block.labels[i]?.map unquote

/-- A readable address such as `resource.aws_s3_bucket.logs`. -/
def address (block : Block) : Text :=
  Text.join ['.'] (block.kind :: block.labels.map unquote)

/-- The attributes and blocks directly in the body of the block. -/
def statements (block : Block) (tokens : List Token) : Except NestingError (List Statement) :=
  TagBox.statements tokens (block.opening + 1) block.closing

/-- Positions of the value of the first attribute `name` directly in the body of the block. -/
def attribute? (block : Block) (tokens : List Token) (name : Text) :
    Except NestingError (Option Span) :=
  (block.statements tokens).map fun found =>
    found.findSome? fun
      | .assign a => if a.name = name then some a.value else none
      | .block _ => none

end Block

/-- The blocks at the top of a file. -/
def blocks (tokens : List Token) : Except NestingError (List Block) :=
  (statements tokens 0 tokens.length).map fun found =>
    found.filterMap fun
      | .block b => some b
      | .assign _ => none

end TagBox
