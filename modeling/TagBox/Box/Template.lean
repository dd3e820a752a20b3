import TagBox.Token.Lexer
import TagBox.Body.Statement

/-!
# Box templates

The box compiler of yorbox (its specification, §4.1).

A box template is an HCL expression with two marker comments around a placeholder:

    (var.toggle ? /*<box>*/ { a = 1 } /*</box>*/ : {})

What stands before the first marker is the left half of the wrapper, what stands behind the second
one the right half.  The placeholder only makes the expression complete and is dropped, but for the
blanks in front of it: they say how far a payload stands from the left half.

* `Template` — the two halves and the lead of the payload.
* `Template.compile` — a template from its text.
* `Template.sameShape` — equality but for layout.
-/

namespace TagBox

/-- The two halves of a wrapper. -/
inductive Side where
  | left
  | right
  deriving DecidableEq, Repr

/-- The name of a side in messages and answers. -/
def Side.name : Side → String
  | .left => "left"
  | .right => "right"

/-- Why a text is no box template. -/
inductive TemplateError where
  /-- It has no tokens. -/
  | lexing (cause : LexError)
  /-- Its brackets do not nest. -/
  | nesting (cause : NestingError)
  /-- It is not one expression. -/
  | notOneExpression (text : Text)
  | missingBegin
  | missingEnd
  /-- The marker at this position of the host attribute is out of place. -/
  | mismatched (index : Nat)
  | emptySide (side : Side)
  deriving DecidableEq, Repr

/-- What the user is told. -/
def TemplateError.message : TemplateError → String
  | .lexing cause => "box template is not a valid expression: " ++ cause.message
  | .nesting cause => "box template is not a valid expression: " ++ cause.message
  | .notOneExpression text =>
    "box template is not a valid expression: expected a single expression, got `" ++
      String.ofList text ++ "`"
  | .missingBegin => "box template has no `/*<box>*/` marker"
  | .missingEnd => "box template has no `/*</box>*/` marker"
  | .mismatched index => s!"box template markers are out of order at token {index}"
  | .emptySide side => "box template has nothing on the " ++ side.name ++ " side of the payload"

/-- A wrapper: the tokens in front of a payload, the tokens behind it, and the blanks between the
left half and the payload. -/
structure Template where
  left : List Token
  right : List Token
  payloadLead : Text
  deriving DecidableEq, Repr

namespace Template

/-- The comment in front of the placeholder. -/
def beginMarker : Text := "/*<box>*/".toList

/-- The comment behind the placeholder. -/
def endMarker : Text := "/*</box>*/".toList

/-- Is the token the comment in front of the placeholder? -/
def isBegin (t : Token) : Bool :=
  t.kind == .comment && t.text == beginMarker

/-- Is the token the comment behind the placeholder? -/
def isEnd (t : Token) : Bool :=
  t.kind == .comment && t.text == endMarker

/-- The right half, from behind the end marker; positions count from `i`. -/
def rightHalf (i : Nat) : List Token → Except TemplateError (List Token)
  | [] => .ok []
  | t :: rest =>
    if isBegin t || isEnd t then .error (.mismatched i)
    else (rightHalf (i + 1) rest).map (t :: ·)

/-- The right half, from behind the begin marker. -/
def afterBegin (i : Nat) : List Token → Except TemplateError (List Token)
  | [] => .ok []
  | t :: rest =>
    if isEnd t then rightHalf (i + 1) rest
    else if isBegin t then .error (.mismatched i)
    else afterBegin (i + 1) rest

/-- Cut a value at its markers.  The blanks in front of the begin marker are the payload's lead; if
there are none, those behind it are. -/
def cut (i : Nat) : List Token → Except TemplateError Template
  | [] => .ok { left := [], right := [], payloadLead := [] }
  | t :: rest =>
    if isBegin t then
      (afterBegin (i + 1) rest).map fun right =>
        { left := [], right
          payloadLead := if t.lead = [] then (rest.head?.map Token.lead).getD [] else t.lead }
    else if isEnd t then .error (.mismatched i)
    else (cut (i + 1) rest).map fun template => { template with left := t :: template.left }

/-- Cut a value, whose first token stands at position `i`, into a template with two halves. -/
def ofValue (i : Nat) (value : List Token) : Except TemplateError Template :=
  if !value.any isBegin then .error .missingBegin
  else if !value.any isEnd then .error .missingEnd
  else
    match cut i value with
    | .error e => .error e
    | .ok template =>
      match template.left, template.right with
      | [], _ => .error (.emptySide .left)
      | _, [] => .error (.emptySide .right)
      | first :: rest, _ => .ok { template with left := first.withLead [] :: rest }

/-- The attribute that a template is read in. -/
def host (rendered : Text) : Text :=
  "tags = ".toList ++ rendered ++ ['\n']

/-- The template with this text. -/
def compile (rendered : Text) : Except TemplateError Template :=
  match tokenize (host rendered) with
  | .error e => .error (.lexing e)
  | .ok tokens =>
    match statements tokens 0 tokens.length with
    | .error e => .error (.nesting e)
    | .ok [.assign a] => ofValue a.value.first (a.value.slice tokens)
    | .ok _ => .error (.notOneExpression rendered)

/-- Are the halves equal, token for token, but for layout? -/
def sameShape (a b : Template) : Bool :=
  contents a.left == contents b.left && contents a.right == contents b.right

end Template

end TagBox
