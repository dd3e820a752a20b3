import TagBox.Token.Basic

/-!
# Matching brackets

How the body locator of yorbox (its specification, §10.3) steps over brackets.

Any list of tokens is legal; only what needs brackets to nest can fail.  `matchingClose` finds the
bracket that closes the one at a given position, over the three kinds of brackets at once.
-/

namespace TagBox

/-- Brackets that do not nest, with the position and the text of the token to blame. -/
inductive NestingError where
  | unmatchedClose (index : Nat) (text : Text)
  | unclosed (index : Nat) (text : Text)
  deriving DecidableEq, Repr

/-- What the user is told. -/
def NestingError.message : NestingError → String
  | .unmatchedClose index text =>
    "closing `" ++ String.ofList text ++ s!"` at token {index} has no matching opening bracket"
  | .unclosed index text => "`" ++ String.ofList text ++ s!"` at token {index} is never closed"

/-- Position of the bracket behind which nothing is open any more, in tokens that start at position
`i`, with the brackets `opened` open, innermost first.  If there is none, `unclosed` is the error. -/
def closeFrom (unclosed : NestingError) (opened : List Kind) (i : Nat) :
    List Token → Except NestingError Nat
  | [] => .error unclosed
  | t :: rest =>
    if t.kind.isOpening then closeFrom unclosed (t.kind :: opened) (i + 1) rest
    else if t.kind.isClosing then
      match opened with
      | [] => .error (.unmatchedClose i t.text)
      | innermost :: around =>
        if innermost.closer = some t.kind then
          if around = [] then .ok i else closeFrom unclosed around (i + 1) rest
        else .error (.unmatchedClose i t.text)
    else closeFrom unclosed opened (i + 1) rest

/-- Position of the bracket that closes `bracket`, which stands at position `i` in front of
`rest`. -/
def closeOf (i : Nat) (bracket : Token) (rest : List Token) : Except NestingError Nat :=
  closeFrom (.unclosed i bracket.text) [] i (bracket :: rest)

/-- Position of the bracket that closes the one at position `start`. -/
def matchingClose (tokens : List Token) (start : Nat) : Except NestingError Nat :=
  match tokens.drop start with
  | [] => .error (.unclosed start [])
  | bracket :: rest => closeOf start bracket rest

end TagBox
