import TagBox.Body.Statement

/-!
# Tag groups

The tag range scanner of yorbox (its specification, §4.2).

A tag group is a pair of braces that directly holds a marked key, such as `yor_trace`.  Only braces
form groups; parentheses and square brackets are passed through.  A key marks the innermost group
around it and no other.

* `KeyMatcher` — which keys are marked.
* `tagGroups` — the marked groups of a token list, in the order in which they close.
-/

namespace TagBox

/-- Which keys mark their group: one of `keys`, behind `head`. -/
structure KeyMatcher where
  head : Text
  keys : List Text
  deriving DecidableEq, Repr

namespace KeyMatcher

/-- The keys that mark a generated group if nothing else is said. -/
def defaultKeys : List Text :=
  ["yor_trace".toList, "git_commit".toList, "yor_name".toList]

/-- Is the key marked? -/
def accepts (matcher : KeyMatcher) (key : Text) : Bool :=
  match Text.stripStart matcher.head key with
  | some bare => matcher.keys.contains bare
  | none => false

end KeyMatcher

/-- Is the token layout between a key and its sign? -/
def Token.isGap (t : Token) : Bool :=
  t.kind == .comment || t.kind == .newline

/-- Does the list go on with `=` or `:`, comments and line ends aside? -/
def assigned (rest : List Token) : Bool :=
  match rest.dropWhile Token.isGap with
  | [] => false
  | sign :: _ => sign.kind == .equals || sign.kind == .colon

/-- Is `t`, in front of `rest`, a marked key? -/
def KeyMatcher.marks (matcher : KeyMatcher) (t : Token) (rest : List Token) : Bool :=
  assigned rest && t.keyText.any matcher.accepts

/-- A brace that is still open. -/
structure Frame where
  opening : Nat
  text : Text
  marked : Bool
  deriving DecidableEq, Repr

/-- Mark the innermost open group. -/
def markInnermost : List Frame → List Frame
  | [] => []
  | innermost :: around => { innermost with marked := true } :: around

/-- The marked groups that close in tokens that start at position `i`, with the braces `frames`
open, innermost first. -/
def groupsFrom (matcher : KeyMatcher) (frames : List Frame) (i : Nat) :
    List Token → Except NestingError (List Span)
  | [] =>
    match frames.getLast? with
    | none => .ok []
    | some outermost => .error (.unclosed outermost.opening outermost.text)
  | t :: rest =>
    if t.kind = .openBrace then groupsFrom matcher (⟨i, t.text, false⟩ :: frames) (i + 1) rest
    else if t.kind = .closeBrace then
      match frames with
      | [] => .error (.unmatchedClose i t.text)
      | innermost :: around =>
        (groupsFrom matcher around (i + 1) rest).map fun later =>
          if innermost.marked then ⟨innermost.opening, i⟩ :: later else later
    else if matcher.marks t rest then groupsFrom matcher (markInnermost frames) (i + 1) rest
    else groupsFrom matcher frames (i + 1) rest

/-- The marked groups of a token list, in the order in which they close. -/
def tagGroups (matcher : KeyMatcher) (tokens : List Token) : Except NestingError (List Span) :=
  groupsFrom matcher [] 0 tokens

end TagBox
