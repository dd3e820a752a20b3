import TagBox.Settings.Basic

/-!
# Revising a source text

The processor of yorbox on one source text (its specification, §10.5).

A source text is read once; the tags value of each selected block is boxed or unboxed on its own, and
the values that changed are put back, the last one first.  All else stays as it is.

* `Action` — box or unbox.
* `RunError` — what can go wrong, with the path it went wrong at; `RunError.isFatal` says what ends the
  program.
* `revise` — the new text and the addresses of the blocks that changed.
-/

namespace TagBox

/-- What to do with tag groups. -/
inductive Action where
  | box
  | unbox
  deriving DecidableEq, Repr

/-- The name of an action in reports. -/
def Action.name : Action → String
  | .box => "box"
  | .unbox => "unbox"

/-- What can be wrong with a place on disk. -/
inductive DiskError where
  | notFound
  | notDirectory
  | isDirectory
  /-- The content is no text. -/
  | notText
  deriving DecidableEq, Repr

/-- What the user is told. -/
def DiskError.message : DiskError → String
  | .notFound => "No such file or directory (os error 2)"
  | .notDirectory => "Not a directory (os error 20)"
  | .isDirectory => "Is a directory (os error 21)"
  | .notText => "stream did not contain valid UTF-8"

/-- What can go wrong, and where. -/
inductive RunError where
  | disk (path : Text) (cause : DiskError)
  | lexing (path : Text) (cause : LexError)
  | nesting (path : Text) (cause : NestingError)
  /-- The value of a block cannot be boxed. -/
  | boxing (path : Text) (block : Text) (cause : NestingError)
  /-- A half of a wrapper cannot be removed from the value of a block. -/
  | overrun (path : Text) (block : Text) (cause : Overrun)
  | setup (path : Text) (cause : Settings.SetupError)
  deriving DecidableEq, Repr

namespace RunError

/-- Does the error end the program where it arises?  No one gets to know of it then. -/
def isFatal : RunError → Bool
  | .overrun _ _ _ => true
  | _ => false

/-- The error that arises where a value cannot be boxed or unboxed. -/
def ofBoxError (path block : Text) : BoxError → RunError
  | .nesting cause => .boxing path block cause
  | .overrun cause => .overrun path block cause

/-- What is wrong, without the place. -/
def causeMessage : RunError → String
  | .disk _ cause => cause.message
  | .lexing _ cause => cause.message
  | .nesting _ cause => cause.message
  | .boxing _ _ cause => cause.message
  | .overrun _ _ cause => cause.message
  | .setup _ cause => cause.message

/-- What the user is told. -/
def message (e : RunError) : String :=
  match e with
  | .disk path _ | .lexing path _ | .nesting path _ | .setup path _ =>
    String.ofList path ++ ": " ++ e.causeMessage
  | .boxing path block _ | .overrun path block _ =>
    String.ofList path ++ ": " ++ String.ofList block ++ ": " ++ e.causeMessage

end RunError

/-- What an action does to the tokens of a value. -/
def Boxer.run (boxer : Boxer) : Action → List Token → Except BoxError (List Token)
  | .box => boxer.box
  | .unbox => boxer.unbox

/-- New tokens for the value of a block. -/
structure Replacement where
  address : Text
  span : Span
  tokens : List Token
  deriving DecidableEq, Repr

/-- Put new tokens in the place of a value. -/
def Replacement.apply (replacement : Replacement) (tokens : List Token) : List Token :=
  tokens.take replacement.span.first ++ replacement.tokens ++
    tokens.drop (replacement.span.last + 1)

/-- New tokens for the tags value of a block, if the block is selected and its text changes. -/
def replacement? (path : Text) (boxer : Boxer) (action : Action) (tokens : List Token)
    (block : Block) : Except RunError (Option Replacement) :=
  if boxer.selector.selects block then
    match block.attribute? tokens boxer.selector.name with
    | .error e => .error (.nesting path e)
    | .ok none => .ok none
    | .ok (some span) =>
      match boxer.run action (span.slice tokens) with
      | .error e => .error (.ofBoxError path block.address e)
      | .ok revised =>
        if print revised = print (span.slice tokens) then .ok none
        else .ok (some ⟨block.address, span, revised⟩)
  else .ok none

/-- The replacements for blocks, in order. -/
def replacements (path : Text) (boxer : Boxer) (action : Action) (tokens : List Token) :
    List Block → Except RunError (List Replacement)
  | [] => .ok []
  | block :: more =>
    match replacement? path boxer action tokens block with
    | .error e => .error e
    | .ok found => (replacements path boxer action tokens more).map (found.toList ++ ·)

/-- A revised text and the addresses of the blocks that changed. -/
structure Revision where
  output : Text
  changed : List Text
  deriving DecidableEq, Repr

/-- Did any block change? -/
def Revision.isChanged (revised : Revision) : Bool :=
  !revised.changed.isEmpty

/-- Revise a source text; the path only names it in errors. -/
def revise (path : Text) (boxer : Boxer) (action : Action) (source : Text) :
    Except RunError Revision :=
  match tokenize source with
  | .error e => .error (.lexing path e)
  | .ok tokens =>
    match blocks tokens with
    | .error e => .error (.nesting path e)
    | .ok found =>
      match replacements path boxer action tokens found with
      | .error e => .error e
      | .ok [] => .ok ⟨source, []⟩
      | .ok edits =>
        .ok ⟨print (edits.foldr Replacement.apply tokens), edits.map Replacement.address⟩

/-- Box a text that is no file. -/
def boxSource (boxer : Boxer) (source : Text) : Except RunError Text :=
  (revise ['-'] boxer .box source).map Revision.output

/-- Unbox a text that is no file. -/
def unboxSource (boxer : Boxer) (source : Text) : Except RunError Text :=
  (revise ['-'] boxer .unbox source).map Revision.output

end TagBox
