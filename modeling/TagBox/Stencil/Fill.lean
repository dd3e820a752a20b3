import TagBox.Stencil.Piece
import TagBox.Stencil.Renderer
import TagBox.Text.Case
import TagBox.Text.Path
import TagBox.Text.Replace

/-!
# Filling a stencil

The template renderer of yorbox (its specification, §2), as far as its own variables and helpers go.

The pieces of a stencil form a tree of sections.  Filling it replaces each placeholder by the value of
its variable or helper; what is not known is an error, but only where it is shown.

The helpers are `lower`, `upper`, `trim`, `replace` and `base`, which are those of the program, and `if` and
`unless`.  The other helpers of the language (`each`, `with`, `lookup`, `raw`, `log`, `len`, `eq`, `ne`,
`gt`, `gte`, `lt`, `lte`, `and`, `or`, `not`) are left out: here they are unknown, and a template with one of
them cannot be filled.  Nothing but the command itself uses this renderer.

* `Node` — texts, values and sections.
* `nodes` — the tree of the pieces of a stencil.
* `fill` — the text of a stencil.
* `renderer` — the renderer that fills in stencils.
-/

namespace TagBox.Stencil

/-- Why a stencil cannot be filled. -/
inductive StencilError where
  /-- A tag cannot be read. -/
  | malformed
  /-- A section is not ended. -/
  | unfinished (helper : Text)
  /-- A branch or an end has no section. -/
  | strayTag
  /-- A section is ended under another name. -/
  | mismatched (started ended : Text)
  | unknownVariable (name : Text)
  | unknownHelper (name : Text)
  /-- A helper lacks an argument, or has one that is no text. -/
  | badArgument (helper : Text)
  deriving DecidableEq, Repr

/-- What the user is told. -/
def StencilError.message : StencilError → String
  | .malformed => "a placeholder cannot be read"
  | .unfinished helper => "section " ++ String.ofList helper ++ " is not ended"
  | .strayTag => "a tag belongs to no section"
  | .mismatched started ended =>
    "section " ++ String.ofList started ++ " is ended as " ++ String.ofList ended
  | .unknownVariable name => "unknown variable " ++ String.ofList name
  | .unknownHelper name => "unknown helper " ++ String.ofList name
  | .badArgument helper => "missing or unusable argument of " ++ String.ofList helper

/-! ## The tree of sections -/

/-- A text, a value, or a section with its two branches. -/
inductive Node where
  | text (text : Text)
  | value (subject : Argument)
  | branch (helper : Text) (arguments : List Argument) (named : List (Text × Argument))
    (body inverse : List Node)

/-- A section that is still open. -/
structure OpenSection where
  helper : Text
  arguments : List Argument
  named : List (Text × Argument)
  /-- The first branch, once the other one has begun. -/
  body : Option (List Node) := none
  /-- The nodes in front of the section, last one first. -/
  before : List Node
  /-- Is it the other branch of the section around it? -/
  chained : Bool := false

/-- The node of a section that ends with the nodes `last`. -/
def OpenSection.close (opened : OpenSection) (last : List Node) : Node :=
  match opened.body with
  | none => .branch opened.helper opened.arguments opened.named last []
  | some body => .branch opened.helper opened.arguments opened.named body last

/-- End the innermost section, with those that it is chained to, under the name `helper`.  The result
is the open sections and the nodes, last one first, with which reading goes on. -/
def closeSection (helper : Text) (last : List Node) :
    List OpenSection → Except StencilError (List OpenSection × List Node)
  | [] => .error .strayTag
  | opened :: around =>
    let node := opened.close last
    if opened.chained then closeSection helper [node] around
    else if opened.helper = helper then .ok (around, node :: opened.before)
    else .error (.mismatched opened.helper helper)

/-- The nodes of pieces, with sections open and the nodes `done`, last one first, read in the innermost
of them. -/
def nodesFrom (opened : List OpenSection) (done : List Node) :
    List Piece → Except StencilError (List Node)
  | [] =>
    match opened with
    | [] => .ok done.reverse
    | innermost :: _ => .error (.unfinished innermost.helper)
  | .text t :: more => nodesFrom opened (.text t :: done) more
  | .tag placed :: more =>
    match placed.tag with
    | .comment => nodesFrom opened done more
    | .value subject => nodesFrom opened (.value subject :: done) more
    | .start helper arguments named =>
      nodesFrom ({ helper, arguments, named, before := done } :: opened) [] more
    | .otherwise =>
      match opened with
      | [] => .error .strayTag
      | innermost :: around =>
        if innermost.body.isSome then .error .strayTag
        else nodesFrom ({ innermost with body := some done.reverse } :: around) [] more
    | .otherwiseStart helper arguments named =>
      match opened with
      | [] => .error .strayTag
      | innermost :: around =>
        if innermost.body.isSome then .error .strayTag
        else
          nodesFrom ({ helper, arguments, named, before := [], chained := true } ::
            { innermost with body := some done.reverse } :: around) [] more
    | .finish helper =>
      match closeSection helper done.reverse opened with
      | .error e => .error e
      | .ok (opened, done) => nodesFrom opened done more

/-- The tree of a stencil. -/
def nodes (source : Text) : Except StencilError (List Node) :=
  match pieces? source with
  | none => .error .malformed
  | some found => nodesFrom [] [] (settle false false found)

/-! ## Values -/

/-- What an argument stands for. -/
inductive Value where
  | text (value : Text)
  | number (isNormal : Bool)
  | truth (value : Bool)
  | null
  /-- A list or a record that the stencil spells out. -/
  | collection (isEmpty : Bool)
  /-- All variables together. -/
  | record
  | missing
  deriving DecidableEq, Repr

/-- The value of a literal. -/
def Literal.value : Literal → Value
  | .text t => .text t
  | .number isNormal => .number isNormal
  | .truth b => .truth b
  | .null => .null
  | .collection isEmpty => .collection isEmpty

/-- Does the value count as true?  What is empty or missing does not, nor does zero, unless it is meant
to. -/
def Value.isTrue (includeZero : Bool) : Value → Bool
  | .text t => t ≠ []
  | .number isNormal => includeZero || isNormal
  | .truth b => b
  | .collection isEmpty => !isEmpty
  | .record => true
  | .null => false
  | .missing => false

/-- The value at the end of a path of names. -/
def Variables.lookup (vars : Variables) : List Text → Value
  | [] => .record
  | [name] =>
    if name = "toggleName".toList then .text vars.toggleName
    else if name = "tagsPrefix".toList then .text vars.tagsPrefix
    else if name = "dirPath".toList then .text vars.dirPath
    else .missing
  | _ => .missing

/-! ## Helpers -/

/-- The helpers. -/
inductive Helper where
  | lower
  | upper
  | trim
  | replace
  | base
  | ifTrue
  | ifFalse
  deriving DecidableEq, Repr

/-- The helper with this name. -/
def Helper.named? (name : Text) : Option Helper :=
  match String.ofList name with
  | "lower" => some .lower
  | "upper" => some .upper
  | "trim" => some .trim
  | "replace" => some .replace
  | "base" => some .base
  | "if" => some .ifTrue
  | "unless" => some .ifFalse
  | _ => none

/-- The text that a helper gives for its arguments; arguments it has no use for are ignored.  A condition
alone gives no text. -/
def Helper.apply? : Helper → List Value → Option Text
  | .lower, .text t :: _ => some (Text.lower t)
  | .upper, .text t :: _ => some (Text.upper t)
  | .trim, .text t :: _ => some (Text.trim t)
  | .replace, .text pattern :: .text image :: .text t :: _ => some (Text.replace pattern image t)
  | .base, .text t :: _ => some ((Path.fileName? t).getD [])
  | .ifTrue, _ :: _ => some []
  | .ifFalse, _ :: _ => some []
  | _, _ => none

/-- Call a helper by its name. -/
def callHelper (name : Text) (arguments : List Value) : Except StencilError Text :=
  match Helper.named? name with
  | none => .error (.unknownHelper name)
  | some helper =>
    match helper.apply? arguments with
    | none => .error (.badArgument name)
    | some t => .ok t

mutual

/-- The value of an argument. -/
def Argument.value (vars : Variables) : Argument → Except StencilError Value
  | .literal literal => .ok literal.value
  | .reference _ names => .ok (vars.lookup names)
  | .call helper arguments named => do
    let values ← argumentValues vars arguments
    let _ ← namedValues vars named
    return .text (← callHelper helper values)

/-- The values of arguments, in order. -/
def argumentValues (vars : Variables) : List Argument → Except StencilError (List Value)
  | [] => .ok []
  | a :: more => do
    let value ← a.value vars
    let values ← argumentValues vars more
    return value :: values

/-- The values of arguments that have a name. -/
def namedValues (vars : Variables) :
    List (Text × Argument) → Except StencilError (List (Text × Value))
  | [] => .ok []
  | (name, a) :: more => do
    let value ← a.value vars
    let values ← namedValues vars more
    return (name, value) :: values

end

/-- Do named arguments say that zero counts as true?  The last one with the name decides. -/
def includesZero (named : List (Text × Value)) : Bool :=
  named.reverse.lookup "includeZero".toList == some (.truth true)

/-- The text that a placeholder shows.  A name that is a helper's calls it without arguments. -/
def showValue (vars : Variables) (subject : Argument) : Except StencilError Text := do
  let value ← subject.value vars
  let name := match subject, value with
    | .reference raw _, _ => raw
    | _, .text t => t
    | _, _ => []
  match subject with
  | .call _ (_ :: _) _ | .call _ _ (_ :: _) => pure ()
  | _ => if (Helper.named? name).isSome then throw (.badArgument name)
  match value with
  | .text t => return t
  | .record => return "[object]".toList
  | _ => throw (.unknownVariable name)

mutual

/-- The text of a node. -/
def Node.fill (vars : Variables) : Node → Except StencilError Text
  | .text t => .ok t
  | .value subject => showValue vars subject
  | .branch helper arguments named body inverse => do
    let values ← argumentValues vars arguments
    let includeZero := includesZero (← namedValues vars named)
    match Helper.named? helper, values with
    | some .ifTrue, condition :: _ =>
      if condition.isTrue includeZero then fillAll vars body else fillAll vars inverse
    | some .ifFalse, condition :: _ =>
      if condition.isTrue includeZero then fillAll vars inverse else fillAll vars body
    | _, _ => callHelper helper values

/-- The text of nodes, in order. -/
def fillAll (vars : Variables) : List Node → Except StencilError Text
  | [] => .ok []
  | node :: more => do
    let first ← node.fill vars
    let rest ← fillAll vars more
    return first ++ rest

end

/-- The text of a stencil. -/
def fill (vars : Variables) (source : Text) : Except StencilError Text := do
  fillAll vars (← nodes source)

/-- The renderer that fills in stencils. -/
def renderer : Renderer :=
  fun vars source => (fill vars source).mapError StencilError.message

end TagBox.Stencil
