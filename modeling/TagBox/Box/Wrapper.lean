import TagBox.Box.Template

/-!
# Wrappers in place

The toggle range scanner of yorbox (its specification, §4.3).

Finding the halves of wrappers in a token list.  The two sides are kept apart, since the halves of
a template may look the same.

* `Half` — a half of a wrapper and where it stands.
* `Wrappers` — the halves that a search found; `Wrappers.boxing` says which of them hug a group.
* `Template.wrappers` — the places where the halves of a template stand.
* `toggleHeads` — the places where `var.name ?` stands.
-/

namespace TagBox

/-- A half of a wrapper and where it stands. -/
structure Half where
  side : Side
  span : Span
  deriving DecidableEq, Repr

/-- The halves that a search found. -/
structure Wrappers where
  lefts : List Half
  rights : List Half
  /-- Is a group boxed by a left half alone? -/
  leftOnly : Bool
  deriving DecidableEq, Repr

namespace Wrappers

/-- Did the search find nothing? -/
def isEmpty (found : Wrappers) : Bool :=
  found.lefts.isEmpty && found.rights.isEmpty

/-- The halves that hug a group, if it is boxed: a left half ends right before the group, and a right
half starts right behind it; the latter may be absent if left halves suffice. -/
def boxing (found : Wrappers) (group : Span) : Option (Half × Option Half) :=
  match found.lefts.find? fun left => left.span.last + 1 == group.first with
  | none => none
  | some left =>
    match found.rights.find? fun right => right.span.first == group.last + 1 with
    | some right => some (left, some right)
    | none => if found.leftOnly then some (left, none) else none

/-- Is the group boxed? -/
def boxes (found : Wrappers) (group : Span) : Bool :=
  (found.boxing group).isSome

end Wrappers

/-- Do the tokens start with a pattern, layout aside? -/
def startsWith : (pattern : List (Kind × Text)) → List Token → Bool
  | [], _ => true
  | _ :: _, [] => false
  | content :: pattern, t :: rest => content == t.content && startsWith pattern rest

/-- The positions, counted from `i`, at which a pattern occurs, layout aside. -/
def occurrencesFrom (pattern : List (Kind × Text)) (i : Nat) : List Token → List Nat
  | [] => []
  | t :: rest =>
    if startsWith pattern (t :: rest) then i :: occurrencesFrom pattern (i + 1) rest
    else occurrencesFrom pattern (i + 1) rest

/-- Where the tokens of a half occur; an empty half occurs nowhere. -/
def occurrences (side : Side) (half tokens : List Token) : List Half :=
  if half = [] then []
  else (occurrencesFrom (contents half) 0 tokens).map fun i => ⟨side, ⟨i, i + half.length - 1⟩⟩

/-- All places where the halves of the template stand. -/
def Template.wrappers (template : Template) (tokens : List Token) : Wrappers where
  lefts := occurrences .left template.left tokens
  rights := occurrences .right template.right tokens
  leftOnly := false

/-- Do the tokens start with `var.name ?`? -/
def isToggleHead (name : Text) : List Token → Bool
  | var :: dot :: toggle :: question :: _ =>
    var.isName "var".toList && dot.kind == .dot && toggle.isName name && question.kind == .question
  | _ => false

/-- The positions, counted from `i`, at which `var.name ?` stands. -/
def toggleHeadsFrom (name : Text) (i : Nat) : List Token → List Nat
  | [] => []
  | t :: rest =>
    if isToggleHead name (t :: rest) then i :: toggleHeadsFrom name (i + 1) rest
    else toggleHeadsFrom name (i + 1) rest

/-- All places where the toggle is tested directly: a group behind such a test counts as boxed,
whatever follows it. -/
def toggleHeads (name : Text) (tokens : List Token) : Wrappers where
  lefts := (toggleHeadsFrom name 0 tokens).map fun i => ⟨.left, ⟨i, i + 3⟩⟩
  rights := []
  leftOnly := true

end TagBox
