import TagBox.Box.Wrapper

/-!
# Taking halves out and putting halves in

The transformation engine of yorbox (its specification, §4.4).

Both directions are a list of single edits, done from the highest position down: an edit at a
position only moves what stands behind it, so the edits still to come keep their positions.

Halves that share tokens break this for removals: what is left may then be too short for a half that is
still to be removed, and the removal fails.

Wrapping touches layout at one spot: the left half takes over the blanks in front of the group, and
the group gets the blanks of the template.  Removing a left half hands the blanks back.  Where an
inserted half would run into its neighbour, one space is put between them.

* `strip` — a token list without some halves.
* `Overrun` — a half that could not be removed.
* `wrap` — a token list with a wrapper around some groups.
* `joins` — would two tokens run into each other?
-/

namespace TagBox

/-! ## A stable sort -/

/-- Put `a` in front of the first element that may stand behind it. -/
def insertBy {α : Type} (ahead : α → α → Bool) (a : α) : List α → List α
  | [] => [a]
  | b :: rest => if ahead a b then a :: b :: rest else b :: insertBy ahead a rest

/-- Sort a list; elements of which each may stand ahead of the other keep their order. -/
def sortBy {α : Type} (ahead : α → α → Bool) (list : List α) : List α :=
  list.foldr (insertBy ahead) []

/-- Keep one of several equal neighbours. -/
def dropRepeats {α : Type} [DecidableEq α] : List α → List α
  | [] => []
  | a :: rest =>
    match dropRepeats rest with
    | [] => [a]
    | b :: more => if a = b then b :: more else a :: b :: more

/-! ## Removing halves -/

/-- Give the first token another lead. -/
def relead (lead : Text) : List Token → List Token
  | [] => []
  | t :: rest => t.withLead lead :: rest

/-- Lead of the token at a position. -/
def leadAt (tokens : List Token) (i : Nat) : Text :=
  (tokens[i]?.map Token.lead).getD []

/-- The half stands on some of the first `n` positions and on no other. -/
def Half.Within (half : Half) (n : Nat) : Prop :=
  half.span.first ≤ half.span.last ∧ half.span.last < n

instance (half : Half) (n : Nat) : Decidable (half.Within n) :=
  inferInstanceAs (Decidable (_ ∧ _))

/-- The tokens without one half.  What follows a left half takes over its lead. -/
def cutHalf (tokens : List Token) (half : Half) : List Token :=
  let before := tokens.take half.span.first
  let behind := tokens.drop (half.span.last + 1)
  match half.side with
  | .left => before ++ relead (leadAt tokens half.span.first) behind
  | .right => before ++ behind

/-- A half that was not among the tokens when it was to be removed, and how many they were by then. -/
structure Overrun where
  half : Half
  size : Nat
  deriving DecidableEq, Repr

/-- What is wrong. -/
def Overrun.message (e : Overrun) : String :=
  "stale range [" ++ toString e.half.span.first ++ ", " ++ toString e.half.span.last ++
    "] out of bounds"

/-- Remove one half, which has to be among the tokens. -/
def removeHalf (tokens : List Token) (half : Half) : Except Overrun (List Token) :=
  if half.Within tokens.length then .ok (cutHalf tokens half) else .error ⟨half, tokens.length⟩

/-- The order in which halves are removed: the last one first; equal ones that stand together are
removed once. -/
def removals (stale : List Half) : List Half :=
  dropRepeats (sortBy (fun a b => b.span.last ≤ a.span.last) stale)

/-- Remove halves, one after the other. -/
def strip (tokens : List Token) (stale : List Half) : Except Overrun (List Token) :=
  (removals stale).foldlM removeHalf tokens

/-! ## Inserting halves -/

/-- Would `a`, printed directly in front of `b`, be read as anything but `a` and `b`? -/
def joins (a b : Token) : Bool :=
  if a.text = [] ∨ b.text = [] then false
  else
    match tokenize (a.text ++ b.text) with
    | .ok [x, y, last] =>
      !(x.content == a.content && y.content == b.content && last.kind == .eof)
    | _ => true

/-- The lead `lead`, or one space if there is none and `a` would run into `b`. -/
def spaced (a b : Token) (lead : Text) : Text :=
  if lead = [] ∧ joins a b then [' '] else lead

/-- Put the left half in front of the token at position `i`. -/
def insertLeft (template : Template) (i : Nat) (tokens : List Token) : List Token :=
  match tokens.drop i, template.left with
  | payload :: behind, first :: more =>
    let before := tokens.take i
    let lead := match before.getLast? with
      | none => payload.lead
      | some last => spaced last first payload.lead
    before ++ (first.withLead lead :: more) ++ payload.withLead template.payloadLead :: behind
  | _, _ => tokens

/-- Put the right half in front of position `i`. -/
def insertRight (template : Template) (i : Nat) (tokens : List Token) : List Token :=
  match tokens.drop i, template.right.getLast? with
  | next :: behind, some last =>
    tokens.take i ++ template.right ++ next.withLead (spaced last next next.lead) :: behind
  | behind, _ => tokens.take i ++ template.right ++ behind

/-- A half to be inserted in front of a position. -/
structure Insertion where
  position : Nat
  side : Side
  deriving DecidableEq, Repr

/-- The two insertions around a group. -/
def insertionsOf (group : Span) : List Insertion :=
  [⟨group.first, .left⟩, ⟨group.last + 1, .right⟩]

/-- The order of insertions: the highest position first, and at one position the left half first, so
that the right half, inserted next, comes to stand in front of it. -/
def Insertion.ahead (a b : Insertion) : Bool :=
  b.position < a.position || (b.position == a.position && (a.side == .left || b.side == .right))

/-- Do one insertion. -/
def insertHalf (template : Template) (tokens : List Token) (insertion : Insertion) : List Token :=
  match insertion.side with
  | .left => insertLeft template insertion.position tokens
  | .right => insertRight template insertion.position tokens

/-- Put a wrapper around each group.  Groups may be nested or stand side by side. -/
def wrap (template : Template) (tokens : List Token) (groups : List Span) : List Token :=
  (sortBy Insertion.ahead (groups.flatMap insertionsOf)).foldl (insertHalf template) tokens

end TagBox
