import TagBox.Box.Edit
import TagBox.Box.Group

/-!
# Boxing and unboxing a value

The boxer of yorbox (its specification, §4.4), which ties scanners and engine together.

A boxer holds compiled templates and says which blocks it is for.  Boxing puts its wrapper around
every tag group that has none yet; if there is an old template, its wrappers are taken away first.
Unboxing takes the wrappers of the current template away.

* `Selector` — which blocks, and which attribute of them.
* `BoxError` — why a value cannot be boxed or unboxed.
* `Boxer.box`, `Boxer.unbox` — what happens to the tokens of a value.
-/

namespace TagBox

/-- Which blocks are boxed, and which attribute of them. -/
structure Selector where
  kinds : List Text := ["resource".toList, "module".toList]
  ignored : List Text := []
  name : Text := "tags".toList
  deriving DecidableEq, Repr

/-- A block is selected if its kind is listed and neither its kind nor its first label is ignored. -/
def Selector.selects (selector : Selector) (block : Block) : Bool :=
  selector.kinds.contains block.kind && !selector.ignored.contains block.kind &&
    !(block.label? 0).any selector.ignored.contains

/-- Why a value cannot be boxed or unboxed. -/
inductive BoxError where
  | nesting (cause : NestingError)
  /-- A half of a wrapper that was found is no longer there when it is to be removed. -/
  | overrun (cause : Overrun)
  deriving DecidableEq, Repr

/-- Everything needed to box values. -/
structure Boxer where
  template : Template
  /-- A template whose wrappers are replaced. -/
  old : Option Template := none
  matcher : KeyMatcher
  /-- The name of a variable; a test of it right before a group counts as a box. -/
  toggle : Option Text := none
  selector : Selector := {}
  deriving DecidableEq, Repr

namespace Boxer

/-- The boxer with an old template, unless that has the shape of the current one. -/
def withOld (boxer : Boxer) (old : Option Template) : Boxer :=
  { boxer with old := old.filter fun old => !old.sameShape boxer.template }

/-- The halves, of those found, that hug a group. -/
def hugs (found : Wrappers) (groups : List Span) : List Half :=
  (groups.filterMap found.boxing).flatMap fun (left, right) => left :: right.toList

/-- The halves of the template that hug a tag group. -/
def hugging (matcher : KeyMatcher) (template : Template) (tokens : List Token) :
    Except NestingError (List Half) :=
  (tagGroups matcher tokens).map (hugs (template.wrappers tokens))

/-- The tokens without the wrappers of a template around tag groups. -/
def unwrap (matcher : KeyMatcher) (template : Template) (tokens : List Token) :
    Except BoxError (List Token) :=
  match hugging matcher template tokens with
  | .error e => .error (.nesting e)
  | .ok stale => (strip tokens stale).mapError .overrun

theorem mapError_eq_ok_iff {ε ε' α : Type} {f : ε → ε'} {x : Except ε α} {a : α} :
    x.mapError f = .ok a ↔ x = .ok a := by
  cases x with
  | error e =>
    constructor
    · intro h
      cases h
    · intro h
      cases h
  | ok b =>
    show Except.ok b = Except.ok a ↔ Except.ok b = Except.ok a
    simp

theorem mapError_eq_error_iff {ε ε' α : Type} {f : ε → ε'} {x : Except ε α} {e' : ε'} :
    x.mapError f = .error e' ↔ ∃ e, x = .error e ∧ f e = e' := by
  cases x with
  | error e =>
    show Except.error (f e) = Except.error e' ↔ ∃ cause, Except.error e = Except.error cause ∧ f cause = e'
    simp
  | ok b =>
    show Except.ok b = Except.error e' ↔ ∃ cause, Except.ok b = Except.error cause ∧ f cause = e'
    simp

theorem unwrap_eq_ok_iff {matcher : KeyMatcher} {template : Template} {tokens out : List Token} :
    unwrap matcher template tokens = .ok out ↔
      ∃ stale, hugging matcher template tokens = .ok stale ∧ strip tokens stale = .ok out := by
  unfold unwrap
  cases hugging matcher template tokens with
  | error e => simp
  | ok stale => simp [mapError_eq_ok_iff]

theorem unwrap_eq_error_iff {matcher : KeyMatcher} {template : Template} {tokens : List Token}
    {e : BoxError} :
    unwrap matcher template tokens = .error e ↔
      (∃ cause, hugging matcher template tokens = .error cause ∧ .nesting cause = e) ∨
      ∃ stale cause, hugging matcher template tokens = .ok stale ∧
        strip tokens stale = .error cause ∧ .overrun cause = e := by
  unfold unwrap
  cases hugging matcher template tokens with
  | error cause => simp
  | ok stale => simp [mapError_eq_error_iff]

/-- What counts as a box in a value: the wrappers of the template, and tests of the toggle. -/
def boxesIn (boxer : Boxer) (tokens : List Token) : List Wrappers :=
  boxer.template.wrappers tokens :: (boxer.toggle.map fun name => toggleHeads name tokens).toList

/-- The groups that nothing boxes. -/
def pending (found : List Wrappers) (groups : List Span) : List Span :=
  groups.filter fun group => !found.any fun wrappers => wrappers.boxes group

/-- Put the wrapper around each tag group that is not boxed. -/
def wrapPending (boxer : Boxer) (tokens : List Token) : Except BoxError (List Token) :=
  match tagGroups boxer.matcher tokens with
  | .error e => .error (.nesting e)
  | .ok groups => .ok (wrap boxer.template tokens (pending (boxer.boxesIn tokens) groups))

theorem wrapPending_eq_ok_iff {boxer : Boxer} {tokens out : List Token} :
    boxer.wrapPending tokens = .ok out ↔ ∃ groups, tagGroups boxer.matcher tokens = .ok groups ∧
      wrap boxer.template tokens (pending (boxer.boxesIn tokens) groups) = out := by
  unfold wrapPending
  cases tagGroups boxer.matcher tokens <;> simp

/-- Box every tag group of a value. -/
def box (boxer : Boxer) (tokens : List Token) : Except BoxError (List Token) :=
  match boxer.old with
  | none => boxer.wrapPending tokens
  | some old =>
    match unwrap boxer.matcher old tokens with
    | .error e => .error e
    | .ok current => boxer.wrapPending current

/-- Take the current wrappers away from every tag group of a value. -/
def unbox (boxer : Boxer) (tokens : List Token) : Except BoxError (List Token) :=
  unwrap boxer.matcher boxer.template tokens

end Boxer

end TagBox
