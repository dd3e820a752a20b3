import TagBox.Decimal.Double
import TagBox.Text.Case

/-!
# Structured values

What the loader of the configuration of yorbox holds: scalars, lists and tables.  A scalar is converted to
what a setting needs; a list or a table never is.

* `Value` — the values.
* `Value.text?`, `Value.truth?`, `Value.texts?` — a value as text, as truth, as a list of texts.
-/

namespace TagBox

/-- A structured value. -/
inductive Value where
  | nothing
  | text (value : Text)
  | integer (value : Int)
  | real (value : Double)
  | truth (value : Bool)
  | list (items : List Value)
  | table (entries : List (Text × Value))

namespace Value

/-- A scalar as text. -/
def text? : Value → Option Text
  | .text t => some t
  | .integer n => some (toString n).toList
  | .real x => some x.print
  | .truth b => some (if b then "true".toList else "false".toList)
  | _ => none

/-- The words for true, in lower case. -/
def trueWords : List Text :=
  ["1".toList, "true".toList, "on".toList, "yes".toList]

/-- The words for false, in lower case. -/
def falseWords : List Text :=
  ["0".toList, "false".toList, "off".toList, "no".toList]

/-- A scalar as a truth value: a number other than zero is true, and so is a word for true. -/
def truth? : Value → Option Bool
  | .truth b => some b
  | .integer n => some (n != 0)
  | .real x => some (!x.isZero)
  | .text t =>
    if Text.lower t ∈ trueWords then some true
    else if Text.lower t ∈ falseWords then some false
    else none
  | _ => none

/-- A list of scalars as texts. -/
def texts? : Value → Option (List Text)
  | .list items => items.mapM text?
  | _ => none

/-- The entries of a table. -/
def entries? : Value → Option (List (Text × Value))
  | .table entries => some entries
  | _ => none

end Value

/-- The entries with `value` at `key`: in place of the old entry, or else as the last one. -/
def setEntry {α : Type} (key : Text) (value : α) : List (Text × α) → List (Text × α)
  | [] => [(key, value)]
  | (k, v) :: more => if k = key then (key, value) :: more else (k, v) :: setEntry key value more

end TagBox
