import TagBox.Settings.Value

/-!
# Places in a value

The keys of overrides and documents, as the loader of the configuration reads them.

A place is a name with steps behind it: `.name` goes to an entry of a table and `[n]` to an item of a
list.  Setting a place never fails: what is in the way becomes a table or a list.

* `Place.parse` — the place that a text names.
* `Value.put` — set an entry; a table is merged into what stands there.
* `Value.setAt` — set a place.
-/

namespace TagBox

namespace Place

/-- One step into a value. -/
inductive Step where
  /-- To an entry of a table. -/
  | entry (name : Text)
  /-- To an item of a list; a negative number counts from the end. -/
  | item (index : Int)
  deriving DecidableEq, Repr

/-- May the character stand in a name of a place? -/
def isNameChar (c : Char) : Bool :=
  c.isAlphanum || c == '_' || c == '-' || c == ' '

/-- A name, in lower case. -/
def readName (t : Text) : Option (Text × Text) :=
  match t.takeWhile isNameChar with
  | [] => none
  | name => some (Text.lower name, t.dropWhile isNameChar)

/-- A number between brackets, from behind the opening one; blanks may stand around it. -/
def readIndex (t : Text) : Option (Int × Text) :=
  let t := t.dropWhile isSpace
  let (negative, t) := match t with
    | '-' :: rest => (true, rest)
    | _ => (false, t)
  match t.takeWhile Char.isDigit, (t.dropWhile Char.isDigit).dropWhile isSpace with
  | [], _ => none
  | digits, ']' :: rest =>
    let size : Int := digits.foldl (fun n c => n * 10 + (c.toNat - 48)) 0
    let index := if negative then -size else size
    if -9223372036854775808 ≤ index ∧ index < 9223372036854775808 then some (index, rest) else none
  | _, _ => none
where
  /-- Is the character a space or a tab? -/
  isSpace (c : Char) : Bool :=
    c == ' ' || c == '\t'

/-- The steps that a text names. -/
def readSteps : Nat → Text → Option (List Step)
  | _, [] => some []
  | 0, _ => none
  | steps + 1, '.' :: rest => do
    let (name, rest) ← readName rest
    return .entry name :: (← readSteps steps rest)
  | steps + 1, '[' :: rest => do
    let (index, rest) ← readIndex rest
    return .item index :: (← readSteps steps rest)
  | _, _ => none

/-- The place that a text names. -/
def parse (t : Text) : Option (List Step) := do
  let (name, rest) ← readName t
  return .entry name :: (← readSteps rest.length rest)

end Place

namespace Value

mutual

/-- Set an entry of a table.  A table is merged into what stands there; all else replaces it. -/
def put (key : Text) : Value → List (Text × Value) → List (Text × Value)
  | .table incoming, entries =>
    setEntry key (merge incoming ((entries.lookup key).getD (.table []))) entries
  | value, entries => setEntry key value entries

/-- Set entries of a value; if there are any, a value that is no table makes place for one. -/
def merge : List (Text × Value) → Value → Value
  | [], target => target
  | (key, value) :: more, target => merge more (.table (put key value (target.entries?.getD [])))

end

/-- The items of a list; anything else has none. -/
def items : Value → List Value
  | .list items => items
  | _ => []

/-- The position of an item of a list of this length, unless it lies before the first one. -/
def position? (index : Int) (length : Nat) : Option Nat :=
  if 0 ≤ index then some index.toNat
  else if index.natAbs ≤ length then some (length - index.natAbs)
  else none

/-- Set an item; a list that is too short is filled up first. -/
def setItem (i : Nat) (value : Value) (items : List Value) : List Value :=
  (items ++ List.replicate (i + 1 - items.length) Value.nothing).set i value

/-- Set the place that steps lead to. -/
def setAt (value : Value) : List Place.Step → Value → Value
  | [], _ => value
  | [.entry key], target => .table (value.put key (target.entries?.getD []))
  | .entry key :: steps, target =>
    let entries := target.entries?.getD []
    .table (setEntry key (setAt value steps ((entries.lookup key).getD .nothing)) entries)
  | .item index :: steps, target =>
    match position? index target.items.length with
    | none => target
    | some i =>
      .list (setItem i (setAt value steps ((target.items[i]?).getD .nothing)) target.items)

end Value

end TagBox
