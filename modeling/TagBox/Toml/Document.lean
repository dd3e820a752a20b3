import TagBox.Toml.Scalar

/-!
# TOML documents

The format of the settings file of yorbox (its specification, §10.4 and §10.6).

A document is a list of entries, each a key path and a value, under table headers.  A table is written
once: entries and headers that would define something twice are refused.

* `Item` — what a table under construction holds.
* `addEntry`, `addTable`, `addTableToList` — the three ways in which a document grows.
* `readValue` — a value, with lists and tables inside of it.
* `read` — a whole document.
-/

namespace TagBox.Toml

/-! ## Tables under construction -/

/-- What a table under construction holds at a key. -/
inductive Item where
  /-- A finished value. -/
  | value (value : Value)
  /-- A table.  It is implied if only a longer path or header has mentioned it, and dotted if it came
  from a path of an entry. -/
  | table (implied dotted : Bool) (entries : List (Text × Item))
  /-- A list of tables, of which the last one is open. -/
  | tables (closed : List (List (Text × Item))) (last : List (Text × Item))

/-- The entries of a table under construction. -/
abbrev Items := List (Text × Item)

/-- Change the table at the end of a path.  Tables that do not exist are made on the way.  `edit` also
learns whether the table is dotted, as `here` says of the one at the start. -/
def descend (dotted : Bool) (edit : Bool → Items → Option Items) :
    (path : List Text) → (here : Bool) → Items → Option Items
  | [], here, items => edit here items
  | key :: path, _, items =>
    match items.lookup key with
    | none =>
      (descend dotted edit path dotted []).map fun made =>
        setEntry key (.table true dotted made) items
    | some (.value _) => none
    | some (.table implied wasDotted entries) =>
      if dotted && !implied then none
      else
        (descend dotted edit path wasDotted entries).map fun changed =>
          setEntry key (.table implied wasDotted changed) items
    | some (.tables closed last) =>
      (descend dotted edit path false last).map fun changed =>
        setEntry key (.tables closed changed) items

/-- Add an entry to the table at the end of a path; a path of one name goes to a table that is not
dotted, a longer one to a dotted table. -/
def addEntry (path : List Text) (key : Text) (value : Value) (items : Items) : Option Items :=
  descend true (fun here entries =>
    if here == path.isEmpty then none
    else if (entries.lookup key).isSome then none
    else some (setEntry key (.value value) entries)) path false items

/-- Change the table that a header has named. -/
def atHeader (edit : Items → Option Items) : (header : List Text) → Items → Option Items
  | [], items => edit items
  | key :: header, items =>
    match items.lookup key with
    | some (.table implied dotted entries) =>
      (atHeader edit header entries).map fun changed =>
        setEntry key (.table implied dotted changed) items
    | some (.tables closed last) =>
      (atHeader edit header last).map fun changed => setEntry key (.tables closed changed) items
    | _ => none

/-- Begin the table `key` of the table at the end of a path. -/
def addTable (path : List Text) (key : Text) (items : Items) : Option Items :=
  descend false (fun _ entries =>
    match entries.lookup key with
    | none => some (setEntry key (.table false false []) entries)
    | some (.table true false inner) => some (setEntry key (.table false false inner) entries)
    | some _ => none) path false items

/-- Begin one more table of the list `key` of the table at the end of a path. -/
def addTableToList (path : List Text) (key : Text) (items : Items) : Option Items :=
  descend false (fun _ entries =>
    match entries.lookup key with
    | none => some (setEntry key (.tables [] []) entries)
    | some (.tables closed last) => some (setEntry key (.tables (closed ++ [last]) []) entries)
    | some _ => none) path false items

mutual

/-- The value of a finished item. -/
def Item.finish : Item → Value
  | .value value => value
  | .table _ _ entries => .table (finishEntries entries)
  | .tables closed last => .list (finishTables closed ++ [.table (finishEntries last)])

/-- The entries of a finished table. -/
def finishEntries : List (Text × Item) → List (Text × Value)
  | [] => []
  | (key, item) :: more => (key, item.finish) :: finishEntries more

/-- The tables of a finished list. -/
def finishTables : List (List (Text × Item)) → List Value
  | [] => []
  | entries :: more => .table (finishEntries entries) :: finishTables more

end

/-! ## Reading -/

/-- The text behind blanks. -/
def skipSpace (t : Text) : Text :=
  t.dropWhile isSpace

/-- The text behind a comment. -/
def skipComment (t : Text) : Text :=
  match t with
  | '#' :: rest => rest.dropWhile isPlain
  | _ => t

/-- The text behind blanks, line ends and comments. -/
def skipLines : Nat → Text → Text
  | 0, t => t
  | steps + 1, t =>
    let rest := skipComment (skipSpace t)
    match afterLineEnd rest with
    | some rest => skipLines steps rest
    | none => rest

/-- May the character stand in a key without quotes? -/
def isBare (c : Char) : Bool :=
  c.isAlphanum || c == '_' || c == '-'

/-- One name of a key. -/
def readName (t : Text) : Option (Text × Text) :=
  match t with
  | '"' :: rest => readBasic (rest.length + 1) rest
  | '\'' :: rest => readLiteral rest
  | _ =>
    match t.takeWhile isBare with
    | [] => none
    | name => some (name, t.dropWhile isBare)

/-- A key: names with points between them. -/
def readKey : Nat → Text → Option (List Text × Text)
  | 0, _ => none
  | steps + 1, t => do
    let (name, rest) ← readName (skipSpace t)
    match skipSpace rest with
    | '.' :: rest =>
      let (names, rest) ← readKey steps rest
      return (name :: names, rest)
    | rest => return ([name], rest)

/-- The path of a key and its last name. -/
def splitKey (names : List Text) : List Text × Text :=
  (names.dropLast, names.getLast?.getD [])

/-- How deep lists and tables within braces may stand in each other. -/
def deepest : Nat := 79

mutual

/-- A value, in which lists and tables may stand `depth` deep. -/
def readValue : Nat → (depth : Nat) → Text → Option (Value × Text)
  | 0, _, _ => none
  | steps + 1, depth, t =>
    match t, depth with
    | '[' :: _, 0 => none
    | '{' :: _, 0 => none
    | '[' :: rest, depth + 1 =>
      (readItems steps depth rest).map fun (items, rest) => (.list items, rest)
    | '{' :: rest, depth + 1 =>
      match skipSpace rest with
      | '}' :: rest => some (.table [], rest)
      | rest => do
        let (items, rest) ← readEntries steps depth rest []
        return (.table (finishEntries items), rest)
    | _, _ => readScalar t

/-- The rest of a list. -/
def readItems : Nat → (depth : Nat) → Text → Option (List Value × Text)
  | 0, _, _ => none
  | steps + 1, depth, t =>
    match skipLines (t.length + 1) t with
    | ']' :: rest => some ([], rest)
    | start => do
      let (value, rest) ← readValue steps depth start
      match skipLines (rest.length + 1) rest with
      | ',' :: rest =>
        let (values, rest) ← readItems steps depth rest
        return (value :: values, rest)
      | ']' :: rest => return ([value], rest)
      | _ => none

/-- The rest of a table within braces, with the entries read so far. -/
def readEntries : Nat → (depth : Nat) → Text → Items → Option (Items × Text)
  | 0, _, _, _ => none
  | steps + 1, depth, t, items => do
    let (names, rest) ← readKey (t.length + 1) t
    let rest ← after '=' rest
    let (value, rest) ← readValue steps depth (skipSpace rest)
    let (path, key) := splitKey names
    let items ← addEntry path key value items
    match skipSpace rest with
    | ',' :: rest => readEntries steps depth rest items
    | '}' :: rest => return (items, rest)
    | _ => none

end

/-- The end of a line: perhaps a comment, then a line end or the end of the text. -/
def readLineEnd (t : Text) : Option Text :=
  match skipComment (skipSpace t) with
  | [] => some []
  | rest => afterLineEnd rest

/-- Read entries and headers; entries go to the table that `header` names. -/
def readFrom : Nat → (header : List Text) → Items → Text → Option Items
  | 0, _, _, _ => none
  | steps + 1, header, items, t =>
    match skipSpace t with
    | [] => some items
    | '#' :: rest => do
      let rest ← readLineEnd ('#' :: rest)
      readFrom steps header items rest
    | '[' :: '[' :: rest => do
      let (names, rest) ← readKey (rest.length + 1) rest
      let rest ← Text.stripStart [']', ']'] rest
      let rest ← readLineEnd rest
      let (path, key) := splitKey names
      let items ← addTableToList path key items
      readFrom steps names items rest
    | '[' :: rest => do
      let (names, rest) ← readKey (rest.length + 1) rest
      let rest ← after ']' rest
      let rest ← readLineEnd rest
      let (path, key) := splitKey names
      let items ← addTable path key items
      readFrom steps names items rest
    | start =>
      match afterLineEnd start with
      | some rest => readFrom steps header items rest
      | none => do
        let (names, rest) ← readKey (start.length + 1) start
        let rest ← after '=' rest
        let (value, rest) ← readValue (2 * rest.length + 2) deepest (skipSpace rest)
        let rest ← readLineEnd rest
        let (path, key) := splitKey names
        let items ← atHeader (addEntry path key value) header items
        readFrom steps header items rest

/-- The entries of a document.  A mark of the byte order in front of it is no part of it. -/
def read (source : Text) : Option (List (Text × Value)) :=
  let source := (after '\ufeff' source).getD source
  (readFrom (source.length + 1) [] [] source).map finishEntries

end TagBox.Toml
