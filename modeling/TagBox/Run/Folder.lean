import TagBox.Run.Revise
import TagBox.Text.Order
import TagBox.Text.Path

/-!
# Folders

What the processor of yorbox (its specification, §10.5) sees of a disk.

A folder is a tree of named entries, kept in the order of their names, and no two places share a file.  A
path leads through it piece by piece: an empty piece and `.` stay, `..` goes up, a name goes down.

* `Content` — what a file holds.
* `Entry` — a file or a folder.
* `Entry.place` — put a file or an empty folder at a place, with the folders above it.
* `Entry.resolve` — the names that lead to where a path ends.
* `Entry.readText` — the text of a file.
* `Entry.updateAt` — change one entry and leave all others.
* `Entry.files` — all files with their paths.
-/

namespace TagBox

/-- What a file holds. -/
inductive Content where
  | text (value : Text)
  /-- Bytes that are no text. -/
  | raw (bytes : List UInt8)
  deriving DecidableEq, Repr

/-- What a file with these bytes holds. -/
def Content.ofBytes (bytes : ByteArray) : Content :=
  match String.fromUTF8? bytes with
  | some s => .text s.toList
  | none => .raw bytes.toList

/-- The text of what a file holds. -/
def Content.read : Content → Except DiskError Text
  | .text t => .ok t
  | .raw _ => .error .notText

/-- A file or a folder. -/
inductive Entry where
  | file (name : Text) (content : Content)
  | folder (name : Text) (entries : List Entry)

namespace Entry

/-- The name of an entry. -/
def name : Entry → Text
  | .file name _ => name
  | .folder name _ => name

/-- What is in a folder. -/
def entries : Entry → List Entry
  | .file _ _ => []
  | .folder _ entries => entries

/-- Is the entry a folder? -/
def isFolder : Entry → Bool
  | .file _ _ => false
  | .folder _ _ => true

/-! ## Building -/

/-- Put an entry among others, in the order of names and in place of one with its name. -/
def insert (entry : Entry) : List Entry → List Entry
  | [] => [entry]
  | other :: more =>
    if entry.name = other.name then entry :: more
    else if Text.atMost entry.name other.name then entry :: other :: more
    else other :: insert entry more

/-- The entry with a name. -/
def named? (name : Text) (entries : List Entry) : Option Entry :=
  entries.find? fun entry => entry.name = name

/-- A folder with these entries, in the order of their names. -/
def ofEntries (name : Text) (entries : List Entry) : Entry :=
  .folder name (entries.foldr insert [])

/-- Put a file, or an empty folder, at the place that names lead to; folders on the way are made. -/
def place (content : Option Content) : List Text → Entry → Entry
  | [], entry => entry
  | [name], .folder here entries =>
    match content with
    | some content => .folder here (insert (.file name content) entries)
    | none => .folder here (insert ((named? name entries).getD (.folder name [])) entries)
  | name :: more, .folder here entries =>
    let inner := (named? name entries).getD (.folder name [])
    .folder here (insert (place content more inner) entries)
  | _ :: _, .file name content => .file name content

/-! ## Looking up -/

/-- The entry that names lead to. -/
def at? : List Text → Entry → Option Entry
  | [], entry => some entry
  | name :: more, entry => (named? name entry.entries).bind (at? more)

/-- Follow the pieces of a path; `here` are the names that lead to where we are. -/
def follow (root : Entry) : (here : List Text) → (pieces : List Text) → Except DiskError (List Text)
  | here, [] => .ok here
  | here, piece :: more =>
    match at? here root with
    | none => .error .notFound
    | some (.file _ _) => .error .notDirectory
    | some (.folder _ entries) =>
      if piece = [] ∨ piece = ['.'] then follow root here more
      else if piece = ['.', '.'] then
        if here = [] then .error .notFound else follow root here.dropLast more
      else if (named? piece entries).isSome then follow root (here ++ [piece]) more
      else .error .notFound

/-- The names that lead to where a path ends.  An empty path leads nowhere, and nothing outside of the
folder is known. -/
def resolve (root : Entry) (path : Text) : Except DiskError (List Text) :=
  match path with
  | [] => .error .notFound
  | '/' :: _ => .error .notFound
  | _ => follow root [] (Path.pieces path)

/-- The entry that a path leads to. -/
def get (root : Entry) (path : Text) : Except DiskError Entry :=
  match root.resolve path with
  | .error e => .error e
  | .ok names =>
    match at? names root with
    | none => .error .notFound
    | some entry => .ok entry

/-- The text of a file. -/
def readText (root : Entry) (path : Text) : Except DiskError Text :=
  match root.get path with
  | .error e => .error e
  | .ok (.folder _ _) => .error .isDirectory
  | .ok (.file _ content) => content.read

/-! ## Changing -/

/-- Change the entry that names lead to. -/
def updateAt (change : Entry → Entry) : List Text → Entry → Entry
  | [], entry => change entry
  | name :: more, .folder here entries =>
    .folder here (entries.map fun entry =>
      if entry.name = name then updateAt change more entry else entry)
  | _ :: _, .file name content => .file name content

/-- Put an entry in the place of the one that a path leads to. -/
def replace (root : Entry) (path : Text) (entry : Entry) : Entry :=
  match root.resolve path with
  | .error _ => root
  | .ok names => updateAt (fun _ => entry) names root

mutual

/-- All files of an entry, each with the path that leads to it. -/
def files (path : Text) : Entry → List (Text × Content)
  | .file _ content => [(path, content)]
  | .folder _ entries => filesOf path entries

/-- All files of the entries of a folder. -/
def filesOf (path : Text) : List Entry → List (Text × Content)
  | [] => []
  | .file name content :: more => (Path.join path name, content) :: filesOf path more
  | .folder name entries :: more => filesOf (Path.join path name) entries ++ filesOf path more

end

end Entry

end TagBox
