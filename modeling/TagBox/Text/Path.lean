import TagBox.Text.Blank

/-!
# Paths

Paths as the processor of yorbox forms and takes them apart.

A path is a text whose components are separated by `/`.  Empty components and `.` name no place of
their own.

* `Path.components` — the components that name something.
* `Path.fileName?` — the last name of a path.
* `Path.extension?` — what follows the last point of a file name.
* `Path.join` — an entry of a folder.
-/

namespace TagBox.Path

/-- The pieces of a path between slashes. -/
def pieces : Text → List Text
  | [] => [[]]
  | '/' :: rest => [] :: pieces rest
  | c :: rest =>
    match pieces rest with
    | [] => [[c]]
    | piece :: more => (c :: piece) :: more

/-- The components of a path that name something. -/
def components (path : Text) : List Text :=
  (pieces path).filter fun piece => piece ≠ [] ∧ piece ≠ ['.']

/-- The last name of a path, unless it leads up. -/
def fileName? (path : Text) : Option Text :=
  match (components path).getLast? with
  | none => none
  | some name => if name = ['.', '.'] then none else some name

/-- The part of a file name behind its last point.  A name that starts with its only point has no
extension. -/
def extension? (name : Text) : Option Text :=
  let after := (name.reverse.takeWhile (· ≠ '.')).reverse
  if after.length + 1 < name.length then some after else none

/-- Is the name hidden? -/
def isHidden (name : Text) : Bool :=
  name.head? == some '.'

/-- The path of an entry of a folder. -/
def join (folder name : Text) : Text :=
  match folder.getLast? with
  | none => name
  | some '/' => folder ++ name
  | some _ => folder ++ '/' :: name

/-- The path with `ending` at its last name, if it has one; what follows the name is dropped. -/
def withEnding? (path ending : Text) : Option Text :=
  (fileName? path).map fun _ =>
    let named := (pieces path).reverse.dropWhile fun piece => piece = [] ∨ piece = ['.']
    Text.join ['/'] named.reverse ++ ending

end TagBox.Path
