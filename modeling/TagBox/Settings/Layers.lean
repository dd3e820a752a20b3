import TagBox.Settings.Basic
import TagBox.Settings.Place
import TagBox.Text.Order
import TagBox.Toml.Document

/-!
# Settings from layers

The loader of the configuration of yorbox (its specification, §10.4).

Settings come from three layers: the default values, a document, and single overrides.  A later layer
wins entry by entry.  Entries that are no setting are ignored.

* `Settings.toValue` — settings as a table.
* `Settings.ofValue` — settings out of a table.
* `Settings.load` — the settings of a document and overrides.
-/

namespace TagBox

namespace Settings

/-- Why there are no settings. -/
inductive LoadError where
  /-- There is no document at the place where it should be. -/
  | missing (path : Text)
  /-- The document cannot be read. -/
  | unreadable
  /-- An override names no place. -/
  | noPlace (name : Text)
  /-- A setting cannot be converted to what it has to be. -/
  | wrongKind (name : String)
  deriving DecidableEq, Repr

/-- What the user is told. -/
def LoadError.message : LoadError → String
  | .missing path => "configuration file \"" ++ String.ofList path ++ "\" not found"
  | .unreadable => "the configuration file is no TOML document"
  | .noPlace name => "\"" ++ String.ofList name ++ "\" names no setting"
  | .wrongKind name => "the value of " ++ name ++ " has the wrong type"

/-- Texts as a list. -/
def listOf (texts : List Text) : Value :=
  .list (texts.map .text)

/-- Settings as a table; an old template is an entry only if there is one. -/
def toValue (settings : Settings) : Value :=
  .table <|
    [("toggle_name".toList, .text settings.toggleName),
     ("box_template".toList, .text settings.boxTemplate),
     ("tags_prefix".toList, .text settings.tagsPrefix),
     ("marked_keys".toList, listOf settings.markedKeys),
     ("block_kinds".toList, listOf settings.blockKinds),
     ("ignored_block_kinds".toList, listOf settings.ignoredBlockKinds),
     ("tags_attribute".toList, .text settings.tagsAttribute),
     ("legacy_toggle_detection".toList, .truth settings.toggleDetection)] ++
    (settings.oldBoxTemplate.map fun t => ("old_box_template".toList, .text t)).toList

/-- A setting that has to be there. -/
def need {α : Type} (table : Value) (convert : Value → Option α) (name : String) :
    Except LoadError α :=
  match ((table.entries?.getD []).lookup name.toList).bind convert with
  | some a => .ok a
  | none => .error (.wrongKind name)

/-- A text that may be missing. -/
def optionalText (value : Value) : Option (Option Text) :=
  match value with
  | .nothing => some none
  | _ => value.text?.map some

/-- Texts in order, each once. -/
def setOf (texts : List Text) : List Text :=
  dropRepeats (sortBy Text.atMost texts)

/-- Settings out of a table. -/
def ofValue (table : Value) : Except LoadError Settings := do
  let old := if ((table.entries?.getD []).lookup "old_box_template".toList).isSome then
      need table optionalText "old_box_template"
    else .ok none
  return {
    toggleName := ← need table Value.text? "toggle_name"
    boxTemplate := ← need table Value.text? "box_template"
    oldBoxTemplate := ← old
    tagsPrefix := ← need table Value.text? "tags_prefix"
    markedKeys := ← need table Value.texts? "marked_keys"
    blockKinds := ← need table Value.texts? "block_kinds"
    ignoredBlockKinds := setOf (← need table Value.texts? "ignored_block_kinds")
    tagsAttribute := ← need table Value.text? "tags_attribute"
    toggleDetection := ← need table Value.truth? "legacy_toggle_detection" }

/-- Lay the entries of a document over a table.  A key that names no place is a name itself, in lower case. -/
def layEntries (entries : List (Text × Value)) (table : Value) : Value :=
  entries.foldl (fun table (key, value) =>
    value.setAt ((Place.parse key).getD [.entry (Text.lower key)]) table) table

/-- Lay a document over a table. -/
def layDocument (document : Option Text) (table : Value) : Except LoadError Value :=
  match document with
  | none => .ok table
  | some source =>
    match Toml.read source with
    | none => .error .unreadable
    | some entries => .ok (layEntries entries table)

/-- Lay overrides over a table, one after the other. -/
def layOverrides : List (Text × Value) → Value → Except LoadError Value
  | [], table => .ok table
  | (name, value) :: more, table =>
    match Place.parse name with
    | none => .error (.noPlace name)
    | some place => layOverrides more (value.setAt place table)

/-- The settings that come of a document and overrides. -/
def load (document : Option Text) (overrides : List (Text × Value)) : Except LoadError Settings := do
  let table ← layDocument document default.toValue
  ofValue (← layOverrides overrides table)

end Settings

end TagBox
