import TagBox.Box.Boxer
import TagBox.Stencil.Renderer

/-!
# Settings of a run

The configuration of yorbox (its specification, §3 and §10.4).

What a run is configured with, and the boxer that comes of it for a directory.  The templates among the
settings may name the directory, so their texts are rendered anew for each one.

* `Settings` — the settings and their default values.
* `Settings.render`, `Settings.renderOld` — the texts of the templates for a directory.
* `Settings.boxer` — the boxer for a directory.
-/

namespace TagBox

/-- Everything a run is configured with. -/
structure Settings where
  toggleName : Text
  boxTemplate : Text
  /-- The template of an earlier run; none, or one of blanks only, means that there was no other. -/
  oldBoxTemplate : Option Text
  tagsPrefix : Text
  markedKeys : List Text
  blockKinds : List Text
  ignoredBlockKinds : List Text
  tagsAttribute : Text
  /-- Does a test of the toggle right before a group count as a box? -/
  toggleDetection : Bool
  deriving DecidableEq, Repr

namespace Settings

/-- The default wrapper: a choice by the toggle variable. -/
def defaultTemplate : Text :=
  ("(var.\x7b\x7b toggleName \x7d\x7d ? /*<box>*/ \x7b yor_trace = 123 \x7d /*</box>*/ : " ++
    "\x7b\x7d)").toList

/-- The settings if nothing is said. -/
def default : Settings where
  toggleName := "yor_toggle".toList
  boxTemplate := defaultTemplate
  oldBoxTemplate := none
  tagsPrefix := []
  markedKeys := KeyMatcher.defaultKeys
  blockKinds := ["resource".toList, "module".toList]
  ignoredBlockKinds := []
  tagsAttribute := "tags".toList
  toggleDetection := true

/-- Why there is no boxer for a directory. -/
inductive SetupError where
  /-- The renderer says what is wrong. -/
  | render (cause : String)
  | template (cause : TemplateError)
  deriving DecidableEq, Repr

/-- What the user is told. -/
def SetupError.message : SetupError → String
  | .render cause => "failed to render box template: " ++ cause
  | .template cause => cause.message

/-- The variables of the templates for a directory. -/
def templateVariables (settings : Settings) (dir : Text) : Stencil.Variables where
  toggleName := settings.toggleName
  tagsPrefix := settings.tagsPrefix
  dirPath := dir

/-- The text of the box template for a directory. -/
def render (settings : Settings) (renderer : Stencil.Renderer) (dir : Text) :
    Except SetupError Text :=
  (renderer (settings.templateVariables dir) settings.boxTemplate).mapError .render

/-- The old template, if it says something and differs from the current one. -/
def oldTemplate? (settings : Settings) : Option Text :=
  settings.oldBoxTemplate.filter fun old => Text.trim old ≠ [] && old ≠ settings.boxTemplate

/-- The text of the old box template for a directory, if there is one to migrate from. -/
def renderOld (settings : Settings) (renderer : Stencil.Renderer) (dir : Text) :
    Except SetupError (Option Text) :=
  match settings.oldTemplate? with
  | none => .ok none
  | some old => ((renderer (settings.templateVariables dir) old).map some).mapError .render

/-- Which keys mark a group. -/
def matcher (settings : Settings) : KeyMatcher where
  head := settings.tagsPrefix
  keys := settings.markedKeys

/-- Which blocks are boxed. -/
def selector (settings : Settings) : Selector where
  kinds := settings.blockKinds
  ignored := settings.ignoredBlockKinds
  name := settings.tagsAttribute

/-- The template with this text. -/
def compile (rendered : Text) : Except SetupError Template :=
  (Template.compile rendered).mapError .template

/-- The boxer for a directory: the box template is rendered and compiled first, then the old one. -/
def boxer (settings : Settings) (renderer : Stencil.Renderer) (dir : Text) :
    Except SetupError Boxer := do
  let template ← compile (← settings.render renderer dir)
  let old ← match ← settings.renderOld renderer dir with
    | none => pure none
    | some rendered => some <$> compile rendered
  let plain : Boxer :=
    { template
      matcher := settings.matcher
      toggle := if settings.toggleDetection then some settings.toggleName else none
      selector := settings.selector }
  return plain.withOld old

end Settings

end TagBox
