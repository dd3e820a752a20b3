import TagBox.Text.Blank

/-!
# Renderers

What the template renderer of yorbox (its specification, §2) is to the rest of it.

A template is written as a text with placeholders, which is filled in before it is read.  What may stand
in a placeholder is a language of its own, handlebars, and the program leaves it to a library; its own part
is to offer the values of three variables and five helpers.  So whatever depends on templates takes the
renderer as a parameter, and what is proved holds for every renderer.

* `Variables` — the values that a template may use.
* `Renderer` — fills in the text of a template.
-/

namespace TagBox.Stencil

/-- The values that a template may use. -/
structure Variables where
  toggleName : Text
  tagsPrefix : Text
  dirPath : Text
  deriving DecidableEq, Repr

/-- Fills in the text of a template, or says what is wrong with it. -/
abbrev Renderer := Variables → Text → Except String Text

end TagBox.Stencil
