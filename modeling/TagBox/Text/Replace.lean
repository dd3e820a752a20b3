import TagBox.Text.Blank

/-!
# Replacing a pattern

What the helper `replace` of templates does.

`Text.replace` replaces the occurrences of a pattern from left to right, without overlaps.  The empty
pattern occurs at both ends of a text and between any two characters.
-/

namespace TagBox.Text

/-- Replace the occurrences of a pattern of `size + 1` characters in a text of which the first `skip`
characters belong to an occurrence already replaced. -/
def replaceAfter (pattern image : Text) (size : Nat) : (skip : Nat) → Text → Text
  | _, [] => []
  | skip + 1, _ :: rest => replaceAfter pattern image size skip rest
  | 0, c :: rest =>
    if pattern.isPrefixOf (c :: rest) then image ++ replaceAfter pattern image size size rest
    else c :: replaceAfter pattern image size 0 rest

/-- Replace all occurrences of a pattern. -/
def replace (pattern image t : Text) : Text :=
  match pattern with
  | [] => image ++ t.flatMap (· :: image)
  | _ :: more => replaceAfter pattern image more.length 0 t

end TagBox.Text
