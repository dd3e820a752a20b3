import TagBox.Text.Blank
import TagBox.Text.CaseTable

/-!
# Letter case

What the helpers `lower` and `upper` of templates do: the full case mappings of Unicode.  A character may
become several, and a capital sigma becomes the final form at the end of a word.

* `upper` — a text in upper case.
* `lower` — a text in lower case.
-/

namespace TagBox.Text

/-- The image of a code point under the first run that holds it. -/
def CaseRun.image? (n : Nat) (run : CaseRun) : Option Nat :=
  if run.first ≤ n ∧ n ≤ run.last ∧ (n - run.first) % run.step = 0 then
    some (n + run.shift).toNat
  else none

/-- Map a character by expansions and runs. -/
def mapCase (expansions : List (Nat × List Nat)) (runs : List CaseRun) (c : Char) : Text :=
  let n := c.toNat
  match expansions.lookup n with
  | some images => images.map Char.ofNat
  | none => [((runs.findSome? (CaseRun.image? n)).map Char.ofNat).getD c]

/-- Is the code point of the character in one of the ranges? -/
def inRanges (ranges : List (Nat × Nat)) (c : Char) : Bool :=
  ranges.any fun (first, last) => first ≤ c.toNat && c.toNat ≤ last

/-- Does a character with a case come first, when ignorable ones are passed over? -/
def casedNext (t : Text) : Bool :=
  match t.dropWhile (inRanges ignorableRanges) with
  | [] => false
  | c :: _ => inRanges casedRanges c

/-- The text in upper case. -/
def upper (t : Text) : Text :=
  t.flatMap (mapCase upperExpansions upperRuns)

/-- The text in lower case, when the characters `before`, last one first, precede it.  A capital sigma
that ends a word becomes a final sigma. -/
def lowerAfter (before : Text) : Text → Text
  | [] => []
  | c :: rest =>
    let image :=
      if c = 'Σ' then [if casedNext before && !casedNext rest then 'ς' else 'σ']
      else mapCase lowerExpansions lowerRuns c
    image ++ lowerAfter (c :: before) rest

/-- The text in lower case. -/
def lower (t : Text) : Text :=
  lowerAfter [] t

end TagBox.Text
