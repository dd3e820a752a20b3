/-!
# Text and white space

All text of this library is a list of characters, so that cutting, joining and matching are the
list operations and every rule can be stated by recursion on the list.

* `Text` — the type of texts.
* `isBlank` — the Unicode property `White_Space`.
* `trimStart`, `trimEnd`, `trim` — a text without the white space at its ends.
* `dropEndWhile` — the general form of `trimEnd`.
* `byteLength` — the size of a text in UTF-8.
-/

namespace TagBox

/-- A text, character by character. -/
abbrev Text := List Char

namespace Text

/-- The Unicode property `White_Space`. -/
def isBlank (c : Char) : Bool :=
  let n := c.toNat
  (9 ≤ n && n ≤ 13) || n == 0x20 || n == 0x85 || n == 0xA0 || n == 0x1680 ||
    (0x2000 ≤ n && n ≤ 0x200A) || n == 0x2028 || n == 0x2029 || n == 0x202F || n == 0x205F ||
    n == 0x3000

/-- Drop the characters at the end for which `p` holds. -/
def dropEndWhile (p : Char → Bool) (t : Text) : Text :=
  (t.reverse.dropWhile p).reverse

/-- The text without the white space it starts with. -/
def trimStart (t : Text) : Text :=
  t.dropWhile isBlank

/-- The text without the white space it ends with. -/
def trimEnd (t : Text) : Text :=
  t.dropEndWhile isBlank

/-- The text without the white space at both ends. -/
def trim (t : Text) : Text :=
  trimEnd (trimStart t)

/-- Size of the text in bytes of UTF-8. -/
def byteLength (t : Text) : Nat :=
  t.foldr (fun c size => c.utf8Size + size) 0

/-- What follows `head` in the text, if the text starts with it. -/
def stripStart : (head t : Text) → Option Text
  | [], t => some t
  | _ :: _, [] => none
  | c :: cs, d :: ds => if c = d then stripStart cs ds else none

/-- What precedes `tail` in the text, if the text ends with it. -/
def stripEnd (tail t : Text) : Option Text :=
  (stripStart tail.reverse t.reverse).map List.reverse

/-- The texts in order, with `separator` between neighbours. -/
def join (separator : Text) : List Text → Text
  | [] => []
  | [t] => t
  | t :: rest => t ++ separator ++ join separator rest

@[simp]
theorem byteLength_nil : byteLength [] = 0 := rfl

@[simp]
theorem byteLength_cons (c : Char) (t : Text) : byteLength (c :: t) = c.utf8Size + byteLength t :=
  rfl

@[simp]
theorem byteLength_append (s t : Text) : byteLength (s ++ t) = byteLength s + byteLength t := by
  induction s with
  | nil => simp
  | cons c s ih => simp [ih, Nat.add_assoc]

end Text

end TagBox
