import TagBox.Text.Blank

/-!
# The extent of a quoted text

How the tokenizer of yorbox (its specification, §10.1) finds the end of a string.

A quoted text may hold template sequences, `${ … }` and `%{ … }`, and inside of them braces and
further quoted texts.  `Quoted.bodyLength` finds its end: the number of characters up to and with
the closing quote, counted from behind the opening one.

The search keeps the number of open braces of the innermost quoted text and, for each quoted text
around it, the number of braces that were open when the inner one began.
-/

namespace TagBox.Quoted

/-- Length of the rest of a quoted text, its closing quote included.  `depth` braces of template
sequences are open, and `outer` holds the open braces of the quoted texts around this one,
innermost first.

* A backslash takes the character behind it along.
* `$${` and `%%{` are plain text; `${` and `%{` open a template sequence.
* Outside of template sequences a line end ends the search without a result, and a quote ends the
  quoted text.  Inside of them a quote begins a nested quoted text, and braces are counted. -/
def bodyLength (depth : Nat) (outer : List Nat) : Text → Option Nat
  | [] => none
  | '\\' :: _ :: rest => (bodyLength depth outer rest).map (· + 2)
  | '$' :: '$' :: '{' :: rest => (bodyLength depth outer rest).map (· + 3)
  | '%' :: '%' :: '{' :: rest => (bodyLength depth outer rest).map (· + 3)
  | '$' :: '{' :: rest => (bodyLength (depth + 1) outer rest).map (· + 2)
  | '%' :: '{' :: rest => (bodyLength (depth + 1) outer rest).map (· + 2)
  | c :: rest =>
    if c = '"' then
      match depth, outer with
      | 0, [] => some 1
      | 0, around :: outer => (bodyLength around outer rest).map (· + 1)
      | inside + 1, outer => (bodyLength 0 ((inside + 1) :: outer) rest).map (· + 1)
    else if c = '\n' ∧ depth = 0 then none
    else if c = '{' ∧ 0 < depth then (bodyLength (depth + 1) outer rest).map (· + 1)
    else if c = '}' ∧ 0 < depth then (bodyLength (depth - 1) outer rest).map (· + 1)
    else (bodyLength depth outer rest).map (· + 1)

/-- Length of a quoted text from behind its opening quote, the closing quote included. -/
def length? (text : Text) : Option Nat :=
  bodyLength 0 [] text

end TagBox.Quoted
