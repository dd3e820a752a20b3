import TagBox.Text.Blank

/-!
# Tokens

The tokens and the printer of yorbox (its specification, §3 and §10.2).

A token is a piece of HCL text with its kind and the blanks in front of it, its *lead*.  The lead
rides on the token that follows it, so that blanks take no position of their own in a token list
and printing the list still gives every character back.

* `Kind` — the kinds of tokens, with the three pairs of brackets.
* `Token` — kind, text and lead; `Token.content` is the token without its layout.
* `Token.keyText` — the key that an identifier or a quoted literal spells.
* `print` — the text of a token list.
-/

namespace TagBox

/-- The kinds of tokens. -/
inductive Kind where
  | openBrace
  | closeBrace
  | openParen
  | closeParen
  | openBracket
  | closeBracket
  | comment
  | identifier
  | quoted
  | heredoc
  | equals
  | arrow
  | colon
  | dot
  | ellipsis
  | question
  | comma
  | operator
  | number
  | newline
  /-- A text that is no lexeme of the language; it is kept as it stands. -/
  | other
  /-- The end of the source; its token carries the blanks that trail the last lexeme. -/
  | eof
  deriving DecidableEq, Repr

namespace Kind

/-- Does the kind open a nesting level? -/
def isOpening : Kind → Bool
  | openBrace | openParen | openBracket => true
  | _ => false

/-- Does the kind close a nesting level? -/
def isClosing : Kind → Bool
  | closeBrace | closeParen | closeBracket => true
  | _ => false

/-- The kind that closes what this kind opens. -/
def closer : Kind → Option Kind
  | openBrace => some closeBrace
  | openParen => some closeParen
  | openBracket => some closeBracket
  | _ => none

theorem isOpening_iff_closer (k : Kind) : k.isOpening = true ↔ k.closer.isSome = true := by
  cases k <;> decide

theorem isClosing_of_closer {k c : Kind} (h : k.closer = some c) : c.isClosing = true := by
  cases k <;> simp [closer] at h <;> subst h <;> rfl

end Kind

/-- A token: its kind, its text as it stands in the source, and the blanks in front of it. -/
structure Token where
  kind : Kind
  text : Text
  lead : Text := []
  deriving DecidableEq, Repr

namespace Token

/-- The token without its layout.  Two tokens with the same content are the same token for every
rule that looks for something in a token list. -/
def content (t : Token) : Kind × Text :=
  (t.kind, t.text)

/-- The token as it stands in the source, blanks first. -/
def print (t : Token) : Text :=
  t.lead ++ t.text

/-- The token with another lead. -/
def withLead (t : Token) (lead : Text) : Token :=
  { t with lead := lead }

/-- The key that the token spells: an identifier as it stands, a quoted literal without its
quotes. -/
def keyText (t : Token) : Option Text :=
  match t.kind with
  | .identifier => some t.text
  | .quoted => (Text.stripStart ['"'] t.text).bind (Text.stripEnd ['"'])
  | _ => none

/-- Is the token the identifier `name`? -/
def isName (name : Text) (t : Token) : Bool :=
  t.kind == .identifier && t.text == name

@[simp]
theorem content_withLead (t : Token) (lead : Text) : (t.withLead lead).content = t.content := rfl

@[simp]
theorem lead_withLead (t : Token) (lead : Text) : (t.withLead lead).lead = lead := rfl

@[simp]
theorem kind_withLead (t : Token) (lead : Text) : (t.withLead lead).kind = t.kind := rfl

@[simp]
theorem text_withLead (t : Token) (lead : Text) : (t.withLead lead).text = t.text := rfl

end Token

/-- The text of a token list. -/
def print (tokens : List Token) : Text :=
  tokens.flatMap Token.print

/-- The contents of a token list: all that is left of it when layout is ignored. -/
def contents (tokens : List Token) : List (Kind × Text) :=
  tokens.map Token.content

@[simp]
theorem print_nil : print [] = [] := rfl

@[simp]
theorem print_cons (t : Token) (ts : List Token) : print (t :: ts) = t.print ++ print ts := rfl

@[simp]
theorem print_append (ts us : List Token) : print (ts ++ us) = print ts ++ print us := by
  simp [print]

@[simp]
theorem contents_nil : contents [] = [] := rfl

@[simp]
theorem contents_cons (t : Token) (ts : List Token) :
    contents (t :: ts) = t.content :: contents ts := rfl

@[simp]
theorem contents_append (ts us : List Token) : contents (ts ++ us) = contents ts ++ contents us := by
  simp [contents]

end TagBox
