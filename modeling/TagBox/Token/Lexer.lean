import TagBox.Token.Basic
import TagBox.Token.Lexeme

/-!
# From text to tokens

The tokenizer of yorbox (its specification, §10.1).

`tokenize` folds the blanks of a text into the tokens behind them and closes the list with the
token of the end of the source.  Unrecognized pieces become tokens too; only a quoted text, a
comment or a heredoc without an end is an error.
-/

namespace TagBox

/-- Why a text has no tokens.  Positions count bytes of UTF-8. -/
inductive LexError where
  | unterminatedString (offset : Nat)
  | unterminatedComment (offset : Nat)
  | unterminatedHeredoc (offset : Nat)
  deriving DecidableEq, Repr

/-- What the user is told. -/
def LexError.message : LexError → String
  | .unterminatedString offset => s!"unterminated string starting at byte {offset}"
  | .unterminatedComment offset => s!"unterminated comment starting at byte {offset}"
  | .unterminatedHeredoc offset => s!"unterminated heredoc starting at byte {offset}"

/-- The kind of the token that a lexeme becomes; a blank becomes none. -/
def Shape.kind? : Shape → Option Kind
  | .blank => none
  | .newline => some .newline
  | .lineComment => some .comment
  | .blockComment => some .comment
  | .quoted => some .quoted
  | .heredoc => some .heredoc
  | .openBrace => some .openBrace
  | .closeBrace => some .closeBrace
  | .openParen => some .openParen
  | .closeParen => some .closeParen
  | .openBracket => some .openBracket
  | .closeBracket => some .closeBracket
  | .equals => some .equals
  | .arrow => some .arrow
  | .colon => some .colon
  | .dot => some .dot
  | .ellipsis => some .ellipsis
  | .question => some .question
  | .comma => some .comma
  | .operator => some .operator
  | .number => some .number
  | .identifier => some .identifier

/-- The token kind of a lexeme that starts at byte `offset`; none for a blank. -/
def Lexeme.kind? (offset : Nat) (lexeme : Lexeme) : Except LexError (Option Kind) :=
  match lexeme.reading with
  | .ok shape => .ok shape.kind?
  | .error .unrecognized => .ok (some .other)
  | .error .unterminatedString => .error (.unterminatedString offset)
  | .error .unterminatedComment => .error (.unterminatedComment offset)
  | .error .unterminatedHeredoc => .error (.unterminatedHeredoc offset)

/-- The tokens of lexemes that start at byte `offset`, with the blanks `lead` pending. -/
def tokensOf (offset : Nat) (lead : Text) : List Lexeme → Except LexError (List Token)
  | [] => .ok [{ kind := .eof, text := [], lead }]
  | lexeme :: rest =>
    match lexeme.kind? offset with
    | .error e => .error e
    | .ok none => tokensOf (offset + lexeme.text.byteLength) (lead ++ lexeme.text) rest
    | .ok (some kind) =>
      (tokensOf (offset + lexeme.text.byteLength) [] rest).map
        ({ kind, text := lexeme.text, lead } :: ·)

/-- The tokens of a source text; the last one marks its end. -/
def tokenize (source : Text) : Except LexError (List Token) :=
  tokensOf 0 [] (lexemes source)

end TagBox
