import TagBox.Decimal.Double

/-!
# Arguments of a placeholder

The part of the language of templates, handlebars, that stands in one placeholder.

A stencil is a text with placeholders, double braces around a name, that stand for values.  This
module reads what stands inside of one: the name of a variable, a literal, or a helper with its
arguments.

Left out is what a number, a list or a record looks like as text: it is only kept whether it counts as true,
and a placeholder cannot show it.  What `@` and `..` lead to is left out too, the root aside: it is missing.

* `Argument` — what is read.
* `readExpression` — the expression of a placeholder: a value, or a helper with arguments.
* `readCall` — a helper with any number of arguments, as at the start of a section.

The readers of nested things take a step bound, which twice the length of the text satisfies.
-/

namespace TagBox.Stencil

/-- A literal. -/
inductive Literal where
  | text (value : Text)
  /-- A number, of which it only matters whether it is normal: not zero, nor next to it. -/
  | number (isNormal : Bool)
  | truth (value : Bool)
  | null
  /-- A list or a record. -/
  | collection (isEmpty : Bool)
  deriving DecidableEq, Repr

/-- A value or the call of a helper that gives one. -/
inductive Argument where
  | literal (value : Literal)
  /-- A path of names; `raw` is its spelling. -/
  | reference (raw : Text) (names : List Text)
  /-- A helper with its arguments, those with a name apart. -/
  | call (helper : Text) (arguments : List Argument) (named : List (Text × Argument))

/-- May the character stand between the parts of a placeholder? -/
def isGap (c : Char) : Bool :=
  c == ' ' || c == '\t' || c == '\n' || c == '\r'

/-- The text behind a gap. -/
def skipGap (t : Text) : Text :=
  t.dropWhile isGap

/-- May the character stand in a name? -/
def isSymbol (c : Char) : Bool :=
  c.isAlphanum || c == '_' || c == '-' || c == '$' || c == ':' ||
    0x80 ≤ c.toNat

/-- Does no name go on here? -/
def nameEnds (t : Text) : Bool :=
  !(t.head?.any isSymbol)

/-- A name. -/
def readName (t : Text) : Option (Text × Text) :=
  match t.takeWhile isSymbol with
  | [] => none
  | name => some (name, t.dropWhile isSymbol)

/-- The text behind `mark`, a gap in front of it aside. -/
def expect (mark t : Text) : Option Text :=
  Text.stripStart mark (skipGap t)

/-! ## Literals -/

/-- The value of a hexadecimal digit. -/
def hexValue? (c : Char) : Option Nat :=
  if c.isDigit then some (c.toNat - 48)
  else if 'a' ≤ c ∧ c ≤ 'f' then some (c.toNat - 87)
  else if 'A' ≤ c ∧ c ≤ 'F' then some (c.toNat - 55)
  else none

/-- A code unit of four hexadecimal digits. -/
def readUnit : Text → Option (Nat × Text)
  | a :: b :: c :: d :: rest => do
    let a ← hexValue? a
    let b ← hexValue? b
    let c ← hexValue? c
    let d ← hexValue? d
    return (((a * 16 + b) * 16 + c) * 16 + d, rest)
  | _ => none

/-- The character behind `\u`: one code unit, or two that form a pair. -/
def readCodePoint (t : Text) : Option (Char × Text) := do
  let (unit, rest) ← readUnit t
  if 0xD800 ≤ unit ∧ unit < 0xDC00 then
    match rest with
    | '\\' :: 'u' :: more =>
      let (low, rest) ← readUnit more
      if 0xDC00 ≤ low ∧ low < 0xE000 then
        return (Char.ofNat (0x10000 + (unit - 0xD800) * 0x400 + (low - 0xDC00)), rest)
      else none
    | _ => none
  else if 0xDC00 ≤ unit ∧ unit < 0xE000 then none
  else return (Char.ofNat unit, rest)

/-- The character that a backslash and `c` stand for, in a text within `quote`. -/
def escaped? (quote c : Char) : Option Char :=
  match c with
  | '\\' => some '\\'
  | '/' => some '/'
  | 'b' => some '\x08'
  | 'f' => some '\x0c'
  | 'n' => some '\n'
  | 'r' => some '\r'
  | 't' => some '\t'
  | _ => if c = quote then some quote else none

/-- The rest of a literal within `quote`, and the text behind it. -/
def readQuoted (quote : Char) : Nat → Text → Option (Text × Text)
  | 0, _ => none
  | _, [] => none
  | steps + 1, c :: rest =>
    if c = quote then some ([], rest)
    else if c = '\\' then
      match rest with
      | [] => none
      | 'u' :: more => do
        let (c, rest) ← readCodePoint more
        let (value, rest) ← readQuoted quote steps rest
        return (c :: value, rest)
      | mark :: more => do
        let c ← escaped? quote mark
        let (value, rest) ← readQuoted quote steps more
        return (c :: value, rest)
    else if c.toNat < 0x20 then none
    else do
      let (value, rest) ← readQuoted quote steps rest
      return (c :: value, rest)

/-- The number that decimal digits spell. -/
def decimalValue (digits : Text) : Nat :=
  digits.foldl (fun n c => n * 10 + (c.toNat - 48)) 0

/-- The literal of a number in its parts.  There is none if zeros stand in front of the whole part, if a
point has no digits behind it, or if the number is too large. -/
def numberLiteral (negative : Bool) (whole : Text) (fraction : Option Text) (exponent : Int) :
    Option Literal :=
  let digits := fraction.getD []
  let value := Double.ofDecimal negative (decimalValue (whole ++ digits)) (exponent - digits.length)
  if (whole.head? = some '0' ∧ whole.length ≠ 1) ∨ fraction = some [] ∨
      value = .infinite negative then none
  else some (.number value.isNormal)

/-- The exponent of a number, zero if it has none. -/
def readExponent (t : Text) : Int × Text :=
  match t with
  | 'E' :: '-' :: c :: more =>
    if c.isDigit then (-(decimalValue ((c :: more).takeWhile Char.isDigit) : Int),
      more.dropWhile Char.isDigit)
    else (0, t)
  | 'E' :: c :: more =>
    if c.isDigit then ((decimalValue ((c :: more).takeWhile Char.isDigit) : Int),
      more.dropWhile Char.isDigit)
    else (0, t)
  | _ => (0, t)

/-- A number: digits, perhaps with a sign, a fraction and an exponent, and no name behind it. -/
def readNumber (t : Text) : Option (Option Literal × Text) :=
  let unsigned := (Text.stripStart ['-'] t).getD t
  let whole := unsigned.takeWhile Char.isDigit
  let rest := unsigned.dropWhile Char.isDigit
  let (fraction, rest) := match rest with
    | '.' :: more => (some (more.takeWhile Char.isDigit), more.dropWhile Char.isDigit)
    | _ => (none, rest)
  let (exponent, rest) := readExponent rest
  if whole = [] ∨ !nameEnds rest then none
  else some (numberLiteral (unsigned.length ≠ t.length) whole fraction exponent, rest)

/-- The word `word`, with no name behind it. -/
def readWord (word : String) (value : Literal) (t : Text) : Option (Option Literal × Text) := do
  let rest ← Text.stripStart word.toList t
  if nameEnds rest then return (some value, rest) else none

/-- A text within `quote`, from behind it. -/
def readString (quote : Char) (t : Text) : Option (Option Literal × Text) :=
  (readQuoted quote (t.length + 1) t).map fun (value, rest) => (some (.text value), rest)

/-- May the text, which starts with a literal, stand in a list or a record?  A text there is within
double quotes. -/
def isItem (t : Text) (value : Option Literal) : Bool :=
  value.isSome && t.head? ≠ some '\''

mutual

/-- A literal.  What has the form of one and yet no value is read as nothing. -/
def readLiteral : Nat → Text → Option (Option Literal × Text)
  | 0, _ => none
  | steps + 1, t =>
    match t with
    | '"' :: rest => readString '"' rest
    | '\'' :: rest => readString '\'' rest
    | '[' :: rest => readCollection steps false ']' true true true rest
    | '{' :: rest => readCollection steps true '}' true true true rest
    | _ =>
      readNumber t <|> readWord "null" .null t <|> readWord "true" (.truth true) t <|>
        readWord "false" (.truth false) t

/-- The rest of a list or, if `keyed`, of a record, up to `closing`.  `atStart` says that nothing but a
gap has been read of it, `isEmpty` that it has no items so far and `isValid` that it has a value. -/
def readCollection : Nat → (keyed : Bool) → (closing : Char) → (atStart isEmpty isValid : Bool) →
    Text → Option (Option Literal × Text)
  | 0, _, _, _, _, _, _ => none
  | steps + 1, keyed, closing, atStart, isEmpty, isValid, t =>
    let start := skipGap t
    let comma := Text.stripStart [','] start
    let done := (Text.stripStart [closing] start).map fun rest =>
      (if isValid then some (.collection isEmpty) else none, rest)
    match done, comma with
    | some found, _ => some found
    | none, some rest =>
      match readMember steps keyed (skipGap rest) with
      | none => none
      | some (valid, rest) =>
        readCollection steps keyed closing false false (isValid && valid && !atStart) rest
    | none, none =>
      if atStart then
        match readMember steps keyed start with
        | none => none
        | some (valid, rest) => readCollection steps keyed closing false false (isValid && valid) rest
      else none

/-- An item of a list or, if `keyed`, an entry of a record: does it have a value? -/
def readMember : Nat → (keyed : Bool) → Text → Option (Bool × Text)
  | 0, _, _ => none
  | steps + 1, keyed, t =>
    if keyed then
      match t with
      | c :: rest =>
        if c = '"' ∨ c = '\'' then
          match (readString c rest).bind fun (_, rest) => expect [':'] rest with
          | none => none
          | some rest =>
            let start := skipGap rest
            (readLiteral steps start).map fun (value, rest) => (isItem start value && c = '"', rest)
        else none
      | [] => none
    else (readLiteral steps t).map fun (value, rest) => (isItem t value, rest)

end

/-! ## References -/

/-- One name of a path: plain, or anything within square brackets. -/
def readStep (t : Text) : Option (Text × Text) :=
  match t with
  | '[' :: rest =>
    match rest.dropWhile (· ≠ ']') with
    | _ :: more => some (rest.takeWhile (· ≠ ']'), more)
    | [] => none
  | _ => readName t

/-- The further names of a path, each behind a point or a slash. -/
def readSteps : Nat → Text → List Text × Text
  | 0, t => ([], t)
  | steps + 1, t =>
    match t with
    | c :: rest =>
      if c = '.' ∨ c = '/' then
        match readStep rest with
        | some (name, rest) =>
          let (names, rest) := readSteps steps rest
          (name :: names, rest)
        | none => ([], t)
      else ([], t)
    | [] => ([], t)

/-- What a path may start with, and the name it then stands for: nothing, for the present place. -/
def readOrigin (t : Text) : List Text × Text :=
  let t := ((["this.", "this/", "./"].map String.toList).findSome?
    (Text.stripStart · t)).getD t
  let t := ((["@root.", "@root/"].map String.toList).findSome? (Text.stripStart · t)).getD t
  match t with
  | '@' :: rest => ([['@']], rest)
  | '.' :: '.' :: c :: rest => if c = '.' ∨ c = '/' then ([['.', '.']], rest) else ([], t)
  | _ => ([], t)

/-- A path of names. -/
def readReference (t : Text) : Option (Argument × Text) := do
  let (origin, rest) := readOrigin t
  let (name, rest) ← readStep rest
  let (names, rest) := readSteps rest.length rest
  let raw := t.take (t.length - rest.length)
  return (.reference raw (origin ++ (name :: names).filter (· ≠ "this".toList)), rest)

/-! ## Calls -/

/-- Is the text at a word that is no argument?  It is one if a name follows, a gap aside. -/
def atKeyword (t : Text) : Bool :=
  ["as", "else"].any fun word =>
    (Text.stripStart word.toList t).any fun rest => nameEnds (skipGap rest)

/-- The name of a named argument, and what follows the sign behind it. -/
def readArgumentName (t : Text) : Option (Text × Text) := do
  let (name, rest) ← readName t
  let rest ← expect ['='] rest
  return (name, skipGap rest)

mutual

/-- One argument. -/
def readArgument : Nat → Text → Option (Argument × Text)
  | 0, _ => none
  | steps + 1, t =>
    if atKeyword t then none
    else
      match readLiteral (2 * t.length + 2) t with
      | some (some value, rest) => some (.literal value, rest)
      | some (none, _) => none
      | none =>
        match readReference t with
        | some found => some found
        | none => readNested steps t

/-- A helper with arguments, or a path, within parentheses. -/
def readNested : Nat → Text → Option (Argument × Text)
  | 0, _ => none
  | steps + 1, t =>
    match t with
    | '(' :: rest =>
      let rest := skipGap rest
      let found :=
        match readHelper steps rest with
        | some found => some found
        | none =>
          match readReference rest with
          | some (.reference raw _, rest) => some (.call raw [] [], rest)
          | _ => none
      match found with
      | some (inner, rest) => (expect [')'] rest).map fun rest => (inner, rest)
      | none => none
    | _ => none

/-- A helper with at least one argument. -/
def readHelper : Nat → Text → Option (Argument × Text)
  | 0, _ => none
  | steps + 1, t =>
    match readName t with
    | none => none
    | some (helper, rest) =>
      match readArguments steps rest with
      | ([], [], _) => none
      | (arguments, named, rest) => some (.call helper arguments named, rest)

/-- As many arguments as there are, those with a name apart. -/
def readArguments : Nat → Text → List Argument × List (Text × Argument) × Text
  | 0, t => ([], [], t)
  | steps + 1, t =>
    let start := skipGap t
    let withName := match readArgumentName start with
      | none => none
      | some (name, rest) => (readArgument steps rest).map fun (value, rest) => ((name, value), rest)
    match withName with
    | some (value, rest) =>
      let (arguments, named, rest) := readArguments steps rest
      (arguments, value :: named, rest)
    | none =>
      match readArgument steps start with
      | some (value, rest) =>
        let (arguments, named, rest) := readArguments steps rest
        (value :: arguments, named, rest)
      | none => ([], [], t)

end

/-- The expression of a placeholder: a helper with arguments, a nested call, or a path. -/
def readExpression (t : Text) : Option (Argument × Text) :=
  let steps := 2 * t.length + 4
  readHelper steps t <|> readNested steps t <|> readReference t

/-- A path or a nested call. -/
def readSubject (t : Text) : Option (Argument × Text) :=
  readNested (2 * t.length + 4) t <|> readReference t

/-- The text behind the names that a section gives to what it shows: `as` and one or two names between
bars. -/
def skipGivenNames (t : Text) : Text :=
  let found := do
    let rest ← expect "as".toList t
    let rest ← expect ['|'] rest
    let (_, rest) ← readName (skipGap rest)
    let rest := ((readName (skipGap rest)).map Prod.snd).getD rest
    expect ['|'] rest
  found.getD t

/-- A helper with any number of arguments. -/
def readCall (t : Text) :
    Option ((Text × List Argument × List (Text × Argument)) × Text) := do
  let (helper, rest) ← readName t
  let (arguments, named, rest) := readArguments (2 * t.length + 4) rest
  return ((helper, arguments, named), skipGivenNames rest)

end TagBox.Stencil
