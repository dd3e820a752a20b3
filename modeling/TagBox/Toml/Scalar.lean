import TagBox.Settings.Value

/-!
# Scalars of a TOML document

The values in the settings file of yorbox: strings, numbers, truth values, dates and times.  Every reader
takes a text and gives what it read and the text behind it, or nothing.
-/

namespace TagBox.Toml

/-! ## Characters -/

/-- May the character stand in a string or a comment? -/
def isPlain (c : Char) : Bool :=
  c == '\t' || (0x20 ≤ c.toNat && c.toNat ≠ 0x7F)

/-- Is the character a space or a tab? -/
def isSpace (c : Char) : Bool :=
  c == ' ' || c == '\t'

/-- The text behind a line end. -/
def afterLineEnd : Text → Option Text
  | '\n' :: rest => some rest
  | '\r' :: '\n' :: rest => some rest
  | _ => none

/-- The value of a digit in bases up to sixteen. -/
def digitValue? (base : Nat) (c : Char) : Option Nat :=
  let value :=
    if c.isDigit then c.toNat - 48
    else if 'a' ≤ c ∧ c ≤ 'f' then c.toNat - 87
    else if 'A' ≤ c ∧ c ≤ 'F' then c.toNat - 55
    else base
  if value < base then some value else none

/-- The number that digits spell. -/
def valueOf (base : Nat) (digits : List Nat) : Nat :=
  digits.foldl (fun n d => n * base + d) 0

/-! ## Strings -/

/-- The character with this code, given by `count` hexadecimal digits. -/
def readCode (count : Nat) (t : Text) : Option (Char × Text) := do
  let digits ← (t.take count).mapM (digitValue? 16)
  let code := valueOf 16 digits
  if digits.length = count ∧ (code < 0xD800 ∨ (0xDFFF < code ∧ code < 0x110000)) then
    return (Char.ofNat code, t.drop count)
  else none

/-- The character that stands behind a backslash. -/
def readEscape : Text → Option (Char × Text)
  | 'b' :: rest => some ('\x08', rest)
  | 't' :: rest => some ('\t', rest)
  | 'n' :: rest => some ('\n', rest)
  | 'f' :: rest => some ('\x0c', rest)
  | 'r' :: rest => some ('\r', rest)
  | '"' :: rest => some ('"', rest)
  | '\\' :: rest => some ('\\', rest)
  | 'u' :: rest => readCode 4 rest
  | 'U' :: rest => readCode 8 rest
  | _ => none

/-- The rest of a string in double quotes. -/
def readBasic : Nat → Text → Option (Text × Text)
  | 0, _ => none
  | _, [] => none
  | steps + 1, c :: rest =>
    if c = '"' then some ([], rest)
    else if c = '\\' then do
      let (c, rest) ← readEscape rest
      let (value, rest) ← readBasic steps rest
      return (c :: value, rest)
    else if isPlain c then do
      let (value, rest) ← readBasic steps rest
      return (c :: value, rest)
    else none

/-- The rest of a string in single quotes. -/
def readLiteral (t : Text) : Option (Text × Text) :=
  let value := t.takeWhile fun c => isPlain c && c ≠ '\''
  match t.drop value.length with
  | '\'' :: rest => some (value, rest)
  | _ => none

/-- The text behind a backslash at the end of a line, and behind the blanks and line ends that follow. -/
def afterContinuation (t : Text) : Option Text :=
  (afterLineEnd (t.dropWhile isSpace)).map (skip (t.length + 1))
where
  /-- The text behind blanks and line ends. -/
  skip : Nat → Text → Text
    | 0, t => t
    | steps + 1, t =>
      let rest := t.dropWhile isSpace
      match afterLineEnd rest with
      | some rest => skip steps rest
      | none => rest

/-- The rest of a string of several lines within three of `quote`; only one in double quotes has
escapes.  Up to two quotes may stand right before the closing ones. -/
def readLines (quote : Char) : Nat → Text → Option (Text × Text)
  | 0, _ => none
  | _, [] => none
  | steps + 1, c :: rest =>
    if c = quote then
      let count := ((c :: rest).takeWhile (· == quote)).length
      if 3 ≤ count then
        let kept := min count 5 - 3
        some (List.replicate kept quote, (c :: rest).drop (kept + 3))
      else do
        let (value, rest) ← readLines quote steps rest
        return (quote :: value, rest)
    else if c = '\\' ∧ quote = '"' then
      match readEscape rest with
      | some (c, rest) => do
        let (value, rest) ← readLines quote steps rest
        return (c :: value, rest)
      | none => do
        let rest ← afterContinuation rest
        readLines quote steps rest
    else
      match afterLineEnd (c :: rest) with
      | some rest => do
        let (value, rest) ← readLines quote steps rest
        return ('\n' :: value, rest)
      | none =>
        if isPlain c then do
          let (value, rest) ← readLines quote steps rest
          return (c :: value, rest)
        else none

/-- A string of several lines, from behind its opening quotes; a line end right there is dropped. -/
def readBlock (quote : Char) (t : Text) : Option (Text × Text) :=
  let t := (afterLineEnd t).getD t
  readLines quote (t.length + 1) t

/-- A string. -/
def readString : Text → Option (Text × Text)
  | '"' :: '"' :: '"' :: rest => readBlock '"' rest
  | '\'' :: '\'' :: '\'' :: rest => readBlock '\'' rest
  | '"' :: rest => readBasic (rest.length + 1) rest
  | '\'' :: rest => readLiteral rest
  | _ => none

/-! ## Numbers -/

/-- Digits of a base, with single underscores between them. -/
def readDigits (base : Nat) : Text → Option (List Nat × Text)
  | [] => none
  | c :: '_' :: rest =>
    match digitValue? base c, readDigits base rest with
    | some d, some (ds, rest) => some (d :: ds, rest)
    | _, _ => none
  | c :: rest =>
    match digitValue? base c with
    | none => none
    | some d =>
      match readDigits base rest with
      | some (ds, rest) => some (d :: ds, rest)
      | none => some ([d], rest)

/-- An integer, if it fits into 64 bits. -/
def integer? (n : Int) : Option Value :=
  if -9223372036854775808 ≤ n ∧ n < 9223372036854775808 then some (.integer n) else none

/-- The rest of an integer in another base. -/
def readBased (base : Nat) (t : Text) : Option (Value × Text) := do
  let (digits, rest) ← readDigits base t
  return (← integer? (valueOf base digits), rest)

/-- A sign: is it negative, and what follows? -/
def readSign : Text → Bool × Text
  | '-' :: rest => (true, rest)
  | '+' :: rest => (false, rest)
  | t => (false, t)

/-- The digits behind a point; none, if there is no point. -/
def readFraction : Text → Option (List Nat × Text)
  | '.' :: rest => readDigits 10 rest
  | t => some ([], t)

/-- The exponent behind its mark; none, if there is no mark. -/
def readExponent (t : Text) : Option (Option Int × Text) :=
  match t with
  | c :: rest =>
    if c = 'e' ∨ c = 'E' then do
      let (negative, rest) := readSign rest
      let (digits, rest) ← readDigits 10 rest
      let size : Int := valueOf 10 digits
      return (some (if negative then -size else size), rest)
    else some (none, t)
  | [] => some (none, t)

/-- A real number; one too large is refused. -/
def real? (negative : Bool) (digits : List Nat) (exponent : Int) : Option Value :=
  let x := Double.ofDecimal negative (valueOf 10 digits) exponent
  if x = .infinite false then none else some (.real x)

/-- An integer or a real number in base ten. -/
def readDecimal (t : Text) : Option (Value × Text) := do
  let (negative, rest) := readSign t
  let (whole, rest) ← readDigits 10 rest
  if whole.head? = some 0 ∧ whole.length ≠ 1 then none
  let (fraction, rest) ← readFraction rest
  let (exponent, rest) ← readExponent rest
  if fraction = [] ∧ exponent = none then
    let size : Int := valueOf 10 whole
    return (← integer? (if negative then -size else size), rest)
  else
    return (← real? negative (whole ++ fraction) (exponent.getD 0 - fraction.length), rest)

/-- The words for what is no decimal. -/
def readSpecial (t : Text) : Option (Value × Text) :=
  let (negative, rest) := readSign t
  match rest with
  | 'i' :: 'n' :: 'f' :: rest => some (.real (.infinite negative), rest)
  | 'n' :: 'a' :: 'n' :: rest => some (.real .undefined, rest)
  | _ => none

/-- A number. -/
def readNumber : Text → Option (Value × Text)
  | '0' :: 'x' :: rest => readBased 16 rest
  | '0' :: 'o' :: rest => readBased 8 rest
  | '0' :: 'b' :: rest => readBased 2 rest
  | t => readSpecial t <|> readDecimal t

/-! ## Dates and times

A date or a time is kept as text in one spelling: a `T` between date and time, no zeros at the end of
a fraction, and a sign and four digits, or `Z`, for the distance from universal time. -/

/-- A number of exactly `count` digits between two bounds. -/
def readField (count low high : Nat) (t : Text) : Option (Nat × Text) := do
  let digits ← (t.take count).mapM (digitValue? 10)
  let value := valueOf 10 digits
  if digits.length = count ∧ low ≤ value ∧ value ≤ high then return (value, t.drop count) else none

/-- The text behind one character. -/
def after (c : Char) (t : Text) : Option Text :=
  Text.stripStart [c] t

/-- A number with zeros in front, at least `width` digits long. -/
def padded (width n : Nat) : Text :=
  let digits := Nat.toDigits 10 n
  List.replicate (width - digits.length) '0' ++ digits

/-- The number of days of a month. -/
def daysOf (year month : Nat) : Nat :=
  if month = 2 then
    if year % 4 = 0 ∧ (year % 100 ≠ 0 ∨ year % 400 = 0) then 29 else 28
  else if month = 4 ∨ month = 6 ∨ month = 9 ∨ month = 11 then 30
  else 31

/-- A date. -/
def readDate (t : Text) : Option (Text × Text) := do
  let (year, t) ← readField 4 0 9999 t
  let t ← after '-' t
  let (month, t) ← readField 2 1 12 t
  let t ← after '-' t
  let (day, t) ← readField 2 1 (daysOf year month) t
  return (padded 4 year ++ '-' :: padded 2 month ++ '-' :: padded 2 day, t)

/-- The fraction of a second, of which nine digits count. -/
def readSecondFraction : Text → Option (Text × Text)
  | '.' :: rest =>
    let digits := rest.takeWhile Char.isDigit
    if digits = [] then none
    else
      let kept := Text.dropEndWhile (· == '0') (digits.take 9)
      some (if kept = [] then [] else '.' :: kept, rest.drop digits.length)
  | t => some ([], t)

/-- A time of day. -/
def readTime (t : Text) : Option (Text × Text) := do
  let (hour, t) ← readField 2 0 23 t
  let t ← after ':' t
  let (minute, t) ← readField 2 0 59 t
  let t ← after ':' t
  let (second, t) ← readField 2 0 60 t
  let (fraction, t) ← readSecondFraction t
  return (padded 2 hour ++ ':' :: padded 2 minute ++ ':' :: padded 2 second ++ fraction, t)

/-- The distance from universal time, if there is one. -/
def readOffset (t : Text) : Option (Text × Text) :=
  match t with
  | c :: rest =>
    if c = 'Z' ∨ c = 'z' then some (['Z'], rest)
    else if c = '+' ∨ c = '-' then do
      let (hours, rest) ← readField 2 0 23 rest
      let rest ← after ':' rest
      let (minutes, rest) ← readField 2 0 59 rest
      let sign := if c = '-' ∧ hours + minutes ≠ 0 then '-' else '+'
      return (sign :: padded 2 hours ++ ':' :: padded 2 minutes, rest)
    else some ([], t)
  | [] => some ([], t)

/-- The time behind a date, if there is one. -/
def readTimeAfterDate (date : Text) (t : Text) : Option (Text × Text) :=
  let time := match t with
    | c :: rest => if c = 'T' ∨ c = 't' ∨ c = ' ' then readTime rest else none
    | [] => none
  match time with
  | none => some (date, t)
  | some (time, rest) =>
    (readOffset rest).map fun (offset, rest) => (date ++ 'T' :: time ++ offset, rest)

/-- A date, a time, or both. -/
def readMoment (t : Text) : Option (Text × Text) :=
  match readDate t with
  | some (date, rest) => readTimeAfterDate date rest
  | none => readTime t

/-- A scalar. -/
def readScalar (t : Text) : Option (Value × Text) :=
  match t with
  | '"' :: _ | '\'' :: _ => (readString t).map fun (s, rest) => (.text s, rest)
  | 't' :: 'r' :: 'u' :: 'e' :: rest => some (.truth true, rest)
  | 'f' :: 'a' :: 'l' :: 's' :: 'e' :: rest => some (.truth false, rest)
  | _ =>
    match readMoment t with
    | some (moment, rest) => some (.text moment, rest)
    | none => readNumber t

end TagBox.Toml
