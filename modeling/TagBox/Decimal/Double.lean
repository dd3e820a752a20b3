import TagBox.Text.Blank

/-!
# Double precision numbers

A double precision number other than an infinity or an undefined one is `± m · 2 ^ q` with
`m < 2 ^ 53` and `-1074 ≤ q`.  Reading rounds a decimal to the nearest of them, a tie to the even one;
writing takes the fewest digits that read back.  Both work on natural numbers.

* `Double` — the numbers.
* `Double.ofDecimal` — the nearest number.
* `Double.print` — its text, which never has an exponent.
-/

namespace TagBox

/-- A double precision number. -/
inductive Double where
  | finite (negative : Bool) (mantissa : Nat) (exponent : Int)
  | infinite (negative : Bool)
  | undefined
  deriving DecidableEq, Repr

namespace Double

/-- The power `base ^ exponent`. -/
def power (base exponent : Nat) : Nat :=
  Nat.pow base exponent

/-- The least number that is too large for `m`. -/
def mantissaLimit : Nat :=
  power 2 53

/-- Half of it: from here on `m` has all of its bits. -/
def mantissaHalf : Nat :=
  power 2 52

/-! ## Reading -/

/-- The nearest natural number to `a / b`, a tie to the even one. -/
def roundQuotient (a b : Nat) : Nat :=
  let floor := a / b
  let twice := 2 * (a % b)
  if twice < b then floor
  else if b < twice then floor + 1
  else if floor % 2 = 0 then floor else floor + 1

/-- `a / b` in units of `2 ^ q`, as a quotient. -/
def inUnits (a b : Nat) (q : Int) : Nat × Nat :=
  if 0 ≤ q then (a, b * power 2 q.toNat) else (a * power 2 (-q).toNat, b)

/-- The least exponent, from `q` on, at which `a / b` has at most 53 bits. -/
def fitExponent (a b : Nat) : Nat → Int → Int
  | 0, q => q
  | steps + 1, q =>
    let (x, y) := inUnits a b q
    if x / y < mantissaLimit then q else fitExponent a b steps (q + 1)

/-- The number nearest to `a / b`. -/
def ofQuotient (negative : Bool) (a b : Nat) : Double :=
  let start := max (-1074) ((Nat.log2 a : Int) - Nat.log2 b - 54)
  let q := fitExponent a b 4 start
  let (x, y) := inUnits a b q
  let rounded := roundQuotient x y
  let (m, q) := if rounded = mantissaLimit then (mantissaHalf, q + 1) else (rounded, q)
  if q ≤ 971 then .finite negative m q else .infinite negative

/-- The number nearest to `± digits · 10 ^ exponent`. -/
def ofDecimal (negative : Bool) (digits : Nat) (exponent : Int) : Double :=
  if digits = 0 then .finite negative 0 (-1074)
  else if 400 < (Nat.log2 digits : Int) / 4 + exponent then .infinite negative
  else if (Nat.log2 digits : Int) + exponent < -400 then .finite negative 0 (-1074)
  else if 0 ≤ exponent then ofQuotient negative (digits * power 10 exponent.toNat) 1
  else ofQuotient negative digits (power 10 (-exponent).toNat)

/-- Is the number zero, of either sign? -/
def isZero : Double → Bool
  | .finite _ m _ => m == 0
  | _ => false

/-- Is the number finite, and `m` of full length?  Zero and the numbers next to it are not. -/
def isNormal : Double → Bool
  | .finite _ m _ => mantissaHalf ≤ m
  | _ => false

/-! ## Writing -/

/-- The interval of the decimals that read back as `m · 2 ^ q`, in units of `1 / scale`; its ends are
included if `m` is even. -/
structure Interval where
  low : Nat
  value : Nat
  high : Nat
  scale : Nat
  closed : Bool
  deriving DecidableEq, Repr

/-- The interval of a number. -/
def interval (m : Nat) (q : Int) : Interval :=
  let unit := power 2 q.toNat
  let below := if m = mantissaHalf ∧ -1074 < q then 1 else 2
  { low := (4 * m - below) * unit
    value := 4 * m * unit
    high := (4 * m + 2) * unit
    scale := 4 * power 2 (-q).toNat
    closed := m % 2 = 0 }

/-- Does `digits · 10 ^ place` lie in the interval? -/
def Interval.holds (i : Interval) (digits : Nat) (place : Int) : Bool :=
  let x := digits * power 10 place.toNat * i.scale
  let grid := power 10 (-place).toNat
  if i.closed then i.low * grid ≤ x && x ≤ i.high * grid
  else i.low * grid < x && x < i.high * grid

/-- The two neighbours of the value on the grid of `10 ^ place`, the nearer one first; a tie goes up. -/
def Interval.neighbours (i : Interval) (place : Int) : List Nat :=
  let a := i.value * power 10 (-place).toNat
  let b := i.scale * power 10 place.toNat
  let floor := a / b
  if 2 * (a % b) < b then [floor, floor + 1] else [floor + 1, floor]

/-- The place of the first digit of the value: the highest `10 ^ place` not above it. -/
def Interval.leading (i : Interval) : Nat → Int → Int
  | 0, place => place
  | steps + 1, place =>
    if i.scale * power 10 place.toNat ≤ i.value * power 10 (-place).toNat then place
    else leading i steps (place - 1)

/-- The fewest digits that read back, tried from `place` downward. -/
def Interval.shortest (i : Interval) : Nat → Int → Nat × Int
  | 0, place => (i.value * power 10 (-place).toNat / (i.scale * power 10 place.toNat), place)
  | steps + 1, place =>
    match (i.neighbours place).find? fun digits => digits ≠ 0 && i.holds digits place with
    | some digits => (digits, place)
    | none => shortest i steps (place - 1)

/-- Write `digits · 10 ^ place` without an exponent. -/
def layOut (digits : Nat) (place : Int) : Text :=
  let shown := Nat.toDigits 10 digits
  if 0 ≤ place then shown ++ List.replicate place.toNat '0'
  else
    let fraction := (-place).toNat
    if fraction < shown.length then
      shown.take (shown.length - fraction) ++ '.' :: shown.drop (shown.length - fraction)
    else '0' :: '.' :: List.replicate (fraction - shown.length) '0' ++ shown

/-- Drop zeros at the end of the digits. -/
def dropZeros : Nat → Nat → Int → Nat × Int
  | 0, digits, place => (digits, place)
  | steps + 1, digits, place =>
    if digits ≠ 0 ∧ digits % 10 = 0 then dropZeros steps (digits / 10) (place + 1)
    else (digits, place)

/-- The text of a number. -/
def print : Double → Text
  | .undefined => "NaN".toList
  | .infinite negative => (if negative then ['-'] else []) ++ "inf".toList
  | .finite negative m q =>
    let sign := if negative then ['-'] else []
    if m = 0 then sign ++ ['0']
    else
      let i := interval m q
      let (digits, place) := i.shortest 17 (i.leading 700 310)
      let (digits, place) := dropZeros 20 digits place
      sign ++ layOut digits place

end Double

end TagBox
