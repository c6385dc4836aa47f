import ViewSchema.Number.Double

/-!
The text of a double: of the decimals that read back as the same double, one with the fewest
digits, and among those the nearest. Decimals whose leading digit stands between the fourth place
after the point and the sixteenth before it are written positionally, all others with an exponent.
-/

namespace ViewSchema.Double

def decimalDigits (n : Nat) : List Char := Nat.toDigits 10 n

/-- `numerator / denominator` scaled by `10 ^ exponent`, as a fraction. -/
def decimallyScaled (exponent : Int) (numerator denominator : Nat) : Nat × Nat :=
  (numerator * power 10 exponent.toNat, denominator * power 10 (-exponent).toNat)

/-- The largest power of ten not above a positive fraction. -/
def decimalExponent (numerator denominator : Nat) : Int :=
  let guess : Int :=
    ((decimalDigits numerator).length : Int) - ((decimalDigits denominator).length : Int)
  let scaled := decimallyScaled (-guess) numerator denominator
  if scaled.1 < scaled.2 then guess - 1 else guess

/-- The reals that round to one double, in quarters of its last place: the double itself, the
lower and the upper end, and whether the ends belong to it. -/
structure RoundingInterval where
  value : Nat
  low : Nat
  high : Nat
  closed : Bool
  /-- A quarter of the last place is `2 ^ exponent`. -/
  exponent : Int

/-- The interval of `mantissa * 2 ^ exponent`. Below a power of two the doubles lie twice as
dense, so the lower end is half as far. -/
def roundingInterval (mantissa : Nat) (exponent : Int) : RoundingInterval :=
  let below := if mantissa == power 2 52 && exponent != -1074 then 1 else 2
  { value := 4 * mantissa
    low := 4 * mantissa - below
    high := 4 * mantissa + 2
    closed := mantissa % 2 == 0
    exponent := exponent - 2 }

/-- Twice the distance of `decimal * 10 ^ unit` from the double, and whether the decimal lies in
the interval; both at a common scale. -/
def RoundingInterval.holds (interval : RoundingInterval) (decimal : Nat) (unit : Int) : Bool :=
  let left := decimal * power 10 unit.toNat * power 2 (-interval.exponent).toNat
  let scale := power 10 (-unit).toNat * power 2 interval.exponent.toNat
  if interval.closed then interval.low * scale ≤ left && left ≤ interval.high * scale
  else interval.low * scale < left && left < interval.high * scale

/-- The decimal of `count` digits nearest to the double, if one of its two neighbours on that
grid reads back: the digits as a number and the power of ten of the last. -/
def RoundingInterval.onGrid (interval : RoundingInterval) (leading : Int) (count : Nat) :
    Option (Nat × Int) :=
  let unit : Int := leading - count + 1
  let scaled := scaledBy interval.exponent interval.value 1
  let scaled := decimallyScaled (-unit) scaled.1 scaled.2
  let lower := scaled.1 / scaled.2
  let nearest := roundedQuotient scaled.1 scaled.2
  let other := if nearest == lower then lower + 1 else lower
  if interval.holds nearest unit then some (nearest, unit)
  else if interval.holds other unit then some (other, unit)
  else none

/-- The first grid, of `count` digits or more, that has a decimal reading back. Seventeen digits
always suffice. -/
def RoundingInterval.shortest (interval : RoundingInterval) (leading : Int) :
    Nat → Nat → Nat × Int
  | 0, count => (interval.onGrid leading count).getD (0, 0)
  | fuel + 1, count =>
    match interval.onGrid leading count with
    | some found => found
    | none => interval.shortest leading fuel (count + 1)

/-- Significant digits without trailing zeros, and the power of ten of the first. -/
def significantDigits (mantissa : Nat) (exponent : Int) : List Char × Int :=
  let interval := roundingInterval mantissa exponent
  let fraction := scaledBy exponent mantissa 1
  let leading := decimalExponent fraction.1 fraction.2
  let found := interval.shortest leading 17 1
  let digits := decimalDigits found.1
  let kept := (digits.reverse.dropWhile (· == '0')).reverse
  (kept, found.2 + digits.length - 1)

/-- An exponent with its sign and at least two digits. -/
def exponentText (exponent : Int) : List Char :=
  let digits := decimalDigits exponent.natAbs
  let padded := if digits.length < 2 then '0' :: digits else digits
  (if exponent < 0 then '-' else '+') :: padded

/-- The layout of significant digits whose first stands at the given power of ten. -/
def laidOut (digits : List Char) (leading : Int) : List Char :=
  if -4 ≤ leading && leading < 16 then
    if leading < 0 then
      '0' :: '.' :: (List.replicate ((-leading).toNat - 1) '0' ++ digits)
    else
      let width := leading.toNat + 1
      let whole := digits.take width ++ List.replicate (width - digits.length) '0'
      let places := digits.drop width
      whole ++ '.' :: (if places.isEmpty then ['0'] else places)
  else
    match digits with
    | [] => []
    | [first] => first :: 'e' :: exponentText leading
    | first :: places => first :: '.' :: (places ++ 'e' :: exponentText leading)

def text : Double → List Char
  | .nan _ => ['n', 'a', 'n']
  | .infinite negative => (if negative then ['-'] else []) ++ ['i', 'n', 'f']
  | .finite negative mantissa exponent =>
    (if negative then ['-'] else []) ++
      if mantissa == 0 then ['0', '.', '0']
      else
        let found := significantDigits mantissa exponent
        laidOut found.1 found.2

end ViewSchema.Double
