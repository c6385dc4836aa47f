/-!
Double-precision numbers as data: not a number, an infinity, or a sign, a mantissa below `2 ^ 53`
and a power of two. Decimals are read exactly and rounded once, to the nearest double and to the
even mantissa in a tie.

Not-a-number equals no number, not even another not-a-number. It can bear an origin, by which one
and the same occurrence is recognized where it turns up twice.
-/

namespace ViewSchema

/-- A double-precision number. `finite negative mantissa exponent` is
`± mantissa * 2 ^ exponent`. -/
inductive Double where
  | nan (origin : Option Nat)
  | infinite (negative : Bool)
  | finite (negative : Bool) (mantissa : Nat) (exponent : Int)
  deriving Repr, DecidableEq, Inhabited

namespace Double

def power (base exponent : Nat) : Nat := base.pow exponent

/-- The whole number nearest to `numerator / denominator`, the even one of two equally near. -/
def roundedQuotient (numerator denominator : Nat) : Nat :=
  let whole := numerator / denominator
  let rest := numerator % denominator
  if 2 * rest < denominator then whole
  else if denominator < 2 * rest then whole + 1
  else if whole % 2 == 0 then whole
  else whole + 1

/-- The number scaled by a power of two, as a fraction. -/
def scaledBy (exponent : Int) (numerator denominator : Nat) : Nat × Nat :=
  (numerator * power 2 exponent.toNat, denominator * power 2 (-exponent).toNat)

/-- The largest power of two not above a positive fraction. -/
def binaryExponent (numerator denominator : Nat) : Int :=
  let guess : Int := (Nat.log2 numerator : Int) - (Nat.log2 denominator : Int)
  let scaled := scaledBy (-guess) numerator denominator
  if scaled.1 < scaled.2 then guess - 1 else guess

def ofFraction (negative : Bool) (numerator denominator : Nat) : Double :=
  if numerator == 0 then .finite negative 0 0
  else
    let exponent := max (binaryExponent numerator denominator - 52) (-1074)
    let scaled := scaledBy (-exponent) numerator denominator
    let mantissa := roundedQuotient scaled.1 scaled.2
    let carried := mantissa == power 2 53
    let mantissa := if carried then power 2 52 else mantissa
    let exponent := if carried then exponent + 1 else exponent
    if 971 < exponent then .infinite negative
    else if mantissa == 0 then .finite negative 0 0
    else .finite negative mantissa exponent

/-- The double nearest to `digits * 10 ^ exponent`. Exponents so large or small that the result
is certain are not expanded. -/
def ofDecimal (negative : Bool) (digits : Nat) (exponent : Int) : Double :=
  if digits == 0 then .finite negative 0 0
  else
    let magnitude : Int := exponent + (Nat.log2 digits * 30103 / 100000 : Nat)
    if 400 < magnitude then .infinite negative
    else if magnitude < -400 then .finite negative 0 0
    else ofFraction negative (digits * power 10 exponent.toNat) (power 10 (-exponent).toNat)

/-- A whole number as a finite number. The mantissa is not bounded. -/
def ofInt (n : Int) : Double := .finite (n < 0) n.natAbs 0

/-- Equality of value: both zeros are equal, not-a-number equals only one of the same origin, and
mantissas are compared at the smaller of the two exponents. -/
def sameValue : Double → Double → Bool
  | .nan (some a), .nan (some b) => a == b
  | .infinite a, .infinite b => a == b
  | .finite a m e, .finite b n f =>
    let low := min e f
    m * power 2 (e - low).toNat == n * power 2 (f - low).toNat && (a == b || m == 0)
  | _, _ => false

/-- The number with an origin, if it is not-a-number and has none yet. -/
def withOrigin (origin : Nat) : Double → Double
  | .nan none => .nan (some origin)
  | d => d

def isZero : Double → Bool
  | .finite _ m _ => m == 0
  | _ => false

end Double
end ViewSchema
