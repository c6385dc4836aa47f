import ViewSchema.Number.Double
import ViewSchema.Text.Blank
import ViewSchema.Text.Letter

/-!
Numerals as authors write them: whole numbers and decimals, with decimal digits of any script, an
optional sign, single underscores between digits, and blanks around. The information separators
count as blanks elsewhere but not around a numeral.
-/

namespace ViewSchema.Numeral

open Text

/-- A whole number of more digits is refused. -/
def maxDigits : Nat := 4300

/-- A blank that may stand around a numeral. -/
def isMargin (c : Char) : Bool := isBlank c && !(28 ≤ c.toNat && c.toNat ≤ 31)

def ofDigits (digits : List Char) : Nat :=
  digits.foldl (fun n c => 10 * n + (c.toNat - 0x30)) 0

def asciiDigit (c : Char) : Char :=
  match decimalValue? c with
  | some value => Char.ofNat (0x30 + value)
  | none => c

/-- Take out the underscores, each of which must stand between two digits. The flag says whether
a digit came just before. -/
def withoutUnderscores : Bool → List Char → Option (List Char)
  | _, [] => some []
  | afterDigit, '_' :: d :: rest =>
    if afterDigit && isAsciiDigit d then (withoutUnderscores true rest).map (d :: ·) else none
  | _, ['_'] => none
  | _, c :: rest => (withoutUnderscores (isAsciiDigit c) rest).map (c :: ·)

/-- A numeral without its margins and underscores, its digits in ASCII. -/
def plain? (text : List Char) : Option (List Char) :=
  withoutUnderscores false ((trimBy isMargin text).map asciiDigit)

/-- The sign of a numeral, and the rest. -/
def signed : List Char → Bool × List Char
  | '-' :: rest => (true, rest)
  | '+' :: rest => (false, rest)
  | rest => (false, rest)

def readInt? (text : List Char) : Option Int :=
  match plain? text with
  | none => none
  | some numeral =>
    let (negative, digits) := signed numeral
    if digits.isEmpty || !digits.all isAsciiDigit || maxDigits < digits.length then none
    else
      let n : Int := ofDigits digits
      some (if negative then -n else n)

/-- Read the exponent part of a decimal, absent or a letter, an optional sign and digits. -/
def readExponent? : List Char → Option Int
  | [] => some 0
  | mark :: rest =>
    if mark == 'e' || mark == 'E' then
      let (negative, digits) := signed rest
      if digits.isEmpty || !digits.all isAsciiDigit then none
      else
        let n : Int := ofDigits digits
        some (if negative then -n else n)
    else none

/-- Read an unsigned decimal. Digits must stand before the point or after it. -/
def readDecimal? (negative : Bool) (text : List Char) : Option Double :=
  let whole := text.takeWhile isAsciiDigit
  let rest := text.dropWhile isAsciiDigit
  let places := match rest with
    | '.' :: more => more.takeWhile isAsciiDigit
    | _ => []
  let rest := match rest with
    | '.' :: more => more.dropWhile isAsciiDigit
    | other => other
  if whole.isEmpty && places.isEmpty then none
  else
    (readExponent? rest).map fun exponent =>
      .ofDecimal negative (ofDigits (whole ++ places)) (exponent - places.length)

def asciiSmall (c : Char) : Char :=
  if 'A' ≤ c && c ≤ 'Z' then Char.ofNat (c.toNat + 0x20) else c

/-- Read a decimal, an infinity or not-a-number. -/
def readDouble? (text : List Char) : Option Double :=
  match plain? text with
  | none => none
  | some numeral =>
    let (negative, magnitude) := signed numeral
    let word := String.ofList (magnitude.map asciiSmall)
    if word == "inf" || word == "infinity" then some (.infinite negative)
    else if word == "nan" then some (.nan none)
    else readDecimal? negative magnitude

end ViewSchema.Numeral
