import ViewSchema.Text.Printable

/-!
Texts in quotes, as messages show them. The quote is the apostrophe unless the text holds an
apostrophe and no double quote. The backslash, the quote itself and the three common controls are
escaped by a backslash, every other character that is not printable by its code in hexadecimal.
-/

namespace ViewSchema.Text

def doubleQuote : Char := '\x22'

def apostrophe : Char := '\x27'

def graveAccent : Char := '\x60'

def hexDigit (n : Nat) : Char := if n < 10 then Char.ofNat (0x30 + n) else Char.ofNat (0x57 + n)

/-- The last `width` hexadecimal digits of a number. -/
def hexDigits : Nat → Nat → List Char
  | 0, _ => []
  | width + 1, n => hexDigits width (n / 16) ++ [hexDigit (n % 16)]

/-- The code of a character after a backslash: two, four or eight hexadecimal digits, whichever
are the first to hold it. -/
def escapedCode (c : Char) : List Char :=
  let n := c.toNat
  if n < 0x100 then '\\' :: 'x' :: hexDigits 2 n
  else if n < 0x10000 then '\\' :: 'u' :: hexDigits 4 n
  else '\\' :: 'U' :: hexDigits 8 n

def quotedChar (quote c : Char) : List Char :=
  if c == quote || c == '\\' then ['\\', c]
  else if c == '\n' then ['\\', 'n']
  else if c == '\r' then ['\\', 'r']
  else if c == '\t' then ['\\', 't']
  else if isPrintable c then [c]
  else escapedCode c

def quoteFor (text : List Char) : Char :=
  if text.contains apostrophe && !text.contains doubleQuote then doubleQuote else apostrophe

def quoted (text : List Char) : List Char :=
  let quote := quoteFor text
  quote :: (text.flatMap (quotedChar quote) ++ [quote])

def quotedString (s : String) : String := String.ofList (quoted s.toList)

end ViewSchema.Text
