import ViewSchema.Number.Numeral
import ViewSchema.Template.Fault
import ViewSchema.Text.Letter

/-!
The token at the start of a text, one function for each kind of token. Every function is given the
text behind the token's first character and says how much of it the token takes, how many lines
the token adds to the line count and whether its value is dynamic.

The line count leaves out two sorts of line breaks: those in a text nested in an interpolation and
those behind a backslash in a regular expression.
-/

namespace ViewSchema.Template

open Text

/-- A token that was found. -/
structure Scanned where
  lexeme : Lexeme
  /-- Characters of the token behind its first. -/
  more : Nat
  lines : Nat := 0
  dynamic : Bool := false
  /-- The mark of the heredoc that the token opens. -/
  heredoc : Option String := none

/-- A fault, and the lines passed before it. -/
abbrev Found := Except (Option ScanFault × Nat) Scanned

namespace Lexer

/-- No token: the text is at fault, on the line reached after some more line breaks. -/
def fail (fault : ScanFault) (lines : Nat) : Found := .error (some fault, lines)

def isDigitOrUnderscore (c : Char) : Bool := isAsciiDigit c || c == '_'

/-- The places of a number: a point, a digit, and digits or underscores. -/
def places : List Char → List Char
  | '.' :: d :: rest => if isAsciiDigit d then d :: rest.takeWhile isDigitOrUnderscore else []
  | _ => []

/-- The exponent of a number, behind its letter: an optional sign and digits. -/
def exponentDigits : List Char → List Char
  | '+' :: rest =>
    let digits := rest.takeWhile isAsciiDigit
    if digits.isEmpty then [] else '+' :: digits
  | '-' :: rest =>
    let digits := rest.takeWhile isAsciiDigit
    if digits.isEmpty then [] else '-' :: digits
  | rest => rest.takeWhile isAsciiDigit

def exponent : List Char → List Char
  | mark :: rest =>
    if mark == 'e' || mark == 'E' then
      let digits := exponentDigits rest
      if digits.isEmpty then [] else mark :: digits
    else []
  | [] => []

/-- A number. Underscores do not count, and more digits than a numeral may have are refused. -/
def number (first : Char) (rest : List Char) : Found :=
  let whole := first :: rest.takeWhile isDigitOrUnderscore
  let rest := rest.dropWhile isDigitOrUnderscore
  let fraction := places rest
  let rest := if fraction.isEmpty then rest else rest.drop (fraction.length + 1)
  let power := exponent rest
  let point := if fraction.isEmpty then 0 else 1
  let more := whole.length - 1 + point + fraction.length + power.length
  let digits := whole.filter (· != '_')
  if fraction.isEmpty && power.isEmpty then
    if Numeral.maxDigits < digits.length then .error (none, 0)
    else .ok { lexeme := .integer (Numeral.ofDigits digits), more }
  else
    let fractionDigits := fraction.filter (· != '_')
    let scale := (Numeral.readExponent? power).getD 0
    .ok
      { lexeme := .decimal
          (.ofDecimal false (Numeral.ofDigits (digits ++ fractionDigits))
            (scale - fractionDigits.length))
        more }

/-- A question or exclamation mark that belongs to the word before it. -/
def wordMark : List Char → List Char
  | mark :: rest =>
    if mark == '?' || mark == '!' then
      match rest with
      | '=' :: '=' :: _ => [mark]
      | '=' :: _ | ':' :: _ => []
      | _ => [mark]
    else []
  | [] => []

def colonNext : List Char → Bool
  | ':' :: ':' :: _ => false
  | ':' :: _ => true
  | _ => false

/-- A word: a label when a single colon follows and no dot came before, a constant when it opens
with a capital, else an identifier. -/
def word (afterDot : Bool) (first : Char) (rest : List Char) : Found :=
  let letters := rest.takeWhile isWordChar
  let mark := wordMark (rest.dropWhile isWordChar)
  let tail := (rest.dropWhile isWordChar).drop mark.length
  let written := String.ofList (first :: (letters ++ mark))
  let more := letters.length + mark.length
  if colonNext tail && !afterDot then .ok { lexeme := .label written, more := more + 1 }
  else if isCapital first then .ok { lexeme := .constant written, more }
  else .ok { lexeme := .identifier written, more }

def identifier : List Char → List Char
  | c :: rest => if isWordStart c then c :: rest.takeWhile isWordChar else []
  | [] => []

/-- An instance variable, behind its first `@`: another `@` may follow. -/
def instanceVariable (rest : List Char) : Found :=
  let sign := if rest.head? == some '@' then ['@'] else []
  let name := identifier (rest.drop sign.length)
  if name.isEmpty then fail .badInstanceVariable 0
  else
    let written := sign ++ name
    .ok { lexeme := .instanceVariable (String.ofList ('@' :: written)), more := written.length }

/-- A global variable, behind its `$`: an identifier or any one character but a blank. -/
def globalVariable (rest : List Char) : Found :=
  let name := identifier rest
  let name := if name.isEmpty then (rest.take 1).filter (!isBlank ·) else name
  if name.isEmpty then fail .badGlobalVariable 0
  else .ok { lexeme := .globalVariable (String.ofList ('$' :: name)), more := name.length }

/-- Where a quoted text stands: in its own characters, in the code of an interpolation under some
braces, or in a text nested in that code. -/
inductive Inside where
  | plain
  | code (braces : Nat)
  | nested (quote : Char) (braces : Nat)

/-- What has been read of a quoted text. -/
structure Quotation where
  /-- The value, last character first. -/
  value : List Char := []
  length : Nat := 0
  lines : Nat := 0
  dynamic : Bool := false

def Quotation.keep (q : Quotation) (c : Char) (lines : Nat) : Quotation :=
  { q with value := c :: q.value, length := q.length + 1, lines := q.lines + lines }

def lineCount (c : Char) : Nat := if c == '\n' then 1 else 0

/-- What stands for an escaped character. Between apostrophes only the apostrophe and the
backslash are escaped; the backslash before another character remains and the character is lost. -/
def escaped (quote c : Char) : Char :=
  if quote == apostrophe && c != apostrophe && c != '\\' then '\\'
  else if c == 'n' then '\n'
  else if c == 't' then '\t'
  else c

/-- Read a quoted text, behind its opening quote, up to and with its closing quote. Code in an
interpolation is kept as it is written and makes the text dynamic. -/
def quotation (quote : Char) : Inside → Quotation → List Char → Except (ScanFault × Nat) Quotation
  | .plain, q, [] => .error (.endlessText, q.lines)
  | _, q, [] => .error (.endlessInterpolation, q.lines)
  | .plain, q, '\\' :: c :: rest =>
    quotation quote .plain
      { q with value := escaped quote c :: q.value, length := q.length + 2
               lines := q.lines + lineCount c } rest
  | .plain, q, '#' :: '\x7b' :: rest =>
    if quote == apostrophe then
      quotation quote .plain ((q.keep '#' 0).keep '\x7b' 0) rest
    else quotation quote (.code 1) { ((q.keep '#' 0).keep '\x7b' 0) with dynamic := true } rest
  | .plain, q, c :: rest =>
    if c == quote then .ok { q with length := q.length + 1 }
    else quotation quote .plain (q.keep c (lineCount c)) rest
  | .code braces, q, c :: rest =>
    if c == doubleQuote || c == apostrophe then
      quotation quote (.nested c braces) (q.keep c 0) rest
    else if c == '\x7b' then quotation quote (.code (braces + 1)) (q.keep c 0) rest
    else if c == '\x7d' then
      if braces ≤ 1 then quotation quote .plain (q.keep c 0) rest
      else quotation quote (.code (braces - 1)) (q.keep c 0) rest
    else quotation quote (.code braces) (q.keep c (lineCount c)) rest
  | .nested inner braces, q, '\\' :: c :: rest =>
    quotation quote (.nested inner braces) ((q.keep '\\' 0).keep c 0) rest
  | .nested inner braces, q, c :: rest =>
    if c == inner then quotation quote (.code braces) (q.keep c 0) rest
    else quotation quote (.nested inner braces) (q.keep c 0) rest

/-- A quoted text, with the lexeme that its value makes and the characters between the token's
first and the opening quote. -/
def quotedToken (make : String → Lexeme) (extra : Nat) (quote : Char) (rest : List Char) : Found :=
  match quotation quote .plain {} rest with
  | .error (fault, lines) => fail fault lines
  | .ok q =>
    .ok
      { lexeme := make (String.ofList q.value.reverse), more := extra + q.length, lines := q.lines
        dynamic := q.dynamic }

/-- A colon opens a symbol: a letter, an underscore, a double quote or an `@` follows, and either
white space or an operator other than a closing bracket came before. -/
def symbolAllowed (last : Option Lexeme) (spaced : Bool) (rest : List Char) : Bool :=
  match rest.head? with
  | none => false
  | some c =>
    (isLetter c || c == '_' || c == doubleQuote || c == '@') &&
      match last with
      | none => true
      | some lexeme =>
        spaced ||
          match lexeme with
          | .operator s => !([")", "]", "\x7d"].contains s)
          | _ => false

/-- A symbol, behind its colon. -/
def symbol (rest : List Char) : Found :=
  match rest with
  | [] => fail .badSymbol 0
  | first :: tail =>
    if first == doubleQuote then quotedToken .symbol 1 doubleQuote tail
    else
      let signs := (rest.take 2).takeWhile (· == '@')
      let name := identifier (rest.drop signs.length)
      if name.isEmpty then fail .badSymbol 0
      else
        let mark := ((rest.drop (signs.length + name.length)).take 1).filter
          fun c => c == '?' || c == '!' || c == '='
        let written := signs ++ name ++ mark
        .ok { lexeme := .symbol (String.ofList written), more := written.length }

def percentKinds : List Char := ['w', 'W', 'i', 'I', 'q', 'Q', 'r']

def closer (opener : Char) : Char :=
  if opener == '[' then ']'
  else if opener == '(' then ')'
  else if opener == '\x7b' then '\x7d'
  else if opener == '<' then '>'
  else opener

/-- The letter of a percent literal, if it has one, and its opening delimiter. -/
def percentKind : List Char → Option Char × Option Char
  | [] => (none, none)
  | c :: rest => if percentKinds.contains c then (some c, rest.head?) else (none, some c)

/-- A percent sign opens a literal. Behind an operand a literal with a letter needs white space
before it, and one without a letter also an identifier that can take it as an argument. -/
def percentAllowed (last : Option Lexeme) (spaced : Bool) (rest : List Char) : Bool :=
  let operand := last.any Lexeme.endsOperand
  match percentKind rest with
  | (_, none) => false
  | (kind, some opener) =>
    if isAlphanumeric opener || isBlank opener then false
    else
      match kind with
      | some _ => !operand || spaced
      | none =>
        ['[', '(', '\x7b', '<', '|', '!', '/'].contains opener &&
          (!operand || (spaced && last.any Lexeme.isIdentifier))

/-- A percent literal, behind its percent sign. It ends with the first closing delimiter. -/
def percentLiteral (rest : List Char) : Found :=
  match percentKind rest with
  | (_, none) => fail .endlessPercentLiteral 0
  | (kind, some opener) =>
    let opening := if kind.isSome then 2 else 1
    match cutAt? [closer opener] (rest.drop opening) with
    | none => fail .endlessPercentLiteral 0
    | some (body, _) =>
      let more := opening + body.length + 1
      let lines := body.count '\n'
      let listed := (Text.words body).map String.ofList
      match kind with
      | some 'w' | some 'W' => .ok { lexeme := .words listed, more, lines }
      | some 'i' | some 'I' => .ok { lexeme := .symbols listed, more, lines }
      | some 'r' =>
        .ok
          { lexeme := .text (String.ofList ('%' :: rest.take more)), more, lines
            dynamic := true }
      | kind =>
        .ok
          { lexeme := .text (String.ofList body), more, lines
            dynamic := kind != some 'q' && (cutAt? ['#', '\x7b'] body).isSome }

/-- A slash opens a regular expression, unless it divides: behind an operand it needs white space
before it, no blank or equals sign behind it, and an identifier that can take it as an argument. -/
def regexpAllowed (last : Option Lexeme) (spaced : Bool) (rest : List Char) : Bool :=
  if last.any Lexeme.endsOperand then
    spaced && last.any Lexeme.isIdentifier &&
      rest.head? != some ' ' && rest.head? != some '='
  else true

/-- The length of a regular expression, behind its slash and with its closing one. It must close
on its line, but a backslash covers any character. -/
def regexpLength : List Char → Option Nat
  | [] => none
  | ['\\'] => none
  | '\\' :: _ :: rest => (regexpLength rest).map (· + 2)
  | c :: rest =>
    if c == '/' then some 1
    else if c == '\n' then none
    else (regexpLength rest).map (· + 1)

/-- Letters behind a regular expression. -/
def isRegexpFlag (c : Char) : Bool := "imxounse".toList.contains c

/-- A regular expression, behind its slash. -/
def regexp (rest : List Char) : Found :=
  match regexpLength rest with
  | none => fail .endlessRegexp 0
  | some length =>
    let more := length + ((rest.drop length).takeWhile isRegexpFlag).length
    .ok { lexeme := .text (String.ofList ('/' :: rest.take more)), more, dynamic := true }

/-- A question mark stands for the character behind it: no operand came before, the character is
no blank and no word goes on behind it. -/
def characterAllowed (last : Option Lexeme) (rest : List Char) : Bool :=
  !last.any Lexeme.endsOperand &&
    match rest with
    | [] => false
    | [c] => !isBlank c
    | c :: d :: _ => !isBlank c && !isWordChar d

/-- The mark of a heredoc: an ASCII word. -/
def heredocWord : List Char → List Char
  | c :: rest =>
    if isAsciiLetter c || c == '_' then
      c :: rest.takeWhile fun d => isAsciiLetter d || isAsciiDigit d || d == '_'
    else []
  | [] => []

/-- A heredoc, behind its first `<`: whether it has a sign, its mark, and its length. -/
def heredoc? : List Char → Option (Bool × List Char × Nat)
  | '<' :: rest =>
    let sign := (rest.take 1).filter fun c => c == '~' || c == '-'
    let tail := rest.drop sign.length
    let quote := (tail.take 1).filter fun c => c == doubleQuote || c == apostrophe
    let mark := heredocWord (tail.drop quote.length)
    let closing := ((tail.drop (quote.length + mark.length)).take 1).filter quote.contains
    if mark.isEmpty || closing.length != quote.length then none
    else some (!sign.isEmpty, mark, 1 + sign.length + 2 * quote.length + mark.length)
  | _ => none

/-- A word of capitals: it has a capital and no small letter. -/
def isCapitals (text : List Char) : Bool :=
  text.any (fun c => 'A' ≤ c && c ≤ 'Z') && !text.any fun c => 'a' ≤ c && c ≤ 'z'

/-- A heredoc may stand here. Behind an operand it needs white space before it, and a sign or a
mark in capitals. -/
def heredocAllowed (last : Option Lexeme) (spaced signed : Bool) (mark : List Char) : Bool :=
  !last.any Lexeme.endsOperand || (spaced && (signed || isCapitals mark))

/-- The longest operator at the start of a text. -/
def operator? (text : List Char) : Option String :=
  operators.find? fun op => op.toList.isPrefixOf text

/-- An operator, or nothing that a template may hold. -/
def operator (first : Char) (rest : List Char) : Found :=
  match operator? (first :: rest) with
  | some op => .ok { lexeme := .operator op, more := op.toList.length - 1 }
  | none => fail (.strayCharacter first) 0

/-- A heredoc or an operator, behind a `<`. -/
def angle (last : Option Lexeme) (spaced : Bool) (rest : List Char) : Found :=
  match heredoc? rest with
  | some (signed, mark, more) =>
    if heredocAllowed last spaced signed mark then
      .ok { lexeme := .text "", more, dynamic := true, heredoc := some (String.ofList mark) }
    else operator '<' rest
  | none => operator '<' rest

/-- The token that opens with a character other than a blank and is followed by the rest of the
text. What came before decides between literals and operators. -/
def token (last : Option Lexeme) (spaced : Bool) (first : Char) (rest : List Char) : Found :=
  if isAsciiDigit first then number first rest
  else if isLetter first || first == '_' then
    word (last.any (Lexeme.isOneOf [".", "&."])) first rest
  else if first == '@' then instanceVariable rest
  else if first == '$' then globalVariable rest
  else if first == doubleQuote || first == apostrophe || first == graveAccent then
    quotedToken .text 0 first rest
  else if first == ':' && symbolAllowed last spaced rest then symbol rest
  else if first == '%' && percentAllowed last spaced rest then percentLiteral rest
  else if first == '/' && regexpAllowed last spaced rest then regexp rest
  else if first == '?' && characterAllowed last rest then
    .ok { lexeme := .text (String.ofList (rest.take 1)), more := 1 }
  else if first == '<' then angle last spaced rest
  else operator first rest

end Lexer
end ViewSchema.Template
