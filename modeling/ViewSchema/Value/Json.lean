import ViewSchema.Value

/-!
Values written as JSON documents, two spaces to a level and ASCII only. Characters beyond ASCII
are written by their UTF-16 units in hexadecimal.
-/

namespace ViewSchema.Value

def jsonUnit (n : Nat) : List Char := '\\' :: 'u' :: Text.hexDigits 4 n

def jsonChar (c : Char) : List Char :=
  let n := c.toNat
  if c == Text.doubleQuote || c == '\\' then ['\\', c]
  else if c == '\n' then ['\\', 'n']
  else if c == '\r' then ['\\', 'r']
  else if c == '\t' then ['\\', 't']
  else if n == 8 then ['\\', 'b']
  else if n == 12 then ['\\', 'f']
  else if 32 ≤ n && n < 127 then [c]
  else if n < 0x10000 then jsonUnit n
  else jsonUnit (0xd800 + (n - 0x10000) / 0x400) ++ jsonUnit (0xdc00 + (n - 0x10000) % 0x400)

def jsonText (s : String) : List Char :=
  Text.doubleQuote :: (s.toList.flatMap jsonChar ++ [Text.doubleQuote])

/-- A JSON number; infinities and not-a-number have names. -/
def jsonDouble : Double → List Char
  | .nan _ => "NaN".toList
  | .infinite true => "-Infinity".toList
  | .infinite false => "Infinity".toList
  | d => d.text

/-- A line break and the indentation of a level. -/
def jsonBreak (level : Nat) : List Char := '\n' :: List.replicate (2 * level) ' '

mutual

/-- A value as it is written at a level of nesting. -/
def json (level : Nat) : Value → List Char
  | .null => "null".toList
  | .bool true => "true".toList
  | .bool false => "false".toList
  | .int n => (toString n).toList
  | .float d => jsonDouble d
  | .text s => jsonText s
  | .list [] => ['[', ']']
  | .list (x :: rest) =>
    '[' :: (jsonBreak (level + 1) ++ json (level + 1) x ++ jsonItems (level + 1) rest ++
      jsonBreak level ++ [']'])
  | .map [] => ['\x7b', '\x7d']
  | .map ((key, x) :: rest) =>
    '\x7b' :: (jsonBreak (level + 1) ++ jsonText key ++ ':' :: ' ' :: json (level + 1) x ++
      jsonEntries (level + 1) rest ++ jsonBreak level ++ ['\x7d'])

/-- The items after the first, each on a line of its own. -/
def jsonItems (level : Nat) : List Value → List Char
  | [] => []
  | x :: rest => ',' :: (jsonBreak level ++ json level x ++ jsonItems level rest)

/-- The entries after the first, each on a line of its own. -/
def jsonEntries (level : Nat) : List (String × Value) → List Char
  | [] => []
  | (key, x) :: rest =>
    ',' :: (jsonBreak level ++ jsonText key ++ ':' :: ' ' :: json level x ++
      jsonEntries level rest)

end

def jsonDocument (v : Value) : String := String.ofList (v.json 0)

end ViewSchema.Value
