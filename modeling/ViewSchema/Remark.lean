import ViewSchema.Number.Numeral
import ViewSchema.Text.Blank
import ViewSchema.Text.Letter
import ViewSchema.Value

/-!
Remarks: comments that speak about the document. A comment with the tag `@openapi` describes a
field, in pairs `key:value` of which the first gives the field's name and type; alone with
`conditional:true` it marks a branch as conditional. A comment with the tag `@openapi_operation`
describes the whole response. A tag may stand anywhere in a comment, must be followed by a blank,
and speaks up to the end of the text. Any other comment is no remark, and nothing an author writes
is an error.
-/

namespace ViewSchema

/-- What a comment says. -/
inductive Remark where
  | operation (attributes : Record)
  | marker
  | field (attributes : Record)
  deriving Repr, Inhabited

namespace Remark

open Text

/-- The tag of remarks about a field or a branch. -/
def fieldTag : List Char := "@openapi".toList

def operationTag : List Char := "@openapi_operation".toList

/-- What a text says up to its end: at least one character, none of them a line feed; a single
line feed may follow. -/
def lastLine? (text : List Char) : Option (List Char) :=
  let line := text.takeWhile (· != '\n')
  let rest := text.dropWhile (· != '\n')
  if line.isEmpty then none
  else if rest.isEmpty || rest == ['\n'] then some line
  else none

/-- The last line of a text that opens with blanks, after as many of them as can be left out,
but at least one. -/
def afterBlanks? : List Char → Option (List Char)
  | [] => none
  | c :: rest => if isBlank c then (afterBlanks? rest).or (lastLine? rest) else none

/-- The content of the first tag that has one. -/
def content? (tag : List Char) : List Char → Option (List Char)
  | [] => none
  | c :: rest =>
    match (after? tag (c :: rest)).bind afterBlanks? with
    | some content => some content
    | none => content? tag rest

/-- Some field tag is followed by blanks, `conditional:true` and nothing else. -/
def hasMarker : List Char → Bool
  | [] => false
  | c :: rest =>
    (match after? fieldTag (c :: rest) with
      | none => false
      | some tail =>
        match after? "conditional:true".toList (tail.dropWhile isBlank) with
        | none => false
        | some final => (tail.head?.any isBlank) && final.all isBlank) || hasMarker rest

/-- The text up to and with a closing character, and what follows; `none` when it never comes. -/
def enclosed? (close : Char) : List Char → Option (List Char × List Char)
  | [] => none
  | c :: rest =>
    if c == close then some ([c], rest)
    else (enclosed? close rest).map fun found => (c :: found.1, found.2)

/-- The value at the start of a text, as written, and what follows: a text in double quotes, a
list in brackets, or else everything up to the next blank. -/
def rawValue? : List Char → Option (List Char × List Char)
  | [] => none
  | c :: rest =>
    if isBlank c then none
    else
      let closed :=
        if c == doubleQuote then enclosed? doubleQuote rest
        else if c == '[' then enclosed? ']' rest
        else none
      match closed with
      | some (value, tail) => some (c :: value, tail)
      | none =>
        some (c :: rest.takeWhile (!isBlank ·), rest.dropWhile (!isBlank ·))

theorem enclosed?_length {close : Char} {text : List Char} {found : List Char × List Char}
    (h : enclosed? close text = some found) : found.2.length < text.length := by
  induction text generalizing found with
  | nil => simp [enclosed?] at h
  | cons c rest ih =>
    rw [enclosed?] at h
    split at h
    · cases h
      simp
    · obtain ⟨inner, hinner, rfl⟩ := Option.map_eq_some_iff.1 h
      have shorter := ih hinner
      exact Nat.lt_succ_of_lt shorter

theorem length_dropWhile_le (test : Char → Bool) (text : List Char) :
    (text.dropWhile test).length ≤ text.length :=
  (List.dropWhile_sublist test).length_le

theorem rawValue?_length {text : List Char} {found : List Char × List Char}
    (h : rawValue? text = some found) : found.2.length < text.length := by
  cases text with
  | nil => simp [rawValue?] at h
  | cons c rest =>
    rw [rawValue?] at h
    split at h
    · cases h
    · dsimp only at h
      split at h
      · rename_i closed
        cases h
        split at closed
        · have shorter := enclosed?_length closed
          exact Nat.lt_succ_of_lt shorter
        · split at closed
          · have shorter := enclosed?_length closed
            exact Nat.lt_succ_of_lt shorter
          · cases closed
      · cases h
        exact Nat.lt_succ_of_le (length_dropWhile_le _ rest)

/-- The pairs of a text from left to right, values as written. A pair is a run of word characters,
a colon and a value. -/
def pairs (text : List Char) : List (List Char × List Char) :=
  match text with
  | [] => []
  | c :: rest =>
    if isWordChar c then
      let key := c :: rest.takeWhile isWordChar
      match _tail : rest.dropWhile isWordChar with
      | ':' :: value =>
        match _found : rawValue? value with
        | some (raw, tail) => (key, raw) :: pairs tail
        | none => pairs value
      | other => pairs other
    else pairs rest
termination_by text.length
decreasing_by
  all_goals
    have shorter := length_dropWhile_le isWordChar rest
    try have valueShorter := rawValue?_length _found
    simp_all
    try omega

/-- A value without the blanks around it and without a pair of double quotes. -/
def unquoted (raw : List Char) : List Char :=
  let value := trim raw
  match value with
  | first :: rest =>
    if first == doubleQuote && rest.getLast? == some doubleQuote then rest.dropLast else value
  | [] => []

/-- The elements of a bracketed list, or the value itself when it is none. -/
def listValue (value : List Char) : Value :=
  match value with
  | '[' :: rest =>
    if rest.getLast? == some ']' then
      let inner := trim rest.dropLast
      if inner.isEmpty then .list []
      else .list ((pieces (· == ',') inner).map fun item => .text (String.ofList (unquoted item)))
    else .text (String.ofList value)
  | _ => .text (String.ofList value)

/-- Truth values in letters of either case, any other text as it is. -/
def truthValue (value : List Char) : Value :=
  let word := String.ofList (value.map Numeral.asciiSmall)
  if word == "true" then .bool true
  else if word == "false" then .bool false
  else .text (String.ofList value)

/-- A whole number, else a decimal, else the text as it is. -/
def numberValue (value : List Char) : Value :=
  match Numeral.readInt? value with
  | some n => .int n
  | none =>
    match Numeral.readDouble? value with
    | some d => .float d
    | none => .text (String.ofList value)

/-- A text that is an instance of the named scalar type, as a value of that type. -/
def exampleValue (v : Value) (typeName : Option String) : Value :=
  match v, typeName with
  | .text s, some "integer" => ((Numeral.readInt? s.toList).map Value.int).getD v
  | .text s, some "number" => ((Numeral.readDouble? s.toList).map Value.float).getD v
  | .text s, some "boolean" => truthValue s.toList
  | _, _ => v

def listKeys : List String := ["enum", "tags"]

def truthKeys : List String :=
  ["required", "conditional", "nullable", "deprecated", "readOnly", "writeOnly"]

def numberKeys : List String :=
  ["minimum", "maximum", "minLength", "maxLength", "minItems", "maxItems", "multipleOf"]

/-- Other names of the key `status`. -/
def statusKeys : List String := ["status", "statusCode", "status_code"]

/-- The value that a pair gives to its key. -/
def attributeValue (key : String) (raw : List Char) : Value :=
  let value := unquoted raw
  if listKeys.contains key then listValue value
  else if truthKeys.contains key then truthValue value
  else if numberKeys.contains key then numberValue value
  else .text (String.ofList value)

/-- Give the value under a key, if there is one, the declared type. -/
def withExample (key : String) (attributes : Record) : Record :=
  match attributes.find? key with
  | some v => attributes.insert key (exampleValue v (attributes.get "type").text?)
  | none => attributes

/-- The attributes that pairs give to a field. Later pairs replace earlier ones, also the name and
the type that the first pair gave. -/
def fieldAttributes : List (List Char × List Char) → Option Record
  | [] => none
  | (name, raw) :: others =>
    let opening : Record :=
      [("field_name", .text (String.ofList name)), ("type", .text (String.ofList (unquoted raw)))]
    let all := others.foldl
      (fun r p => r.insert (String.ofList p.1) (attributeValue (String.ofList p.1) p.2)) opening
    some (withExample "default" (withExample "example" all))

def operationAttributes (found : List (List Char × List Char)) : Record :=
  found.foldl
    (fun r p =>
      let key := String.ofList p.1
      if statusKeys.contains key then
        Record.insert r "status" (.text (String.ofList (unquoted p.2)))
      else Record.insert r key (attributeValue key p.2))
    []

/-- What a comment says about a field or a branch. -/
def fieldOf? (text : List Char) : Option Remark :=
  if (content? operationTag text).isSome then none
  else if hasMarker text then some .marker
  else (content? fieldTag text).bind fun content =>
    (fieldAttributes (pairs (trim content))).map .field

def operationOf? (text : List Char) : Option Remark :=
  (content? operationTag text).bind fun content =>
    match operationAttributes (pairs (trim content)) with
    | [] => none
    | attributes => some (.operation attributes)

def of? (text : List Char) : Option Remark := (operationOf? text).or (fieldOf? text)

def toRecord : Remark → Record
  | .operation attributes => [("operation", .map attributes)]
  | .marker => [("conditional", .bool true)]
  | .field attributes => attributes

/-- What the remark gives for the operation. A field remark may carry the key too. -/
def operation? (r : Remark) : Option Value := r.toRecord.find? "operation"

/-- The remark speaks of a field or a branch and does not carry the key `operation`. -/
def isOfField (r : Remark) : Bool := r.operation?.isNone

end Remark
end ViewSchema
