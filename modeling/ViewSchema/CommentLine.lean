import ViewSchema.Note

/-!
Remarks written out: the comment line of a property and of an operation. Attributes that are
absent or hold nothing are left out, and double quotes inside a quoted text become apostrophes.
-/

namespace ViewSchema

/-- What stands for the type of a field without a remark. -/
def missingComment : String := "TODO: MISSING COMMENT"

namespace CommentLine

/-- The text of an attribute, empty when it is absent. -/
def shownAttribute (r : Record) (key : String) : List Char :=
  match r.find? key with
  | some v => v.asText.toList
  | none => []

def isGiven (r : Record) (key : String) : Bool := (r.get key).isTruthy

/-- A key, its colon and a text, after a blank. -/
def pair (key : String) (text : List Char) : List Char := ' ' :: (key.toList ++ ':' :: text)

/-- A text in double quotes, those inside it replaced. -/
def doubleQuoted (text : List Char) : List Char :=
  Text.doubleQuote ::
    (text.map (fun c => if c == Text.doubleQuote then Text.apostrophe else c) ++
      [Text.doubleQuote])

/-- What a value lists, as texts: items, the characters of a text, the keys of a record. -/
def listed : Value → List (List Char)
  | .list items => items.map fun v => v.asText.toList
  | .text s => s.toList.map fun c => [c]
  | .map entries => entries.map fun e => e.1.toList
  | _ => []

def bracketed (v : Value) : List Char := '[' :: (Text.join [','] (listed v) ++ [']'])

/-- The pair of an attribute written as it is, if it is given. -/
def plainPair (r : Record) (key : String) : List Char :=
  if isGiven r key then pair key (shownAttribute r key) else []

/-- The pair of a quoted attribute, if it is given. -/
def quotedPair (r : Record) (key : String) : List Char :=
  if isGiven r key then pair key (doubleQuoted (shownAttribute r key)) else []

/-- The pair of a list, if it is given. -/
def listPair (r : Record) (key : String) : List Char :=
  if isGiven r key then pair key (bracketed (r.get key)) else []

/-- The pair of a bound. A bound of zero is a bound. -/
def boundPair (r : Record) (key : String) : List Char :=
  match r.find? key with
  | none | some .null => []
  | some v => pair key v.asText.toList

/-- The type that the line gives: that of the property, or text when it has none. -/
def typeText (r : Record) : List Char :=
  match r.get "type" with
  | .text s => if s == "" || s == missingComment then "string".toList else s.toList
  | v => if v.isTruthy then v.asText.toList else "string".toList

/-- The pair of the item type of an array. -/
def itemsPair (r : Record) : List Char :=
  if typeText r == "array".toList then plainPair r "items" else []

/-- The pair of a property that may be absent. -/
def optionalPair (r : Record) : List Char :=
  match r.find? "required" with
  | some (.bool false) => pair "required" "false".toList
  | _ => []

def property (r : Record) : String :=
  String.ofList <| Text.trim <|
    "# @openapi ".toList ++ shownAttribute r "name" ++ ':' :: typeText r ++ itemsPair r ++
      optionalPair r ++ quotedPair r "description" ++ listPair r "enum" ++ plainPair r "format" ++
      boundPair r "minimum" ++ boundPair r "maximum"

/-- The comment line of an operation; none when there is nothing to say. -/
def operation (r : Record) : Option String :=
  let line := Text.trim <|
    "# @openapi_operation".toList ++ quotedPair r "summary" ++ quotedPair r "description" ++
      plainPair r "operationId" ++ listPair r "tags" ++ plainPair r "status" ++
      quotedPair r "responseDescription"
  if line == "# @openapi_operation".toList then none else some (String.ofList line)

end CommentLine
end ViewSchema
