import ViewSchema.Remark

/-!
Notes: what is known about one field of the document. A field without a remark carries the blank
note, which schemas report as a missing comment.
-/

namespace ViewSchema

/-- Type names that stand for a text of a certain format, with that format. -/
def formattedTypes : List (String × String) :=
  [("date", "date"), ("date-time", "date-time"), ("datetime", "date-time"), ("time", "time")]

/-- The schema of a type name. Without a name it is an object. -/
def typeSchema (typeName : Option String) : Record :=
  match typeName with
  | none | some "" => [("type", .text "object")]
  | some name =>
    match formattedTypes.lookup name with
    | some format => [("type", .text "string"), ("format", .text format)]
    | none => [("type", .text name)]

/-- A note on one field. -/
structure Note where
  typeName : Option String := none
  description : Option String := none
  required : Value := .bool true
  choices : Option (List Value) := none
  format : Option String := none
  sample : Value := .null
  items : Option Record := none
  fieldName : Option String := none
  ref : Option String := none
  conditional : Bool := false
  extras : Record := []
  annotated : Bool := true
  deriving Repr, Inhabited

namespace Note

/-- The note of a field that no remark speaks of. -/
def blank : Note := { annotated := false }

/-- Keys with a place of their own in a note. -/
def ownKeys : List String :=
  ["type", "description", "required", "enum", "format", "example", "items", "field_name", "ref",
    "conditional"]

/-- The choices that a value lists; a single text is a list of one. -/
def choicesOf : Value → Option (List Value)
  | .text s => some [.text s]
  | .list items => some items
  | .map entries => some (entries.map fun e => .text e.1)
  | _ => none

/-- The item schema that a value gives; a text names the type of the items. -/
def itemsOf : Value → Option Record
  | .text s => some (typeSchema (some s))
  | .map entries => some entries
  | _ => none

/-- The note that a record of attributes makes. Attributes of an operation and the bare marker of
a conditional branch say nothing about a field. -/
def ofRecord (r : Record) : Note :=
  if r.isEmpty || r.has "operation" || r.keys.all (· == "conditional") then blank
  else
    { typeName := (r.get "type").text?.filter (· != "")
      description := (r.get "description").text?
      required := (r.find? "required").getD (.bool true)
      choices := choicesOf (r.get "enum")
      format := (r.get "format").text?
      sample := r.get "example"
      items := itemsOf (r.get "items")
      fieldName := (r.get "field_name").text?
      ref := (r.get "ref").text?
      conditional := match r.get "conditional" with
        | .bool b => b
        | _ => false
      extras := r.filter fun e => !ownKeys.contains e.1 }

/-- The note that a remark makes, if there is one. -/
def ofRemark? : Option Remark → Note
  | some remark => ofRecord remark.toRecord
  | none => blank

/-- The note with an origin for each not-a-number in it that has none yet. Schemas made from the
same note then agree on them. -/
def withOrigin (origin : Nat) (n : Note) : Note :=
  { n with
    required := n.required.withOrigin origin
    choices := n.choices.map (Value.itemsWithOrigin origin)
    sample := n.sample.withOrigin origin
    items := n.items.map (Value.entriesWithOrigin origin)
    extras := Value.entriesWithOrigin origin n.extras }

/-- The field is always present, as far as the note says. -/
def isRequired (n : Note) : Bool :=
  match n.required with
  | .bool b => b
  | .text s => s != "false"
  | _ => true

def schemaType (n : Note) : Option String :=
  match n.typeName with
  | some name => if (formattedTypes.lookup name).isSome then some "string" else some name
  | none => none

/-- The format as a schema names it: that of the type, when the type implies one. -/
def schemaFormat (n : Note) : Option String :=
  match n.typeName.bind fun name => formattedTypes.lookup name with
  | some format => some format
  | none => n.format

/-- The note says exactly what the blank note says. -/
def isBlank (n : Note) : Bool :=
  n.typeName.isNone && n.description.isNone && n.required.same (.bool true) && n.choices.isNone &&
    n.format.isNone && n.sample.same .null && n.items.isNone && n.fieldName.isNone &&
    n.ref.isNone && !n.conditional && n.extras.isEmpty && !n.annotated

end Note
end ViewSchema
