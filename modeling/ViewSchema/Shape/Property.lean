import ViewSchema.Shape

/-!
The flat list of a document's properties: one entry for each named node of its shape, in document
order, with the path that leads to it.
-/

namespace ViewSchema

/-- An entry of the property list. -/
structure Property where
  path : String
  name : Option String
  typeName : String
  description : Option String
  required : Bool
  conditional : Bool
  line : Option Int
  annotated : Bool
  choices : Value
  format : Option String
  items : Value
  minimum : Value
  maximum : Value
  deriving Repr, Inhabited

namespace Shape

/-- The type of a node as a remark would give it; containers have the type of their structure. -/
def propertyType : Shape → String
  | .array .. => "array"
  | .simple f => if f.note.annotated then (f.note.typeName.filter (· != "")).getD "string"
    else missingComment
  | .object .. | .reference .. | .bare _ => "object"

def notedItemType (n : Note) : Value := (n.items.map fun items => items.get "type").getD .null

/-- The item type of an array, null for any other node. -/
def itemType (s : Shape) : Value :=
  match s with
  | .array _ _ (.array .. :: _) => .text "array"
  | .array _ _ (_ :: _) => .text "object"
  | .array f _ [] => notedItemType f.note
  | s => if s.propertyType == "array" then notedItemType s.note else .null

def property (path : String) (s : Shape) : Property :=
  let n := s.note
  { path
    name := s.name
    typeName := s.propertyType
    description := n.description
    required := s.isRequired
    conditional := s.facts.conditional
    line := s.facts.line
    annotated := n.annotated
    choices := match n.choices with
      | none | some [] => .null
      | some values => .list values
    format := n.format
    items := s.itemType
    minimum := n.extras.get "minimum"
    maximum := n.extras.get "maximum" }

def properties (s : Shape) : List Property := (s.named "").map fun e => property e.1 e.2

/-- The named nodes without a remark: path, name and kind. -/
def missing (s : Shape) : List (String × String × String) :=
  (s.named "").filterMap fun e =>
    if e.2.note.annotated then none else some (e.1, e.2.name.getD "", e.2.kindName)

end Shape

namespace Property

def toRecord (p : Property) : Record :=
  [("path", .text p.path), ("name", .ofText? p.name), ("type", .text p.typeName),
    ("description", .ofText? p.description), ("required", .bool p.required),
    ("conditional", .bool p.conditional), ("line", .ofInt? p.line),
    ("annotated", .bool p.annotated), ("enum", p.choices), ("format", .ofText? p.format),
    ("items", p.items), ("minimum", p.minimum), ("maximum", p.maximum)]

end Property
end ViewSchema
