import ViewSchema.Log
import ViewSchema.Shape

/-!
Schemas of shapes. An object lists its named members under `properties` and those that are always
present under `required`; an array gives the schema of its items, or all of them when its item
templates differ; a simple value is described by its note, or refers to a component. Unnamed
members, unresolved references and nodes of no kind leave a warning.
-/

namespace ViewSchema

def componentsPath : String := "#/components/schemas/"

/-- Keys that a note hands on to the schema as they are. -/
def passedKeys : List String :=
  ["nullable", "minimum", "maximum", "minLength", "maxLength", "minItems", "maxItems",
    "multipleOf", "pattern", "default", "deprecated", "readOnly", "writeOnly"]

def givenText (s : Option String) : Option String := s.filter (· != "")

namespace Note

/-- The description and the keys handed on, of a note that a remark made. -/
def schemaFields (n : Note) : Record :=
  if !n.annotated then []
  else
    let description := match givenText n.description with
      | some s => [("description", .text s)]
      | none => []
    description ++ passedKeys.filterMap fun key => (n.extras.find? key).map fun v => (key, v)

/-- The items that a note gives to an array. -/
def itemSchema (n : Note) : Value :=
  match n.items with
  | none | some [] => .map [("type", .text "object")]
  | some items => .map items

def simpleSchema (n : Note) : Record :=
  match givenText n.ref with
  | some component => [("$ref", .text (componentsPath ++ component))]
  | none =>
    if !n.annotated then [("type", .text missingComment)]
    else
      let typeName := (givenText n.schemaType).getD "string"
      let choices := match n.choices with
        | none | some [] => []
        | some values => [("enum", .list values)]
      let format := match givenText n.schemaFormat with
        | some s => [("format", .text s)]
        | none => []
      let sample := match n.sample with
        | .null => []
        | v => [("example", v)]
      let items := if typeName == "array" then [("items", n.itemSchema)] else []
      ("type", .text typeName) :: (n.schemaFields ++ choices ++ format ++ sample ++ items)

end Note

/-- A field of a schema, left out when it holds nothing. -/
def nonEmptyField (key : String) (v : Value) : Record := if v.isTruthy then [(key, v)] else []

/-- The values of a list without those that are the same as an earlier one. -/
def distinctValues (values : List Value) : List Value :=
  values.foldl (fun kept v => if kept.any (·.same v) then kept else kept ++ [v]) []

/-- The schema of array items: the only one, or one of several. -/
def itemsField (n : Note) (schemas : List Value) : Value :=
  match distinctValues schemas with
  | [] => n.itemSchema
  | [only] => only
  | several => .map [("oneOf", .list several)]

/-- The names of the members that are always present, each once. -/
def requiredNames (members : List Shape) : List String :=
  members.foldl
    (fun names m =>
      match m.name with
      | some name => if m.isRequired && !names.contains name then names ++ [name] else names
      | none => names)
    []

namespace Shape

mutual

def schema : Shape → Record
  | .simple f => f.note.simpleSchema
  | .object f members =>
    ("type", .text "object") :: (f.note.schemaFields ++
      nonEmptyField "properties" (.map (Record.ofEntries (memberSchemas members))) ++
      nonEmptyField "required" (.list ((requiredNames members).map .text)))
  | .array f _ items =>
    ("type", .text "array") :: (f.note.schemaFields ++
      [("items", itemsField f.note (itemSchemas items))])
  | .reference _ _ _ resolved nodes =>
    if resolved then
      ("type", .text "object") ::
        (nonEmptyField "properties" (.map (Record.ofEntries (memberSchemas nodes))) ++
          nonEmptyField "required" (.list ((requiredNames nodes).map .text)))
    else [("type", .text "object")]
  | .bare _ => [("type", .text "object")]

/-- The schemas of the named members, by name. -/
def memberSchemas : List Shape → Record
  | [] => []
  | s :: rest =>
    match s.name with
    | some name => (name, .map (schema s)) :: memberSchemas rest
    | none => memberSchemas rest

def itemSchemas : List Shape → List Value
  | [] => []
  | s :: rest => .map (schema s) :: itemSchemas rest

end

def warning (message : String) : LogEntry := ⟨.warning, .compiler, message⟩

mutual

/-- The warnings that a shape leaves when its schema is made. -/
def warnings : Shape → List LogEntry
  | .simple _ => []
  | .object _ members => memberWarnings members
  | .array _ _ items => itemWarnings items
  | .reference _ template _ resolved nodes =>
    if resolved then memberWarnings nodes
    else
      [warning ("unresolved partial " ++ Text.quotedString template ++ " reached the compiler")]
  | .bare f => [warning ("unknown shape node " ++ shown (.bare f))]

def memberWarnings : List Shape → List LogEntry
  | [] => []
  | s :: rest =>
    (match s.name with
      | some _ => warnings s
      | none => [warning ("skipping unnamed " ++ s.kindName ++ " node inside an object")]) ++
      memberWarnings rest

def itemWarnings : List Shape → List LogEntry
  | [] => []
  | s :: rest => warnings s ++ itemWarnings rest

end

/-- The response that a shape and an operation describe. An operation that holds something other
than attributes has no response. -/
def response? (s : Shape) (operation : Value) : Option Record :=
  let attributes : Option Record := match operation with
    | .map r => some r
    | v => if v.isTruthy then none else some []
  attributes.map fun r =>
    let status := r.get "status"
    let description := r.get "responseDescription"
    [((if status.isTruthy then status.asText else "200"),
      .map
        [("description",
            if description.isTruthy then description else .text "Successful response"),
          ("content", .map [("application/json", .map [("schema", .map s.schema)])])])]

end Shape

def sortedComponents (components : List (String × Shape)) : List (String × Shape) :=
  components.mergeSort fun a b => decide (a.1 ≤ b.1)

/-- The schemas of components in the order of their names. -/
def componentSchemas (components : List (String × Shape)) : Record :=
  (sortedComponents components).map fun c => (c.1, .map c.2.schema)

/-- The warnings that components leave when their schemas are made. -/
def componentWarnings (components : List (String × Shape)) : List LogEntry :=
  (sortedComponents components).flatMap fun c => c.2.warnings

end ViewSchema
