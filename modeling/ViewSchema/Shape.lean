import ViewSchema.CommentLine

/-!
The shape of a document: simple values, objects with members, arrays with item templates, and
references to partial templates. Every node of a shape knows its name, the note on it, whether it
is conditional and the line it comes from. A node whose note is conditional starts conditional.
-/

namespace ViewSchema

/-- What every node of a shape carries. -/
structure Facts where
  name : Option String := none
  note : Note := .blank
  conditional : Bool := false
  line : Option Int := none
  /-- The node was written in an included file. -/
  foreign : Bool := false
  deriving Repr, Inhabited

def Facts.new (name : Option String) (note : Note) (line : Option Int) : Facts :=
  { name, note, conditional := note.conditional, line }

/-- A node may be absent from the document when its note says so or it is conditional. -/
def Facts.isRequired (f : Facts) : Bool := f.note.isRequired && !f.conditional

/-- A shape. -/
inductive Shape where
  | simple (facts : Facts)
  | object (facts : Facts) (members : List Shape)
  /-- An array; a root array is the whole document or stands for what encloses it. -/
  | array (facts : Facts) (isRoot : Bool) (items : List Shape)
  /-- A reference to a partial template, with the nodes of that template once it is resolved. -/
  | reference (facts : Facts) (template : String) (bindings : Record) (resolved : Bool)
      (nodes : List Shape)
  /-- A node of no kind. -/
  | bare (facts : Facts)
  deriving Repr, Inhabited

namespace Shape

def facts : Shape → Facts
  | .simple f | .object f _ | .array f _ _ | .reference f _ _ _ _ | .bare f => f

def name (s : Shape) : Option String := s.facts.name

def note (s : Shape) : Note := s.facts.note

def children : Shape → List Shape
  | .object _ nodes | .array _ _ nodes | .reference _ _ _ _ nodes => nodes
  | .simple _ | .bare _ => []

def kindName : Shape → String
  | .simple _ => "simple"
  | .object .. => "object"
  | .array .. => "array"
  | .reference .. => "partial"
  | .bare _ => "node"

def isArrayRoot : Shape → Bool
  | .array _ isRoot _ => isRoot
  | _ => false

def isRequired (s : Shape) : Bool := s.facts.isRequired

/-- Add a member: in the place of the first member of the same name, or at the end. -/
def addMember : List Shape → Shape → List Shape
  | [], node => [node]
  | first :: rest, node =>
    if node.name.isSome && first.name == node.name then node :: rest
    else first :: addMember rest node

def addMembers (members nodes : List Shape) : List Shape := nodes.foldl addMember members

def ofMembers (facts : Facts) (nodes : List Shape) : Shape := .object facts (addMembers [] nodes)

def member? (members : List Shape) (name : String) : Option Shape :=
  members.find? fun m => m.name == some name

mutual

/-- The node and all below it, with facts changed one by one. -/
def mapFacts (change : Facts → Facts) : Shape → Shape
  | .simple f => .simple (change f)
  | .object f members => .object (change f) (mapFactsList change members)
  | .array f isRoot items => .array (change f) isRoot (mapFactsList change items)
  | .reference f template bindings resolved nodes =>
    .reference (change f) template bindings resolved (mapFactsList change nodes)
  | .bare f => .bare (change f)

/-- The nodes of a list and all below them, with facts changed one by one. -/
def mapFactsList (change : Facts → Facts) : List Shape → List Shape
  | [] => []
  | s :: rest => mapFacts change s :: mapFactsList change rest

end

/-- The node and all below it, conditional. -/
def marked (s : Shape) : Shape := s.mapFacts fun f => { f with conditional := true }

/-- The node and all below it, as written in an included file. -/
def asForeign (s : Shape) : Shape := s.mapFacts fun f => { f with foreign := true }

mutual

/-- All nodes from the top down, each before those below it. -/
def walk : Shape → List Shape
  | .simple f => [.simple f]
  | .object f members => .object f members :: walkList members
  | .array f isRoot items => .array f isRoot items :: walkList items
  | .reference f template bindings resolved nodes =>
    .reference f template bindings resolved nodes :: walkList nodes
  | .bare f => [.bare f]

/-- All nodes of a list of shapes from the top down. -/
def walkList : List Shape → List Shape
  | [] => []
  | s :: rest => walk s ++ walkList rest

end

/-- The path of a member: its name behind that of what holds it. -/
def memberPath (path : String) : Option String → String
  | some name => if path == "" then name else path ++ "." ++ name
  | none => path

mutual

/-- The named nodes below a node, from the top down, with their paths from the given one. The
steps of a path are joined by dots; a step through an array is a pair of brackets, and array items
are not listed themselves. -/
def named (path : String) : Shape → List (String × Shape)
  | .object _ members => namedMembers path members
  | .array _ _ items => namedItems path items
  | .reference _ _ _ _ nodes => namedMembers path nodes
  | .simple _ | .bare _ => []

def namedMembers (path : String) : List Shape → List (String × Shape)
  | [] => []
  | s :: rest =>
    let inner := memberPath path s.name
    (if s.name.isSome then [(inner, s)] else []) ++ named inner s ++ namedMembers path rest

def namedItems (path : String) : List Shape → List (String × Shape)
  | [] => []
  | s :: rest => named (path ++ "[]") s ++ namedItems path rest

end

def shown (s : Shape) : String :=
  let nameText := (s.name.map Text.quotedString).getD "None"
  let conditional := if s.facts.conditional then " conditional" else ""
  let plain (kind : String) := "<" ++ kind ++ " " ++ nameText ++ conditional ++ ">"
  match s with
  | .simple _ => plain "SimpleNode"
  | .object .. => plain "ObjectNode"
  | .array .. => plain "ArrayNode"
  | .bare _ => plain "ShapeNode"
  | .reference _ template _ resolved _ =>
    "<PartialRef " ++ Text.quotedString template ++
      (if resolved then " resolved>" else " unresolved>")

end Shape
end ViewSchema
