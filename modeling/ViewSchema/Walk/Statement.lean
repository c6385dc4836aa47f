import ViewSchema.Settings
import ViewSchema.Walk.Lookup
import ViewSchema.Walk.Reference

/-!
Walking the statements of one template. A property call becomes a simple value, an object or an
array; an array call becomes a root array; an extraction gives one simple value per attribute;
directives and unrelated calls are passed through to the bodies of their blocks. The nodes of a
body are gathered like the members of an object: a later node of the same name takes the place of
the earlier.

A root array has no name of its own. As the only node of a property's block it becomes that
property; among others in the block it becomes the member `items`; as the only node of an array
item it becomes that item; at the top of a template it is the whole document.
-/

namespace ViewSchema

open Template

/-- The template being walked. -/
structure Site where
  path : Path
  settings : Settings
  comments : Comments

/-- How the nodes of an included template are found: by its name, the bindings for it and the line
of the call. -/
abbrev Includer := String → Record → Option Int → Walk (List Shape)

/-- The block of a call: whether it has parameters, and the nodes of its body. -/
structure Body where
  hasParams : Bool
  nodes : Walk (List Shape)

namespace Site

def shownLine (line : Option Int) : String := (line.map toString).getD "None"

/-- The place of a call as messages show it. -/
def place (site : Site) (line : Option Int) : String :=
  site.path.toString ++ ":" ++ shownLine line

/-- Gather one node, with a message when it takes the place of another. -/
def gather (site : Site) (members : List Shape) (node : Shape) : Walk (List Shape) := do
  match node.name with
  | some name =>
    if (Shape.member? members name).isSome then
      Walk.say .debug
        (site.path.toString ++ ": " ++ Text.quotedString name ++
          " defined again, keeping the later one")
  | none => pure ()
  return Shape.addMember members node

def gatherAll (site : Site) : List Shape → List Shape → Walk (List Shape)
  | members, [] => pure members
  | members, node :: rest => do site.gatherAll (← site.gather members node) rest

def itemOf (nodes : List Shape) : Shape :=
  match nodes with
  | [.array facts true items] => .array facts false items
  | _ => .ofMembers {} nodes

def itemOfBody (body : Walk (List Shape)) : Walk Shape := do return itemOf (← body.settle none)

def attributes (site : Site) (args : List Node) (line : Option Int) : List Shape :=
  (args.filterMap Node.staticText?).map fun name =>
    .simple (.new (some name) (site.comments.attributeNote line name) line)

/-- The nodes of the template that a call includes. -/
def included (site : Site) (includer : Includer) (i : Invocation) : Walk (List Shape) := do
  match i.partialName? with
  | none =>
    Walk.say .warning (site.place i.line ++ ": partial name is not a literal, skipping")
    return []
  | some name => includer name (← Walk.ofExcept i.bindings) i.line

/-- The item template that the template included by a call makes. -/
def includedItem (site : Site) (includer : Includer) (i : Invocation) : Walk Shape :=
  itemOfBody (site.included includer i)

/-- A root array that is the only node of a property's block, as that property. The note on the
property counts, unless only the array has one. -/
def collapsed (facts : Facts) (inner : Facts) (items : List Shape) : Shape :=
  let own := facts.note.annotated || !inner.note.annotated
  .array
    { inner with
      name := facts.name
      line := facts.line
      note := if own then facts.note else inner.note
      conditional := inner.conditional || (own && facts.note.conditional) }
    false items

/-- A root array among other nodes, as a member. -/
def asItems (s : Shape) : Shape :=
  match s with
  | .array facts true items => .array { facts with name := some "items" } false items
  | s => s

/-- The property that the nodes of its block make. -/
def enclosing (facts : Facts) (nodes : List Shape) : Shape :=
  match nodes with
  | [.array inner true items] => collapsed facts inner items
  | _ => .ofMembers facts (nodes.map asItems)

/-- The name that a property's block gives to a root array in it. -/
def rootName (name : Option String) (nodes : List Shape) : Option String :=
  match nodes with
  | [.array _ true _] => name
  | _ => some "items"

def ofBody (facts : Facts) (body : Walk (List Shape)) : Walk Shape := do
  let name := match body.result with
    | .ok nodes => rootName facts.name nodes
    | .error _ => none
  return enclosing facts (← body.settle name)

/-- The members that an item template makes when it stands for an object. -/
def itemMembers : Shape → List Shape
  | .object _ members => members
  | item => [item]

def property (site : Site) (includer : Includer) (i : Invocation) (body : Option Body) :
    Walk Shape := do
  let note := site.comments.noteFor i.line
  let facts := Facts.new (some i.method) note i.line
  if i.call.hasPartialKey then
    let item ← site.includedItem includer i
    if note.schemaType == some "object" then return .ofMembers facts (itemMembers item)
    else return .array facts false [item]
  else
    match body with
    | some body =>
      if body.hasParams then return .array facts false [← itemOfBody body.nodes]
      else ofBody facts body.nodes
    | none =>
      match site.attributes (i.args.drop 1) i.line with
      | [] => return .simple facts
      | attributes =>
        if note.schemaType == some "array" then
          return .array facts false [.ofMembers {} attributes]
        else return .ofMembers facts attributes

def array (site : Site) (includer : Includer) (i : Invocation) (body : Option Body) :
    Walk Shape := do
  let facts := Facts.new none (site.comments.noteFor i.line) i.line
  if i.call.hasPartialKey then
    return .array facts true [← site.includedItem includer i]
  else
    match body with
    | some body => return .array facts true [← itemOfBody body.nodes]
    | none =>
      match site.attributes (i.args.drop 1) i.line with
      | [] => return .array facts true []
      | attributes => return .array facts true [.ofMembers {} attributes]

/-- The nodes of an inclusion: those of the included template, or one root array of them when a
collection is given. -/
def inclusion (site : Site) (includer : Includer) (i : Invocation) : Walk (List Shape) := do
  if (i.option? "collection").isSome then
    let facts := Facts.new none (site.comments.noteFor i.line) i.line
    return [.array facts true [← site.includedItem includer i]]
  else site.included includer i

def call (site : Site) (includer : Includer) (n : Node) (body : Option Body) :
    Walk (List Shape) := do
  match n.invocation with
  | .error (malformation, line) => Walk.fail (.malformed malformation line)
  | .ok i =>
    match i.call.kind site.settings.builder with
    | .array => return [← site.array includer i body]
    | .inclusion => site.inclusion includer i
    | .extraction => return site.attributes (i.args.drop 1) i.line
    | .property => return [← site.property includer i body]
    | .directive | .other =>
      match body with
      | some body => body.nodes
      | none => return []

mutual

def statement (site : Site) (includer : Includer) : Node → Walk (List Shape)
  | .conditional _ _ branches extent => do
    let nodes ← site.branches includer branches
    return if site.comments.marks extent.line then nodes.map Shape.marked else nodes
  | .block callee params body _ =>
    site.call includer callee (some ⟨!params.isEmpty, site.statements includer [] body⟩)
  | .call c => site.call includer (.call c) none
  | .expression parts _ => site.parts includer parts
  | .name .. | .literal .. | .hash .. | .array .. | .alien _ => return []

/-- The nodes of a body, gathered behind those there are. -/
def statements (site : Site) (includer : Includer) (members : List Shape) :
    List Node → Walk (List Shape)
  | [] => return members
  | n :: rest => do
    let nodes ← site.statement includer n
    let members ← site.gatherAll members nodes
    site.statements includer members rest

/-- The nodes of all branches, each gathered on its own. -/
def branches (site : Site) (includer : Includer) : List (List Node) → Walk (List Shape)
  | [] => return []
  | body :: rest => do
    let nodes ← site.statements includer [] body
    return nodes ++ (← site.branches includer rest)

/-- The nodes of the blocks and conditionals among the parts of an expression. -/
def parts (site : Site) (includer : Includer) : List Node → Walk (List Shape)
  | [] => return []
  | n :: rest => do
    let nodes ← match n with
      | .block .. | .conditional .. => site.statement includer n
      | _ => pure []
    return nodes ++ (← site.parts includer rest)

end

end Site
end ViewSchema
