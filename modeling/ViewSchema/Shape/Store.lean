import ViewSchema.Shape

/-!
Shapes under construction. Nodes have an identity: they are kept in numbered cells, children are
given by number, one node may stand below several others, and a change to a node shows wherever it
stands. What a node looks like is the shape seen from its cell.

A node knows the node it was last added to, its parent, but does not keep it: a parent that nothing
in use leads to is forgotten. The nodes of a resolved reference have no parent in it.

A note that comes from outside gets an origin of its own, so that a not-a-number in it equals itself
in every copy of the note and nothing in any other note.
-/

namespace ViewSchema

abbrev Ref := Nat

/-- What kind of node a cell holds. -/
inductive Form where
  | simple
  | object (members : List Ref)
  | array (isRoot : Bool) (items : List Ref)
  /-- A reference, with the nodes of its template once it is resolved. -/
  | reference (template : String) (bindings : Record) (nodes : Option (List Ref))
  | bare
  deriving Repr, Inhabited

/-- A node with its identity. -/
structure Cell where
  facts : Facts := {}
  form : Form := .bare
  parent : Option Ref := none
  deriving Repr, Inhabited

/-- All nodes there are. -/
structure Store where
  cells : List Cell := []
  /-- Origins from this number on have not been given to any note. -/
  origins : Nat := 0
  deriving Repr, Inhabited

namespace Form

def children : Form → List Ref
  | .object refs | .array _ refs => refs
  | .reference _ _ refs => refs.getD []
  | .simple | .bare => []

end Form

namespace Store

def cell (s : Store) (r : Ref) : Cell := s.cells[r]?.getD {}

def update (s : Store) (r : Ref) (change : Cell → Cell) : Store :=
  { s with cells := s.cells.modify r change }

def make (s : Store) (c : Cell) : Ref × Store :=
  (s.cells.length, { s with cells := s.cells ++ [c] })

def children (s : Store) (r : Ref) : List Ref := (s.cell r).form.children

def name (s : Store) (r : Ref) : Option String := (s.cell r).facts.name

/-- A node and everything below it, as far as some number of steps leads. -/
def below (s : Store) : Nat → Ref → List Ref
  | 0, _ => []
  | steps + 1, r => r :: (s.children r).flatMap (s.below steps)

/-- A node and everything below it. No way down is longer than the number of nodes, unless it
goes round. -/
def allBelow (s : Store) (r : Ref) : List Ref := s.below (s.cells.length + 1) r

/-- The shape of a node, as far as some number of steps leads. -/
def shapeWithin (s : Store) : Nat → Ref → Shape
  | 0, _ => .bare {}
  | steps + 1, r =>
    let c := s.cell r
    match c.form with
    | .simple => .simple c.facts
    | .object members => .object c.facts (members.map (s.shapeWithin steps))
    | .array isRoot items => .array c.facts isRoot (items.map (s.shapeWithin steps))
    | .reference template bindings nodes =>
      .reference c.facts template bindings nodes.isSome
        ((nodes.getD []).map (s.shapeWithin steps))
    | .bare => .bare c.facts

def shape (s : Store) (r : Ref) : Shape := s.shapeWithin (s.cells.length + 1) r

/-- The member list of an object with one more node: in the place of the first member of its
name, or at the end. -/
def placed (s : Store) (node : Ref) : List Ref → List Ref
  | [] => [node]
  | first :: rest =>
    if (s.name node).isSome && s.name first == s.name node then node :: rest
    else first :: s.placed node rest

def setParent (s : Store) (node : Ref) (parent : Option Ref) : Store :=
  s.update node fun c => { c with parent }

def add (s : Store) (r node : Ref) : Store :=
  match (s.cell r).form with
  | .object members =>
    (s.setParent node (some r)).update r fun c => { c with form := .object (s.placed node members) }
  | _ => s

def extend (s : Store) (r : Ref) (nodes : List Ref) : Store :=
  nodes.foldl (fun s node => s.add r node) s

def addItem (s : Store) (r node : Ref) : Store :=
  match (s.cell r).form with
  | .array isRoot items =>
    (s.setParent node (some r)).update r fun c => { c with form := .array isRoot (items ++ [node]) }
  | _ => s

/-- Resolve a reference to nodes, in place of any it had. -/
def splice (s : Store) (r : Ref) (nodes : List Ref) : Store :=
  s.update r fun c =>
    match c.form with
    | .reference template bindings _ => { c with form := .reference template bindings (some nodes) }
    | _ => c

def updateFacts (s : Store) (r : Ref) (change : Facts → Facts) : Store :=
  s.update r fun c => { c with facts := change c.facts }

def markConditional (s : Store) (r : Ref) : Store :=
  (s.allBelow r).foldl
    (fun s node => s.updateFacts node fun f => { f with conditional := true }) s

def setRoot (s : Store) (r : Ref) (isRoot : Bool) : Store :=
  s.update r fun c =>
    match c.form with
    | .array _ items => { c with form := .array isRoot items }
    | _ => c

/-- The first member of an object with a name, or without one. -/
def member? (s : Store) (r : Ref) (name : Option String) : Option Ref :=
  (s.children r).find? fun node => s.name node == name

/-- The names of the nodes below a node, in order. -/
def childNames (s : Store) (r : Ref) : List String := (s.children r).filterMap s.name

/-- The facts that a node starts with. -/
def startingFacts (f : Facts) : Facts :=
  { f with conditional := f.conditional || f.note.conditional }

mutual

/-- Make the nodes of a shape, children first; members and items are added one by one. A reference
starts without a name and a note. -/
def build (s : Store) : Shape → Ref × Store
  | .simple f => s.make { facts := startingFacts f, form := .simple }
  | .bare f => s.make { facts := startingFacts f, form := .bare }
  | .object f members =>
    let (refs, s) := s.buildAll members
    let (r, s) := s.make { facts := startingFacts f, form := .object [] }
    (r, s.extend r refs)
  | .array f isRoot items =>
    let (refs, s) := s.buildAll items
    let (r, s) := s.make { facts := startingFacts f, form := .array isRoot [] }
    (r, refs.foldl (fun s node => s.addItem r node) s)
  | .reference f template bindings resolved nodes =>
    let facts : Facts := { line := f.line }
    let (refs, t) := s.buildAll nodes
    if resolved then t.make { facts, form := .reference template bindings (some refs) }
    else s.make { facts, form := .reference template bindings none }

def buildAll (s : Store) : List Shape → List Ref × Store
  | [] => ([], s)
  | shape :: rest =>
    let (r, s) := s.build shape
    let (refs, s) := s.buildAll rest
    (r :: refs, s)

end

/-- Give the notes of the nodes from a number on origins of their own. -/
def withOrigins (s : Store) (first : Ref) : Store :=
  { cells := s.cells.mapIdx fun r c =>
      if r < first then c
      else { c with facts.note := c.facts.note.withOrigin (s.origins + r) }
    origins := s.origins + s.cells.length }

/-- Make the nodes of a shape that comes from outside. -/
def insert (s : Store) (shape : Shape) : Ref × Store :=
  let (r, t) := s.build shape
  (r, t.withOrigins s.cells.length)

/-- Put a note that comes from outside on a node. -/
def setNote (s : Store) (r : Ref) (note : Note) : Store :=
  { s.updateFacts r fun f => { f with note := note.withOrigin s.origins } with
    origins := s.origins + 1 }

/-- A copy of a node and everything below it, made of new nodes. -/
def clone (s : Store) (r : Ref) : Ref × Store := s.build (s.shape r)

/-- The parent of a node, if any of the nodes in use leads to it. -/
def parent? (s : Store) (inUse : List Ref) (r : Ref) : Option Ref :=
  (s.cell r).parent.filter fun parent => inUse.any fun node => (s.allBelow node).contains parent

end Store
end ViewSchema
