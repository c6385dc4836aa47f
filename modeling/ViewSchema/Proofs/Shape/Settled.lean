import Mathlib.Tactic.Tauto
import ViewSchema.Proofs.Shape.Everywhere

/-!
Shapes in which nothing is left without a place. A member without a name is passed over when the
schema of its object is made, and a root array below the top has never been given a name. A shape
is settled when it has neither. The outline of a node is what the nodes around it need to know of
it for that: its name, whether it is a root array, and whether all is settled below it.
-/

namespace ViewSchema

namespace Shape

/-- The members, if a node is an object, all have names. -/
def NamesMembers : Shape → Prop
  | .object _ members => ∀ m ∈ members, m.name.isSome
  | _ => True

/-- Every member of every object has a name, and no node below the top is a root array. -/
structure Settled (s : Shape) : Prop where
  namesMembers : ∀ inner ∈ s.walk, inner.NamesMembers
  noInnerRoot : ∀ inner ∈ s.walk.tail, inner.isArrayRoot = false

mutual

/-- Decide whether a shape is settled. -/
def isSettled : Shape → Bool
  | .simple _ | .bare _ => true
  | .object _ members => membersSettled members
  | .array _ _ nodes | .reference _ _ _ _ nodes => nodesSettled nodes

/-- Members have names, are no root arrays and are settled. -/
def membersSettled : List Shape → Bool
  | [] => true
  | s :: rest => s.name.isSome && !s.isArrayRoot && isSettled s && membersSettled rest

def nodesSettled : List Shape → Bool
  | [] => true
  | s :: rest => !s.isArrayRoot && isSettled s && nodesSettled rest

end

theorem membersSettled_iff (members : List Shape) :
    membersSettled members ↔ (∀ m ∈ members, m.name.isSome) ∧ nodesSettled members := by
  induction members with
  | nil => simp [membersSettled, nodesSettled]
  | cons s rest ih =>
    simp only [membersSettled, nodesSettled, Bool.and_eq_true, List.forall_mem_cons, ih]
    tauto

mutual

theorem isSettled_iff_children : ∀ s : Shape,
    s.isSettled ↔ s.NamesMembers ∧ (∀ inner ∈ walkList s.children, inner.NamesMembers) ∧
      ∀ inner ∈ walkList s.children, inner.isArrayRoot = false
  | .simple _ => by simp [isSettled, NamesMembers, children, walkList]
  | .bare _ => by simp [isSettled, NamesMembers, children, walkList]
  | .object _ members => by
    rw [isSettled, membersSettled_iff, nodesSettled_iff members]
    rfl
  | .array _ _ items => by
    rw [isSettled, nodesSettled_iff items]
    simp only [NamesMembers, true_and]
    rfl
  | .reference _ _ _ _ nodes => by
    rw [isSettled, nodesSettled_iff nodes]
    simp only [NamesMembers, true_and]
    rfl

theorem nodesSettled_iff : ∀ nodes : List Shape,
    nodesSettled nodes ↔ (∀ inner ∈ walkList nodes, inner.NamesMembers) ∧
      ∀ inner ∈ walkList nodes, inner.isArrayRoot = false
  | [] => by simp [nodesSettled, walkList]
  | s :: rest => by
    have hfirst := isSettled_iff_children s
    have hrest := nodesSettled_iff rest
    simp only [nodesSettled, Bool.and_eq_true, Bool.not_eq_true', hfirst, hrest, walkList,
      walk_eq_cons s, List.cons_append, List.forall_mem_cons, List.forall_mem_append]
    tauto

end

theorem settled_iff (s : Shape) : s.Settled ↔ s.isSettled := by
  rw [isSettled_iff_children]
  constructor
  · rintro ⟨hnames, hroots⟩
    rw [walk_eq_cons] at hnames hroots
    exact ⟨hnames s List.mem_cons_self, fun inner h => hnames inner (List.mem_cons_of_mem _ h),
      hroots⟩
  · rintro ⟨hself, hnames, hroots⟩
    constructor
    · rw [walk_eq_cons]
      exact List.forall_mem_cons.mpr ⟨hself, hnames⟩
    · rw [walk_eq_cons]
      exact hroots

theorem memberWarnings_eq_nil {members : List Shape} (hnamed : ∀ m ∈ members, m.name.isSome)
    (hquiet : ∀ m ∈ members, m.warnings = []) : memberWarnings members = [] := by
  induction members with
  | nil => rfl
  | cons m rest ih =>
    obtain ⟨hname, hnames⟩ := List.forall_mem_cons.mp hnamed
    obtain ⟨hfirst, hrest⟩ := List.forall_mem_cons.mp hquiet
    obtain ⟨name, hname⟩ := Option.isSome_iff_exists.mp hname
    simp only [memberWarnings, hname, hfirst, ih hnames hrest, List.append_nil]

theorem itemWarnings_eq_nil {items : List Shape} (hquiet : ∀ item ∈ items, item.warnings = []) :
    itemWarnings items = [] := by
  induction items with
  | nil => rfl
  | cons item rest ih =>
    obtain ⟨hfirst, hrest⟩ := List.forall_mem_cons.mp hquiet
    rw [itemWarnings, hfirst, ih hrest, List.append_nil]

theorem nodesSettled_iff_forall (nodes : List Shape) :
    nodesSettled nodes ↔ ∀ s ∈ nodes, s.isArrayRoot = false ∧ s.isSettled := by
  induction nodes with
  | nil => simp [nodesSettled]
  | cons s rest ih => simp [nodesSettled, ih, and_assoc]

/-- A settled shape that a walk can build leaves no warning when its schema is made. -/
theorem Formed.warnings_eq_nil {s : Shape} (h : s.Formed) (hsettled : s.isSettled) :
    s.warnings = [] := by
  induction h with
  | simple => rfl
  | object _ _ _ ih =>
    rw [isSettled, membersSettled_iff, nodesSettled_iff_forall] at hsettled
    exact memberWarnings_eq_nil hsettled.1 fun m hm => ih m hm (hsettled.2 m hm).2
  | array _ _ _ _ _ ih =>
    rw [isSettled, nodesSettled_iff_forall] at hsettled
    exact itemWarnings_eq_nil fun item hitem => ih item hitem (hsettled item hitem).2

end Shape

/-- What the nodes around a node need to know of it: its name, whether it is a root array, and
whether all is settled below it. -/
structure Outline where
  name : Option String
  isRoot : Bool
  settled : Bool
  deriving DecidableEq, Repr

/-- The outline of a node. -/
def Shape.outline (s : Shape) : Outline := ⟨s.name, s.isArrayRoot, s.isSettled⟩

namespace Outline

/-- Add the outline of a member: in the place of the first one of the same name, or at the end. -/
def add : List Outline → Outline → List Outline
  | [], node => [node]
  | first :: rest, node =>
    if node.name.isSome && first.name == node.name then node :: rest else first :: add rest node

def addAll (members nodes : List Outline) : List Outline := nodes.foldl add members

/-- The node finds a place as a member: it has a name, and no root array lies in it. -/
def fits (o : Outline) : Bool := o.name.isSome && !o.isRoot && o.settled

/-- All members of an object that is made of nodes find a place. -/
def objectSettled (nodes : List Outline) : Bool := (addAll [] nodes).all fits

/-- The nodes of a body find a place in the item template that they make. A root array does so only
when it is the one node, and becomes the item itself. -/
def itemSettled : List Outline → Bool
  | [⟨_, true, settled⟩] => settled
  | nodes => objectSettled nodes

/-- A root array among other nodes of a property's block, as a member. -/
def asItems (o : Outline) : Outline := if o.isRoot then ⟨some "items", false, o.settled⟩ else o

/-- The nodes of a property's block find a place in the property. -/
def blockSettled : List Outline → Bool
  | [⟨_, true, settled⟩] => settled
  | nodes => objectSettled (nodes.map asItems)

/-- The nodes of an included template find a place in the object that includes it. A root array that
is the one node is made an item first, and is then a member like any other. -/
def spliceSettled : List Outline → Bool
  | [⟨name, true, settled⟩] => objectSettled [⟨name, false, settled⟩]
  | nodes => objectSettled nodes

/-- The top nodes of a template find a place in the document. The last root array replaces all
others. -/
def documentSettled (nodes : List Outline) : Bool :=
  match (nodes.filter isRoot).getLast? with
  | some root => root.settled
  | none => objectSettled nodes

end Outline

namespace Shape

theorem outline_addMember (members : List Shape) (node : Shape) :
    (addMember members node).map outline = Outline.add (members.map outline) node.outline := by
  induction members with
  | nil => rfl
  | cons first rest ih =>
    rw [addMember, List.map_cons, Outline.add]
    change _ = if node.name.isSome && first.name == node.name then _ else _
    split
    · rfl
    · rw [List.map_cons, ih]

theorem outline_addMembers (members nodes : List Shape) :
    (addMembers members nodes).map outline =
      Outline.addAll (members.map outline) (nodes.map outline) := by
  induction nodes generalizing members with
  | nil => rfl
  | cons node rest ih =>
    have hstep := ih (addMember members node)
    rw [outline_addMember] at hstep
    exact hstep

theorem membersSettled_eq_all (members : List Shape) :
    membersSettled members = (members.map outline).all Outline.fits := by
  induction members with
  | nil => rfl
  | cons s rest ih =>
    rw [membersSettled, List.map_cons, List.all_cons, ih]
    rfl

theorem isSettled_ofMembers (f : Facts) (nodes : List Shape) :
    (ofMembers f nodes).isSettled = Outline.objectSettled (nodes.map outline) := by
  rw [ofMembers, isSettled, membersSettled_eq_all, outline_addMembers]
  rfl

theorem isArrayRoot_mapFacts (change : Facts → Facts) (s : Shape) :
    (s.mapFacts change).isArrayRoot = s.isArrayRoot := by
  cases s <;> rfl

mutual

theorem isSettled_mapFacts {change : Facts → Facts} (h : ∀ f, (change f).name = f.name) :
    ∀ s : Shape, (s.mapFacts change).isSettled = s.isSettled
  | .simple _ => rfl
  | .bare _ => rfl
  | .object _ members => membersSettled_mapFactsList h members
  | .array _ _ items => nodesSettled_mapFactsList h items
  | .reference _ _ _ _ nodes => nodesSettled_mapFactsList h nodes

theorem membersSettled_mapFactsList {change : Facts → Facts} (h : ∀ f, (change f).name = f.name) :
    ∀ members : List Shape, membersSettled (mapFactsList change members) = membersSettled members
  | [] => rfl
  | s :: rest => by
    rw [mapFactsList, membersSettled, membersSettled, name_mapFacts h, isArrayRoot_mapFacts,
      isSettled_mapFacts h s, membersSettled_mapFactsList h rest]

theorem nodesSettled_mapFactsList {change : Facts → Facts} (h : ∀ f, (change f).name = f.name) :
    ∀ nodes : List Shape, nodesSettled (mapFactsList change nodes) = nodesSettled nodes
  | [] => rfl
  | s :: rest => by
    rw [mapFactsList, nodesSettled, nodesSettled, isArrayRoot_mapFacts, isSettled_mapFacts h s,
      nodesSettled_mapFactsList h rest]

end

theorem isSettled_array_singleton (f : Facts) (isRoot : Bool) (s : Shape) :
    (Shape.array f isRoot [s]).isSettled = (!s.isArrayRoot && s.isSettled) := by
  simp [isSettled, nodesSettled]

/-- An object of nodes that all fit is settled. -/
theorem isSettled_ofMembers_of_fits (f : Facts) {nodes : List Shape}
    (h : ∀ n ∈ nodes, n.outline.fits) : (ofMembers f nodes).isSettled := by
  rw [ofMembers, isSettled, membersSettled_eq_all, List.all_map, List.all_eq_true]
  intro m hm
  rcases mem_addMembers hm with hnil | hnode
  · cases hnil
  · exact h m hnode

theorem eq_array_of_isArrayRoot {s : Shape} (h : s.isArrayRoot) :
    ∃ f items, s = .array f true items := by
  cases s with
  | array f isRoot items =>
    obtain rfl : isRoot = true := h
    exact ⟨f, items, rfl⟩
  | simple => cases h
  | object => cases h
  | reference => cases h
  | bare => cases h

/-- Outlines tell a root array that is the one node of a list. -/
theorem eq_of_outline_root {nodes : List Shape} {name : Option String} {settled : Bool}
    (h : nodes.map outline = [⟨name, true, settled⟩]) :
    ∃ f items, nodes = [.array f true items] := by
  obtain ⟨s, rfl, hs⟩ := List.map_eq_singleton_iff.mp h
  obtain ⟨f, items, rfl⟩ := eq_array_of_isArrayRoot (congrArg Outline.isRoot hs)
  exact ⟨f, items, rfl⟩

/-- A change of facts that keeps names keeps outlines. -/
theorem outline_mapFacts {change : Facts → Facts} (h : ∀ f, (change f).name = f.name)
    (s : Shape) : (s.mapFacts change).outline = s.outline := by
  unfold outline
  rw [name_mapFacts h, isArrayRoot_mapFacts, isSettled_mapFacts h]

@[simp] theorem outline_marked (s : Shape) : s.marked.outline = s.outline := by
  unfold marked
  rw [outline_mapFacts]
  intro f
  rfl

@[simp] theorem outline_asForeign (s : Shape) : s.asForeign.outline = s.outline := by
  unfold asForeign
  rw [outline_mapFacts]
  intro f
  rfl

end Shape
end ViewSchema
