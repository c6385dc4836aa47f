import ViewSchema.Proofs.Shape.Settled
import ViewSchema.Proofs.Walk.Invariant

/-!
The outlines of the nodes that a walk makes, read off the statements alone. Following the walk with
outlines in place of nodes tells which root arrays find a place, and which are lost.
-/

namespace ViewSchema

open Template

namespace Site

/-- The outlines of the nodes of the template that a call includes. -/
def includedOutlines (included : String → List Outline) (i : Invocation) : List Outline :=
  match i.partialName? with
  | none => []
  | some name => included name

/-- All finds a place in the property that a call makes. The block, if there is one, is given by
whether it has parameters, and by the outlines of the nodes of its body. -/
def propertySettled (site : Site) (included : String → List Outline) (i : Invocation)
    (block : Option Bool) (inner : List Outline) : Bool :=
  if i.call.hasPartialKey then
    if (site.comments.noteFor i.line).schemaType == some "object" then
      Outline.spliceSettled (includedOutlines included i)
    else Outline.itemSettled (includedOutlines included i)
  else
    match block with
    | some true => Outline.itemSettled inner
    | some false => Outline.blockSettled inner
    | none => true

/-- All finds a place in the root array that a call makes. -/
def arraySettled (included : String → List Outline) (i : Invocation) (block : Option Bool)
    (inner : List Outline) : Bool :=
  if i.call.hasPartialKey then Outline.itemSettled (includedOutlines included i)
  else
    match block with
    | some _ => Outline.itemSettled inner
    | none => true

def callOutlines (site : Site) (included : String → List Outline) (n : Node)
    (block : Option Bool) (inner : List Outline) : List Outline :=
  match n.invocation with
  | .error _ => []
  | .ok i =>
    match i.call.kind site.settings.builder with
    | .array => [⟨none, true, arraySettled included i block inner⟩]
    | .inclusion =>
      if (i.option? "collection").isSome then
        [⟨none, true, Outline.itemSettled (includedOutlines included i)⟩]
      else includedOutlines included i
    | .extraction =>
      ((i.args.drop 1).filterMap Node.staticText?).map fun name => ⟨some name, false, true⟩
    | .property => [⟨some i.method, false, site.propertySettled included i block inner⟩]
    | .directive | .other =>
      match block with
      | some _ => inner
      | none => []

mutual

def outlines (site : Site) (included : String → List Outline) : Node → List Outline
  | .conditional _ _ branches _ => site.branchOutlines included branches
  | .block callee params body _ =>
    site.callOutlines included callee (some !params.isEmpty) (site.bodyOutlines included [] body)
  | .call c => site.callOutlines included (.call c) none []
  | .expression parts _ => site.partOutlines included parts
  | .name .. | .literal .. | .hash .. | .array .. | .alien _ => []

/-- The outlines of the nodes of a body, added to those there are. -/
def bodyOutlines (site : Site) (included : String → List Outline) (members : List Outline) :
    List Node → List Outline
  | [] => members
  | n :: rest => site.bodyOutlines included (Outline.addAll members (site.outlines included n)) rest

def branchOutlines (site : Site) (included : String → List Outline) :
    List (List Node) → List Outline
  | [] => []
  | body :: rest => site.bodyOutlines included [] body ++ site.branchOutlines included rest

/-- The outlines of the nodes of the blocks and conditionals among the parts of an expression. -/
def partOutlines (site : Site) (included : String → List Outline) : List Node → List Outline
  | [] => []
  | n :: rest =>
    (match n with
      | .block .. | .conditional .. => site.outlines included n
      | _ => []) ++ site.partOutlines included rest

end

theorem isArrayRoot_itemOf (nodes : List Shape) : (itemOf nodes).isArrayRoot = false := by
  unfold itemOf
  split <;> rfl

theorem isSettled_itemOf (nodes : List Shape) :
    (itemOf nodes).isSettled = Outline.itemSettled (nodes.map Shape.outline) := by
  unfold itemOf
  split
  · rfl
  · rename_i hother
    rw [Shape.isSettled_ofMembers]
    unfold Outline.itemSettled
    split
    · rename_i hroot
      obtain ⟨f, items, rfl⟩ := Shape.eq_of_outline_root hroot
      exact absurd rfl (hother f items)
    · rfl

theorem isSettled_array_itemOf (f : Facts) (isRoot : Bool) (nodes : List Shape) :
    (Shape.array f isRoot [itemOf nodes]).isSettled =
      Outline.itemSettled (nodes.map Shape.outline) := by
  rw [Shape.isSettled_array_singleton, isArrayRoot_itemOf, isSettled_itemOf]
  rfl

theorem outline_asItems (s : Shape) : (asItems s).outline = s.outline.asItems := by
  unfold asItems
  split
  · rfl
  · rename_i hother
    have hroot : s.isArrayRoot = false := by
      rw [Bool.eq_false_iff]
      intro hroot
      obtain ⟨f, items, rfl⟩ := Shape.eq_array_of_isArrayRoot hroot
      exact hother f items rfl
    simp [Outline.asItems, Shape.outline, hroot]

theorem isSettled_enclosing (f : Facts) (nodes : List Shape) :
    (enclosing f nodes).isSettled = Outline.blockSettled (nodes.map Shape.outline) := by
  unfold enclosing
  split
  · rfl
  · rename_i hother
    rw [Shape.isSettled_ofMembers]
    unfold Outline.blockSettled
    split
    · rename_i hroot
      obtain ⟨f, items, rfl⟩ := Shape.eq_of_outline_root hroot
      exact absurd rfl (hother f items)
    · rw [List.map_map, List.map_map]
      congr 2
      funext s
      exact outline_asItems s

theorem isSettled_ofIncluded (f : Facts) (nodes : List Shape) :
    (ofIncluded f nodes).isSettled =
      if f.note.schemaType == some "object" then
        Outline.spliceSettled (nodes.map Shape.outline)
      else Outline.itemSettled (nodes.map Shape.outline) := by
  unfold ofIncluded
  cases f.note.schemaType == some "object" with
  | false =>
    simp only [Bool.false_eq_true, if_false]
    exact isSettled_array_itemOf f false nodes
  | true =>
    simp only [if_true]
    unfold itemOf
    split
    · exact Shape.isSettled_ofMembers f _
    · rename_i hother
      change (Shape.ofMembers f (Shape.addMembers [] nodes)).isSettled = _
      rw [Shape.ofMembers, Shape.addMembers_addMembers, ← Shape.ofMembers,
        Shape.isSettled_ofMembers]
      unfold Outline.spliceSettled
      split
      · rename_i hroot
        obtain ⟨f, items, rfl⟩ := Shape.eq_of_outline_root hroot
        exact absurd rfl (hother f items)
      · rfl

theorem isSettled_ofBlock (f : Facts) (hasParams : Bool) (nodes : List Shape) :
    (ofBlock f hasParams nodes).isSettled =
      if hasParams then Outline.itemSettled (nodes.map Shape.outline)
      else Outline.blockSettled (nodes.map Shape.outline) := by
  unfold ofBlock
  cases hasParams with
  | true =>
    simp only [if_true]
    exact isSettled_array_itemOf f false nodes
  | false =>
    simp only [Bool.false_eq_true, if_false]
    exact isSettled_enclosing f nodes

theorem outline_attributes (site : Site) (args : List Node) (line : Option Int) :
    (site.attributes args line).map Shape.outline =
      (args.filterMap Node.staticText?).map fun name => ⟨some name, false, true⟩ := by
  unfold attributes
  rw [List.map_map]
  rfl

theorem fits_attributes (site : Site) (args : List Node) (line : Option Int) :
    ∀ s ∈ site.attributes args line, s.outline.fits := by
  intro s hs
  obtain ⟨name, -, rfl⟩ := List.mem_map.mp hs
  rfl

theorem isSettled_array_ofMembers (f : Facts) (isRoot : Bool) {nodes : List Shape}
    (h : ∀ s ∈ nodes, s.outline.fits) :
    (Shape.array f isRoot [.ofMembers {} nodes]).isSettled := by
  rw [Shape.isSettled_array_singleton, Shape.isSettled_ofMembers_of_fits {} h]
  rfl

theorem isSettled_ofAttributes (f : Facts) {attributes : List Shape}
    (h : ∀ s ∈ attributes, s.outline.fits) : (ofAttributes f attributes).isSettled := by
  unfold ofAttributes
  split
  · rfl
  · split
    · exact isSettled_array_ofMembers f false h
    · exact Shape.isSettled_ofMembers_of_fits f h

/-- An includer finds nodes of the given outlines, where it does not fail. -/
def Outlined (includer : Includer) (included : String → List Outline) : Prop :=
  ∀ name bindings line nodes, (includer name bindings line).result = .ok nodes →
    nodes.map Shape.outline = included name

variable {site : Site} {includer : Includer} {included : String → List Outline}

theorem outline_included (hincluded : Outlined includer included) {i : Invocation}
    {nodes : List Shape} (h : (site.included includer i).result = .ok nodes) :
    nodes.map Shape.outline = includedOutlines included i := by
  unfold Site.included at h
  unfold includedOutlines
  cases hname : i.partialName? with
  | none =>
    rw [hname] at h
    cases h
    rfl
  | some name =>
    simp only [hname, Walk.result_bind, Walk.result_ofExcept] at h
    cases hbindings : i.bindings with
    | error failure =>
      rw [hbindings] at h
      cases h
    | ok bindings =>
      rw [hbindings] at h
      exact hincluded name bindings i.line nodes h

/-- A block whose nodes, when its body can be walked, have the given outlines. -/
def BodyOutlined (body : Option Body) (inner : List Outline) : Prop :=
  ∀ b, body = some b → ∀ nodes, b.nodes.result = .ok nodes → nodes.map Shape.outline = inner

theorem isSettled_property (hincluded : Outlined includer included) {i : Invocation}
    {body : Option Body} {inner : List Outline} (hbody : BodyOutlined body inner) {s : Shape}
    (h : (site.property includer i body).result = .ok s) :
    s.isSettled = site.propertySettled included i (body.map Body.hasParams) inner := by
  rw [result_property] at h
  unfold propertySettled
  by_cases hpartial : i.call.hasPartialKey = true
  · rw [if_pos hpartial] at h ⊢
    obtain ⟨nodes, hnodes, rfl⟩ := Walk.eq_of_map_ok h
    rw [isSettled_ofIncluded, outline_included hincluded hnodes]
    rfl
  · rw [if_neg hpartial] at h ⊢
    cases body with
    | none =>
      cases h
      exact isSettled_ofAttributes _ (site.fits_attributes _ _)
    | some b =>
      obtain ⟨nodes, hnodes, rfl⟩ := Walk.eq_of_map_ok h
      rw [isSettled_ofBlock, hbody b rfl nodes hnodes, Option.map_some]
      cases b.hasParams <;> rfl

theorem isSettled_array (hincluded : Outlined includer included) {i : Invocation}
    {body : Option Body} {inner : List Outline} (hbody : BodyOutlined body inner) {s : Shape}
    (h : (site.array includer i body).result = .ok s) :
    s.isSettled = arraySettled included i (body.map Body.hasParams) inner := by
  rw [result_array] at h
  unfold arraySettled
  by_cases hpartial : i.call.hasPartialKey = true
  · rw [if_pos hpartial] at h ⊢
    obtain ⟨nodes, hnodes, rfl⟩ := Walk.eq_of_map_ok h
    rw [isSettled_array_itemOf, outline_included hincluded hnodes]
  · rw [if_neg hpartial] at h ⊢
    cases body with
    | none =>
      cases h
      have hfits := site.fits_attributes (i.args.drop 1) i.line
      unfold arrayOfAttributes
      split
      · rfl
      · exact isSettled_array_ofMembers _ true hfits
    | some b =>
      obtain ⟨nodes, hnodes, rfl⟩ := Walk.eq_of_map_ok h
      rw [isSettled_array_itemOf, hbody b rfl nodes hnodes]
      rfl

theorem outline_inclusion (hincluded : Outlined includer included) {i : Invocation}
    {nodes : List Shape} (h : (site.inclusion includer i).result = .ok nodes) :
    nodes.map Shape.outline =
      if (i.option? "collection").isSome then
        [⟨none, true, Outline.itemSettled (includedOutlines included i)⟩]
      else includedOutlines included i := by
  rw [result_inclusion] at h
  obtain ⟨inner, hinner, rfl⟩ := Walk.eq_of_map_ok h
  have houtline := outline_included hincluded hinner
  split
  · rw [List.map_singleton, Shape.outline, isSettled_array_itemOf, houtline]
    rfl
  · exact houtline

/-- The nodes of a call have the outlines of the call. -/
theorem outline_call (hincluded : Outlined includer included) {n : Node} {body : Option Body}
    {inner : List Outline} (hbody : BodyOutlined body inner) {nodes : List Shape}
    (h : (site.call includer n body).result = .ok nodes) :
    nodes.map Shape.outline =
      site.callOutlines included n (body.map Body.hasParams) inner := by
  unfold callOutlines
  cases hinvocation : n.invocation with
  | error fault =>
    unfold call at h
    rw [hinvocation] at h
    cases h
  | ok i =>
    rw [result_call _ _ hinvocation] at h
    simp only []
    cases hkind : i.call.kind site.settings.builder with
    | array =>
      rw [hkind] at h
      obtain ⟨s, hs, rfl⟩ := Walk.eq_of_map_ok h
      obtain ⟨hname, hroot⟩ := site.name_array includer hs
      rw [List.map_singleton, Shape.outline, hname, hroot, isSettled_array hincluded hbody hs]
    | inclusion =>
      rw [hkind] at h
      exact outline_inclusion hincluded h
    | extraction =>
      rw [hkind] at h
      cases h
      exact site.outline_attributes _ _
    | property =>
      rw [hkind] at h
      obtain ⟨s, hs, rfl⟩ := Walk.eq_of_map_ok h
      obtain ⟨hname, hroot⟩ := site.name_property includer hs
      rw [List.map_singleton, Shape.outline, hname, hroot, isSettled_property hincluded hbody hs]
    | directive =>
      rw [hkind] at h
      cases body with
      | none => cases h; rfl
      | some b => exact hbody b rfl nodes h
    | other =>
      rw [hkind] at h
      cases body with
      | none => cases h; rfl
      | some b => exact hbody b rfl nodes h

mutual

/-- The nodes of a statement have the outlines of the statement. The proof follows the statement
tree, as the walk does. -/
theorem outline_statement (hincluded : Outlined includer included) :
    ∀ (n : Node) {nodes : List Shape}, (site.statement includer n).result = .ok nodes →
      nodes.map Shape.outline = site.outlines included n
  | .conditional _ _ branches extent, nodes, h => by
    rw [result_conditional] at h
    obtain ⟨inner, hinner, rfl⟩ := Walk.eq_of_map_ok h
    have hbranches := outline_branches hincluded branches hinner
    rw [outlines, ← hbranches]
    split
    · rw [List.map_map]
      congr 1
      funext s
      exact s.outline_marked
    · rfl
  | .block callee params body _, nodes, h => by
    rw [statement] at h
    rw [outlines]
    refine outline_call hincluded ?_ h
    rintro b hb inner hinner
    cases hb
    exact outline_statements hincluded body hinner
  | .call c, nodes, h => by
    rw [statement] at h
    rw [outlines]
    refine outline_call hincluded ?_ h
    rintro b hb
    cases hb
  | .expression parts _, nodes, h => by
    rw [statement] at h
    rw [outlines]
    exact outline_parts hincluded parts h
  | .name .., nodes, h => by cases h; rfl
  | .literal .., nodes, h => by cases h; rfl
  | .hash .., nodes, h => by cases h; rfl
  | .array .., nodes, h => by cases h; rfl
  | .alien _, nodes, h => by cases h; rfl

theorem outline_statements (hincluded : Outlined includer included) :
    ∀ (body : List Node) {members nodes : List Shape},
      (site.statements includer members body).result = .ok nodes →
      nodes.map Shape.outline = site.bodyOutlines included (members.map Shape.outline) body
  | [], members, nodes, h => by cases h; rfl
  | n :: rest, members, nodes, h => by
    rw [result_statements_cons] at h
    obtain ⟨inner, hinner, hrest⟩ := Walk.eq_of_bind_ok h
    rw [bodyOutlines, outline_statements hincluded rest hrest, Shape.outline_addMembers,
      outline_statement hincluded n hinner]

theorem outline_branches (hincluded : Outlined includer included) :
    ∀ (branches : List (List Node)) {nodes : List Shape},
      (site.branches includer branches).result = .ok nodes →
      nodes.map Shape.outline = site.branchOutlines included branches
  | [], nodes, h => by cases h; rfl
  | body :: rest, nodes, h => by
    rw [result_branches_cons] at h
    obtain ⟨inner, hinner, hmap⟩ := Walk.eq_of_bind_ok h
    obtain ⟨more, hmore, rfl⟩ := Walk.eq_of_map_ok hmap
    rw [branchOutlines, List.map_append, outline_branches hincluded rest hmore,
      outline_statements hincluded body hinner]
    rfl

theorem outline_parts (hincluded : Outlined includer included) :
    ∀ (parts : List Node) {nodes : List Shape},
      (site.parts includer parts).result = .ok nodes →
      nodes.map Shape.outline = site.partOutlines included parts
  | [], nodes, h => by cases h; rfl
  | n :: rest, nodes, h => by
    rw [result_parts_cons] at h
    obtain ⟨inner, hinner, hmap⟩ := Walk.eq_of_bind_ok h
    obtain ⟨more, hmore, rfl⟩ := Walk.eq_of_map_ok hmap
    have hfirst := @outline_statement hincluded n inner
    have hrest := outline_parts hincluded rest hmore
    rw [List.map_append, hrest]
    cases n with
    | block callee params body extent =>
      rw [hfirst hinner]
      simp only [partOutlines]
    | conditional keyword condition branches extent =>
      rw [hfirst hinner]
      simp only [partOutlines]
    | _ =>
      cases hinner
      simp only [partOutlines, List.map_nil, List.nil_append]

end

end Site
end ViewSchema
