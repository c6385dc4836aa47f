import Mathlib.Logic.Relation
import ViewSchema.Proofs.Shape.Everywhere
import ViewSchema.Shape.Store

/-!
Shapes put together step by step: nodes are made without children, and get these by being added to,
by taking items or by being resolved. A whole tree that is made at once is made in such steps too.
In every store that comes about in this way children are nodes of the store and the named members of
an object have distinct names, so objects have members of distinct names wherever they stand in a
shape.
-/

namespace ViewSchema.Store

/-- One step of putting shapes together. A reference that is made is unresolved or has no nodes. -/
inductive Step (s : Store) : Store → Prop where
  | make (c : Cell) (hnew : c.form.children = []) : Step s (s.make c).2
  | add (r : Ref) {node : Ref} (hnode : node < s.cells.length) : Step s (s.add r node)
  | addItem (r : Ref) {node : Ref} (hnode : node < s.cells.length) : Step s (s.addItem r node)
  | splice (r : Ref) {nodes : List Ref} (hnodes : ∀ node ∈ nodes, node < s.cells.length) :
      Step s (s.splice r nodes)
  | withOrigins (first : Ref) : Step s (s.withOrigins first)

/-- One store comes from another by putting shapes together. -/
def Steps : Store → Store → Prop := Relation.ReflTransGen Step

/-- The store holds what was put together from nothing. -/
def Constructed (s : Store) : Prop := Steps {} s

theorem length_make (s : Store) (c : Cell) : (s.make c).2.cells.length = s.cells.length + 1 :=
  List.length_append

theorem cell_make (s : Store) (c : Cell) (r : Ref) :
    (s.make c).2.cell r = if r = s.cells.length then c else s.cell r := by
  by_cases hr : r = s.cells.length
  · simp [cell, make, hr]
  · rw [if_neg hr]
    rcases Nat.lt_or_gt_of_ne hr with hold | hbeyond
    · simp [cell, make, List.getElem?_append_left hold]
    · have hafter : (s.cells ++ [c]).length ≤ r := by
        rw [List.length_append, List.length_singleton]
        exact hbeyond
      simp [cell, make, List.getElem?_eq_none hafter, List.getElem?_eq_none (Nat.le_of_lt hbeyond)]

theorem cell_update (s : Store) (r q : Ref) (change : Cell → Cell) :
    (s.update r change).cell q = s.cell q ∨
      q = r ∧ (s.update r change).cell q = change (s.cell q) := by
  by_cases hq : r = q
  · subst hq
    cases hfound : s.cells[r]? with
    | none => simp [cell, update, hfound]
    | some c => simp [cell, update, hfound]
  · simp [cell, update, hq]

theorem length_update (s : Store) (r : Ref) (change : Cell → Cell) :
    (s.update r change).cells.length = s.cells.length :=
  List.length_modify change s.cells r

theorem name_update (s : Store) (r : Ref) (change : Cell → Cell)
    (hname : ∀ c, (change c).facts.name = c.facts.name) : (s.update r change).name = s.name := by
  funext q
  rcases s.cell_update r q change with hkept | ⟨-, hchanged⟩
  · rw [name, hkept, name]
  · rw [name, hchanged, hname, name]

/-- The place of a node in a member list is decided by the names alone, as that of a member. -/
theorem map_placed (s : Store) (node : Ref) (refs : List Ref) :
    ((s.placed node refs).map fun r => Shape.bare (s.cell r).facts) =
      Shape.addMember (refs.map fun r => Shape.bare (s.cell r).facts)
        (.bare (s.cell node).facts) := by
  induction refs with
  | nil => rfl
  | cons first rest ih =>
    have hnames : ∀ r, (Shape.bare (s.cell r).facts).name = s.name r := fun _ => rfl
    simp only [placed, List.map_cons, Shape.addMember, hnames]
    split
    · rfl
    · rw [List.map_cons, ih]

theorem mem_placed {s : Store} {node child : Ref} {refs : List Ref}
    (h : child ∈ s.placed node refs) : child ∈ refs ∨ child = node := by
  induction refs with
  | nil => exact .inr (List.mem_singleton.mp h)
  | cons first rest ih =>
    rw [placed] at h
    split at h
    · rcases List.mem_cons.mp h with rfl | hrest
      · exact .inr rfl
      · exact .inl (List.mem_cons_of_mem _ hrest)
    · rcases List.mem_cons.mp h with rfl | hrest
      · exact .inl List.mem_cons_self
      · exact (ih hrest).imp_left (List.mem_cons_of_mem _)

/-- Adding a node leaves the names of an object distinct. -/
theorem distinct_placed {s : Store} {refs : List Ref} (h : (refs.filterMap s.name).Nodup)
    (node : Ref) : ((s.placed node refs).filterMap s.name).Nodup := by
  have hview : ∀ refs : List Ref, refs.filterMap s.name =
      (refs.map fun r => Shape.bare (s.cell r).facts).filterMap Shape.name := by
    intro refs
    rw [List.filterMap_map]
    rfl
  rw [hview] at h
  rw [hview, map_placed]
  exact Shape.distinct_addMember h (.bare (s.cell node).facts)

/-- What a form may hold in a store: children that the store knows, and as members of an object
such as have distinct names. -/
structure Holds (s : Store) (form : Form) : Prop where
  known : ∀ child ∈ form.children, child < s.cells.length
  distinct : ∀ members, form = .object members → (members.filterMap s.name).Nodup

/-- Every form in the store is one that it may hold. -/
def Consistent (s : Store) : Prop := ∀ r, s.Holds (s.cell r).form

theorem Holds.childless {s : Store} {form : Form} (h : form.children = []) : s.Holds form where
  known child hchild := by
    rw [h] at hchild
    cases hchild
  distinct members hform := by
    have hnone : members = [] := by rw [← h, hform, Form.children]
    rw [hnone]
    exact List.nodup_nil

/-- What a store may hold depends on its size and on the names in it. -/
theorem Holds.of_name {s t : Store} {form : Form} (h : s.Holds form)
    (hlength : t.cells.length = s.cells.length) (hname : t.name = s.name) : t.Holds form where
  known child hchild := hlength ▸ h.known child hchild
  distinct members hform := hname ▸ h.distinct members hform

/-- A change of one node that keeps its name keeps the store consistent when the store may hold
the new form. -/
theorem Consistent.update {s : Store} (h : s.Consistent) {r : Ref} {change : Cell → Cell}
    (hname : ∀ c, (change c).facts.name = c.facts.name)
    (hform : s.Holds (change (s.cell r)).form) : (s.update r change).Consistent := by
  intro q
  apply Holds.of_name _ (s.length_update r change) (s.name_update r change hname)
  rcases s.cell_update r q change with hkept | ⟨rfl, hchanged⟩
  · rw [hkept]
    exact h q
  · rw [hchanged]
    exact hform

theorem Holds.setParent {s : Store} {form : Form} (h : s.Holds form) (node : Ref)
    (parent : Option Ref) : (s.setParent node parent).Holds form :=
  h.of_name (s.length_update node _) (s.name_update node _ fun _ => rfl)

theorem Consistent.setParent {s : Store} (h : s.Consistent) (node : Ref) (parent : Option Ref) :
    (s.setParent node parent).Consistent :=
  h.update (fun _ => rfl) (h node)

theorem Consistent.make {s : Store} (h : s.Consistent) {c : Cell} (hnew : c.form.children = []) :
    (s.make c).2.Consistent := by
  intro r
  by_cases hr : r = s.cells.length
  · rw [cell_make, if_pos hr]
    exact .childless hnew
  · rw [cell_make, if_neg hr]
    refine ⟨fun child hchild => ?_, fun members hform => ?_⟩
    · rw [length_make]
      exact Nat.lt_succ_of_lt ((h r).known child hchild)
    · -- The members were known before, so none of them is the new node.
      have hnames : members.filterMap (s.make c).2.name = members.filterMap s.name := by
        apply List.filterMap_congr
        intro child hchild
        have hknown : child < s.cells.length := (h r).known child (by rwa [hform])
        rw [name, cell_make, if_neg (Nat.ne_of_lt hknown), name]
      rw [hnames]
      exact (h r).distinct members hform

theorem Consistent.add {s : Store} (h : s.Consistent) (r : Ref) {node : Ref}
    (hnode : node < s.cells.length) : (s.add r node).Consistent := by
  unfold Store.add
  split
  · rename_i members hform
    refine (h.setParent node (some r)).update (fun _ => rfl) ?_
    refine Holds.setParent ⟨fun child hchild => ?_, fun placed hplaced => ?_⟩ node (some r)
    · rcases mem_placed hchild with hold | rfl
      · exact (h r).known child (by rwa [hform])
      · exact hnode
    · obtain rfl := Form.object.inj hplaced
      exact distinct_placed ((h r).distinct members hform) node
  · exact h

theorem Consistent.addItem {s : Store} (h : s.Consistent) (r : Ref) {node : Ref}
    (hnode : node < s.cells.length) : (s.addItem r node).Consistent := by
  unfold Store.addItem
  split
  · rename_i isRoot items hform
    refine (h.setParent node (some r)).update (fun _ => rfl) ?_
    refine Holds.setParent ⟨fun child hchild => ?_, fun _ hobject => by cases hobject⟩ node (some r)
    rcases List.mem_append.mp hchild with hold | hlast
    · exact (h r).known child (by rwa [hform])
    · rwa [List.mem_singleton.mp hlast]
  · exact h

theorem Consistent.splice {s : Store} (h : s.Consistent) (r : Ref) {nodes : List Ref}
    (hnodes : ∀ node ∈ nodes, node < s.cells.length) : (s.splice r nodes).Consistent := by
  refine h.update (fun c => by split <;> rfl) ?_
  split
  · exact ⟨hnodes, fun _ hobject => by cases hobject⟩
  · exact h r

theorem Consistent.withOrigins {s : Store} (h : s.Consistent) (first : Ref) :
    (s.withOrigins first).Consistent := by
  have hcell : ∀ r, ((s.withOrigins first).cell r).form = (s.cell r).form ∧
      (s.withOrigins first).name r = s.name r := by
    intro r
    simp only [name, cell, Store.withOrigins, List.getElem?_mapIdx]
    cases s.cells[r]? with
    | none => exact ⟨rfl, rfl⟩
    | some c =>
      simp only [Option.map_some, Option.getD_some]
      split <;> exact ⟨rfl, rfl⟩
  intro r
  rw [(hcell r).1]
  exact (h r).of_name (by simp [Store.withOrigins]) (funext fun r => (hcell r).2)

theorem Step.consistent {s t : Store} (h : Step s t) (hs : s.Consistent) : t.Consistent := by
  cases h with
  | make c hnew => exact hs.make hnew
  | add r hnode => exact hs.add r hnode
  | addItem r hnode => exact hs.addItem r hnode
  | splice r hnodes => exact hs.splice r hnodes
  | withOrigins first => exact hs.withOrigins first

theorem Steps.consistent {s t : Store} (h : Steps s t) (hs : s.Consistent) : t.Consistent := by
  induction h with
  | refl => exact hs
  | tail _ hstep ih => exact hstep.consistent ih

theorem Constructed.consistent {s : Store} (h : s.Constructed) : s.Consistent :=
  Steps.consistent h fun _ => .childless rfl

/-! Trees that are made at once. -/

theorem Step.length_le {s t : Store} (h : Step s t) : s.cells.length ≤ t.cells.length := by
  cases h with
  | make c _ =>
    rw [length_make]
    exact Nat.le_succ _
  | add r _ =>
    unfold Store.add
    split <;> simp [Store.setParent, length_update]
  | addItem r _ =>
    unfold Store.addItem
    split <;> simp [Store.setParent, length_update]
  | splice r _ => simp [Store.splice, length_update]
  | withOrigins first => simp [Store.withOrigins]

theorem Steps.length_le {s t : Store} (h : Steps s t) : s.cells.length ≤ t.cells.length := by
  induction h with
  | refl => exact Nat.le_refl _
  | tail _ hstep ih => exact Nat.le_trans ih hstep.length_le

/-- Nodes that the store knows can be put to use one after the other. -/
theorem steps_foldl {use : Store → Ref → Store}
    (huse : ∀ s node, node < s.cells.length → Step s (use s node)) (s : Store) {nodes : List Ref}
    (hnodes : ∀ node ∈ nodes, node < s.cells.length) : Steps s (nodes.foldl use s) := by
  induction nodes generalizing s with
  | nil => exact .refl
  | cons node rest ih =>
    have hfirst : Step s (use s node) := huse s node (hnodes node List.mem_cons_self)
    refine .head hfirst (ih (use s node) fun later hlater => ?_)
    exact Nat.lt_of_lt_of_le (hnodes later (List.mem_cons_of_mem _ hlater)) hfirst.length_le

theorem steps_make (s : Store) {c : Cell} (hnew : c.form.children = []) :
    Steps s (s.make c).2 ∧ (s.make c).1 < (s.make c).2.cells.length := by
  refine ⟨.single (.make c hnew), ?_⟩
  rw [length_make]
  exact Nat.lt_succ_self _

/-- A node is made without children and then known nodes are put to use on it. -/
theorem steps_make_foldl {use : Ref → Store → Ref → Store}
    (huse : ∀ r s node, node < s.cells.length → Step s (use r s node)) (s : Store) {c : Cell}
    (hnew : c.form.children = []) {nodes : List Ref}
    (hnodes : ∀ node ∈ nodes, node < s.cells.length) :
    Steps s (nodes.foldl (use (s.make c).1) (s.make c).2) ∧
      (s.make c).1 < (nodes.foldl (use (s.make c).1) (s.make c).2).cells.length := by
  obtain ⟨hmake, htop⟩ := s.steps_make hnew
  have huses := steps_foldl (huse (s.make c).1) (s.make c).2 fun node hnode =>
    Nat.lt_of_lt_of_le (hnodes node hnode) hmake.length_le
  exact ⟨hmake.trans huses, Nat.lt_of_lt_of_le htop huses.length_le⟩

/-- A resolved reference is made unresolved and then resolved. -/
theorem steps_make_resolved (s : Store) (facts : Facts) (template : String) (bindings : Record)
    {nodes : List Ref} (hnodes : ∀ node ∈ nodes, node < s.cells.length) :
    Steps s (s.make { facts, form := .reference template bindings (some nodes) }).2 ∧
      (s.make { facts, form := .reference template bindings (some nodes) }).1 <
        (s.make { facts, form := .reference template bindings (some nodes) }).2.cells.length := by
  obtain ⟨hmake, htop⟩ :=
    s.steps_make (c := { facts, form := .reference template bindings none }) rfl
  have hresolved :
      (s.make { facts, form := .reference template bindings none }).2.splice s.cells.length nodes =
        (s.make { facts, form := .reference template bindings (some nodes) }).2 := by
    simp [splice, update, make, List.modify_eq_take_cons_drop]
  refine ⟨hmake.tail (hresolved ▸ .splice s.cells.length fun node hnode => ?_), ?_⟩
  · exact Nat.lt_of_lt_of_le (hnodes node hnode) hmake.length_le
  · rwa [length_make] at htop ⊢

mutual

/-- A tree that is made at once is put together step by step, and its top node is in the store. -/
theorem steps_build (s : Store) : ∀ shape : Shape,
    Steps s (s.build shape).2 ∧ (s.build shape).1 < (s.build shape).2.cells.length
  | .simple _ => s.steps_make rfl
  | .bare _ => s.steps_make rfl
  | .object f members => by
    obtain ⟨hmembers, hknown⟩ := s.steps_buildAll members
    obtain ⟨hobject, htop⟩ := steps_make_foldl (fun r _ _ h => .add r h) (s.buildAll members).2
      (c := { facts := startingFacts f, form := .object [] }) rfl hknown
    exact ⟨hmembers.trans hobject, htop⟩
  | .array f isRoot items => by
    obtain ⟨hitems, hknown⟩ := s.steps_buildAll items
    obtain ⟨harray, htop⟩ := steps_make_foldl (fun r _ _ h => .addItem r h) (s.buildAll items).2
      (c := { facts := startingFacts f, form := .array isRoot [] }) rfl hknown
    exact ⟨hitems.trans harray, htop⟩
  | .reference f template bindings resolved nodes => by
    obtain ⟨hnodes, hknown⟩ := s.steps_buildAll nodes
    cases resolved with
    | false => exact s.steps_make rfl
    | true =>
      obtain ⟨hreference, htop⟩ := (s.buildAll nodes).2.steps_make_resolved { line := f.line }
        template bindings hknown
      exact ⟨hnodes.trans hreference, htop⟩

theorem steps_buildAll (s : Store) : ∀ shapes : List Shape,
    Steps s (s.buildAll shapes).2 ∧
      ∀ r ∈ (s.buildAll shapes).1, r < (s.buildAll shapes).2.cells.length
  | [] => ⟨.refl, by simp [buildAll]⟩
  | shape :: rest => by
    have hfirst := s.steps_build shape
    have hrest := (s.build shape).2.steps_buildAll rest
    refine ⟨hfirst.1.trans hrest.1, ?_⟩
    intro r hr
    rcases List.mem_cons.mp hr with rfl | hlater
    · exact Nat.lt_of_lt_of_le hfirst.2 hrest.1.length_le
    · exact hrest.2 r hlater

end

theorem steps_insert (s : Store) (shape : Shape) : Steps s (s.insert shape).2 :=
  (s.steps_build shape).1.tail (.withOrigins s.cells.length)

/-! What stands below a node. -/

theorem children_shapeWithin (s : Store) (steps : Nat) (r : Ref) :
    (s.shapeWithin (steps + 1) r).children = (s.children r).map (s.shapeWithin steps) := by
  cases hform : (s.cell r).form <;>
    simp [shapeWithin, children, hform, Form.children, Shape.children]

theorem name_shapeWithin (s : Store) (steps : Nat) (r : Ref) :
    (s.shapeWithin (steps + 1) r).name = s.name r := by
  cases hform : (s.cell r).form <;> simp [shapeWithin, name, hform, Shape.name, Shape.facts]

theorem form_of_shapeWithin {s : Store} {steps : Nat} {r : Ref} {f : Facts} {members : List Shape}
    (h : s.shapeWithin (steps + 1) r = .object f members) :
    ∃ refs, (s.cell r).form = .object refs ∧ members = refs.map (s.shapeWithin steps) := by
  rw [shapeWithin] at h
  cases hform : (s.cell r).form with
  | object refs =>
    simp only [hform, Shape.object.injEq] at h
    exact ⟨refs, rfl, h.2.symm⟩
  | _ => simp [hform] at h

/-- What is named among nodes seen from a number of steps away is named in the store. -/
theorem names_shapeWithin (s : Store) (steps : Nat) (refs : List Ref) :
    ((refs.map (s.shapeWithin steps)).filterMap Shape.name).Sublist (refs.filterMap s.name) := by
  rw [List.filterMap_map]
  cases steps with
  | zero =>
    have hnone : refs.filterMap (Shape.name ∘ s.shapeWithin 0) = [] :=
      List.filterMap_eq_nil_iff.mpr fun _ _ => rfl
    rw [hnone]
    exact List.nil_sublist _
  | succ steps =>
    have hnames : Shape.name ∘ s.shapeWithin (steps + 1) = s.name :=
      funext fun r => s.name_shapeWithin steps r
    rw [hnames]

end ViewSchema.Store

namespace ViewSchema

/-- As an object, the node has named members of distinct names. -/
def Shape.Distinct (s : Shape) : Prop :=
  ∀ f members, s = .object f members → (members.filterMap Shape.name).Nodup

/-- Every object in a shape that is seen in a consistent store has members of distinct names. The
induction is on the number of steps that lead down. -/
theorem Store.Consistent.everywhere_distinct {s : Store} (h : s.Consistent) (steps : Nat)
    (r : Ref) : (s.shapeWithin steps r).Everywhere Shape.Distinct := by
  induction steps generalizing r with
  | zero =>
    refine Shape.everywhere_iff.mpr ⟨fun f members hobject => ?_, fun child hchild => ?_⟩
    · cases hobject
    · cases hchild
  | succ steps ih =>
    refine Shape.everywhere_iff.mpr ⟨fun f members hobject => ?_, ?_⟩
    · obtain ⟨refs, hform, rfl⟩ := Store.form_of_shapeWithin hobject
      exact (s.names_shapeWithin steps refs).nodup ((h r).distinct refs hform)
    · rw [Store.children_shapeWithin, List.forall_mem_map]
      exact fun child _ => ih child

end ViewSchema
