import ViewSchema.Proofs.Shape.Constructed

/-!
Shapes that grow by what can be done with nodes: nodes are made empty, and each operation works on
one node. It adds a member or an item to it, resolves it, or marks it as conditional together with
everything below it. Whatever is done, a node whose note is conditional is conditional, and a
reference has a line and perhaps the mark, but no name and no note.
-/

namespace ViewSchema

/-- What a shape shows of a node: who its parent is does not count. -/
def Cell.look (c : Cell) : Facts × Form := (c.facts, c.form)

/-- Facts as references have them. -/
def Facts.Bare (f : Facts) : Prop := f = { line := f.line, conditional := f.conditional }

namespace Store

/-- The node stands below another one, or is that node. -/
def Below (s : Store) : Ref → Ref → Prop :=
  Relation.ReflTransGen fun parent child => child ∈ s.children parent

/-- The nodes as they are made. A reference starts unresolved, without a name and a note. -/
inductive Fresh : Cell → Prop where
  | simple (f : Facts) : Fresh { facts := startingFacts f, form := .simple }
  | bare (f : Facts) : Fresh { facts := startingFacts f, form := .bare }
  | object (f : Facts) : Fresh { facts := startingFacts f, form := .object [] }
  | array (f : Facts) (isRoot : Bool) : Fresh { facts := startingFacts f, form := .array isRoot [] }
  | reference (line : Option Int) (template : String) (bindings : Record) :
      Fresh { facts := { line }, form := .reference template bindings none }

/-- An operation on a node, with the nodes that it puts below. -/
inductive Operation (s : Store) (q : Ref) : List Ref → Store → Prop where
  | add (node : Ref) : Operation s q [node] (s.add q node)
  | addItem (node : Ref) : Operation s q [node] (s.addItem q node)
  | splice (nodes : List Ref) : Operation s q nodes (s.splice q nodes)
  | mark : Operation s q [] (s.markConditional q)

/-- One step of growth: a node is made, or an operation puts nodes of the store below one. -/
inductive Change (s : Store) : Store → Prop where
  | make {c : Cell} (hfresh : Fresh c) : Change s (s.make c).2
  | operation {q : Ref} {nodes : List Ref} {t : Store} (hop : s.Operation q nodes t)
      (hnodes : ∀ node ∈ nodes, node < s.cells.length) : Change s t

/-- The store holds what grew from nothing. -/
def Grown (s : Store) : Prop := Relation.ReflTransGen Change {} s

/-! What an operation does to each node. -/

theorem mem_below {s : Store} {steps : Nat} {q p : Ref} (h : p ∈ s.below steps q) :
    s.Below q p := by
  induction steps generalizing q with
  | zero => cases h
  | succ steps ih =>
    rcases List.mem_cons.mp h with rfl | hdeeper
    · exact .refl
    · obtain ⟨child, hchild, hbelow⟩ := List.mem_flatMap.mp hdeeper
      exact .head hchild (ih hbelow)

/-- Marking nodes one after the other leaves each as it was or makes it conditional. -/
theorem cell_foldl_mark (refs : List Ref) (s : Store) (p : Ref) :
    let t := refs.foldl (fun s node => s.updateFacts node fun f => { f with conditional := true }) s
    t.cell p = s.cell p ∨
      p ∈ refs ∧ t.cell p = { s.cell p with facts.conditional := true } := by
  induction refs generalizing s with
  | nil => exact .inl rfl
  | cons first rest ih =>
    rw [List.foldl_cons]
    rcases s.cell_update first p fun c => { c with facts.conditional := true } with
      hkept | ⟨rfl, hmarked⟩
    · refine (ih (s.updateFacts first _)).imp (·.trans hkept) fun ⟨hlater, hcell⟩ => ?_
      exact ⟨List.mem_cons_of_mem _ hlater, hcell.trans (by rw [updateFacts, hkept])⟩
    · refine .inr ⟨List.mem_cons_self, ?_⟩
      rcases ih (s.updateFacts p _) with hcell | ⟨-, hcell⟩
      · exact hcell.trans hmarked
      · exact hcell.trans (by rw [updateFacts, hmarked])

theorem length_foldl_mark (refs : List Ref) (s : Store) :
    (refs.foldl (fun s node => s.updateFacts node fun f => { f with conditional := true })
      s).cells.length = s.cells.length := by
  induction refs generalizing s with
  | nil => rfl
  | cons first rest ih => rw [List.foldl_cons, ih, updateFacts, length_update]

theorem cell_markConditional (s : Store) (q p : Ref) :
    (s.markConditional q).cell p = s.cell p ∨
      s.Below q p ∧ (s.markConditional q).cell p = { s.cell p with facts.conditional := true } :=
  (cell_foldl_mark (s.allBelow q) s p).imp_right fun ⟨hbelow, hcell⟩ => ⟨mem_below hbelow, hcell⟩

theorem look_setParent (s : Store) (node : Ref) (parent : Option Ref) (p : Ref) :
    ((s.setParent node parent).cell p).look = (s.cell p).look := by
  rcases s.cell_update node p fun c => { c with parent } with hkept | ⟨-, hchanged⟩
  · exact congrArg Cell.look hkept
  · exact (congrArg Cell.look hchanged).trans rfl

/-- Resolving keeps each node as it was, except for nodes put below a reference. -/
theorem cell_splice (s : Store) (q : Ref) (nodes : List Ref) (p : Ref) :
    (s.splice q nodes).cell p = s.cell p ∨
      p = q ∧ ∃ template bindings refs, (s.cell p).form = .reference template bindings refs ∧
        (s.splice q nodes).cell p =
          { s.cell p with form := .reference template bindings (some nodes) } := by
  refine (s.cell_update q p _).elim .inl fun ⟨hp, hchanged⟩ => ?_
  cases hform : (s.cell p).form with
  | reference template bindings refs =>
    exact .inr ⟨hp, template, bindings, refs, rfl, hchanged.trans (by rw [hform])⟩
  | _ => exact .inl (hchanged.trans (by rw [hform]))

namespace Operation

variable {s t : Store} {q : Ref} {nodes : List Ref}

theorem length_eq (h : s.Operation q nodes t) : t.cells.length = s.cells.length := by
  cases h with
  | add node =>
    unfold Store.add
    split <;> simp [Store.setParent, length_update]
  | addItem node =>
    unfold Store.addItem
    split <;> simp [Store.setParent, length_update]
  | splice nodes => exact length_update s q _
  | mark => exact length_foldl_mark _ s

/-- What the form of a node may become when nodes are put below it: a reference stays what it was,
and everything below was there or is one of the nodes. -/
structure Widened (nodes : List Ref) (before after : Form) : Prop where
  children : ∀ child ∈ after.children, child ∈ before.children ∨ child ∈ nodes
  reference : ∀ template bindings refs, after = .reference template bindings refs →
    ∃ refs', before = .reference template bindings refs'

/-- An operation marks what stands below its node, or puts nodes below it and changes no facts. -/
theorem cell_cases (h : s.Operation q nodes t) (p : Ref) :
    (t.cell p).look = (s.cell p).look ∨
      (s.Below q p ∧ (t.cell p).look =
        ({ (s.cell p).facts with conditional := true }, (s.cell p).form)) ∨
      p = q ∧ (t.cell p).facts = (s.cell p).facts ∧
        Widened nodes (s.cell p).form (t.cell p).form := by
  cases h with
  | mark =>
    rcases s.cell_markConditional q p with hkept | ⟨hbelow, hmarked⟩
    · exact .inl (congrArg Cell.look hkept)
    · exact .inr (.inl ⟨hbelow, congrArg Cell.look hmarked⟩)
  | add node =>
    unfold Store.add
    split
    · rename_i members hform
      rcases (s.setParent node (some q)).cell_update q p
        fun c => { c with form := .object (s.placed node members) } with hkept | ⟨rfl, hchanged⟩
      · exact .inl ((congrArg Cell.look hkept).trans (s.look_setParent node _ p))
      · refine .inr (.inr ⟨rfl, ?_, ?_⟩)
        · rw [hchanged]
          exact congrArg Prod.fst (s.look_setParent node _ p)
        · rw [hchanged, hform]
          refine ⟨fun child hchild => ?_, fun _ _ _ hreference => by cases hreference⟩
          exact (mem_placed hchild).imp_right List.mem_singleton.mpr
    · exact .inl rfl
  | addItem node =>
    unfold Store.addItem
    split
    · rename_i isRoot items hform
      rcases (s.setParent node (some q)).cell_update q p
        fun c => { c with form := .array isRoot (items ++ [node]) } with hkept | ⟨rfl, hchanged⟩
      · exact .inl ((congrArg Cell.look hkept).trans (s.look_setParent node _ p))
      · refine .inr (.inr ⟨rfl, ?_, ?_⟩)
        · rw [hchanged]
          exact congrArg Prod.fst (s.look_setParent node _ p)
        · rw [hchanged, hform]
          exact ⟨fun child hchild => List.mem_append.mp hchild,
            fun _ _ _ hreference => by cases hreference⟩
    · exact .inl rfl
  | splice nodes =>
    rcases s.cell_splice q nodes p with hkept | ⟨rfl, template, bindings, refs, hform, hcell⟩
    · exact .inl (congrArg Cell.look hkept)
    · rw [hcell, hform]
      exact .inr (.inr ⟨rfl, rfl, fun child hchild => .inr hchild,
        fun _ _ _ hreference => by cases hreference; exact ⟨refs, rfl⟩⟩)

/-- Only nodes that the operation puts below its node come to stand below another node. -/
theorem children_subset (h : s.Operation q nodes t) (p : Ref) :
    ∀ child ∈ t.children p, child ∈ s.children p ∨ p = q ∧ child ∈ nodes := by
  intro child hchild
  rcases h.cell_cases p with hkept | ⟨-, hmarked⟩ | ⟨rfl, -, hwidened⟩
  · have hform : (t.cell p).form = (s.cell p).form := congrArg Prod.snd hkept
    rw [children, hform] at hchild
    exact .inl hchild
  · have hform : (t.cell p).form = (s.cell p).form := congrArg Prod.snd hmarked
    rw [children, hform] at hchild
    exact .inl hchild
  · exact (hwidened.children child hchild).imp_right (⟨rfl, ·⟩)

theorem consistent (h : s.Operation q nodes t) (hs : s.Consistent)
    (hnodes : ∀ node ∈ nodes, node < s.cells.length) : t.Consistent := by
  cases h with
  | add node => exact hs.add q (hnodes node List.mem_cons_self)
  | addItem node => exact hs.addItem q (hnodes node List.mem_cons_self)
  | splice nodes => exact hs.splice q hnodes
  | mark =>
    have hcell : ∀ p, ((s.markConditional q).cell p).form = (s.cell p).form ∧
        (s.markConditional q).name p = s.name p := by
      intro p
      rw [name, name]
      rcases s.cell_markConditional q p with hkept | ⟨-, hmarked⟩
      · rw [hkept]
        exact ⟨rfl, rfl⟩
      · rw [hmarked]
        exact ⟨rfl, rfl⟩
    intro p
    rw [(hcell p).1]
    exact (hs p).of_name (length_foldl_mark _ s) (funext fun p => (hcell p).2)

end Operation

/-- A node as it comes about: conditional when its note is, and bare as a reference. -/
structure Proper (c : Cell) : Prop where
  conditional : c.facts.note.conditional = true → c.facts.conditional = true
  reference : ∀ template bindings refs, c.form = .reference template bindings refs → c.facts.Bare

theorem Fresh.childless {c : Cell} (h : Fresh c) : c.form.children = [] := by
  cases h <;> rfl

theorem startingFacts_conditional {f : Facts} (h : (startingFacts f).note.conditional = true) :
    (startingFacts f).conditional = true := by
  rw [startingFacts] at h ⊢
  rw [h]
  exact Bool.or_true _

theorem Fresh.proper {c : Cell} (h : Fresh c) : Proper c := by
  cases h with
  | reference line template bindings =>
    exact ⟨fun hnote => Bool.noConfusion hnote, fun _ _ _ _ => rfl⟩
  | simple f => exact ⟨startingFacts_conditional, fun _ _ _ h => by cases h⟩
  | bare f => exact ⟨startingFacts_conditional, fun _ _ _ h => by cases h⟩
  | object f => exact ⟨startingFacts_conditional, fun _ _ _ h => by cases h⟩
  | array f isRoot => exact ⟨startingFacts_conditional, fun _ _ _ h => by cases h⟩

/-- Neither new nodes below it nor the mark make a node improper. -/
theorem Proper.of_cases {nodes : List Ref} {c d : Cell} (h : Proper c)
    (hcases : d.look = c.look ∨
      d.look = ({ c.facts with conditional := true }, c.form) ∨
      d.facts = c.facts ∧ Operation.Widened nodes c.form d.form) : Proper d := by
  obtain ⟨facts, form, parent⟩ := d
  rcases hcases with hkept | hmarked | ⟨hfacts, hwidened⟩
  · obtain ⟨rfl, rfl⟩ := Prod.mk.inj hkept
    exact ⟨h.conditional, h.reference⟩
  · obtain ⟨rfl, rfl⟩ := Prod.mk.inj hmarked
    refine ⟨fun _ => rfl, fun template bindings refs hform => ?_⟩
    have hbare : c.facts.Bare := h.reference template bindings refs hform
    rw [Facts.Bare] at hbare ⊢
    rw [hbare]
  · obtain rfl : facts = c.facts := hfacts
    refine ⟨h.conditional, fun template bindings refs hform => ?_⟩
    obtain ⟨refs', hbefore⟩ := hwidened.reference template bindings refs hform
    exact h.reference template bindings refs' hbefore

theorem Operation.proper {s t : Store} {q : Ref} {nodes : List Ref} (h : s.Operation q nodes t)
    (hs : ∀ p, Proper (s.cell p)) (p : Ref) : Proper (t.cell p) :=
  (hs p).of_cases ((h.cell_cases p).imp_right (Or.imp And.right And.right))

/-- Adding several nodes is adding them one after the other. -/
theorem Grown.extend {s : Store} (h : s.Grown) (r : Ref) {nodes : List Ref}
    (hnodes : ∀ node ∈ nodes, node < s.cells.length) : (s.extend r nodes).Grown := by
  induction nodes generalizing s with
  | nil => exact h
  | cons node rest ih =>
    have hlength : (s.add r node).cells.length = s.cells.length := (Operation.add node).length_eq
    obtain ⟨hnode, hrest⟩ := List.forall_mem_cons.mp hnodes
    refine ih (s := s.add r node) (h.tail (.operation (.add node) ?_)) ?_
    · exact List.forall_mem_singleton.mpr hnode
    · rwa [hlength]

theorem Change.consistent {s t : Store} (h : s.Change t) (hs : s.Consistent) : t.Consistent := by
  cases h with
  | make hfresh => exact hs.make hfresh.childless
  | operation hop hnodes => exact hop.consistent hs hnodes

theorem Change.proper {s t : Store} (h : s.Change t) (hs : ∀ p, Proper (s.cell p)) (p : Ref) :
    Proper (t.cell p) := by
  cases h with
  | make hfresh =>
    rw [cell_make]
    split
    · exact hfresh.proper
    · exact hs p
  | operation hop _ => exact hop.proper hs p

/-- A store that grew is consistent and its nodes are proper, by induction on how it grew. -/
theorem Grown.invariant {s : Store} (h : s.Grown) : s.Consistent ∧ ∀ p, Proper (s.cell p) := by
  induction h with
  | refl =>
    refine ⟨fun _ => .childless rfl, fun p => ⟨fun hnote => ?_, fun _ _ _ hform => ?_⟩⟩
    · exact Bool.noConfusion hnote
    · exact Form.noConfusion hform
  | tail _ hchange ih => exact ⟨hchange.consistent ih.1, hchange.proper ih.2⟩

end Store
end ViewSchema
