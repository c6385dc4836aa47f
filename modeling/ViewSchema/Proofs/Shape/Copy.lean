import ViewSchema.Proofs.Shape.Apart

/-!
Copies of nodes. A copy is put together anew from what is seen of the node, so it has the same
shape, no parent, and nothing in common with any node there was. Only a mark is lost: a reference is
made anew from its template, bindings and line, and is not conditional in the copy.
-/

namespace ViewSchema

namespace Shape

mutual

/-- The shape as a copy has it: references are not conditional. -/
def copied : Shape → Shape
  | .simple f => .simple f
  | .object f members => .object f (copiedList members)
  | .array f isRoot items => .array f isRoot (copiedList items)
  | .reference f template bindings resolved nodes =>
    .reference { f with conditional := false } template bindings resolved (copiedList nodes)
  | .bare f => .bare f

def copiedList : List Shape → List Shape
  | [] => []
  | s :: rest => copied s :: copiedList rest

end

/-- The node is a reference that is conditional. -/
def isMarkedReference : Shape → Bool
  | .reference f .. => f.conditional
  | _ => false

theorem copiedList_eq_map (nodes : List Shape) : copiedList nodes = nodes.map copied := by
  induction nodes with
  | nil => rfl
  | cons s rest ih => rw [copiedList, ih, List.map_cons]

theorem name_copied (s : Shape) : s.copied.name = s.name := by
  cases s <;> rw [copied] <;> rfl

mutual

/-- A copy has the shape of the node just when no reference in it is conditional. -/
theorem copied_eq_self_iff : ∀ s : Shape,
    s.copied = s ↔ ∀ n ∈ s.walk, n.isMarkedReference = false
  | .simple f => by simp [copied, walk, isMarkedReference]
  | .bare f => by simp [copied, walk, isMarkedReference]
  | .object f members => by
    simp [copied, walk, isMarkedReference, copiedList_eq_self_iff members]
  | .array f isRoot items => by
    simp [copied, walk, isMarkedReference, copiedList_eq_self_iff items]
  | .reference f template bindings resolved nodes => by
    have hfacts : { f with conditional := false } = f ↔ f.conditional = false :=
      ⟨fun h => by rw [← h], fun h => by rw [← h]⟩
    simp [copied, walk, isMarkedReference, copiedList_eq_self_iff nodes, hfacts]

theorem copiedList_eq_self_iff : ∀ nodes : List Shape,
    copiedList nodes = nodes ↔ ∀ n ∈ walkList nodes, n.isMarkedReference = false
  | [] => by simp [copiedList, walkList]
  | s :: rest => by
    rw [copiedList, walkList, List.forall_mem_append, List.cons.injEq, copied_eq_self_iff s,
      copiedList_eq_self_iff rest]

end

/-- What a store that grew shows of a node. -/
structure Regular (s : Shape) : Prop where
  distinct : s.Distinct
  conditional : s.note.conditional = true → s.facts.conditional = true
  reference : ∀ f template bindings resolved nodes,
    s = .reference f template bindings resolved nodes → f.Bare ∧ (resolved = false → nodes = [])

end Shape

namespace Store

theorem Grown.everywhere_regular {s : Store} (h : s.Grown) (steps : Nat) (r : Ref) :
    (s.shapeWithin steps r).Everywhere Shape.Regular := by
  obtain ⟨hconsistent, hproper⟩ := h.invariant
  have hseen : (s.shapeWithin steps r).Everywhere fun n =>
      (n.note.conditional = true → n.facts.conditional = true) ∧
        ∀ f template bindings resolved nodes, n = .reference f template bindings resolved nodes →
          f.Bare ∧ (resolved = false → nodes = []) := by
    induction steps generalizing r with
    | zero =>
      refine Shape.everywhere_iff.mpr ⟨⟨fun hnote => Bool.noConfusion hnote, ?_⟩, ?_⟩
      · exact fun _ _ _ _ _ hreference => Shape.noConfusion hreference
      · exact fun child hchild => by cases hchild
    | succ steps ih =>
      refine Shape.everywhere_iff.mpr ⟨?_, ?_⟩
      · obtain ⟨hconditional, hreference⟩ := hproper r
        rw [shapeWithin]
        cases hform : (s.cell r).form with
        | reference template bindings nodes =>
          refine ⟨hconditional, fun f _ _ resolved _ hshape => ?_⟩
          obtain ⟨rfl, rfl, rfl, rfl, rfl⟩ := Shape.reference.inj hshape
          refine ⟨hreference _ _ _ hform, fun hunresolved => ?_⟩
          rw [Option.isSome_eq_false_iff, Option.isNone_iff_eq_none] at hunresolved
          rw [hunresolved]
          rfl
        | _ => exact ⟨hconditional, fun _ _ _ _ _ hshape => Shape.noConfusion hshape⟩
      · rw [children_shapeWithin, List.forall_mem_map]
        exact fun child _ => ih child
  exact fun n hn =>
    ⟨hconsistent.everywhere_distinct steps r n hn, (hseen n hn).1, (hseen n hn).2⟩

/-! Nodes put below a node that was made empty. -/

theorem cell_make_self (s : Store) (c : Cell) : (s.make c).2.cell s.cells.length = c := by
  rw [cell_make, if_pos rfl]

theorem lt_length_make (s : Store) (c : Cell) : s.cells.length < (s.make c).2.cells.length := by
  rw [length_make]
  exact Nat.lt_succ_self _

theorem name_make_of_lt (s : Store) (c : Cell) {r : Ref} (hr : r < s.cells.length) :
    (s.make c).2.name r = s.name r := by
  rw [name, cell_make, if_neg (Nat.ne_of_lt hr), name]

theorem cell_update_self {s : Store} {r : Ref} (hr : r < s.cells.length) (change : Cell → Cell) :
    (s.update r change).cell r = change (s.cell r) := by
  simp [cell, update, List.getElem?_eq_getElem hr]

theorem cell_update_of_ne (s : Store) {r q : Ref} (hq : q ≠ r) (change : Cell → Cell) :
    (s.update r change).cell q = s.cell q :=
  (s.cell_update r q change).resolve_right fun h => hq h.1

/-- A node that no member shares its name with goes to the end. -/
theorem placed_of_fresh {s : Store} {node : Ref} {refs : List Ref}
    (h : ∀ name, s.name node = some name → name ∉ refs.filterMap s.name) :
    s.placed node refs = refs ++ [node] := by
  induction refs with
  | nil => rfl
  | cons first rest ih =>
    have hother : ((s.name node).isSome && s.name first == s.name node) = false := by
      cases hname : s.name node with
      | none => rfl
      | some name =>
        have hfirst : s.name first ≠ some name := fun hsame =>
          h name hname (List.mem_filterMap.mpr ⟨first, List.mem_cons_self, hsame⟩)
        simpa using hfirst
    rw [placed, hother, ih fun name hname hmem => h name hname ?_]
    · rfl
    · obtain ⟨member, hmember, hsame⟩ := List.mem_filterMap.mp hmem
      exact List.mem_filterMap.mpr ⟨member, List.mem_cons_of_mem _ hmember, hsame⟩

/-- Nodes were put below a node: it has a new form, they have a new parent, and nothing else
changed. -/
structure Adopted (s : Store) (r : Ref) (form : Form) (nodes : List Ref) (t : Store) : Prop where
  length : t.cells.length = s.cells.length
  top : t.cell r = { s.cell r with form }
  look : ∀ q, q ≠ r → (t.cell q).look = (s.cell q).look
  kept : ∀ q, q ≠ r → q ∉ nodes → t.cell q = s.cell q

namespace Adopted

variable {s t : Store} {r : Ref} {form : Form} {nodes : List Ref}

theorem refl (hform : (s.cell r).form = form) (nodes : List Ref) : Adopted s r form nodes s :=
  ⟨rfl, by rw [← hform], fun _ _ => rfl, fun _ _ _ => rfl⟩

theorem made (s : Store) (c : Cell) (nodes : List Ref) :
    Adopted (s.make c).2 s.cells.length c.form nodes (s.make c).2 :=
  refl (by rw [cell_make_self]) nodes

theorem name_eq (h : Adopted s r form nodes t) : t.name = s.name := by
  funext q
  rw [name, name]
  by_cases hq : q = r
  · rw [hq, h.top]
  · exact congrArg (Facts.name ∘ Prod.fst) (h.look q hq)

theorem step (h : Adopted s r form nodes t) (hr : r < s.cells.length) {node : Ref}
    (hnode : node ≠ r) (form' : Form) : Adopted s r form' (nodes ++ [node])
      ((t.setParent node (some r)).update r fun c => { c with form := form' }) where
  length := by rw [length_update, Store.setParent, length_update, h.length]
  top := by
    have hr' : r < (t.setParent node (some r)).cells.length := by
      rwa [Store.setParent, length_update, h.length]
    rw [cell_update_self hr', Store.setParent, cell_update_of_ne _ hnode.symm, h.top]
  look q hq := by
    rw [cell_update_of_ne _ hq, look_setParent, h.look q hq]
  kept q hq hnew := by
    rw [List.mem_append, List.mem_singleton, not_or] at hnew
    rw [cell_update_of_ne _ hq, Store.setParent, cell_update_of_ne _ hnew.2, h.kept q hq hnew.1]

/-- Nodes are put below a node one after the other. The induction is on those still to come. -/
theorem foldl {use : Store → Ref → Store} {grow : List Ref → Form} (hr : r < s.cells.length)
    (hempty : (s.cell r).form = grow []) (hnew : r ∉ nodes)
    (huse : ∀ done node rest, nodes = done ++ node :: rest → ∀ t : Store, t.name = s.name →
      (t.cell r).form = grow done → use t node =
        (t.setParent node (some r)).update r fun c => { c with form := grow (done ++ [node]) }) :
    Adopted s r (grow nodes) nodes (nodes.foldl use s) := by
  have hrun : ∀ rest done t, nodes = done ++ rest → Adopted s r (grow done) done t →
      Adopted s r (grow nodes) nodes (rest.foldl use t) := by
    intro rest
    induction rest with
    | nil =>
      rintro done t rfl h
      rwa [List.append_nil]
    | cons node rest ih =>
      intro done t hnodes h
      have hform : (t.cell r).form = grow done := by rw [h.top]
      have hnode : node ≠ r := by
        rintro rfl
        exact hnew (by simp [hnodes])
      refine ih (done ++ [node]) _ (by simp [hnodes]) ?_
      rw [huse done node rest hnodes t h.name_eq hform]
      exact h.step hr hnode _
  exact hrun nodes [] s rfl (refl hempty [])

end Adopted

theorem adopted_extend {s : Store} {r : Ref} {nodes : List Ref} (hr : r < s.cells.length)
    (hempty : (s.cell r).form = .object []) (hnew : r ∉ nodes)
    (hdistinct : (nodes.filterMap s.name).Nodup) :
    Adopted s r (.object nodes) nodes (s.extend r nodes) := by
  refine Adopted.foldl hr hempty hnew fun done node rest hnodes t hname hform => ?_
  have hplaced : t.placed node done = done ++ [node] := by
    refine placed_of_fresh fun name hnode hmember => ?_
    rw [hname] at hnode hmember
    rw [hnodes, List.filterMap_append, List.filterMap_cons_some hnode] at hdistinct
    exact (List.nodup_append.mp hdistinct).2.2 name hmember name List.mem_cons_self rfl
  rw [add, hform]
  simp only [hplaced]

theorem adopted_addItems {s : Store} {r : Ref} {nodes : List Ref} {isRoot : Bool}
    (hr : r < s.cells.length) (hempty : (s.cell r).form = .array isRoot []) (hnew : r ∉ nodes) :
    Adopted s r (.array isRoot nodes) nodes (nodes.foldl (fun s node => s.addItem r node) s) := by
  refine Adopted.foldl hr hempty hnew fun done node _ _ t _ hform => ?_
  rw [addItem, hform]

/-! Trees that are made at once. -/

/-- Nodes of given shapes were made: all nodes there were are as before, the new ones have new nodes
below them only, and from far enough away the shapes are seen. -/
structure Built (s : Store) (shapes : List Shape) (refs : List Ref) (t : Store) : Prop where
  length : s.cells.length ≤ t.cells.length
  kept : ∀ q < s.cells.length, t.cell q = s.cell q
  inside : ∀ q < t.cells.length, s.cells.length ≤ q →
    ∀ child ∈ t.children q, s.cells.length ≤ child ∧ child < q
  fresh : ∀ r ∈ refs, s.cells.length ≤ r ∧ r < t.cells.length
  shapes : ∀ steps, t.cells.length - s.cells.length ≤ steps →
    refs.map (t.shapeWithin steps) = shapes.map Shape.copied

namespace Built

variable {s t u : Store} {shapes : List Shape} {refs : List Ref}

theorem nil (s : Store) : Built s [] [] s where
  length := Nat.le_refl _
  kept _ _ := rfl
  inside q hq hnew := absurd hq (Nat.not_lt.mpr hnew)
  fresh r hr := by cases hr
  shapes _ _ := rfl

/-- The new nodes are seen in the same way in a store that keeps how they look. -/
theorem map_shapeWithin (h : Built s shapes refs t)
    (hlook : ∀ q < t.cells.length, s.cells.length ≤ q → (u.cell q).look = (t.cell q).look)
    {steps : Nat} (hsteps : t.cells.length - s.cells.length ≤ steps) :
    refs.map (u.shapeWithin steps) = shapes.map Shape.copied := by
  rw [← h.shapes steps hsteps]
  refine List.map_congr_left fun r hr => ?_
  refine shapeWithin_congr (P := fun q => s.cells.length ≤ q ∧ q < t.cells.length)
    (fun q hq => hlook q hq.2 hq.1) (fun q hq child hchild => ?_) steps (h.fresh r hr)
  obtain ⟨hnew, hbefore⟩ := h.inside q hq.2 hq.1 child hchild
  exact ⟨hnew, Nat.lt_trans hbefore hq.2⟩

theorem append (h : Built s shapes refs t) {shapes' : List Shape} {refs' : List Ref}
    (h' : Built t shapes' refs' u) : Built s (shapes ++ shapes') (refs ++ refs') u where
  length := Nat.le_trans h.length h'.length
  kept q hq := (h'.kept q (Nat.lt_of_lt_of_le hq h.length)).trans (h.kept q hq)
  inside q hq hnew child hchild := by
    by_cases hfirst : q < t.cells.length
    · rw [children, h'.kept q hfirst] at hchild
      exact h.inside q hfirst hnew child hchild
    · obtain ⟨hlater, hbefore⟩ := h'.inside q hq (Nat.not_lt.mp hfirst) child hchild
      exact ⟨Nat.le_trans h.length hlater, hbefore⟩
  fresh r hr := by
    rcases List.mem_append.mp hr with hfirst | hlater
    · exact ⟨(h.fresh r hfirst).1, Nat.lt_of_lt_of_le (h.fresh r hfirst).2 h'.length⟩
    · exact ⟨Nat.le_trans h.length (h'.fresh r hlater).1, (h'.fresh r hlater).2⟩
  shapes steps hsteps := by
    have hlengths : s.cells.length ≤ t.cells.length ∧ t.cells.length ≤ u.cells.length :=
      ⟨h.length, h'.length⟩
    rw [List.map_append, List.map_append, h'.shapes steps (by omega),
      h.map_shapeWithin (fun q hq _ => congrArg Cell.look (h'.kept q hq)) (by omega)]

/-- A node is made on top of new nodes. -/
theorem top (h : Built s shapes refs t) {c : Cell} {form : Form} {shape : Shape}
    (hadopted : Adopted (t.make c).2 t.cells.length form refs u) (hchildren : form.children = refs)
    (hseen : ∀ steps, refs.map (u.shapeWithin steps) = shapes.map Shape.copied →
      u.cell t.cells.length = { c with form } →
      u.shapeWithin (steps + 1) t.cells.length = shape.copied) :
    Built s [shape] [t.cells.length] u ∧ (u.cell t.cells.length).parent = c.parent := by
  have hlength : u.cells.length = t.cells.length + 1 := by rw [hadopted.length, length_make]
  have htop : u.cell t.cells.length = { c with form } := by
    rw [hadopted.top, cell_make, if_pos rfl]
  have hlook : ∀ q < t.cells.length, (u.cell q).look = (t.cell q).look := fun q hq => by
    rw [hadopted.look q (Nat.ne_of_lt hq), cell_make, if_neg (Nat.ne_of_lt hq)]
  have hbound := h.length
  refine ⟨⟨by omega, fun q hq => ?_, fun q hq hnew child hchild => ?_, fun r hr => ?_,
    fun steps hsteps => ?_⟩, by rw [htop]⟩
  · have hold : q ≠ t.cells.length := by omega
    have hapart : q ∉ refs := fun hmem => by
      have hnew := (h.fresh q hmem).1
      omega
    rw [hadopted.kept q hold hapart, cell_make, if_neg hold, h.kept q hq]
  · rcases Nat.lt_or_ge q t.cells.length with hbelow | hat
    · rw [children_eq_of_look (hlook q hbelow)] at hchild
      exact h.inside q hbelow hnew child hchild
    · obtain rfl : q = t.cells.length := by omega
      rw [children, htop, hchildren] at hchild
      exact h.fresh child hchild
  · rw [List.mem_singleton.mp hr]
    exact ⟨hbound, hlength ▸ Nat.lt_succ_self _⟩
  · obtain ⟨steps, rfl⟩ : ∃ k, steps = k + 1 := ⟨steps - 1, by omega⟩
    have hfar : t.cells.length - s.cells.length ≤ steps := by omega
    rw [List.map_singleton, List.map_singleton,
      hseen steps (h.map_shapeWithin (fun q hq _ => hlook q hq) hfar) htop]

/-- New nodes are named as their shapes are. -/
theorem names (h : Built s shapes refs t) :
    refs.filterMap t.name = shapes.filterMap Shape.name := by
  have hseen := congrArg (List.filterMap Shape.name)
    (h.shapes (t.cells.length - s.cells.length + 1) (Nat.le_succ _))
  have hnames : Shape.name ∘ t.shapeWithin (t.cells.length - s.cells.length + 1) = t.name :=
    funext fun r => t.name_shapeWithin _ r
  have hcopied : Shape.name ∘ Shape.copied = Shape.name := funext Shape.name_copied
  rwa [List.filterMap_map, List.filterMap_map, hnames, hcopied] at hseen

end Built

theorem startingFacts_eq_self {f : Facts} (h : f.note.conditional = true → f.conditional = true) :
    startingFacts f = f := by
  have hconditional : (f.conditional || f.note.conditional) = f.conditional := by
    cases hnote : f.note.conditional with
    | false => exact Bool.or_false _
    | true => rw [h hnote]; rfl
  rw [startingFacts, hconditional]

mutual

/-- A tree that is made at once is seen as its shape, except that its references are not
conditional; its top node has no parent. -/
theorem built_build (s : Store) : ∀ shape : Shape, shape.Everywhere Shape.Regular →
    Built s [shape] [(s.build shape).1] (s.build shape).2 ∧
      ((s.build shape).2.cell (s.build shape).1).parent = none
  | .simple f, h => by
    have hfacts := startingFacts_eq_self (Shape.everywhere_iff.mp h).1.conditional
    refine (Built.nil s).top (.made _ _ []) rfl fun steps _ htop => ?_
    rw [shapeWithin, htop, Shape.copied]
    exact congrArg Shape.simple hfacts
  | .bare f, h => by
    have hfacts := startingFacts_eq_self (Shape.everywhere_iff.mp h).1.conditional
    refine (Built.nil s).top (.made _ _ []) rfl fun steps _ htop => ?_
    rw [shapeWithin, htop, Shape.copied]
    exact congrArg Shape.bare hfacts
  | .object f members, h => by
    obtain ⟨hregular, hmembers⟩ := Shape.everywhere_iff.mp h
    have hfacts : startingFacts f = f := startingFacts_eq_self hregular.conditional
    have hbuilt := s.built_buildAll members hmembers
    have hnew : (s.buildAll members).2.cells.length ∉ (s.buildAll members).1 := fun hmem =>
      Nat.lt_irrefl _ (hbuilt.fresh _ hmem).2
    have hnames : ((s.buildAll members).1.filterMap ((s.buildAll members).2.make
        { facts := startingFacts f, form := .object [] }).2.name).Nodup := by
      rw [List.filterMap_congr fun r hr => name_make_of_lt _ _ (hbuilt.fresh r hr).2, hbuilt.names]
      exact hregular.distinct f members rfl
    refine hbuilt.top (adopted_extend (lt_length_make _ _) (by rw [cell_make_self]) hnew hnames) rfl
      fun steps hseen htop => ?_
    rw [shapeWithin, htop]
    simp only [hseen]
    rw [hfacts, Shape.copied, Shape.copiedList_eq_map]
  | .array f isRoot items, h => by
    obtain ⟨hregular, hitems⟩ := Shape.everywhere_iff.mp h
    have hfacts : startingFacts f = f := startingFacts_eq_self hregular.conditional
    have hbuilt := s.built_buildAll items hitems
    have hnew : (s.buildAll items).2.cells.length ∉ (s.buildAll items).1 := fun hmem =>
      Nat.lt_irrefl _ (hbuilt.fresh _ hmem).2
    refine hbuilt.top (adopted_addItems (lt_length_make _ _) (by rw [cell_make_self]) hnew) rfl
      fun steps hseen htop => ?_
    rw [shapeWithin, htop]
    simp only [hseen]
    rw [hfacts, Shape.copied, Shape.copiedList_eq_map]
  | .reference f template bindings resolved nodes, h => by
    obtain ⟨hregular, hnodes⟩ := Shape.everywhere_iff.mp h
    obtain ⟨hbare, hunresolved⟩ := hregular.reference _ _ _ _ _ rfl
    have hfacts : ({ f with conditional := false } : Facts) = { line := f.line } := by
      rw [hbare]
    cases resolved with
    | false =>
      refine (Built.nil s).top (.made _ _ []) rfl fun steps _ htop => ?_
      rw [shapeWithin, htop, Shape.copied, hfacts, hunresolved rfl]
      rfl
    | true =>
      refine (s.built_buildAll nodes hnodes).top (.made _ _ _) rfl fun steps hseen htop => ?_
      simp only [shapeWithin, htop, hseen, hfacts, Shape.copied, Shape.copiedList_eq_map,
        Option.isSome_some, Option.getD_some]

theorem built_buildAll (s : Store) : ∀ shapes : List Shape,
    (∀ shape ∈ shapes, shape.Everywhere Shape.Regular) →
    Built s shapes (s.buildAll shapes).1 (s.buildAll shapes).2
  | [], _ => .nil s
  | shape :: rest, h =>
    (s.built_build shape (h shape List.mem_cons_self)).1.append
      ((s.build shape).2.built_buildAll rest fun later hlater =>
        h later (List.mem_cons_of_mem _ hlater))

end

theorem Built.shape_eq {s t : Store} {shape : Shape} {r : Ref} (h : Built s [shape] [r] t) :
    t.shape r = shape.copied := by
  have hseen := h.shapes (t.cells.length + 1) (by omega)
  rwa [List.map_singleton, List.map_singleton, List.cons.injEq, and_iff_left rfl] at hseen

/-- Nothing new is below a node there was, and nothing old below a new node. -/
theorem Built.apart {s t : Store} {shapes : List Shape} {refs : List Ref}
    (h : Built s shapes refs t) (hs : s.Consistent) {new old : Ref} (hnew : new ∈ refs)
    (hold : old < s.cells.length) :
    t.Apart new old := by
  intro q hq hqold
  have hafter : s.cells.length ≤ q ∧ q < t.cells.length :=
    hq.closed (P := fun q => s.cells.length ≤ q ∧ q < t.cells.length) (fun q hq child hchild => by
      obtain ⟨hlater, hbefore⟩ := h.inside q hq.2 hq.1 child hchild
      exact ⟨hlater, Nat.lt_trans hbefore hq.2⟩) (h.fresh new hnew)
  have hbefore : q < s.cells.length :=
    hqold.closed (P := (· < s.cells.length)) (fun q hq child hchild => by
      rw [children, h.kept q hq] at hchild
      exact (hs q).known child hchild) hold
  exact absurd hbefore (Nat.not_lt.mpr hafter.1)

/-- What a copy of a node is, in the store that has grown by it. -/
structure IsCopy (s : Store) (r copy : Ref) (t : Store) : Prop where
  /-- The shape is that of the node, except that references are not conditional. -/
  shape : t.shape copy = (s.shape r).copied
  /-- So it is that of the node just when no reference in it is conditional. -/
  faithful : t.shape copy = s.shape r ↔ ∀ n ∈ (s.shape r).walk, n.isMarkedReference = false
  parent : (t.cell copy).parent = none
  kept : ∀ q < s.cells.length, t.cell q = s.cell q
  original : t.shape r = s.shape r
  /-- As long as nothing of the one is put below the other, an operation on any node of the one
  leaves the other as it was. -/
  independent : ∀ u, Relation.ReflTransGen (Aside copy r) t u →
    ∀ q nodes v, u.Operation q nodes v →
      (u.Below copy q → v.shape r = u.shape r) ∧ (u.Below r q → v.shape copy = u.shape copy)

/-- Copying a finite node of a store that grew gives a copy. -/
theorem Grown.isCopy_clone {s : Store} (h : s.Grown) {r : Ref} (hr : r < s.cells.length)
    (hfinite : s.FiniteBelow r) : s.IsCopy r (s.clone r).1 (s.clone r).2 := by
  obtain ⟨hconsistent, -⟩ := h.invariant
  obtain ⟨hbuilt, hparent⟩ := s.built_build (s.shape r) (h.everywhere_regular _ r)
  have hshape : (s.clone r).2.shape (s.clone r).1 = (s.shape r).copied := hbuilt.shape_eq
  have hapart : (s.clone r).2.Apart (s.clone r).1 r :=
    hbuilt.apart hconsistent List.mem_cons_self hr
  refine ⟨hshape, hshape ▸ Shape.copied_eq_self_iff _, hparent, hbuilt.kept, ?_, ?_⟩
  · refine hconsistent.shape_eq hr hfinite hbuilt.length fun q hq => ?_
    exact congrArg Cell.look (hbuilt.kept q (hconsistent.lt_of_below hr hq))
  · intro u hu q nodes v hop
    have hkept : u.Apart (s.clone r).1 r := hapart.of_asides hu
    exact ⟨fun hq => hop.shape_of_apart (hkept.of_below hq),
      fun hq => hop.shape_of_apart (hkept.symm.of_below hq)⟩

/-- An object with a resolved reference as its member. -/
def includedAuthor : Store :=
  (((Store.make (Store.make (Store.make {}
    { facts := startingFacts { name := some "name", line := some 3 }, form := .simple }).2
    { facts := { line := some 2 }, form := .reference "author" [] none }).2
    { facts := startingFacts { line := some 1 }, form := .object [] }).2.splice 1 [0]).add 2 1)

theorem grown_includedAuthor : includedAuthor.Grown := by
  refine .tail (.tail (.tail (.tail (.single (.make (.simple _))) (.make (.reference _ _ _)))
    (.make (.object _))) (.operation (.splice [0]) ?_)) (.operation (.add 1) ?_)
  · decide
  · decide

theorem isCopy_clone_includedAuthor :
    includedAuthor.IsCopy 2 (includedAuthor.clone 2).1 (includedAuthor.clone 2).2 ∧
      (includedAuthor.clone 2).2.shape (includedAuthor.clone 2).1 = includedAuthor.shape 2 := by
  have hcopy := grown_includedAuthor.isCopy_clone (by decide : 2 < includedAuthor.cells.length)
    (finiteBelow_of_children_lt (by decide) 2)
  exact ⟨hcopy, hcopy.faithful.mpr (by decide)⟩

/-- A reference that was marked as conditional. -/
def markedReference : Store :=
  (Store.make {} { facts := { line := some 1 }, form := .reference "author" [] none }).2
    |>.markConditional 0

/-- The copy of a conditional reference is not conditional. -/
theorem exists_unmarked_copy :
    ∃ s : Store, ∃ r, s.Grown ∧ r < s.cells.length ∧ s.FiniteBelow r ∧
      (s.shape r).facts.conditional = true ∧
      ((s.clone r).2.shape (s.clone r).1).facts.conditional = false := by
  refine ⟨markedReference, 0, ?_, by decide, finiteBelow_of_children_lt (by decide) 0, by decide,
    by decide⟩
  exact .tail (.single (.make (.reference _ _ _))) (.operation .mark (by decide))

end Store
end ViewSchema
