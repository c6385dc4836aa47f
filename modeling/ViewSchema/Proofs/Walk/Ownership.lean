import ViewSchema.Proofs.Shape.Members
import ViewSchema.Proofs.Shape.Settled
import ViewSchema.Proofs.Walk.Congruence

/-!
Which nodes of a document a template names itself. When inclusions give nodes without lines, a name
in the document has a line exactly where a call of the template gave it, and the line is that of the
call. The lines of included nodes have no part in anything else that a walk does, so the document is
otherwise the same.
-/

namespace ViewSchema

open Template

/-- The facts without their line, when it is a line of another file. -/
def Facts.withoutForeignLine (f : Facts) : Facts := if f.foreign then { f with line := none } else f

/-- The node and all below it, without lines. -/
def Shape.lineless (s : Shape) : Shape := s.mapFacts fun f => { f with line := none }

/-- An includer whose nodes have no lines. -/
def Includer.lineless (includer : Includer) : Includer := fun name bindings line => do
  return (← includer name bindings line).map Shape.lineless

namespace Facts

variable (f : Facts)

@[simp] theorem name_withoutForeignLine : f.withoutForeignLine.name = f.name := by
  unfold withoutForeignLine
  split <;> rfl

@[simp] theorem note_withoutForeignLine : f.withoutForeignLine.note = f.note := by
  unfold withoutForeignLine
  split <;> rfl

@[simp] theorem foreign_withoutForeignLine : f.withoutForeignLine.foreign = f.foreign := by
  unfold withoutForeignLine
  split <;> rfl

theorem withoutForeignLine_of_own (h : f.foreign = false) : f.withoutForeignLine = f := by
  unfold withoutForeignLine
  rw [h]
  rfl

end Facts

namespace Shape

/-- The shape without the lines of its foreign nodes. -/
def withoutForeignLines (s : Shape) : Shape := s.mapFacts Facts.withoutForeignLine

theorem name_withoutForeignLines (s : Shape) : s.withoutForeignLines.name = s.name :=
  name_mapFacts Facts.name_withoutForeignLine s

theorem name_lineless (s : Shape) : s.lineless.name = s.name := by
  refine name_mapFacts ?_ s
  exact fun _ => rfl

theorem withoutForeignLines_withoutForeignLines (s : Shape) :
    s.withoutForeignLines.withoutForeignLines = s.withoutForeignLines := by
  have hsame : ∀ f : Facts, f.withoutForeignLine.withoutForeignLine = f.withoutForeignLine := by
    intro f
    cases h : f.foreign with
    | false => rw [f.withoutForeignLine_of_own h, f.withoutForeignLine_of_own h]
    | true => simp [Facts.withoutForeignLine, h]
  unfold withoutForeignLines
  rw [mapFacts_mapFacts]
  exact congrArg (s.mapFacts ·) (funext hsame)

theorem withoutForeignLines_object (f : Facts) (members : List Shape) :
    (object f members).withoutForeignLines =
      object f.withoutForeignLine (members.map withoutForeignLines) := by
  rw [withoutForeignLines, mapFacts, mapFactsList_eq_map]
  rfl

theorem withoutForeignLines_array (f : Facts) (isRoot : Bool) (items : List Shape) :
    (array f isRoot items).withoutForeignLines =
      array f.withoutForeignLine isRoot (items.map withoutForeignLines) := by
  rw [withoutForeignLines, mapFacts, mapFactsList_eq_map]
  rfl

theorem withoutForeignLines_ofMembers (f : Facts) (nodes : List Shape) :
    (ofMembers f nodes).withoutForeignLines =
      ofMembers f.withoutForeignLine (nodes.map withoutForeignLines) := by
  rw [ofMembers, withoutForeignLines_object, map_addMembers name_withoutForeignLines]
  rfl

theorem withoutForeignLines_marked (s : Shape) :
    s.marked.withoutForeignLines = s.withoutForeignLines.marked := by
  have hsame : ∀ f : Facts, ({ f with conditional := true } : Facts).withoutForeignLine =
      { f.withoutForeignLine with conditional := true } := by
    intro f
    cases h : f.foreign <;> simp [Facts.withoutForeignLine, h]
  rw [marked, marked, withoutForeignLines, withoutForeignLines, mapFacts_mapFacts,
    mapFacts_mapFacts]
  exact congrArg (s.mapFacts ·) (funext hsame)

/-- The name of a node in the document. A root array as a member is called `items`. -/
def label (s : Shape) : Option String := if s.isArrayRoot then some "items" else s.name

/-- One of the calls gave the node its name and its line, and if the node is foreign all the same,
it is an array that the call took over. -/
def IsNamedBy (s : Shape) (builder : String) (calls : List Invocation) (name : String) : Prop :=
  ∃ i ∈ calls, s.facts.line = i.line ∧ i.Names builder name ∧
    (s.facts.foreign → s.kindName = "array")

/-- A node of a walk: one of the calls named it, or else it is foreign and has no line. -/
structure IsAttributed (builder : String) (calls : List Invocation) (s : Shape) : Prop where
  unnamed : s.isArrayRoot → s.name = none
  attributed : ∀ name, s.label = some name →
    s.IsNamedBy builder calls name ∨ s.facts.foreign ∧ s.facts.line = none

section Attributed

variable {builder : String} {calls : List Invocation} {s : Shape}

theorem IsAttributed.of_unnamed (hroot : s.isArrayRoot = false) (hname : s.name = none) :
    s.IsAttributed builder calls where
  unnamed _ := hname
  attributed name h := by
    rw [label, hroot, if_neg (by decide), hname] at h
    cases h

theorem IsAttributed.of_named {name : String} (hroot : s.isArrayRoot = false)
    (hname : s.name = some name)
    (h : s.IsNamedBy builder calls name ∨ s.facts.foreign ∧ s.facts.line = none) :
    s.IsAttributed builder calls where
  unnamed hisRoot := by
    rw [hroot] at hisRoot
    cases hisRoot
  attributed other hother := by
    rw [label, hroot, if_neg (by decide), hname] at hother
    obtain rfl := Option.some.inj hother
    exact h

theorem IsAttributed.of_root (hroot : s.isArrayRoot) (hname : s.name = none)
    (h : s.IsNamedBy builder calls "items" ∨ s.facts.foreign ∧ s.facts.line = none) :
    s.IsAttributed builder calls where
  unnamed _ := hname
  attributed name hlabel := by
    rw [label, if_pos hroot] at hlabel
    obtain rfl := Option.some.inj hlabel
    exact h

/-- Every node of the shape is attributed. -/
def AllAttributed (builder : String) (calls : List Invocation) (s : Shape) : Prop :=
  s.Everywhere (IsAttributed builder calls)

theorem AllAttributed.ofMembers_blank {nodes : List Shape}
    (hnodes : ∀ n ∈ nodes, n.AllAttributed builder calls) :
    (Shape.ofMembers {} nodes).AllAttributed builder calls :=
  Everywhere.ofMembers (fun _ => .of_unnamed rfl rfl) hnodes

/-- Attribution is a matter of the name, the line and the origin alone. -/
theorem IsAttributed.mapFacts {change : Facts → Facts} (hname : ∀ f, (change f).name = f.name)
    (hline : ∀ f, (change f).line = f.line) (hforeign : ∀ f, (change f).foreign = f.foreign)
    (h : s.IsAttributed builder calls) : (s.mapFacts change).IsAttributed builder calls := by
  have hfacts := facts_mapFacts change s
  have hroot := isArrayRoot_mapFacts change s
  have hkind : (s.mapFacts change).kindName = s.kindName := by cases s <;> rfl
  refine ⟨fun h' => ?_, fun name hlabel => ?_⟩
  · rw [name_mapFacts hname]
    exact h.unnamed (hroot ▸ h')
  · rw [label, hroot, name_mapFacts hname] at hlabel
    simp only [IsNamedBy, hfacts, hkind, hline, hforeign]
    exact h.attributed name hlabel

end Attributed

end Shape

namespace Site

open Shape

section Lines

theorem eq_root_of_map {nodes : List Shape} {f : Facts} {items : List Shape}
    (h : nodes.map withoutForeignLines = [.array f true items]) :
    ∃ f items, nodes = [.array f true items] := by
  obtain ⟨s, rfl, hs⟩ := List.map_eq_singleton_iff.mp h
  have hroot : s.isArrayRoot := by
    rw [← isArrayRoot_mapFacts Facts.withoutForeignLine, ← withoutForeignLines, hs]
    rfl
  obtain ⟨f, items, rfl⟩ := eq_array_of_isArrayRoot hroot
  exact ⟨f, items, rfl⟩

theorem withoutForeignLines_itemOf (nodes : List Shape) :
    (itemOf nodes).withoutForeignLines = itemOf (nodes.map withoutForeignLines) := by
  unfold itemOf
  split
  · rfl
  · rename_i hother
    rw [withoutForeignLines_ofMembers]
    split
    · rename_i hroot
      obtain ⟨f, items, rfl⟩ := eq_root_of_map hroot
      exact absurd rfl (hother f items)
    · rfl

theorem withoutForeignLines_asItems (s : Shape) :
    (asItems s).withoutForeignLines = asItems s.withoutForeignLines := by
  cases s with
  | array f isRoot items =>
    cases isRoot with
    | false => rfl
    | true =>
      have hsame : ({ f with name := some "items" } : Facts).withoutForeignLine =
          { f.withoutForeignLine with name := some "items" } := by
        cases h : f.foreign <;> simp [Facts.withoutForeignLine, h]
      rw [asItems, withoutForeignLines_array, withoutForeignLines_array, asItems, hsame]
  | _ => rfl

theorem map_withoutForeignLines_itemMembers (item : Shape) :
    (itemMembers item).map withoutForeignLines = itemMembers item.withoutForeignLines := by
  cases item with
  | object f members => rw [withoutForeignLines_object]; rfl
  | _ => rfl

/-- A property takes the line of its own call also for an array from another file. -/
theorem withoutForeignLines_collapsed (facts inner : Facts) (items : List Shape) :
    (collapsed facts inner items).withoutForeignLines =
      (collapsed facts inner.withoutForeignLine
        (items.map withoutForeignLines)).withoutForeignLines := by
  have hitems : (items.map withoutForeignLines).map withoutForeignLines =
      items.map withoutForeignLines := by
    rw [List.map_map]
    exact List.map_congr_left fun s _ => withoutForeignLines_withoutForeignLines s
  rw [collapsed, collapsed, withoutForeignLines_array, withoutForeignLines_array, hitems]
  by_cases h : inner.foreign
  · simp [Facts.withoutForeignLine, h]
  · rw [inner.withoutForeignLine_of_own (Bool.eq_false_iff.mpr h)]

theorem withoutForeignLines_enclosing (facts : Facts) (nodes : List Shape) :
    (enclosing facts nodes).withoutForeignLines =
      (enclosing facts (nodes.map withoutForeignLines)).withoutForeignLines := by
  unfold enclosing
  split
  · rename_i f items
    rw [List.map_singleton, withoutForeignLines_array]
    exact withoutForeignLines_collapsed facts f items
  · rename_i hother
    split
    · rename_i hroot
      obtain ⟨f, items, rfl⟩ := eq_root_of_map hroot
      exact absurd rfl (hother f items)
    · rw [withoutForeignLines_ofMembers, withoutForeignLines_ofMembers, List.map_map,
        List.map_map, List.map_map]
      congr 1
      refine List.map_congr_left fun s _ => ?_
      change (asItems s).withoutForeignLines = (asItems s.withoutForeignLines).withoutForeignLines
      rw [withoutForeignLines_asItems, withoutForeignLines_asItems,
        withoutForeignLines_withoutForeignLines]

theorem withoutForeignLines_ofIncluded (facts : Facts) (nodes : List Shape) :
    (ofIncluded facts nodes).withoutForeignLines =
      ofIncluded facts.withoutForeignLine (nodes.map withoutForeignLines) := by
  unfold ofIncluded
  rw [Facts.note_withoutForeignLine]
  split
  · rw [withoutForeignLines_ofMembers, map_withoutForeignLines_itemMembers,
      withoutForeignLines_itemOf]
  · rw [withoutForeignLines_array, List.map_singleton, withoutForeignLines_itemOf]

end Lines

section Attributed

variable {builder : String} {calls : List Invocation} {nodes : List Shape} {i : Invocation}
  {facts : Facts}

theorem allAttributed_itemOf (h : ∀ n ∈ nodes, n.AllAttributed builder calls) :
    (itemOf nodes).AllAttributed builder calls := by
  unfold itemOf
  split
  · rename_i f items
    obtain ⟨hroot, hitems⟩ := everywhere_iff.mp (List.forall_mem_singleton.mp h)
    exact everywhere_iff.mpr ⟨.of_unnamed rfl (hroot.unnamed rfl), hitems⟩
  · exact .ofMembers_blank h

/-- A root array keeps as a member the line of the call that emitted it. -/
theorem allAttributed_asItems {s : Shape} (h : s.AllAttributed builder calls) :
    (asItems s).AllAttributed builder calls := by
  unfold asItems
  split
  · rename_i f items
    obtain ⟨hroot, hitems⟩ := everywhere_iff.mp h
    exact everywhere_iff.mpr ⟨.of_named rfl rfl (hroot.attributed "items" rfl), hitems⟩
  · exact h

/-- The facts that a call gives to a property or an attribute. -/
structure GivenBy (builder : String) (i : Invocation) (facts : Facts) (name : String) : Prop where
  named : facts.name = some name
  line : facts.line = i.line
  own : facts.foreign = false
  names : i.Names builder name

theorem GivenBy.attributed {name : String} (h : GivenBy builder i facts name) (hi : i ∈ calls)
    {s : Shape} (hfacts : s.facts = facts) (hroot : s.isArrayRoot = false) :
    s.IsAttributed builder calls := by
  subst hfacts
  refine .of_named hroot h.named (.inl ⟨i, hi, h.line, h.names, fun hforeign => ?_⟩)
  rw [h.own] at hforeign
  cases hforeign

theorem allAttributed_enclosing {name : String} (h : GivenBy builder i facts name)
    (hi : i ∈ calls) (hnodes : ∀ n ∈ nodes, n.AllAttributed builder calls) :
    (enclosing facts nodes).AllAttributed builder calls := by
  unfold enclosing
  split
  · obtain ⟨-, hitems⟩ := everywhere_iff.mp (List.forall_mem_singleton.mp hnodes)
    exact everywhere_iff.mpr
      ⟨.of_named rfl h.named (.inl ⟨i, hi, h.line, h.names, fun _ => rfl⟩), hitems⟩
  · refine .ofMembers (fun _ => h.attributed hi rfl rfl) fun m hm => ?_
    obtain ⟨before, hbefore, rfl⟩ := List.mem_map.mp hm
    exact allAttributed_asItems (hnodes before hbefore)

theorem allAttributed_arrayOf {name : String} (h : GivenBy builder i facts name) (hi : i ∈ calls)
    (hnodes : ∀ n ∈ nodes, n.AllAttributed builder calls) :
    (Shape.array facts false [itemOf nodes]).AllAttributed builder calls :=
  .array (h.attributed hi rfl rfl) (allAttributed_itemOf hnodes)

theorem allAttributed_ofIncluded {name : String} (h : GivenBy builder i facts name)
    (hi : i ∈ calls) (hnodes : ∀ n ∈ nodes, n.AllAttributed builder calls) :
    (ofIncluded facts nodes).AllAttributed builder calls := by
  unfold ofIncluded
  split
  · exact .ofMembers (fun _ => h.attributed hi rfl rfl)
      (everywhere_itemMembers (allAttributed_itemOf hnodes))
  · exact allAttributed_arrayOf h hi hnodes

theorem allAttributed_ofAttributes {name : String} (h : GivenBy builder i facts name)
    (hi : i ∈ calls) (hnodes : ∀ n ∈ nodes, n.AllAttributed builder calls) :
    (ofAttributes facts nodes).AllAttributed builder calls := by
  unfold ofAttributes
  split
  · exact everywhere_iff.mpr ⟨h.attributed hi rfl rfl, nofun⟩
  · split
    · exact .array (h.attributed hi rfl rfl) (AllAttributed.ofMembers_blank hnodes)
    · exact .ofMembers (fun _ => h.attributed hi rfl rfl) hnodes

end Attributed

variable {site : Site} {calls : List Invocation}

/-- Nodes that agree but for the lines of foreign ones, the second with all its nodes attributed. -/
def Owned (builder : String) (calls : List Invocation) (s t : Shape) : Prop :=
  s.withoutForeignLines = t.withoutForeignLines ∧ t.AllAttributed builder calls

theorem forall₂_owned {builder : String} {nodes others : List Shape} :
    List.Forall₂ (Owned builder calls) nodes others ↔
      nodes.map withoutForeignLines = others.map withoutForeignLines ∧
        ∀ n ∈ others, n.AllAttributed builder calls := by
  induction nodes generalizing others with
  | nil => cases others <;> simp
  | cons s rest ih =>
    cases others with
    | nil => simp
    | cons t others =>
      simp only [List.forall₂_cons, ih, List.map_cons, List.cons.injEq, List.forall_mem_cons, Owned]
      tauto

theorem givenBy_property {i : Invocation}
    (hkind : i.call.kind site.settings.builder = .property) :
    GivenBy site.settings.builder i (site.propertyFacts i) i.method where
  named := rfl
  line := rfl
  own := rfl
  names := by
    rw [Invocation.Names, hkind]
    exact .inl rfl

theorem allAttributed_attributes {i : Invocation} (hi : i ∈ calls)
    (hkind : i.call.kind site.settings.builder ∈ [.property, .array, .extraction]) :
    ∀ s ∈ site.attributes (i.args.drop 1) i.line,
      s.AllAttributed site.settings.builder calls := by
  intro s hs
  obtain ⟨name, hname, rfl⟩ := List.mem_map.mp hs
  have hgiven : GivenBy site.settings.builder i
      (.new (some name) (site.comments.attributeNote i.line name) i.line) name := by
    refine ⟨rfl, rfl, rfl, ?_⟩
    have hmem : name ∈ i.attributeNames := hname
    unfold Invocation.Names
    rcases List.mem_cons.mp hkind with hproperty | hkind
    · rw [hproperty]
      exact .inr hmem
    · rcases List.mem_cons.mp hkind with harray | hkind
      · rw [harray]
        exact .inr hmem
      · rw [List.mem_singleton.mp hkind]
        exact hmem
  exact everywhere_iff.mpr ⟨hgiven.attributed hi rfl rfl, nofun⟩

/-- The root array that a call emits. -/
theorem attributed_rootArray {i : Invocation} (hi : i ∈ calls)
    (hkind : i.call.kind site.settings.builder = .array ∨
      i.call.kind site.settings.builder = .inclusion ∧ (i.option? "collection").isSome)
    (items : List Shape) :
    (Shape.array (site.arrayFacts i) true items).IsAttributed site.settings.builder calls := by
  refine .of_root rfl rfl (.inl ⟨i, hi, rfl, ?_, fun _ => rfl⟩)
  unfold Invocation.Names
  rcases hkind with harray | ⟨hinclusion, hcollection⟩
  · rw [harray]
    exact .inl rfl
  · rw [hinclusion]
    exact ⟨rfl, hcollection⟩

/-- Every way of making nodes leaves them alike but for the lines of foreign nodes, and attributes
the names it gives. -/
theorem congruence_owned (site : Site) (calls : List Invocation) :
    site.Congruence (· ∈ calls) (Owned site.settings.builder calls) where
  name := by
    intro s t h
    rw [← name_withoutForeignLines s, h.1, name_withoutForeignLines]
  attributes hi hkind s hs := ⟨rfl, allAttributed_attributes hi hkind s hs⟩
  ofIncluded := by
    intro i hi hkind nodes others h
    obtain ⟨hsame, hall⟩ := forall₂_owned.mp h
    refine ⟨?_, allAttributed_ofIncluded (givenBy_property hkind) hi hall⟩
    rw [withoutForeignLines_ofIncluded, withoutForeignLines_ofIncluded, hsame]
  ofBlock := by
    intro i hi hkind hasParams nodes others h
    obtain ⟨hsame, hall⟩ := forall₂_owned.mp h
    unfold ofBlock
    cases hasParams with
    | true =>
      refine ⟨?_, allAttributed_arrayOf (givenBy_property hkind) hi hall⟩
      simp only [if_true, withoutForeignLines_array, List.map_singleton,
        withoutForeignLines_itemOf, hsame]
    | false =>
      refine ⟨?_, allAttributed_enclosing (givenBy_property hkind) hi hall⟩
      simp only [Bool.false_eq_true, if_false]
      rw [withoutForeignLines_enclosing, hsame, ← withoutForeignLines_enclosing]
  ofAttributes hi hkind _ h :=
    ⟨rfl, allAttributed_ofAttributes (givenBy_property hkind) hi fun s hs => (h s hs).2⟩
  array := by
    intro i hi hkind nodes others h
    obtain ⟨hsame, hall⟩ := forall₂_owned.mp h
    refine ⟨?_, .array (attributed_rootArray hi hkind _) (allAttributed_itemOf hall)⟩
    simp only [withoutForeignLines_array, List.map_singleton, withoutForeignLines_itemOf, hsame]
  arrayOfAttributes := by
    intro i hi hkind attributes h
    refine ⟨rfl, ?_⟩
    unfold arrayOfAttributes
    split
    · exact everywhere_iff.mpr ⟨attributed_rootArray hi (.inl hkind) [], nofun⟩
    · exact .array (attributed_rootArray hi (.inl hkind) _)
        (AllAttributed.ofMembers_blank fun s hs => (h s hs).2)
  marked h := by
    refine ⟨?_, Everywhere.mapFacts (fun n hn => ?_) h.2⟩
    · rw [withoutForeignLines_marked, withoutForeignLines_marked, h.1]
    · exact hn.mapFacts (fun _ => rfl) (fun _ => rfl) (fun _ => rfl)

end Site
end ViewSchema
