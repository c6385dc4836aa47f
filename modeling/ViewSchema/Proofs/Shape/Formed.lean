import Mathlib.Data.List.Nodup
import ViewSchema.Shape.Schema

/-!
The shapes that a walk can build. They are made of simple values, objects and arrays alone. The
named members of an object have distinct names, an array has one item template at most and that has
no name, a root array has no name either, and a node whose note is conditional is conditional.
-/

namespace ViewSchema.Shape

/-- A shape as a walk builds it. -/
inductive Formed : Shape → Prop where
  | simple {f : Facts} (hconditional : f.note.conditional → f.conditional) : Formed (.simple f)
  | object {f : Facts} {members : List Shape} (hconditional : f.note.conditional → f.conditional)
      (hdistinct : (members.filterMap Shape.name).Nodup) (hmembers : ∀ m ∈ members, Formed m) :
      Formed (.object f members)
  | array {f : Facts} {isRoot : Bool} {items : List Shape}
      (hconditional : f.note.conditional → f.conditional) (hroot : isRoot → f.name = none)
      (hone : items.length ≤ 1) (hunnamed : ∀ item ∈ items, item.name = none)
      (hitems : ∀ item ∈ items, Formed item) : Formed (.array f isRoot items)

theorem mapFactsList_eq_map (change : Facts → Facts) (nodes : List Shape) :
    mapFactsList change nodes = nodes.map (mapFacts change) := by
  induction nodes with
  | nil => rfl
  | cons node rest ih => rw [mapFactsList, ih, List.map_cons]

mutual

theorem mapFacts_mapFacts (first second : Facts → Facts) : ∀ s : Shape,
    (s.mapFacts first).mapFacts second = s.mapFacts fun f => second (first f)
  | .simple _ => rfl
  | .object f members => by
    rw [mapFacts, mapFacts, mapFacts, mapFactsList_mapFactsList first second members]
  | .array f isRoot items => by
    rw [mapFacts, mapFacts, mapFacts, mapFactsList_mapFactsList first second items]
  | .reference f template bindings resolved nodes => by
    rw [mapFacts, mapFacts, mapFacts, mapFactsList_mapFactsList first second nodes]
  | .bare _ => rfl

theorem mapFactsList_mapFactsList (first second : Facts → Facts) : ∀ nodes : List Shape,
    mapFactsList second (mapFactsList first nodes) =
      mapFactsList (fun f => second (first f)) nodes
  | [] => rfl
  | s :: rest => by
    rw [mapFactsList, mapFactsList, mapFactsList, mapFacts_mapFacts first second s,
      mapFactsList_mapFactsList first second rest]

end

theorem facts_mapFacts (change : Facts → Facts) (s : Shape) :
    (s.mapFacts change).facts = change s.facts := by
  cases s <;> rfl

theorem name_mapFacts {change : Facts → Facts} (h : ∀ f, (change f).name = f.name) (s : Shape) :
    (s.mapFacts change).name = s.name := by
  rw [name, facts_mapFacts, h]
  rfl

theorem name_marked (s : Shape) : s.marked.name = s.name := by
  cases s <;> rfl

/-- A change of facts that keeps names and notes and takes no conditional flag away keeps shapes
formed. -/
theorem Formed.mapFacts (change : Facts → Facts) (hname : ∀ f, (change f).name = f.name)
    (hnote : ∀ f, (change f).note = f.note)
    (hflag : ∀ f, f.conditional → (change f).conditional) {s : Shape} (h : s.Formed) :
    (s.mapFacts change).Formed := by
  have hconditional : ∀ {f : Facts}, (f.note.conditional → f.conditional) →
      ((change f).note.conditional → (change f).conditional) := by
    intro f hf hnoted
    rw [hnote] at hnoted
    exact hflag f (hf hnoted)
  induction h with
  | simple hf => exact .simple (hconditional hf)
  | @object f members hf hdistinct hmembers ih =>
    rw [Shape.mapFacts, mapFactsList_eq_map]
    refine .object (hconditional hf) ?_ ?_
    · have hsame : (members.map (Shape.mapFacts change)).filterMap Shape.name =
          members.filterMap Shape.name := by
        rw [List.filterMap_map]
        congr 1
        funext s
        exact name_mapFacts hname s
      rwa [hsame]
    · intro m hm
      obtain ⟨before, hbefore, rfl⟩ := List.mem_map.mp hm
      exact ih before hbefore
  | @array f isRoot items hf hroot hone hunnamed hitems ih =>
    rw [Shape.mapFacts, mapFactsList_eq_map]
    refine .array (hconditional hf) (fun h => (hname f).trans (hroot h)) (by simpa using hone) ?_ ?_
    · intro item hitem
      obtain ⟨before, hbefore, rfl⟩ := List.mem_map.mp hitem
      exact (name_mapFacts hname before).trans (hunnamed before hbefore)
    · intro item hitem
      obtain ⟨before, hbefore, rfl⟩ := List.mem_map.mp hitem
      exact ih before hbefore

theorem Formed.marked {s : Shape} (h : s.Formed) : s.marked.Formed :=
  Formed.mapFacts (fun f => { f with conditional := true }) (fun _ => rfl) (fun _ => rfl)
    (fun _ _ => rfl) h

theorem Formed.asForeign {s : Shape} (h : s.Formed) : s.asForeign.Formed :=
  Formed.mapFacts (fun f => { f with foreign := true }) (fun _ => rfl) (fun _ => rfl)
    (fun _ hf => hf) h

theorem Formed.members {f : Facts} {members : List Shape} (h : (Shape.object f members).Formed) :
    ∀ m ∈ members, m.Formed := by
  cases h with
  | object _ _ hmembers => exact hmembers

theorem Formed.name_of_isArrayRoot {s : Shape} (h : s.Formed) (hroot : s.isArrayRoot) :
    s.name = none := by
  cases h with
  | simple => cases hroot
  | object => cases hroot
  | array _ hname => exact hname hroot

theorem mem_addMember {members : List Shape} {node m : Shape}
    (h : m ∈ addMember members node) : m ∈ members ∨ m = node := by
  induction members with
  | nil => exact .inr (List.mem_singleton.mp h)
  | cons first rest ih =>
    rw [addMember] at h
    split at h
    · rcases List.mem_cons.mp h with rfl | hrest
      · exact .inr rfl
      · exact .inl (List.mem_cons_of_mem _ hrest)
    · rcases List.mem_cons.mp h with rfl | hrest
      · exact .inl List.mem_cons_self
      · exact (ih hrest).imp_left (List.mem_cons_of_mem _)

theorem mem_addMembers {members nodes : List Shape} {m : Shape}
    (h : m ∈ addMembers members nodes) : m ∈ members ∨ m ∈ nodes := by
  induction nodes generalizing members with
  | nil => exact .inl h
  | cons node rest ih =>
    have hlater : m ∈ addMembers (addMember members node) rest := h
    rcases ih hlater with hadded | hrest
    · rcases mem_addMember hadded with hold | rfl
      · exact .inl hold
      · exact .inr List.mem_cons_self
    · exact .inr (List.mem_cons_of_mem _ hrest)

/-- The names after adding a member: those before, and its own at the end when it is new. -/
theorem names_addMember (members : List Shape) (node : Shape) :
    (addMember members node).filterMap Shape.name =
      match node.name with
      | none => members.filterMap Shape.name
      | some name =>
        if name ∈ members.filterMap Shape.name then members.filterMap Shape.name
        else members.filterMap Shape.name ++ [name] := by
  induction members with
  | nil => cases hname : node.name <;> simp [addMember, hname]
  | cons first rest ih =>
    rw [addMember]
    cases hname : node.name with
    | none =>
      rw [hname] at ih
      simp only [Option.isSome_none, Bool.false_and, Bool.false_eq_true, if_false]
      simp only [List.filterMap_cons, ih]
    | some name =>
      rw [hname] at ih
      by_cases hfirst : first.name = some name
      · simp [hfirst, hname]
      · have hcondition : (first.name == some name) = false := by simpa using hfirst
        simp only [hcondition, Option.isSome_some, Bool.and_false, Bool.false_eq_true, if_false]
        rcases hother : first.name with _ | other
        · simp only [List.filterMap_cons, hother, ih]
        · have hne : name ≠ other := by
            rintro rfl
            exact hfirst hother
          simp only [List.filterMap_cons, hother, ih]
          by_cases hmem : name ∈ rest.filterMap Shape.name <;> simp [hmem, hne]

theorem distinct_addMember {members : List Shape} (h : (members.filterMap Shape.name).Nodup)
    (node : Shape) : ((addMember members node).filterMap Shape.name).Nodup := by
  rw [names_addMember]
  split
  · exact h
  · split
    · exact h
    · rename_i hnew
      exact List.nodup_append.mpr ⟨h, List.nodup_singleton _,
        fun a ha b hb heq => hnew (List.mem_singleton.mp hb ▸ heq ▸ ha)⟩

theorem distinct_addMembers {members nodes : List Shape}
    (h : (members.filterMap Shape.name).Nodup) :
    ((addMembers members nodes).filterMap Shape.name).Nodup := by
  induction nodes generalizing members with
  | nil => exact h
  | cons node rest ih => exact ih (distinct_addMember h node)

/-- A member of a new name, or of none, comes last. -/
theorem addMember_of_fresh {members : List Shape} {node : Shape}
    (h : ∀ name, node.name = some name → name ∉ members.filterMap Shape.name) :
    addMember members node = members ++ [node] := by
  induction members with
  | nil => rfl
  | cons first rest ih =>
    have hfirst : ¬(node.name.isSome && first.name == node.name) = true := by
      intro hsame
      simp only [Bool.and_eq_true, beq_iff_eq] at hsame
      obtain ⟨name, hname⟩ := Option.isSome_iff_exists.mp hsame.1
      exact h name hname (List.mem_filterMap.mpr
        ⟨first, List.mem_cons_self, hsame.2.trans hname⟩)
    have hrest : ∀ name, node.name = some name → name ∉ rest.filterMap Shape.name := by
      intro name hname hmem
      obtain ⟨m, hm, hsame⟩ := List.mem_filterMap.mp hmem
      exact h name hname (List.mem_filterMap.mpr ⟨m, List.mem_cons_of_mem _ hm, hsame⟩)
    rw [addMember, if_neg hfirst, ih hrest]
    rfl

theorem addMembers_of_distinct {members nodes : List Shape}
    (h : ((members ++ nodes).filterMap Shape.name).Nodup) :
    addMembers members nodes = members ++ nodes := by
  induction nodes generalizing members with
  | nil => exact (List.append_nil members).symm
  | cons node rest ih =>
    have hsplit : members ++ node :: rest = (members ++ [node]) ++ rest := by simp
    have hfresh : ∀ name, node.name = some name → name ∉ members.filterMap Shape.name := by
      intro name hname hmem
      rw [List.filterMap_append, List.filterMap_cons_some hname] at h
      exact (List.nodup_append.mp h).2.2 name hmem name List.mem_cons_self rfl
    rw [hsplit] at h ⊢
    rw [← ih h, ← addMember_of_fresh hfresh]
    rfl

/-- Adding members that an object has already gives the same object. -/
theorem addMembers_addMembers (nodes : List Shape) :
    addMembers [] (addMembers [] nodes) = addMembers [] nodes := by
  have hdistinct : ((addMembers [] nodes).filterMap Shape.name).Nodup :=
    distinct_addMembers (by simp)
  exact addMembers_of_distinct (by simpa using hdistinct)

theorem Formed.ofMembers {f : Facts} (hf : f.note.conditional → f.conditional)
    {nodes : List Shape} (h : ∀ n ∈ nodes, n.Formed) : (Shape.ofMembers f nodes).Formed := by
  refine .object hf (distinct_addMembers (by simp)) ?_
  intro m hm
  rcases mem_addMembers hm with hnil | hnode
  · cases hnil
  · exact h m hnode

end ViewSchema.Shape
