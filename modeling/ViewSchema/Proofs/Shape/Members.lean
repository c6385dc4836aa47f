import ViewSchema.Proofs.Shape.Formed

/-!
Adding members one by one. A later node takes the place of an earlier one of its name, so nodes can
be gathered on their own first: adding what was gathered then is adding the nodes themselves. A
change that keeps names can be made before or after.
-/

namespace ViewSchema.Shape

variable {members rest nodes : List Shape} {first node other : Shape} {name : String}

theorem addMember_cons_of_same (hname : node.name = some name) (hfirst : first.name = some name) :
    addMember (first :: rest) node = node :: rest := by
  simp [addMember, hname, hfirst]

theorem addMember_cons_of_ne (h : first.name ≠ node.name ∨ node.name = none) :
    addMember (first :: rest) node = first :: addMember rest node := by
  rw [addMember, if_neg]
  simp only [Bool.and_eq_true, beq_iff_eq, not_and]
  intro hnamed hsame
  rcases h with hne | hnone
  · exact hne hsame
  · rw [hnone] at hnamed
    cases hnamed

theorem addMembers_cons (members : List Shape) (node : Shape) (rest : List Shape) :
    addMembers members (node :: rest) = addMembers (addMember members node) rest := rfl

theorem addMembers_append (members first second : List Shape) :
    addMembers members (first ++ second) = addMembers (addMembers members first) second :=
  List.foldl_append

theorem map_addMember {change : Shape → Shape} (hname : ∀ s, (change s).name = s.name)
    (members : List Shape) (node : Shape) :
    (addMember members node).map change = addMember (members.map change) (change node) := by
  induction members with
  | nil => rfl
  | cons first rest ih =>
    rw [List.map_cons, addMember, addMember, hname, hname]
    split
    · rfl
    · rw [List.map_cons, ih]

/-- A change that keeps names can be made before nodes are gathered or after. -/
theorem map_addMembers {change : Shape → Shape} (hname : ∀ s, (change s).name = s.name)
    (members nodes : List Shape) :
    (addMembers members nodes).map change =
      addMembers (members.map change) (nodes.map change) := by
  induction nodes generalizing members with
  | nil => rfl
  | cons node rest ih =>
    have hstep := ih (addMember members node)
    rw [map_addMember hname] at hstep
    exact hstep

/-- A node takes the place of the one of its name that was added just before. -/
theorem addMember_addMember_same (hname : node.name = some name) (hother : other.name = some name)
    (members : List Shape) :
    addMember (addMember members other) node = addMember members node := by
  induction members with
  | nil => exact addMember_cons_of_same hname hother
  | cons first rest ih =>
    by_cases hfirst : first.name = some name
    · rw [addMember_cons_of_same hother hfirst, addMember_cons_of_same hname hother,
        addMember_cons_of_same hname hfirst]
    · rw [addMember_cons_of_ne (.inl (hother ▸ hfirst)),
        addMember_cons_of_ne (.inl (hname ▸ hfirst)),
        addMember_cons_of_ne (.inl (hname ▸ hfirst)), ih]

/-- A node that has a place already takes it before or after a node of another name is added. -/
theorem addMember_comm (hname : node.name = some name) (hother : other.name ≠ some name)
    (hplace : name ∈ members.filterMap Shape.name) :
    addMember (addMember members other) node = addMember (addMember members node) other := by
  induction members with
  | nil => simp at hplace
  | cons first rest ih =>
    by_cases hfirst : first.name = some name
    · rw [addMember_cons_of_ne (.inl (hfirst ▸ hother.symm)), addMember_cons_of_same hname hfirst,
        addMember_cons_of_same hname hfirst, addMember_cons_of_ne (.inl (hname ▸ hother.symm))]
    · have hrest : name ∈ rest.filterMap Shape.name := by
        obtain ⟨m, hm, hsame⟩ := List.mem_filterMap.mp hplace
        rcases List.mem_cons.mp hm with rfl | hm
        · exact absurd hsame hfirst
        · exact List.mem_filterMap.mpr ⟨m, hm, hsame⟩
      by_cases htaken : other.name.isSome ∧ first.name = other.name
      · obtain ⟨taken, htakenName⟩ := Option.isSome_iff_exists.mp htaken.1
        rw [addMember_cons_of_same htakenName (htaken.2.trans htakenName),
          addMember_cons_of_ne (.inl (hname ▸ hother)),
          addMember_cons_of_ne (.inl (hname ▸ hfirst)),
          addMember_cons_of_same htakenName (htaken.2.trans htakenName)]
      · have hfree : first.name ≠ other.name ∨ other.name = none := by
          cases hcase : other.name with
          | none => exact .inr rfl
          | some own => exact .inl fun hsame => htaken ⟨by simp [hcase], hsame.trans hcase.symm⟩
        rw [addMember_cons_of_ne hfree, addMember_cons_of_ne (.inl (hname ▸ hfirst)),
          addMember_cons_of_ne (.inl (hname ▸ hfirst)), addMember_cons_of_ne hfree, ih hrest]

theorem mem_names_addMember_self (hname : node.name = some name) (members : List Shape) :
    name ∈ (addMember members node).filterMap Shape.name := by
  rw [names_addMember, hname]
  dsimp only
  split
  · assumption
  · simp

theorem mem_names_addMember (hname : name ∈ members.filterMap Shape.name) (node : Shape) :
    name ∈ (addMember members node).filterMap Shape.name := by
  rw [names_addMember]
  split
  · exact hname
  · split
    · exact hname
    · exact List.mem_append_left _ hname

/-- A node that has a place already takes it before or after nodes of other names are added. -/
theorem addMember_addMembers_comm (hname : node.name = some name)
    (hnodes : name ∉ nodes.filterMap Shape.name) (hplace : name ∈ members.filterMap Shape.name) :
    addMember (addMembers members nodes) node = addMembers (addMember members node) nodes := by
  induction nodes generalizing members with
  | nil => rfl
  | cons other rest ih =>
    have hother : other.name ≠ some name := fun h => hnodes (by simp [h])
    have hrest : name ∉ rest.filterMap Shape.name := fun h =>
      hnodes (((List.sublist_cons_self other rest).filterMap _).subset h)
    rw [addMembers_cons, addMembers_cons, ih hrest (mem_names_addMember hplace other),
      addMember_comm hname hother hplace]

/-- Adding one more node to gathered nodes, and then all of them to members, is adding it last. -/
theorem addMembers_addMember (hdistinct : (nodes.filterMap Shape.name).Nodup) (members : List Shape)
    (node : Shape) :
    addMembers members (addMember nodes node) = addMember (addMembers members nodes) node := by
  induction nodes generalizing members with
  | nil => rfl
  | cons first rest ih =>
    have hrest : (rest.filterMap Shape.name).Nodup :=
      hdistinct.sublist ((List.sublist_cons_self first rest).filterMap _)
    by_cases htakes : first.name ≠ node.name ∨ node.name = none
    · rw [addMember_cons_of_ne htakes, addMembers_cons, addMembers_cons, ih hrest]
    · obtain ⟨hsame, hnamed⟩ := not_or.mp htakes
      obtain ⟨name, hname⟩ := Option.ne_none_iff_exists'.mp hnamed
      have hfirst : first.name = some name := (not_not.mp hsame).trans hname
      have hnew : name ∉ rest.filterMap Shape.name := by
        rw [List.filterMap_cons_some hfirst] at hdistinct
        exact (List.nodup_cons.mp hdistinct).1
      rw [addMember_cons_of_same hname hfirst, addMembers_cons, addMembers_cons,
        addMember_addMembers_comm hname hnew (mem_names_addMember_self hfirst members),
        addMember_addMember_same hname hfirst]

theorem addMembers_gathered (hdistinct : (nodes.filterMap Shape.name).Nodup)
    (members more : List Shape) :
    addMembers members (addMembers nodes more) = addMembers (addMembers members nodes) more := by
  induction more generalizing nodes with
  | nil => rfl
  | cons node rest ih =>
    rw [addMembers_cons, addMembers_cons, ← addMembers_addMember hdistinct]
    have hone : ((addMembers nodes [node]).filterMap Shape.name).Nodup :=
      distinct_addMembers hdistinct
    exact ih hone

theorem addMembers_nil_addMembers (members more : List Shape) :
    addMembers members (addMembers [] more) = addMembers members more := by
  have hnone : (([] : List Shape).filterMap Shape.name).Nodup := List.nodup_nil
  exact addMembers_gathered hnone members more

end ViewSchema.Shape
