import ViewSchema.Proofs.Walk.Invariant

/-!
Walks make formed shapes. A block that makes an item leaves it without a name, a root array that
becomes a property keeps one item at most, and whatever is put together as an object has members of
distinct names.
-/

namespace ViewSchema

open Template

namespace Site

variable {site : Site}

theorem formed_blank_ofMembers {nodes : List Shape} (h : ∀ n ∈ nodes, n.Formed) :
    (Shape.ofMembers {} nodes).Formed :=
  Shape.Formed.ofMembers (fun hnote => by cases hnote) h

theorem formed_itemOf {nodes : List Shape} (h : ∀ n ∈ nodes, n.Formed) :
    (itemOf nodes).Formed ∧ (itemOf nodes).name = none := by
  unfold itemOf
  split
  · rename_i f items
    have harray := h _ List.mem_cons_self
    have hname : f.name = none := harray.name_of_isArrayRoot rfl
    cases harray with
    | array hconditional _ hone hunnamed hitems =>
      exact ⟨.array hconditional (fun _ => hname) hone hunnamed hitems, hname⟩
  · exact ⟨formed_blank_ofMembers h, rfl⟩

theorem formed_arrayOf {f : Facts} {isRoot : Bool} {item : Shape}
    (hconditional : f.note.conditional → f.conditional) (hroot : isRoot → f.name = none)
    (hitem : item.Formed ∧ item.name = none) : (Shape.array f isRoot [item]).Formed :=
  .array hconditional hroot (Nat.le_refl 1) (by simpa using hitem.2) (by simpa using hitem.1)

/-- The flag of a collapsed array comes from the note that stays on it. -/
theorem formed_collapsed (facts : Facts) {inner : Facts} {items : List Shape}
    (h : (Shape.array inner true items).Formed) : (collapsed facts inner items).Formed := by
  cases h with
  | array hinner _ hone hunnamed hitems =>
    refine .array ?_ (fun hroot => by cases hroot) hone hunnamed hitems
    simp only []
    cases facts.note.annotated || !inner.note.annotated with
    | true =>
      intro hnote
      simpa using .inr hnote
    | false =>
      intro hnote
      simpa using hinner hnote

theorem formed_asItems {s : Shape} (h : s.Formed) : (asItems s).Formed := by
  unfold asItems
  split
  · cases h with
    | array hconditional _ hone hunnamed hitems =>
      exact .array hconditional (fun hroot => by cases hroot) hone hunnamed hitems
  · exact h

theorem formed_enclosing {f : Facts} (hconditional : f.note.conditional → f.conditional)
    {nodes : List Shape} (h : ∀ n ∈ nodes, n.Formed) : (enclosing f nodes).Formed := by
  unfold enclosing
  split
  · exact formed_collapsed f (h _ List.mem_cons_self)
  · refine Shape.Formed.ofMembers hconditional ?_
    intro m hm
    obtain ⟨before, hbefore, rfl⟩ := List.mem_map.mp hm
    exact formed_asItems (h before hbefore)

theorem formed_itemMembers {item : Shape} (h : item.Formed) :
    ∀ m ∈ itemMembers item, m.Formed := by
  unfold itemMembers
  split
  · exact h.members
  · simpa using h

/-- Every way of making a node keeps shapes formed. -/
theorem formed_invariant (site : Site) : site.Invariant Shape.Formed where
  attributes := by
    intro args line s hs
    obtain ⟨name, -, rfl⟩ := List.mem_map.mp hs
    exact .simple id
  ofIncluded := by
    intro i nodes h
    unfold ofIncluded
    split
    · exact Shape.Formed.ofMembers id (formed_itemMembers (formed_itemOf h).1)
    · exact formed_arrayOf id (fun hroot => by cases hroot) (formed_itemOf h)
  ofBlock := by
    intro i hasParams nodes h
    unfold ofBlock
    split
    · exact formed_arrayOf id (fun hroot => by cases hroot) (formed_itemOf h)
    · exact formed_enclosing id h
  ofAttributes := by
    intro i attributes h
    unfold ofAttributes
    split
    · exact .simple id
    · split
      · exact formed_arrayOf id (fun hroot => by cases hroot) ⟨formed_blank_ofMembers h, rfl⟩
      · exact Shape.Formed.ofMembers id h
  array := by
    intro i nodes h
    exact formed_arrayOf id (fun _ => rfl) (formed_itemOf h)
  arrayOfAttributes := by
    intro i attributes h
    unfold arrayOfAttributes
    split
    · exact .array id (fun _ => rfl) (Nat.zero_le 1) (by simp) (by simp)
    · exact formed_arrayOf id (fun _ => rfl) ⟨formed_blank_ofMembers h, rfl⟩
  marked := fun h => h.marked

end Site
end ViewSchema
