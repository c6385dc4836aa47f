import ViewSchema.Proofs.Shape.Formed

/-!
What holds of every node of a shape: of its top node, and of every node of its children. It is kept
where nodes are put together, when it holds of the new node on top.
-/

namespace ViewSchema.Shape

theorem walk_eq_cons (s : Shape) : s.walk = s :: walkList s.children := by
  cases s <;> simp [walk, children, walkList]

theorem mem_walkList {nodes : List Shape} {n : Shape} :
    n ∈ walkList nodes ↔ ∃ s ∈ nodes, n ∈ s.walk := by
  induction nodes with
  | nil => simp [walkList]
  | cons s rest ih => simp [walkList, ih]

/-- All nodes of a shape are its top node and those of its children. -/
theorem forall_mem_walk {P : Shape → Prop} (s : Shape) :
    (∀ n ∈ s.walk, P n) ↔ P s ∧ ∀ child ∈ s.children, ∀ n ∈ child.walk, P n := by
  rw [walk_eq_cons, List.forall_mem_cons]
  simp only [mem_walkList, forall_exists_index, and_imp]
  exact and_congr_right fun _ =>
    ⟨fun h child hchild n hn => h n child hchild hn, fun h n child hchild hn => h child hchild n hn⟩

mutual

theorem walk_mapFacts (change : Facts → Facts) : ∀ s : Shape,
    (s.mapFacts change).walk = s.walk.map (mapFacts change)
  | .simple _ => rfl
  | .object f members => by
    simp only [mapFacts, walk, List.map_cons, walkList_mapFactsList change members]
  | .array f isRoot items => by
    simp only [mapFacts, walk, List.map_cons, walkList_mapFactsList change items]
  | .reference f template bindings resolved nodes => by
    simp only [mapFacts, walk, List.map_cons, walkList_mapFactsList change nodes]
  | .bare _ => rfl

theorem walkList_mapFactsList (change : Facts → Facts) : ∀ nodes : List Shape,
    walkList (mapFactsList change nodes) = (walkList nodes).map (mapFacts change)
  | [] => rfl
  | s :: rest => by
    rw [mapFactsList, walkList, walkList, walk_mapFacts change s,
      walkList_mapFactsList change rest, List.map_append]

end

/-- The property holds of every node of the shape. -/
def Everywhere (P : Shape → Prop) (s : Shape) : Prop := ∀ n ∈ s.walk, P n

section Everywhere

variable {P : Shape → Prop} {f : Facts} {s : Shape}

theorem everywhere_iff :
    s.Everywhere P ↔ P s ∧ ∀ child ∈ s.children, child.Everywhere P :=
  forall_mem_walk s

theorem Everywhere.ofMembers {nodes : List Shape} (h : ∀ members, P (.object f members))
    (hnodes : ∀ n ∈ nodes, n.Everywhere P) : (ofMembers f nodes).Everywhere P := by
  refine everywhere_iff.mpr ⟨h _, fun child hchild => ?_⟩
  rcases mem_addMembers hchild with hnil | hnode
  · cases hnil
  · exact hnodes child hnode

theorem Everywhere.array {isRoot : Bool} {item : Shape} (h : P (.array f isRoot [item]))
    (hitem : item.Everywhere P) : (Shape.array f isRoot [item]).Everywhere P :=
  everywhere_iff.mpr ⟨h, List.forall_mem_singleton.mpr hitem⟩

theorem Everywhere.mapFacts {change : Facts → Facts} (hchange : ∀ n, P n → P (n.mapFacts change))
    (h : s.Everywhere P) : (s.mapFacts change).Everywhere P := by
  intro n hn
  rw [walk_mapFacts] at hn
  obtain ⟨before, hbefore, rfl⟩ := List.mem_map.mp hn
  exact hchange before (h before hbefore)

end Everywhere

end ViewSchema.Shape
