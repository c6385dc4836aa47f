import ViewSchema.Proofs.Walk.Congruence

/-!
Invariants of the nodes that a walk makes. There are few ways of making a node: a property from an
included template, from a block or from attributes, a root array from the same three, a single
attribute, and the marking of what a conditional gives. What each of these keeps holds of all nodes
of a walk, once it holds of the nodes that included templates give.
-/

namespace ViewSchema

open Template

namespace Site

/-- A property of nodes that every way of making nodes keeps. -/
structure Invariant (site : Site) (P : Shape → Prop) : Prop where
  attributes : ∀ args line, ∀ s ∈ site.attributes args line, P s
  ofIncluded : ∀ i {nodes : List Shape}, (∀ n ∈ nodes, P n) →
    P (ofIncluded (site.propertyFacts i) nodes)
  ofBlock : ∀ i hasParams {nodes : List Shape}, (∀ n ∈ nodes, P n) →
    P (ofBlock (site.propertyFacts i) hasParams nodes)
  ofAttributes : ∀ i {attributes : List Shape}, (∀ s ∈ attributes, P s) →
    P (ofAttributes (site.propertyFacts i) attributes)
  array : ∀ i {nodes : List Shape}, (∀ n ∈ nodes, P n) →
    P (.array (site.arrayFacts i) true [itemOf nodes])
  arrayOfAttributes : ∀ i {attributes : List Shape}, (∀ s ∈ attributes, P s) →
    P (arrayOfAttributes (site.arrayFacts i) attributes)
  marked : ∀ {s : Shape}, P s → P s.marked

variable {site : Site} {includer : Includer} {P : Shape → Prop}

/-- An includer gives nodes of a property only. -/
def Gives (includer : Includer) (P : Shape → Prop) : Prop :=
  ∀ name bindings line nodes, (includer name bindings line).result = .ok nodes → ∀ n ∈ nodes, P n

/-- Nodes of a property stand each before itself. -/
theorem forall₂_diagonal {nodes others : List Shape} :
    List.Forall₂ (fun s t => P s ∧ s = t) nodes others ↔ (∀ n ∈ nodes, P n) ∧ nodes = others := by
  rw [List.forall₂_and_left, List.forall₂_eq_eq_eq]

theorem Gives.matched (h : Gives includer P) :
    Matched (fun s t => P s ∧ s = t) includer includer :=
  fun name bindings line nodes hnodes =>
    ⟨nodes, hnodes, forall₂_diagonal.mpr ⟨h name bindings line nodes hnodes, rfl⟩⟩

namespace Invariant

/-- An invariant is a relation of every node to itself. -/
theorem congruence (hP : site.Invariant P) :
    site.Congruence (fun _ => True) fun s t => P s ∧ s = t where
  name h := by rw [h.2]
  attributes _ _ s hs := ⟨hP.attributes _ _ s hs, rfl⟩
  ofIncluded := by
    intro i _ _ nodes others h
    obtain ⟨hall, rfl⟩ := forall₂_diagonal.mp h
    exact ⟨hP.ofIncluded i hall, rfl⟩
  ofBlock := by
    intro i _ _ hasParams nodes others h
    obtain ⟨hall, rfl⟩ := forall₂_diagonal.mp h
    exact ⟨hP.ofBlock i hasParams hall, rfl⟩
  ofAttributes _ _ _ h := ⟨hP.ofAttributes _ fun s hs => (h s hs).1, rfl⟩
  array := by
    intro i _ _ nodes others h
    obtain ⟨hall, rfl⟩ := forall₂_diagonal.mp h
    exact ⟨hP.array i hall, rfl⟩
  arrayOfAttributes _ _ _ h := ⟨hP.arrayOfAttributes _ fun s hs => (h s hs).1, rfl⟩
  marked h := ⟨hP.marked h.1, by rw [h.2]⟩

/-- The nodes of a body keep an invariant. -/
theorem statements (hP : site.Invariant P) (hincluder : Gives includer P) (body : List Node)
    {members nodes : List Shape} (hmembers : ∀ m ∈ members, P m)
    (h : (site.statements includer members body).result = .ok nodes) : ∀ s ∈ nodes, P s := by
  have hfollowed := hP.congruence.statements hincluder.matched body
    (forall₂_diagonal.mpr ⟨hmembers, rfl⟩) fun _ _ => trivial
  obtain ⟨others, -, hall⟩ := hfollowed nodes h
  exact (forall₂_diagonal.mp hall).1

end Invariant

end Site
end ViewSchema
