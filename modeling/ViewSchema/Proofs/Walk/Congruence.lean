import ViewSchema.Proofs.Shape.Formed
import ViewSchema.Proofs.Walk.Calls
import ViewSchema.Proofs.Walk.Result

/-!
Walks over the same statements with two includers. A relation between nodes that every way of making
nodes keeps holds between the nodes of the two walks, one by one, once it holds between the nodes
that the includers give. What holds of the nodes of a single walk, and what two includers have in
common, are cases of this.
-/

namespace ViewSchema

open Template

namespace Walk

variable {α β γ δ : Type}

/-- What the first result gives has a counterpart in the second. -/
def Followed (R : α → β → Prop) (before : Except Failure α) (after : Except Failure β) : Prop :=
  ∀ a, before = .ok a → ∃ b, after = .ok b ∧ R a b

namespace Followed

variable {R : α → β → Prop} {S : γ → δ → Prop} {before : Except Failure α}
  {after : Except Failure β}

theorem ok {a : α} {b : β} (h : R a b) : Followed R (.ok a) (.ok b) := by
  rintro _ ⟨⟩
  exact ⟨b, rfl, h⟩

theorem error (failure : Failure) (after : Except Failure β) :
    Followed R (.error failure) after :=
  nofun

theorem map (h : Followed R before after) {f : α → γ} {g : β → δ}
    (hmap : ∀ a b, R a b → S (f a) (g b)) : Followed S (before.map f) (after.map g) := by
  intro c hc
  obtain ⟨a, ha, rfl⟩ := eq_of_map_ok hc
  obtain ⟨b, hb, hab⟩ := h a ha
  exact ⟨g b, by rw [hb]; rfl, hmap a b hab⟩

theorem bind (h : Followed R before after) {f : α → Except Failure γ} {g : β → Except Failure δ}
    (hnext : ∀ a b, R a b → Followed S (f a) (g b)) :
    Followed S (before.bind f) (after.bind g) := by
  intro c hc
  obtain ⟨a, ha, hc⟩ := eq_of_bind_ok hc
  obtain ⟨b, hb, hab⟩ := h a ha
  rw [hb]
  exact hnext a b hab c hc

end Followed

end Walk

namespace Shape

variable {R : Shape → Shape → Prop}

theorem forall₂_addMember (hname : ∀ {s t}, R s t → s.name = t.name) {members others : List Shape}
    {s t : Shape} (h : List.Forall₂ R members others) (hst : R s t) :
    List.Forall₂ R (addMember members s) (addMember others t) := by
  induction h with
  | nil => exact .cons hst .nil
  | cons hfirst hrest ih =>
    rw [addMember, addMember, hname hst, hname hfirst]
    split
    · exact .cons hst hrest
    · exact .cons hfirst ih

theorem forall₂_addMembers (hname : ∀ {s t}, R s t → s.name = t.name)
    {members others nodes images : List Shape} (h : List.Forall₂ R members others)
    (hnodes : List.Forall₂ R nodes images) :
    List.Forall₂ R (addMembers members nodes) (addMembers others images) := by
  induction hnodes generalizing members others with
  | nil => exact h
  | cons hst _ ih => exact ih (forall₂_addMember hname h hst)

end Shape

namespace Site

open Walk List

/-- A relation between nodes that every way of making nodes at the given calls keeps. -/
structure Congruence (site : Site) (Called : Invocation → Prop) (R : Shape → Shape → Prop) :
    Prop where
  name : ∀ {s t}, R s t → s.name = t.name
  attributes : ∀ {i}, Called i → i.call.kind site.settings.builder ∈
    [.property, .array, .extraction] → ∀ s ∈ site.attributes (i.args.drop 1) i.line, R s s
  ofIncluded : ∀ {i}, Called i → i.call.kind site.settings.builder = .property →
    ∀ {nodes others}, Forall₂ R nodes others →
      R (ofIncluded (site.propertyFacts i) nodes) (ofIncluded (site.propertyFacts i) others)
  ofBlock : ∀ {i}, Called i → i.call.kind site.settings.builder = .property →
    ∀ hasParams {nodes others}, Forall₂ R nodes others →
      R (ofBlock (site.propertyFacts i) hasParams nodes)
        (ofBlock (site.propertyFacts i) hasParams others)
  ofAttributes : ∀ {i}, Called i → i.call.kind site.settings.builder = .property →
    ∀ {attributes}, (∀ s ∈ attributes, R s s) →
      R (ofAttributes (site.propertyFacts i) attributes)
        (ofAttributes (site.propertyFacts i) attributes)
  array : ∀ {i}, Called i → (i.call.kind site.settings.builder = .array ∨
      i.call.kind site.settings.builder = .inclusion ∧ (i.option? "collection").isSome) →
    ∀ {nodes others}, Forall₂ R nodes others →
      R (.array (site.arrayFacts i) true [itemOf nodes])
        (.array (site.arrayFacts i) true [itemOf others])
  arrayOfAttributes : ∀ {i}, Called i → i.call.kind site.settings.builder = .array →
    ∀ {attributes}, (∀ s ∈ attributes, R s s) →
      R (arrayOfAttributes (site.arrayFacts i) attributes)
        (arrayOfAttributes (site.arrayFacts i) attributes)
  marked : ∀ {s t}, R s t → R s.marked t.marked

/-- The nodes that the first includer gives have counterparts among those of the second. -/
def Matched (R : Shape → Shape → Prop) (first second : Includer) : Prop :=
  ∀ name bindings line,
    Followed (Forall₂ R) (first name bindings line).result (second name bindings line).result

variable {site : Site} {Called : Invocation → Prop} {R : Shape → Shape → Prop}
  {first second : Includer}

theorem Matched.included (h : Matched R first second) (i : Invocation) :
    Followed (Forall₂ R) (site.included first i).result (site.included second i).result := by
  unfold Site.included
  split
  · exact .ok .nil
  · rw [result_bind, result_bind]
    cases i.bindings with
    | error failure => exact .error failure _
    | ok bindings => exact h _ bindings _

namespace Congruence

/-- No block twice, or two blocks whose nodes are related. -/
inductive Blocks (R : Shape → Shape → Prop) : Option Body → Option Body → Prop where
  | none : Blocks R none none
  | some (hasParams : Bool) {nodes others : Walk (List Shape)}
      (h : Followed (Forall₂ R) nodes.result others.result) :
    Blocks R (some ⟨hasParams, nodes⟩) (some ⟨hasParams, others⟩)

variable {body other : Option Body} {i : Invocation}

theorem same {nodes : List Shape} (h : ∀ s ∈ nodes, R s s) : Forall₂ R nodes nodes :=
  List.forall₂_same.mpr h

theorem property (hR : site.Congruence Called R) (h : Matched R first second)
    (hbody : Blocks R body other) (hi : Called i)
    (hkind : i.call.kind site.settings.builder = .property) :
    Followed R (site.property first i body).result (site.property second i other).result := by
  rw [result_property, result_property]
  split
  · exact (h.included i).map fun _ _ hnodes => hR.ofIncluded hi hkind hnodes
  · cases hbody with
    | none => exact .ok (hR.ofAttributes hi hkind (hR.attributes hi (by simp [hkind])))
    | some hasParams hnodes =>
      exact hnodes.map fun _ _ hnodes => hR.ofBlock hi hkind hasParams hnodes

theorem rootArray (hR : site.Congruence Called R) (h : Matched R first second)
    (hbody : Blocks R body other) (hi : Called i)
    (hkind : i.call.kind site.settings.builder = .array) :
    Followed R (site.array first i body).result (site.array second i other).result := by
  rw [result_array, result_array]
  split
  · exact (h.included i).map fun _ _ hnodes => hR.array hi (.inl hkind) hnodes
  · cases hbody with
    | none => exact .ok (hR.arrayOfAttributes hi hkind (hR.attributes hi (by simp [hkind])))
    | some hasParams hnodes =>
      exact hnodes.map fun _ _ hnodes => hR.array hi (.inl hkind) hnodes

theorem inclusion (hR : site.Congruence Called R) (h : Matched R first second) (hi : Called i)
    (hkind : i.call.kind site.settings.builder = .inclusion) :
    Followed (Forall₂ R) (site.inclusion first i).result (site.inclusion second i).result := by
  rw [result_inclusion, result_inclusion]
  refine (h.included i).map fun nodes others hnodes => ?_
  split
  · rename_i hcollection
    exact .cons (hR.array hi (.inr ⟨hkind, hcollection⟩) hnodes) .nil
  · exact hnodes

theorem call (hR : site.Congruence Called R) (h : Matched R first second)
    (hbody : Blocks R body other) {n : Node} (hn : ∀ i ∈ n.invoked, Called i) :
    Followed (Forall₂ R) (site.call first n body).result (site.call second n other).result := by
  cases hinvocation : n.invocation with
  | error fault =>
    unfold Site.call
    rw [hinvocation]
    exact .error _ _
  | ok i =>
    have hi : Called i := hn i (by simp [Node.invoked, hinvocation])
    rw [result_call _ _ hinvocation, result_call _ _ hinvocation]
    cases hkind : i.call.kind site.settings.builder with
    | array => exact (hR.rootArray h hbody hi hkind).map fun _ _ hst => .cons hst .nil
    | inclusion => exact hR.inclusion h hi hkind
    | extraction => exact .ok (same (hR.attributes hi (by simp [hkind])))
    | property => exact (hR.property h hbody hi hkind).map fun _ _ hst => .cons hst .nil
    | directive =>
      cases hbody with
      | none => exact .ok .nil
      | some hasParams hnodes => exact hnodes
    | other =>
      cases hbody with
      | none => exact .ok .nil
      | some hasParams hnodes => exact hnodes

mutual

/-- The nodes of a statement have related counterparts. The proof follows the statement tree. -/
theorem statement (hR : site.Congruence Called R) (h : Matched R first second) :
    ∀ (n : Node), (∀ i ∈ n.calls, Called i) →
      Followed (Forall₂ R) (site.statement first n).result (site.statement second n).result
  | .conditional _ _ branches extent, hn => by
    rw [Node.calls] at hn
    rw [result_conditional, result_conditional]
    refine (hR.branches h branches hn).map fun nodes others hnodes => ?_
    split
    · exact List.forall₂_map_left_iff.mpr
        (List.forall₂_map_right_iff.mpr (hnodes.imp fun _ _ hst => hR.marked hst))
    · exact hnodes
  | .block callee params body _, hn => by
    rw [Node.calls, List.forall_mem_append] at hn
    rw [Site.statement, Site.statement]
    exact hR.call h (.some _ (hR.statements h body .nil hn.2)) hn.1
  | .call c, hn => by
    rw [Node.calls] at hn
    rw [Site.statement, Site.statement]
    exact hR.call h .none hn
  | .expression parts _, hn => by
    rw [Node.calls] at hn
    rw [Site.statement, Site.statement]
    exact hR.parts h parts hn
  | .name .., _ => .ok .nil
  | .literal .., _ => .ok .nil
  | .hash .., _ => .ok .nil
  | .array .., _ => .ok .nil
  | .alien _, _ => .ok .nil

theorem statements (hR : site.Congruence Called R) (h : Matched R first second) :
    ∀ (body : List Node) {members others : List Shape}, Forall₂ R members others →
      (∀ i ∈ Node.bodyCalls body, Called i) →
        Followed (Forall₂ R) (site.statements first members body).result
          (site.statements second others body).result
  | [], _, _, hmembers, _ => .ok hmembers
  | n :: rest, members, others, hmembers, hbody => by
    rw [Node.bodyCalls, List.forall_mem_append] at hbody
    rw [result_statements_cons, result_statements_cons]
    exact (hR.statement h n hbody.1).bind fun nodes images hnodes =>
      hR.statements h rest (Shape.forall₂_addMembers hR.name hmembers hnodes) hbody.2

theorem branches (hR : site.Congruence Called R) (h : Matched R first second) :
    ∀ (branches : List (List Node)), (∀ i ∈ Node.branchCalls branches, Called i) →
      Followed (Forall₂ R) (site.branches first branches).result
        (site.branches second branches).result
  | [], _ => .ok .nil
  | body :: rest, hbranches => by
    rw [Node.branchCalls, List.forall_mem_append] at hbranches
    rw [result_branches_cons, result_branches_cons]
    exact (hR.statements h body .nil hbranches.1).bind fun nodes images hnodes =>
      (hR.branches h rest hbranches.2).map fun more others hmore => List.rel_append hnodes hmore

theorem parts (hR : site.Congruence Called R) (h : Matched R first second) :
    ∀ (parts : List Node), (∀ i ∈ Node.partCalls parts, Called i) →
      Followed (Forall₂ R) (site.parts first parts).result (site.parts second parts).result
  | [], _ => .ok .nil
  | n :: rest, hparts => by
    have hfirst := hR.statement h n
    have hrest := hR.parts h rest fun i hi => hparts i (Node.mem_partCalls_cons n hi)
    rw [result_parts_cons, result_parts_cons]
    refine Followed.bind ?_ fun nodes images hnodes =>
      hrest.map fun more others hmore => List.rel_append hnodes hmore
    -- Only blocks and conditionals are walked; every other part is passed over.
    cases n with
    | block => exact hfirst fun i hi => hparts i (by simp [Node.partCalls, hi])
    | conditional => exact hfirst fun i hi => hparts i (by simp [Node.partCalls, hi])
    | _ => exact .ok .nil

end

end Congruence

end Site
end ViewSchema
