import ViewSchema.Proofs.Template.Sound
import ViewSchema.Proofs.Walk.Callees

/-!
Loose trees. Anything may stand among the statements of a body and in the place of a block's call,
and a call may lack its method name or its argument list, wherever it stands. Apart from that, a
node stands wherever one belongs, and so every value that a call binds has a source. Sound trees are
loose.
-/

namespace ViewSchema

open Template

namespace Template

namespace Node

/-- It is no alien value. -/
def IsNode (n : Node) : Prop := n.extent?.isSome

/-- A node whose arguments, elements and parts are nodes, and so on; its calls may be malformed. -/
inductive Loose : Node → Prop
  | name (identifier : String) (e : Extent) : Loose (.name identifier e)
  | literal (kind : LiteralKind) (value : Value) (dynamic : Bool) (e : Extent) :
      Loose (.literal kind value dynamic e)
  | hash {pairs : List (Node × Node)} (e : Extent) (hkeys : ∀ p ∈ pairs, Loose p.1)
      (hvalues : ∀ p ∈ pairs, Loose p.2) : Loose (.hash pairs e)
  | array {elements : List Node} (e : Extent) (helements : ∀ n ∈ elements, Loose n) :
      Loose (.array elements e)
  | expression {parts : List Node} (e : Extent) (hparts : ∀ n ∈ parts, Loose n) :
      Loose (.expression parts e)
  | call {c : Call} (hreceiver : ∀ n ∈ c.receiver, Loose n)
      (hargs : ∀ n ∈ c.args.toList, Loose n) : Loose (.call c)
  | block {callee : Node} (params : List String) {body : List Node} (e : Extent)
      (hcallee : callee.IsNode → Loose callee) (hbody : ∀ n ∈ body, n.IsNode → Loose n) :
      Loose (.block callee params body e)
  | conditional (keyword : String) {condition : Option Node} {branches : List (List Node)}
      (e : Extent) (hcondition : ∀ n ∈ condition, Loose n)
      (hbranches : ∀ b ∈ branches, ∀ n ∈ b, n.IsNode → Loose n) :
      Loose (.conditional keyword condition branches e)

theorem Sound.loose {n : Node} (h : n.Sound) : n.Loose := by
  induction h with
  | name identifier => exact .name identifier _
  | literal kind value dynamic => exact .literal kind value dynamic _
  | hash _ _ _ ihkeys ihvalues => exact .hash _ ihkeys ihvalues
  | array _ _ ihelements => exact .array _ ihelements
  | expression _ _ ihparts => exact .expression _ ihparts
  | call method _ _ _ ihreceiver ihargs => exact .call ihreceiver ihargs
  | block params _ _ _ ihcall ihbody =>
    exact .block params _ (fun _ => ihcall) fun n hn _ => ihbody n hn
  | conditional keyword _ _ _ ihcondition ihbranches =>
    exact .conditional keyword _ ihcondition fun b hb n hn _ => ihbranches b hb n hn

theorem Loose.exists_extent {n : Node} (h : n.Loose) : ∃ e, n.extent? = some e := by
  cases h <;> exact ⟨_, rfl⟩

theorem Loose.values {n : Node} (h : n.Loose) {pairs : List (Node × Node)}
    (hpairs : n.hashPairs? = some pairs) : ∀ p ∈ pairs, p.2.Loose := by
  cases h with
  | hash _ _ hvalues =>
    cases hpairs
    exact hvalues
  | _ => cases hpairs

end Node

namespace Invocation

theorem exists_sourceOf {n : Node} (h : n.Loose) : ∃ s, sourceOf n = .ok s := by
  obtain ⟨e, he⟩ := h.exists_extent
  unfold sourceOf
  rw [he]
  exact ⟨_, rfl⟩

theorem exists_bindPairs {pairs : List (Node × Node)} (h : ∀ p ∈ pairs, p.2.Loose)
    (test : String → Bool) (bound : Record) : ∃ r, bindPairs test bound pairs = .ok r := by
  induction pairs generalizing bound with
  | nil => exact ⟨bound, rfl⟩
  | cons pair rest ih =>
    obtain ⟨key, value⟩ := pair
    have hrest := fun bound => ih (fun p hp => h p (List.mem_cons_of_mem _ hp)) bound
    obtain ⟨s, hs⟩ := exists_sourceOf (h (key, value) List.mem_cons_self)
    rw [bindPairs]
    split
    · split
      · rw [hs]
        exact hrest _
      · exact hrest _
    · exact hrest _

section Arguments

variable {i : Invocation} (h : ∀ n ∈ i.args, n.Loose)

include h

theorem loose_of_options {pairs : List (Node × Node)} (hpairs : i.options? = some pairs) :
    ∀ p ∈ pairs, p.2.Loose := by
  obtain ⟨n, hn, hfound⟩ := List.exists_of_findSome?_eq_some hpairs
  exact (h n hn).values hfound

theorem loose_of_option {key : String} {n : Node} (hn : i.option? key = some n) : n.Loose := by
  obtain ⟨pairs, hpairs, hvalue⟩ := Option.bind_eq_some_iff.mp hn
  obtain ⟨p, hp, hpresent⟩ := Option.bind_eq_some_iff.mp hvalue
  have hloose := loose_of_options h hpairs p (List.mem_of_find?_eq_some hp)
  unfold Node.present? at hpresent
  split at hpresent
  · cases hpresent
  · cases hpresent
    exact hloose

theorem loose_of_collection {n : Node} (hn : i.collection? = some n) : n.Loose := by
  unfold collection? at hn
  rcases Option.or_eq_some_iff.mp hn with hoption | ⟨-, hfirst⟩
  · exact loose_of_option h hoption
  · split at hfirst
    · cases hfirst
    · obtain ⟨first, hhead, hfirst⟩ := Option.bind_eq_some_iff.mp hfirst
      have hloose := h first (List.mem_of_mem_head? hhead)
      split at hfirst
      · cases hfirst
      · unfold Node.present? at hfirst
        split at hfirst
        · cases hfirst
        · cases hfirst
          exact hloose

/-- Every value that a call with loose arguments binds has a source. -/
theorem exists_bindings : ∃ r, i.bindings = .ok r := by
  unfold bindings
  cases hoptions : i.options? with
  | none => exact ⟨[], rfl⟩
  | some pairs =>
    have hlocals : ∀ p ∈ ((i.option? "locals").bind Node.hashPairs?).getD [], p.2.Loose := by
      cases hhash : (i.option? "locals").bind Node.hashPairs? with
      | none => nofun
      | some found =>
        obtain ⟨n, hn, hfound⟩ := Option.bind_eq_some_iff.mp hhash
        exact (loose_of_option h hn).values hfound
    obtain ⟨bound, hbound⟩ := exists_bindPairs hlocals (fun _ => true) []
    obtain ⟨all, hall⟩ := exists_bindPairs (loose_of_options h hoptions)
      (fun name => !optionKeys.contains name) bound
    dsimp only
    rw [hbound]
    simp only [bind, Except.bind, hall]
    split
    · rename_i collection _ hcollection
      obtain ⟨s, hs⟩ := exists_sourceOf (loose_of_collection h hcollection)
      rw [hs]
      exact ⟨_, rfl⟩
    · exact ⟨_, rfl⟩

end Arguments

end Invocation

/-- A node that can be walked as a call is one, with its method name and its arguments. -/
theorem Node.call_of_invocation {n : Node} {i : Invocation} (h : n.invocation = .ok i) :
    ∃ c, n = .call c ∧ c.args = .list i.args := by
  unfold invocation at h
  split at h
  · rename_i c
    split at h
    · cases h
    · cases h
    · rename_i hargs
      cases h
      exact ⟨c, rfl, hargs⟩
    · cases h
  · cases h

end Template

namespace Site

variable (site : Site)

theorem sourceless_not_mem_includedDemands {i : Invocation} (h : ∀ n ∈ i.args, n.Loose) :
    .sourceless ∉ includedDemands i := by
  obtain ⟨bindings, hbindings⟩ := Invocation.exists_bindings h
  unfold includedDemands
  rw [hbindings]
  split <;> simp

theorem sourceless_not_mem_ownDemands {callee : Node} (h : callee.IsNode → callee.Loose) :
    .sourceless ∉ site.ownDemands callee := by
  intro hmem
  rcases site.mem_ownDemands hmem with ⟨_, _, -, hmalformed⟩ | ⟨i, hi, hincluded⟩
  · cases hmalformed
  · obtain ⟨c, rfl, hc⟩ := Node.call_of_invocation hi
    cases h rfl with
    | call _ hargs =>
      rw [hc] at hargs
      exact sourceless_not_mem_includedDemands hargs hincluded

theorem descends_loose : Descends (fun n => n.IsNode → n.Loose) fun n => n.IsNode → n.Loose where
  call h := h
  callee h := by
    cases h rfl with
    | block _ _ hcallee _ => exact hcallee
  body h := by
    cases h rfl with
    | block _ _ _ hbody => exact hbody
  branches h := by
    cases h rfl with
    | conditional _ _ _ hbranches => exact hbranches
  parts h := by
    cases h rfl with
    | expression _ hparts => exact fun n hn _ => hparts n hn

/-- The walk over a loose body binds no value without a source. -/
theorem sourceless_not_mem_bodyDemands {body : List Node} (h : ∀ n ∈ body, n.IsNode → n.Loose) :
    .sourceless ∉ site.bodyDemands body := by
  rw [bodyDemands_eq, List.mem_flatMap]
  rintro ⟨callee, hcallee, hdemand⟩
  have hloose := descends_loose.bodyCallees site body h callee hcallee
  exact site.sourceless_not_mem_ownDemands hloose hdemand

end Site
end ViewSchema
