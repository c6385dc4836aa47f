import ViewSchema.Walk.Statement

/-!
What a walk asks for. Which partial templates a walk over statements includes, and at which
malformed calls it stops, is settled by the statements alone; the nodes of the included templates
only decide how far the walk gets. So a walk fails exactly with the first failure among its
demands, in the order in which it comes to them.
-/

namespace ViewSchema

open Template

/-- Why a walk failed, if it did. -/
def Walk.failure? {α : Type} (w : Walk α) : Option Failure :=
  match w.result with
  | .error failure => some failure
  | .ok _ => none

namespace Walk

variable {α β : Type}

@[simp] theorem failure?_pure (a : α) : (pure a : Walk α).failure? = none := rfl

@[simp] theorem failure?_say (level : Level) (message : String) :
    (say level message).failure? = none := rfl

@[simp] theorem failure?_fail (failure : Failure) :
    (fail failure : Walk α).failure? = some failure :=
  rfl

@[simp] theorem failure?_settle (name : Option String) (w : Walk α) :
    (w.settle name).failure? = w.failure? := rfl

theorem failure?_eq_some_iff {w : Walk α} {failure : Failure} :
    w.failure? = some failure ↔ w.result = .error failure := by
  unfold failure?
  cases w.result <;> simp

theorem failure?_bind_of_ok {w : Walk α} {a : α} (h : w.result = .ok a) (next : α → Walk β) :
    (w >>= next).failure? = (next a).failure? := by
  change (w.andThen next).failure? = _
  unfold andThen failure?
  rw [h]

theorem failure?_bind_of_error {w : Walk α} {failure : Failure} (h : w.result = .error failure)
    (next : α → Walk β) : (w >>= next).failure? = some failure := by
  change (w.andThen next).failure? = _
  unfold andThen failure?
  rw [h]

/-- When the rest of a walk fails in the same way whatever it is given, the whole fails with the
first part or else with the rest. -/
theorem failure?_bind {w : Walk α} {next : α → Walk β} {rest : Option Failure}
    (h : ∀ a, (next a).failure? = rest) : (w >>= next).failure? = w.failure?.or rest := by
  cases hw : w.result with
  | error failure =>
    rw [failure?_bind_of_error hw]
    simp [failure?, hw]
  | ok a =>
    rw [failure?_bind_of_ok hw, h]
    simp [failure?, hw]

/-- A last step that cannot fail leaves the failure as it is. -/
theorem failure?_bind_safe {w : Walk α} {next : α → Walk β} (h : ∀ a, (next a).failure? = none) :
    (w >>= next).failure? = w.failure? := by
  rw [failure?_bind h, Option.or_none]

theorem failure?_bind_pure (w : Walk α) (f : α → β) :
    (w >>= fun a => pure (f a)).failure? = w.failure? :=
  failure?_bind_safe fun _ => rfl

end Walk

namespace Template.Invocation

theorem bindPairs_error {test : String → Bool} {bound : Record} {pairs : List (Node × Node)}
    {failure : Failure} (h : bindPairs test bound pairs = .error failure) :
    failure = .sourceless := by
  induction pairs generalizing bound with
  | nil => cases h
  | cons pair rest ih =>
    obtain ⟨key, value⟩ := pair
    rw [bindPairs] at h
    split at h
    · split at h
      · unfold sourceOf at h
        split at h
        · exact ih h
        · cases h
          rfl
      · exact ih h
    · exact ih h

/-- Bindings fail only for want of a source. -/
theorem bindings_error (i : Invocation) {failure : Failure} (h : i.bindings = .error failure) :
    failure = .sourceless := by
  unfold bindings at h
  split at h
  · cases h
  · simp only [bind, Except.bind] at h
    split at h
    · rename_i hlocals
      cases h
      exact bindPairs_error hlocals
    · split at h
      · rename_i hoptions
        cases h
        exact bindPairs_error hoptions
      · split at h
        · unfold sourceOf at h
          split at h
          · rename_i hsource
            split at hsource <;> cases hsource
            cases h
            rfl
          · cases h
        · cases h

end Template.Invocation

/-- A place of a walk at which it can stop: the inclusion of a partial template, a call that cannot
be walked, or an inclusion that binds a value without a source. -/
inductive Demand where
  | inclusion (template : String) (bindings : Record) (line : Option Int)
  | malformed (malformation : Malformation) (line : Option Int)
  | sourceless

namespace Demand

def failure? (includer : Includer) : Demand → Option Failure
  | .inclusion template bindings line => (includer template bindings line).failure?
  | .malformed malformation line => some (.malformed malformation line)
  | .sourceless => some .sourceless

/-- The failure of the first demand that has one. -/
def firstFailure? (includer : Includer) (demands : List Demand) : Option Failure :=
  demands.findSome? (failure? includer)

/-- A walk comes to a demand when no demand before it stops the walk. -/
def Met (includer : Includer) (demands : List Demand) (demand : Demand) : Prop :=
  ∃ before after, demands = before ++ demand :: after ∧
    ∀ earlier ∈ before, earlier.failure? includer = none

@[simp] theorem firstFailure?_nil (includer : Includer) : firstFailure? includer [] = none := rfl

theorem firstFailure?_append (includer : Includer) (first second : List Demand) :
    firstFailure? includer (first ++ second) =
      (firstFailure? includer first).or (firstFailure? includer second) :=
  List.findSome?_append

/-- A demand that is met and fails is where the walk stops. -/
theorem Met.firstFailure? {includer : Includer} {demands : List Demand} {demand : Demand}
    (h : Met includer demands demand) {failure : Failure}
    (hfailure : demand.failure? includer = some failure) :
    firstFailure? includer demands = some failure := by
  obtain ⟨before, after, rfl, hbefore⟩ := h
  have hnone : Demand.firstFailure? includer before = none :=
    List.findSome?_eq_none_iff.mpr hbefore
  rw [firstFailure?_append, hnone]
  simp [Demand.firstFailure?, hfailure]

/-- A walk that stops has met the demand at which it does. -/
theorem exists_met_of_firstFailure? {includer : Includer} {demands : List Demand}
    {failure : Failure} (h : firstFailure? includer demands = some failure) :
    ∃ demand, Met includer demands demand ∧ demand.failure? includer = some failure := by
  obtain ⟨before, demand, after, hsplit, hfailure, hbefore⟩ := List.findSome?_eq_some_iff.mp h
  exact ⟨demand, ⟨before, after, hsplit, hbefore⟩, hfailure⟩

end Demand

namespace Site

/-- The demand of a call that includes a partial template. -/
def includedDemands (i : Invocation) : List Demand :=
  match i.partialName? with
  | none => []
  | some template =>
    match i.bindings with
    | .error _ => [.sourceless]
    | .ok bindings => [.inclusion template bindings i.line]

/-- The demands of a call whose block, if it has one, makes the given demands. -/
def callDemands (site : Site) (n : Node) (body : List Demand) : List Demand :=
  match n.invocation with
  | .error (malformation, line) => [.malformed malformation line]
  | .ok i =>
    match i.call.kind site.settings.builder with
    | .array | .property => if i.call.hasPartialKey then includedDemands i else body
    | .inclusion => includedDemands i
    | .extraction => []
    | .directive | .other => body

mutual

/-- The demands of a statement. -/
def demands (site : Site) : Node → List Demand
  | .conditional _ _ branches _ => site.branchDemands branches
  | .block callee _ body _ => site.callDemands callee (site.bodyDemands body)
  | .call c => site.callDemands (.call c) []
  | .expression parts _ => site.partDemands parts
  | .name .. | .literal .. | .hash .. | .array .. | .alien _ => []

def bodyDemands (site : Site) : List Node → List Demand
  | [] => []
  | n :: rest => site.demands n ++ site.bodyDemands rest

def branchDemands (site : Site) : List (List Node) → List Demand
  | [] => []
  | body :: rest => site.bodyDemands body ++ site.branchDemands rest

/-- The demands of the blocks and conditionals among the parts of an expression. -/
def partDemands (site : Site) : List Node → List Demand
  | [] => []
  | n :: rest =>
    (match n with
      | .block .. | .conditional .. => site.demands n
      | _ => []) ++ site.partDemands rest

end

open Demand Walk

variable (site : Site) (includer : Includer)

theorem failure?_gather (members : List Shape) (node : Shape) :
    (site.gather members node).failure? = none := by
  unfold gather
  split
  · split <;> rfl
  · rfl

theorem failure?_gatherAll (members nodes : List Shape) :
    (site.gatherAll members nodes).failure? = none := by
  induction nodes generalizing members with
  | nil => rfl
  | cons node rest ih =>
    rw [gatherAll, failure?_bind ih, failure?_gather]
    rfl

theorem failure?_included (i : Invocation) :
    (site.included includer i).failure? = firstFailure? includer (includedDemands i) := by
  unfold included includedDemands
  cases i.partialName? with
  | none => rfl
  | some template =>
    cases hbindings : i.bindings with
    | error failure =>
      obtain rfl := i.bindings_error hbindings
      rfl
    | ok bindings =>
      change (ofExcept (.ok bindings) >>= fun b => includer template b i.line).failure? = _
      rw [failure?_bind_of_ok rfl]
      simp [firstFailure?, Demand.failure?]

theorem failure?_includedItem (i : Invocation) :
    (site.includedItem includer i).failure? = firstFailure? includer (includedDemands i) := by
  unfold includedItem itemOfBody
  rw [failure?_bind_pure, failure?_settle, failure?_included]

theorem failure?_ofBody (facts : Facts) (body : Walk (List Shape)) :
    (ofBody facts body).failure? = body.failure? := by
  unfold ofBody
  rw [failure?_bind_pure, failure?_settle]

theorem failure?_itemOfBody (body : Walk (List Shape)) :
    (itemOfBody body).failure? = body.failure? := by
  unfold itemOfBody
  rw [failure?_bind_pure, failure?_settle]

/-- A property call fails with the template it includes or else with its block. -/
theorem failure?_property (i : Invocation) (body : Option Body) :
    (site.property includer i body).failure? =
      if i.call.hasPartialKey then firstFailure? includer (includedDemands i)
      else body.bind fun b => b.nodes.failure? := by
  unfold property
  by_cases hpartial : i.call.hasPartialKey = true
  · simp only [hpartial, if_true]
    rw [failure?_bind_safe, failure?_includedItem]
    intro item
    split <;> rfl
  · simp only [hpartial, Bool.false_eq_true, if_false]
    cases body with
    | none =>
      simp only [Option.bind_none]
      split
      · rfl
      · split <;> rfl
    | some b =>
      simp only [Option.bind_some]
      split
      · rw [failure?_bind_pure, failure?_itemOfBody]
      · exact failure?_ofBody _ _

theorem failure?_array (i : Invocation) (body : Option Body) :
    (site.array includer i body).failure? =
      if i.call.hasPartialKey then firstFailure? includer (includedDemands i)
      else body.bind fun b => b.nodes.failure? := by
  unfold array
  by_cases hpartial : i.call.hasPartialKey = true
  · simp only [hpartial, if_true]
    rw [failure?_bind_pure, failure?_includedItem]
  · simp only [hpartial, Bool.false_eq_true, if_false]
    cases body with
    | none =>
      simp only [Option.bind_none]
      split <;> rfl
    | some b =>
      simp only [Option.bind_some]
      rw [failure?_bind_pure, failure?_itemOfBody]

theorem failure?_inclusion (i : Invocation) :
    (site.inclusion includer i).failure? = firstFailure? includer (includedDemands i) := by
  unfold inclusion
  split
  · simp only []
    rw [failure?_bind_pure, failure?_includedItem]
  · exact site.failure?_included includer i

/-- A call fails with the first of its demands that fails, where those of its block are given. -/
theorem failure?_call (n : Node) (body : Option Body) (inner : List Demand)
    (hbody : (body.bind fun b => b.nodes.failure?) = firstFailure? includer inner) :
    (site.call includer n body).failure? = firstFailure? includer (site.callDemands n inner) := by
  unfold call callDemands
  cases n.invocation with
  | error fault => rfl
  | ok i =>
    simp only []
    cases i.call.kind site.settings.builder with
    | array =>
      simp only []
      rw [failure?_bind_pure, failure?_array, hbody]
      split <;> rfl
    | inclusion => exact site.failure?_inclusion includer i
    | extraction => rfl
    | directive =>
      cases body with
      | none => simpa using hbody
      | some b => simpa using hbody
    | property =>
      simp only []
      rw [failure?_bind_pure, failure?_property, hbody]
      split <;> rfl
    | other =>
      cases body with
      | none => simpa using hbody
      | some b => simpa using hbody

mutual

/-- A statement fails with the first of its demands that fails. The proof follows the statement
tree, as the walk does. -/
theorem failure?_statement : ∀ n : Node,
    (site.statement includer n).failure? = firstFailure? includer (site.demands n)
  | .conditional _ _ branches _ => by
    rw [statement, demands, failure?_bind_safe, failure?_branches branches]
    intro nodes
    split <;> rfl
  | .block callee params body _ => by
    rw [statement, demands]
    apply failure?_call
    exact failure?_statements body []
  | .call c => by
    rw [statement, demands]
    exact site.failure?_call includer _ none [] rfl
  | .expression parts _ => by
    rw [statement, demands, failure?_parts parts]
  | .name .. => rfl
  | .literal .. => rfl
  | .hash .. => rfl
  | .array .. => rfl
  | .alien _ => rfl

theorem failure?_statements : ∀ (body : List Node) (members : List Shape),
    (site.statements includer members body).failure? =
      firstFailure? includer (site.bodyDemands body)
  | [], members => rfl
  | n :: rest, members => by
    rw [statements, bodyDemands, firstFailure?_append, ← failure?_statement n]
    apply failure?_bind
    intro nodes
    rw [failure?_bind (failure?_statements rest), failure?_gatherAll]
    rfl

theorem failure?_branches : ∀ branches : List (List Node),
    (site.branches includer branches).failure? =
      firstFailure? includer (site.branchDemands branches)
  | [] => rfl
  | body :: rest => by
    rw [Site.branches, branchDemands, firstFailure?_append, ← failure?_statements body []]
    apply failure?_bind
    intro nodes
    rw [failure?_bind_pure, failure?_branches rest]

theorem failure?_parts : ∀ parts : List Node,
    (site.parts includer parts).failure? = firstFailure? includer (site.partDemands parts)
  | [] => rfl
  | n :: rest => by
    have hfirst := failure?_statement n
    have hrest := failure?_parts rest
    have hjoin : ∀ nodes : List Shape,
        (site.parts includer rest >>= fun more => pure (nodes ++ more)).failure? =
          firstFailure? includer (site.partDemands rest) := by
      intro nodes
      rw [failure?_bind_pure, hrest]
    -- Only blocks and conditionals are walked; every other part is passed over.
    cases n with
    | block callee params body extent =>
      simp only [Site.parts, partDemands]
      rw [firstFailure?_append, ← hfirst]
      exact failure?_bind hjoin
    | conditional keyword condition branches extent =>
      simp only [Site.parts, partDemands]
      rw [firstFailure?_append, ← hfirst]
      exact failure?_bind hjoin
    | _ =>
      simp only [Site.parts, partDemands, List.nil_append]
      exact failure?_bind hjoin

end

end Site
end ViewSchema
