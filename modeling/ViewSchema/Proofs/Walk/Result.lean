import ViewSchema.Proofs.Shape.Everywhere
import ViewSchema.Walk.Statement

/-!
What a walk results in, leaving aside what it leaves in its account. Messages and names settled
later never change the nodes, so the result of each part of a walk is given by the results of its
parts alone.
-/

namespace ViewSchema

open Template

namespace Walk

variable {α β : Type}

@[simp] theorem result_pure (a : α) : (pure a : Walk α).result = .ok a := rfl

@[simp] theorem result_say (level : Level) (message : String) :
    (say level message).result = .ok () := rfl

@[simp] theorem result_settle (name : Option String) (w : Walk α) :
    (w.settle name).result = w.result := rfl

@[simp] theorem result_ofExcept (result : Except Failure α) : (ofExcept result).result = result :=
  rfl

@[simp] theorem result_bind (w : Walk α) (next : α → Walk β) :
    (w >>= next).result = w.result.bind fun a => (next a).result := by
  change (w.andThen next).result = _
  unfold andThen
  cases w.result <;> rfl

/-- A last step that only puts a result into another form. -/
theorem result_bind_pure (w : Walk α) (f : α → β) :
    (w >>= fun a => pure (f a)).result = w.result.map f := by
  rw [result_bind]
  cases w.result <;> rfl

theorem eq_of_map_ok {result : Except Failure α} {f : α → β} {b : β} (h : result.map f = .ok b) :
    ∃ a, result = .ok a ∧ f a = b := by
  cases result with
  | error failure => cases h
  | ok a => exact ⟨a, rfl, Except.ok.inj h⟩

theorem eq_of_bind_ok {result : Except Failure α} {next : α → Except Failure β} {b : β}
    (h : result.bind next = .ok b) : ∃ a, result = .ok a ∧ next a = .ok b := by
  cases result with
  | error failure => cases h
  | ok a => exact ⟨a, rfl, h⟩

theorem eq_of_toOption {ε : Type} {result : Except ε α} {a : α} (h : result.toOption = some a) :
    result = .ok a := by
  cases result with
  | error failure => cases h
  | ok b => exact congrArg Except.ok (Option.some.inj h)

theorem eq_of_toOption_map {result : Except Failure α} {f : α → β} {b : β}
    (h : result.toOption.map f = some b) : ∃ a, result = .ok a ∧ f a = b := by
  cases result with
  | error failure => cases h
  | ok a => exact ⟨a, rfl, Option.some.inj h⟩

end Walk

namespace Site

open Walk

variable (site : Site) (includer : Includer)

/-- Gathering nodes adds them one by one. -/
@[simp] theorem result_gather (members : List Shape) (node : Shape) :
    (site.gather members node).result = .ok (Shape.addMember members node) := by
  unfold gather
  split
  · split <;> rfl
  · rfl

@[simp] theorem result_gatherAll (members nodes : List Shape) :
    (site.gatherAll members nodes).result = .ok (Shape.addMembers members nodes) := by
  induction nodes generalizing members with
  | nil => rfl
  | cons node rest ih =>
    rw [gatherAll, result_bind, result_gather]
    exact ih _

theorem result_itemOfBody (body : Walk (List Shape)) :
    (itemOfBody body).result = body.result.map itemOf := by
  unfold itemOfBody
  rw [result_bind_pure, result_settle]

theorem result_includedItem (i : Invocation) :
    (site.includedItem includer i).result = (site.included includer i).result.map itemOf :=
  result_itemOfBody _

/-- The facts of the property that a call names. -/
def propertyFacts (i : Invocation) : Facts :=
  .new (some i.method) (site.comments.noteFor i.line) i.line

/-- The facts of the root array that a call emits. -/
def arrayFacts (i : Invocation) : Facts := .new none (site.comments.noteFor i.line) i.line

/-- The property that the nodes of an included template make: an array of them, or an object when
the note says so. -/
def ofIncluded (facts : Facts) (nodes : List Shape) : Shape :=
  if facts.note.schemaType == some "object" then .ofMembers facts (itemMembers (itemOf nodes))
  else .array facts false [itemOf nodes]

/-- The property that the nodes of its block make. -/
def ofBlock (facts : Facts) (hasParams : Bool) (nodes : List Shape) : Shape :=
  if hasParams then .array facts false [itemOf nodes] else enclosing facts nodes

def ofAttributes (facts : Facts) (attributes : List Shape) : Shape :=
  match attributes with
  | [] => .simple facts
  | attributes =>
    if facts.note.schemaType == some "array" then .array facts false [.ofMembers {} attributes]
    else .ofMembers facts attributes

def arrayOfAttributes (facts : Facts) (attributes : List Shape) : Shape :=
  match attributes with
  | [] => .array facts true []
  | attributes => .array facts true [.ofMembers {} attributes]

/-- What holds everywhere in an item template holds everywhere in the members it makes. -/
theorem everywhere_itemMembers {P : Shape → Prop} {item : Shape} (h : item.Everywhere P) :
    ∀ m ∈ itemMembers item, m.Everywhere P := by
  unfold itemMembers
  split
  · exact (Shape.everywhere_iff.mp h).2
  · exact List.forall_mem_singleton.mpr h

/-- A property is made of the template it includes, or else of its block, or else of attributes. -/
theorem result_property (i : Invocation) (body : Option Body) :
    (site.property includer i body).result =
      if i.call.hasPartialKey then
        (site.included includer i).result.map (ofIncluded (site.propertyFacts i))
      else match body with
        | some b => b.nodes.result.map (ofBlock (site.propertyFacts i) b.hasParams)
        | none =>
          .ok (ofAttributes (site.propertyFacts i) (site.attributes (i.args.drop 1) i.line)) := by
  unfold property
  by_cases hpartial : i.call.hasPartialKey = true
  · simp only [hpartial, if_true, result_bind, result_includedItem]
    cases (site.included includer i).result with
    | error failure => rfl
    | ok nodes =>
      simp only [Except.map, Except.bind, ofIncluded, propertyFacts, Facts.new]
      split
      · rename_i hobject
        simp [hobject]
      · rename_i hobject
        simp [hobject]
  · simp only [hpartial, Bool.false_eq_true, if_false]
    cases body with
    | none =>
      simp only [ofAttributes, propertyFacts, Facts.new]
      cases site.attributes (i.args.drop 1) i.line with
      | nil => rfl
      | cons first rest =>
        simp only []
        split
        · rename_i harray
          simp [harray]
        · rename_i harray
          simp [harray]
    | some b =>
      simp only []
      cases b.hasParams with
      | true =>
        simp only [if_true]
        rw [result_bind_pure, result_itemOfBody]
        cases b.nodes.result <;> rfl
      | false =>
        simp only [Bool.false_eq_true, if_false, ofBody]
        rw [result_bind_pure, result_settle]
        rfl

theorem name_enclosing (facts : Facts) (nodes : List Shape) :
    (enclosing facts nodes).name = facts.name ∧ (enclosing facts nodes).isArrayRoot = false := by
  unfold enclosing
  split <;> exact ⟨rfl, rfl⟩

theorem name_ofIncluded (facts : Facts) (nodes : List Shape) :
    (ofIncluded facts nodes).name = facts.name ∧
      (ofIncluded facts nodes).isArrayRoot = false := by
  unfold ofIncluded
  split <;> exact ⟨rfl, rfl⟩

theorem name_ofAttributes (facts : Facts) (attributes : List Shape) :
    (ofAttributes facts attributes).name = facts.name ∧
      (ofAttributes facts attributes).isArrayRoot = false := by
  unfold ofAttributes
  split
  · exact ⟨rfl, rfl⟩
  · split <;> exact ⟨rfl, rfl⟩

/-- The node of a property call has the name of the method and is no root array. -/
theorem name_property {i : Invocation} {body : Option Body} {s : Shape}
    (h : (site.property includer i body).result = .ok s) :
    s.name = some i.method ∧ s.isArrayRoot = false := by
  rw [result_property] at h
  split at h
  · obtain ⟨nodes, -, rfl⟩ := eq_of_map_ok h
    exact name_ofIncluded _ _
  · cases body with
    | none =>
      cases h
      exact name_ofAttributes _ _
    | some b =>
      obtain ⟨nodes, -, rfl⟩ := eq_of_map_ok h
      unfold ofBlock
      split
      · exact ⟨rfl, rfl⟩
      · exact name_enclosing _ _

/-- A root array is made of the template it includes, or else of its block, or else of
attributes. -/
theorem result_array (i : Invocation) (body : Option Body) :
    (site.array includer i body).result =
      if i.call.hasPartialKey then
        (site.included includer i).result.map fun nodes =>
          .array (site.arrayFacts i) true [itemOf nodes]
      else match body with
        | some b => b.nodes.result.map fun nodes => .array (site.arrayFacts i) true [itemOf nodes]
        | none =>
          .ok (arrayOfAttributes (site.arrayFacts i) (site.attributes (i.args.drop 1) i.line)) := by
  unfold array
  by_cases hpartial : i.call.hasPartialKey = true
  · simp only [hpartial, if_true]
    rw [result_bind_pure, result_includedItem]
    cases (site.included includer i).result <;> rfl
  · simp only [hpartial, Bool.false_eq_true, if_false]
    cases body with
    | none =>
      cases site.attributes (i.args.drop 1) i.line <;> rfl
    | some b =>
      simp only []
      rw [result_bind_pure, result_itemOfBody]
      cases b.nodes.result <;> rfl

/-- The node of an array call is a root array without a name. -/
theorem name_array {i : Invocation} {body : Option Body} {s : Shape}
    (h : (site.array includer i body).result = .ok s) :
    s.name = none ∧ s.isArrayRoot = true := by
  rw [result_array] at h
  split at h
  · obtain ⟨nodes, -, rfl⟩ := eq_of_map_ok h
    exact ⟨rfl, rfl⟩
  · cases body with
    | none =>
      cases h
      unfold arrayOfAttributes
      split <;> exact ⟨rfl, rfl⟩
    | some b =>
      obtain ⟨nodes, -, rfl⟩ := eq_of_map_ok h
      exact ⟨rfl, rfl⟩

theorem result_inclusion (i : Invocation) :
    (site.inclusion includer i).result =
      (site.included includer i).result.map fun nodes =>
        if (i.option? "collection").isSome then [.array (site.arrayFacts i) true [itemOf nodes]]
        else nodes := by
  unfold inclusion
  by_cases hcollection : (i.option? "collection").isSome = true
  · simp only [hcollection, if_true]
    rw [result_bind_pure, result_includedItem]
    cases (site.included includer i).result <;> rfl
  · simp only [hcollection, Bool.false_eq_true, if_false]
    cases (site.included includer i).result <;> rfl

/-- The result of a call, by the kind of the call. -/
theorem result_call {n : Node} {i : Invocation} (h : n.invocation = .ok i) (body : Option Body) :
    (site.call includer n body).result =
      match i.call.kind site.settings.builder with
      | .array => (site.array includer i body).result.map fun s => [s]
      | .inclusion => (site.inclusion includer i).result
      | .extraction => .ok (site.attributes (i.args.drop 1) i.line)
      | .property => (site.property includer i body).result.map fun s => [s]
      | .directive | .other =>
        match body with
        | some b => b.nodes.result
        | none => .ok [] := by
  unfold call
  rw [h]
  simp only []
  cases i.call.kind site.settings.builder with
  | array => exact result_bind_pure _ _
  | property => exact result_bind_pure _ _
  | inclusion => rfl
  | extraction => rfl
  | directive => cases body <;> rfl
  | other => cases body <;> rfl

theorem result_conditional (keyword : String) (condition : Option Node)
    (branches : List (List Node)) (extent : Extent) :
    (site.statement includer (.conditional keyword condition branches extent)).result =
      (site.branches includer branches).result.map fun nodes =>
        if site.comments.marks extent.line then nodes.map Shape.marked else nodes := by
  rw [statement]
  simp only [result_bind]
  cases (site.branches includer branches).result with
  | error failure => rfl
  | ok nodes =>
    cases hmarks : site.comments.marks extent.line <;> simp [Except.bind, Except.map]

theorem result_parts_cons (n : Node) (rest : List Node) :
    (site.parts includer (n :: rest)).result =
      (match n with
        | .block .. | .conditional .. => (site.statement includer n).result
        | _ => .ok []).bind fun nodes =>
          (site.parts includer rest).result.map (nodes ++ ·) := by
  have hjoin : ∀ w : Walk (List Shape),
      (w >>= fun nodes => site.parts includer rest >>= fun more => pure (nodes ++ more)).result =
        w.result.bind fun nodes => (site.parts includer rest).result.map (nodes ++ ·) := by
    intro w
    rw [result_bind]
    congr 1
    funext nodes
    exact result_bind_pure _ _
  cases n <;> simp only [Site.parts] <;> exact hjoin _

theorem result_statements_cons (n : Node) (rest : List Node) (members : List Shape) :
    (site.statements includer members (n :: rest)).result =
      (site.statement includer n).result.bind fun nodes =>
        (site.statements includer (Shape.addMembers members nodes) rest).result := by
  rw [statements]
  simp only [result_bind, result_gatherAll]
  rfl

theorem result_branches_cons (body : List Node) (rest : List (List Node)) :
    (site.branches includer (body :: rest)).result =
      (site.statements includer [] body).result.bind fun nodes =>
        (site.branches includer rest).result.map (nodes ++ ·) := by
  rw [Site.branches, result_bind]
  congr 1
  funext nodes
  exact result_bind_pure _ _

end Site
end ViewSchema
