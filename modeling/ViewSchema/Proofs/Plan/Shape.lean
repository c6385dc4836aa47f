import ViewSchema.Proofs.Plan.Lines
import ViewSchema.Proofs.Shape.Formed
import ViewSchema.Proofs.Shape.Listing

/-!
The shapes that a plan asks for, and their schemas. The schema of the shapes of a block is the one
that is read off the plan.
-/

namespace ViewSchema

namespace Plan

/-- The note that the comment of a property makes. -/
def noteOf (name : PropertyName) (type : String) : Note :=
  { typeName := some type, fieldName := some name.text }

/-- The facts of a property whose statement stands on a line. -/
def factsOf (conditional : Bool) (name : PropertyName) (type : String) (line : Nat) : Facts :=
  { name := some name.text, note := noteOf name type, conditional, line := some (line : Int) }

mutual

/-- The shapes that a part brings into its block when its template starts on a line. -/
def shapes (conditional : Bool) (line : Nat) : Plan → List Shape
  | .value name type => [.simple (factsOf conditional name type.word (line + 1))]
  | .object name body =>
    [.object (factsOf conditional name "object" (line + 1))
      (blockShapes conditional (line + 2) body)]
  | .array name body =>
    [.array (factsOf conditional name "array" (line + 1)) false
      [.object { conditional } (blockShapes conditional (line + 2) body)]]
  | .conditional body => blockShapes true (line + 2) body

def blockShapes (conditional : Bool) (line : Nat) : List Plan → List Shape
  | [] => []
  | p :: rest => shapes conditional line p ++ blockShapes conditional (line + height p) rest

end

mutual

/-- Every shape of a plan has a name and is no root array. -/
theorem map_name_shapes (conditional : Bool) (line : Nat) :
    ∀ p : Plan, (shapes conditional line p).map Shape.name = (names p).map some
  | .value .. | .object .. | .array .. => rfl
  | .conditional body => map_name_blockShapes true (line + 2) body

theorem map_name_blockShapes (conditional : Bool) (line : Nat) :
    ∀ plans : List Plan,
      (blockShapes conditional line plans).map Shape.name = (blockNames plans).map some
  | [] => rfl
  | p :: rest => by
    rw [blockShapes, blockNames, List.map_append, List.map_append,
      map_name_shapes conditional line p, map_name_blockShapes conditional _ rest]

end

mutual

theorem isArrayRoot_shapes (conditional : Bool) (line : Nat) :
    ∀ p : Plan, ∀ s ∈ shapes conditional line p, s.isArrayRoot = false
  | .value .. | .object .. | .array .. => by simp [shapes, Shape.isArrayRoot]
  | .conditional body => isArrayRoot_blockShapes true (line + 2) body

theorem isArrayRoot_blockShapes (conditional : Bool) (line : Nat) :
    ∀ plans : List Plan, ∀ s ∈ blockShapes conditional line plans, s.isArrayRoot = false
  | [] => by simp [blockShapes]
  | p :: rest => by
    intro s hs
    rcases List.mem_append.mp hs with hp | hrest
    · exact isArrayRoot_shapes conditional line p s hp
    · exact isArrayRoot_blockShapes conditional _ rest s hrest

end

mutual

/-- Marking the shapes of a part makes all of them conditional. -/
theorem map_marked_shapes (conditional : Bool) (line : Nat) :
    ∀ p : Plan, (shapes conditional line p).map Shape.marked = shapes true line p
  | .value .. => rfl
  | .object name body => by
    have hbody := map_marked_blockShapes conditional (line + 2) body
    simp only [shapes, List.map_cons, List.map_nil, Shape.marked, Shape.mapFacts,
      Shape.mapFactsList_eq_map]
    exact congrArg (fun members => [Shape.object _ members]) hbody
  | .array name body => by
    have hbody := map_marked_blockShapes conditional (line + 2) body
    simp only [shapes, List.map_cons, List.map_nil, Shape.marked, Shape.mapFacts,
      Shape.mapFactsList_eq_map]
    exact congrArg (fun members => [Shape.array _ false [Shape.object _ members]]) hbody
  | .conditional body => map_marked_blockShapes true (line + 2) body

theorem map_marked_blockShapes (conditional : Bool) (line : Nat) :
    ∀ plans : List Plan,
      (blockShapes conditional line plans).map Shape.marked = blockShapes true line plans
  | [] => rfl
  | p :: rest => by
    rw [blockShapes, blockShapes, List.map_append, map_marked_shapes conditional line p,
      map_marked_blockShapes conditional _ rest]

end

theorem filterMap_name_shapes (conditional : Bool) (line : Nat) (p : Plan) :
    (shapes conditional line p).filterMap Shape.name = names p := by
  have hnames := congrArg (List.filterMap id) (map_name_shapes conditional line p)
  simpa [List.filterMap_map] using hnames

theorem filterMap_name_blockShapes (conditional : Bool) (line : Nat) (plans : List Plan) :
    (blockShapes conditional line plans).filterMap Shape.name = blockNames plans := by
  have hnames := congrArg (List.filterMap id) (map_name_blockShapes conditional line plans)
  simpa [List.filterMap_map] using hnames

/-- The name of a shape that is always there. -/
def requiredName (s : Shape) : Option String := if s.isRequired then s.name else none

mutual

theorem requiredName_shapes (line : Nat) :
    ∀ p : Plan, (shapes true line p).filterMap requiredName = []
  | .value .. | .object .. | .array .. => by
    simp [shapes, requiredName, Shape.isRequired, Shape.facts, factsOf, Facts.isRequired]
  | .conditional body => requiredName_blockShapes (line + 2) body

theorem requiredName_blockShapes (line : Nat) :
    ∀ plans : List Plan, (blockShapes true line plans).filterMap requiredName = []
  | [] => rfl
  | p :: rest => by
    rw [blockShapes, List.filterMap_append, requiredName_shapes line p,
      requiredName_blockShapes _ rest]
    rfl

end

/-- What is always there among the shapes of a block is what the plan requires. -/
theorem filterMap_requiredName_blockShapes (conditional : Bool) (line : Nat) (plans : List Plan) :
    (blockShapes conditional line plans).filterMap requiredName =
      requiredNames conditional plans := by
  induction plans generalizing line with
  | nil => rfl
  | cons p rest ih =>
    rw [blockShapes, List.filterMap_append, ih]
    cases p with
    | conditional body =>
      have hbody := requiredName_blockShapes (line + 2) body
      rw [shapes, hbody]
      rfl
    | _ =>
      cases conditional <;>
        simp [shapes, requiredName, requiredNames, Shape.isRequired, Shape.facts, Shape.name,
          factsOf, noteOf, Facts.isRequired, Note.isRequired]

/-- The fields of an object without anything of its own are those that the plan lists. -/
theorem objectSchema_eq {n : Note} (hfields : n.schemaFields = []) (properties : Record)
    (required : List String) :
    Shape.objectSchema n properties required = objectSchema properties required := by
  unfold Shape.objectSchema objectSchema nonEmptyField
  rw [hfields]
  cases properties <;> cases required <;> rfl

theorem schemaFields_noteOf (name : PropertyName) (type : String) :
    (noteOf name type).schemaFields = [] := rfl

theorem simpleSchema_noteOf (name : PropertyName) (type : Scalar) :
    (noteOf name type.word).simpleSchema = [("type", .text type.word)] := by
  cases type <;> rfl

/-- The schema of the shapes of a block, put into an object. -/
theorem schema_blockShapes (conditional : Bool) (line : Nat) {f : Facts}
    (hfields : f.note.schemaFields = []) {plans : List Plan} {properties : Record}
    (hdistinct : (blockNames plans).Nodup)
    (hmembers : Shape.memberSchemas (blockShapes conditional line plans) = properties) :
    (Shape.object f (blockShapes conditional line plans)).schema =
      blockSchema conditional plans properties := by
  have hnames : ((blockShapes conditional line plans).filterMap Shape.name).Nodup := by
    rw [filterMap_name_blockShapes]
    exact hdistinct
  have hmapped : ((blockShapes conditional line plans).map Shape.name).Nodup := by
    rw [map_name_blockShapes]
    exact hdistinct.map fun _ _ h => Option.some.inj h
  have hrequired : ViewSchema.requiredNames (blockShapes conditional line plans) =
      requiredNames conditional plans :=
    (requiredNames_of_distinct hnames).trans
      (filterMap_requiredName_blockShapes conditional line plans)
  rw [Shape.schema_object, Shape.ofEntries_memberSchemas hmapped, hmembers, hrequired]
  exact objectSchema_eq hfields properties _

mutual

/-- The schemas of the shapes of a part are the properties that the plan lists. -/
theorem memberSchemas_shapes (conditional : Bool) (line : Nat) :
    ∀ p : Plan, p.isDistinct →
      Shape.memberSchemas (shapes conditional line p) = properties conditional p
  | .value name type, _ => by
    have hsimple := simpleSchema_noteOf name type
    exact congrArg (fun r => [(name.text, Value.map r)]) hsimple
  | .object name body, h => by
    simp only [isDistinct, Bool.and_eq_true, decide_eq_true_eq] at h
    have hmembers := memberSchemas_blockShapes conditional (line + 2) body h.2
    have hschema := schema_blockShapes conditional (line + 2)
      (f := factsOf conditional name "object" (line + 1)) (schemaFields_noteOf name "object")
      h.1 hmembers
    exact congrArg (fun r => [(name.text, Value.map r)]) hschema
  | .array name body, h => by
    simp only [isDistinct, Bool.and_eq_true, decide_eq_true_eq] at h
    have hmembers := memberSchemas_blockShapes conditional (line + 2) body h.2
    have hschema := schema_blockShapes conditional (line + 2) (f := { conditional }) rfl
      h.1 hmembers
    exact congrArg
      (fun r => [(name.text, Value.map [("type", .text "array"), ("items", .map r)])]) hschema
  | .conditional body, h => memberSchemas_blockShapes true (line + 2) body h

theorem memberSchemas_blockShapes (conditional : Bool) (line : Nat) :
    ∀ plans : List Plan, areDistinct plans →
      Shape.memberSchemas (blockShapes conditional line plans) = blockProperties conditional plans
  | [], _ => rfl
  | p :: rest, h => by
    simp only [areDistinct, Bool.and_eq_true] at h
    rw [blockShapes, blockProperties, Shape.memberSchemas_append,
      memberSchemas_shapes conditional line p h.1,
      memberSchemas_blockShapes conditional _ rest h.2]

end

/-- The schema of the document that the shapes of a plan make. -/
theorem schema_document (line : Nat) {plans : List Plan} (h : isWellNamed plans) :
    (Shape.object {} (blockShapes false line plans)).schema = schema plans := by
  simp only [isWellNamed, Bool.and_eq_true, decide_eq_true_eq] at h
  exact schema_blockShapes false line rfl h.1 (memberSchemas_blockShapes false line plans h.2)

end Plan
end ViewSchema
