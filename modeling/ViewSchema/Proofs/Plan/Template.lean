import ViewSchema.Proofs.Template.Lexer
import ViewSchema.Value

/-!
Plans of documents. A plan says part by part what a document holds: single values, objects, arrays
of objects, and parts that are there only under a condition. Every plan has a template that is
written for it in the plainest way, one statement a line under one comment a line, and a schema
that is read off the plan alone.
-/

namespace ViewSchema

/-- A name that a property can have in the plainest templates. -/
structure PropertyName where
  text : String
  plain : Text.isPlainName text.toList
  /-- The builder keeps this name for itself. -/
  free : text ≠ "call"

/-- The types of single values. -/
inductive Scalar where
  | string
  | integer
  | number
  | boolean
  deriving DecidableEq, Repr

def Scalar.word : Scalar → String
  | string => "string"
  | integer => "integer"
  | number => "number"
  | boolean => "boolean"

/-- A part of a document as it is planned. -/
inductive Plan where
  | value (name : PropertyName) (type : Scalar)
  | object (name : PropertyName) (body : List Plan)
  /-- An array of objects. -/
  | array (name : PropertyName) (body : List Plan)
  | conditional (body : List Plan)

namespace Plan

def line (indent : Nat) (s : String) : String :=
  String.ofList (List.replicate indent ' ') ++ s ++ "\n"

def remark (name : PropertyName) (type : String) : String :=
  "# @openapi " ++ name.text ++ ":" ++ type

/-- The statement of a property, up to its name. -/
def call (name : PropertyName) : String := "json." ++ name.text

mutual

/-- The template of a part. -/
def template (indent : Nat) : Plan → String
  | .value name type => line indent (remark name type.word) ++ line indent (call name ++ " 1")
  | .object name body =>
    line indent (remark name "object") ++ line indent (call name ++ " do") ++
      templates (indent + 2) body ++ line indent "end"
  | .array name body =>
    line indent (remark name "array") ++ line indent (call name ++ " @xs do |x|") ++
      templates (indent + 2) body ++ line indent "end"
  | .conditional body =>
    line indent "# @openapi conditional:true" ++ line indent "if c" ++
      templates (indent + 2) body ++ line indent "end"

/-- The template of a block, part by part. -/
def templates (indent : Nat) : List Plan → String
  | [] => ""
  | p :: rest => template indent p ++ templates indent rest

end

example : templates 0
    [.array ⟨"tracks", by decide, by decide⟩
      [.conditional [.value ⟨"bonus", by decide, by decide⟩ .boolean]]] =
    "# @openapi tracks:array\n" ++
    "json.tracks @xs do |x|\n" ++
    "  # @openapi conditional:true\n" ++
    "  if c\n" ++
    "    # @openapi bonus:boolean\n" ++
    "    json.bonus 1\n" ++
    "  end\n" ++
    "end\n" := by decide

mutual

/-- The names that a part brings into its block. What is conditional belongs to the block around
it. -/
def names : Plan → List String
  | .value name _ | .object name _ | .array name _ => [name.text]
  | .conditional body => blockNames body

def blockNames : List Plan → List String
  | [] => []
  | p :: rest => names p ++ blockNames rest

end

mutual

/-- The blocks inside a part have distinct names each. -/
def isDistinct : Plan → Bool
  | .value .. => true
  | .object _ body | .array _ body => decide (blockNames body).Nodup && areDistinct body
  | .conditional body => areDistinct body

/-- The blocks inside the parts of a block have distinct names each. -/
def areDistinct : List Plan → Bool
  | [] => true
  | p :: rest => isDistinct p && areDistinct rest

end

/-- Every block of a plan has distinct names, the block of all parts too. -/
def isWellNamed (plans : List Plan) : Bool :=
  decide (blockNames plans).Nodup && areDistinct plans

/-- The schema of an object. Nothing is listed where there is nothing to list. -/
def objectSchema (properties : Record) (required : List String) : Record :=
  [("type", .text "object")] ++
    (if properties.isEmpty then [] else [("properties", .map properties)]) ++
    (if required.isEmpty then [] else [("required", .list (required.map .text))])

/-- The names of a block that are always there: none that stands under a condition, in the block or
around it. -/
def requiredNames (conditional : Bool) (plans : List Plan) : List String :=
  plans.flatMap fun p =>
    match p with
    | .value name _ | .object name _ | .array name _ => if conditional then [] else [name.text]
    | .conditional _ => []

/-- The schema of a block whose properties have the given schemas. -/
def blockSchema (conditional : Bool) (plans : List Plan) (properties : Record) : Record :=
  objectSchema properties (requiredNames conditional plans)

mutual

/-- The schemas of the properties that a part brings into its block, by name. What is conditional
is spliced in where it stands. -/
def properties (conditional : Bool) : Plan → Record
  | .value name type => [(name.text, .map [("type", .text type.word)])]
  | .object name body =>
    [(name.text, .map (blockSchema conditional body (blockProperties conditional body)))]
  | .array name body =>
    [(name.text, .map
      [("type", .text "array"),
        ("items", .map (blockSchema conditional body (blockProperties conditional body)))])]
  | .conditional body => blockProperties true body

/-- The schemas of the properties of a block, by name. -/
def blockProperties (conditional : Bool) : List Plan → Record
  | [] => []
  | p :: rest => properties conditional p ++ blockProperties conditional rest

end

/-- The schema of a document. -/
def schema (plans : List Plan) : Record := blockSchema false plans (blockProperties false plans)

end Plan
end ViewSchema
