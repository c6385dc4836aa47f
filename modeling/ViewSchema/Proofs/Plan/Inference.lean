import ViewSchema.Proofs.Inference.Result
import ViewSchema.Proofs.Plan.Walk

/-!
Inferring the document of a plan from the template that is written for it. Whatever the plan, the
inference succeeds, and the schema of the document is the one that is read off the plan.
-/

namespace ViewSchema

open Template

theorem unifiedLines_of_not_mem {text : List Char} (h : '\r' ∉ text) :
    unifiedLines text = text := by
  induction text with
  | nil => rfl
  | cons c rest ih =>
    obtain ⟨hc, hrest⟩ := not_or.mp (mt List.mem_cons.mpr h)
    rw [unifiedLines]
    · rw [ih hrest, if_neg (by simpa using Ne.symm hc)]
    · intro tail hsame
      exact absurd hsame.symm hc

/-- A path leads to a file with a text. -/
structure Files.Holds (files : Files) (path : Path) (s : String) : Prop where
  resolves : ∃ here, files.resolve path = .ok here
  content : files.content path = .ok (.text s)

/-- A text without carriage returns is read as it stands. -/
theorem Files.Holds.read_text {files : Files} {path : Path} {s : String}
    (h : files.Holds path s) (hlines : '\r' ∉ s.toList) :
    files.read path "utf-8" = .ok s := by
  unfold Files.read
  rw [h.content, files.codec?_utf8]
  simp [Codec.decode, Except.map, unifiedLines_of_not_mem hlines]

namespace Plan

theorem not_mem_line (indent : Nat) {s : String} (h : '\r' ∉ s.toList) :
    '\r' ∉ (line indent s).toList := by
  rw [toList_line]
  simp [h]

theorem not_mem_name (name : PropertyName) : '\r' ∉ name.text.toList := by
  intro hmem
  have hplain := Remark.isPlain_of_mem name.plain hmem
  exact absurd hplain (by decide)

theorem not_mem_remark (name : PropertyName) {type : String} (h : '\r' ∉ type.toList) :
    '\r' ∉ (remark name type).toList := by
  have hopening : '\r' ∉ "# @openapi ".toList := by decide
  have hcolon : '\r' ∉ ":".toList := by decide
  simp only [remark, String.toList_append, List.mem_append, not_or]
  exact ⟨⟨⟨hopening, not_mem_name name⟩, hcolon⟩, h⟩

theorem not_mem_call (name : PropertyName) {s : String} (h : '\r' ∉ s.toList) :
    '\r' ∉ (call name ++ s).toList := by
  have hopening : '\r' ∉ "json.".toList := by decide
  simp only [call, String.toList_append, List.mem_append, not_or]
  exact ⟨⟨hopening, not_mem_name name⟩, h⟩

mutual

/-- The template of a plan holds no carriage return. -/
theorem not_mem_template (indent : Nat) : ∀ p : Plan, '\r' ∉ (template indent p).toList
  | .value name type => by
    have htype : '\r' ∉ type.word.toList := by cases type <;> decide
    simp only [template, String.toList_append, List.mem_append, not_or]
    exact ⟨not_mem_line indent (not_mem_remark name htype),
      not_mem_line indent (not_mem_call name (by decide))⟩
  | .object name body | .array name body => by
    have hbody := not_mem_templates (indent + 2) body
    simp only [template, String.toList_append, List.mem_append, not_or]
    exact ⟨⟨⟨not_mem_line indent (not_mem_remark name (by decide)),
      not_mem_line indent (not_mem_call name (by decide))⟩, hbody⟩,
      not_mem_line indent (by decide)⟩
  | .conditional body => by
    have hbody := not_mem_templates (indent + 2) body
    simp only [template, String.toList_append, List.mem_append, not_or]
    exact ⟨⟨⟨not_mem_line indent (by decide), not_mem_line indent (by decide)⟩, hbody⟩,
      not_mem_line indent (by decide)⟩

theorem not_mem_templates (indent : Nat) :
    ∀ plans : List Plan, '\r' ∉ (templates indent plans).toList
  | [] => by simp [templates]
  | p :: rest => by
    rw [templates, String.toList_append, List.mem_append, not_or]
    exact ⟨not_mem_template indent p, not_mem_templates indent rest⟩

end

/-- The document of a block without a root array is an object. -/
theorem component_blockShapes (line : Nat) {plans : List Plan} (h : (blockNames plans).Nodup) :
    Inference.component (blockShapes false line plans) =
      .object {} (blockShapes false line plans) := by
  have hroots : (blockShapes false line plans).filter Shape.isArrayRoot = [] := by
    rw [List.filter_eq_nil_iff]
    intro s hs
    rw [isArrayRoot_blockShapes false line plans s hs]
    exact Bool.false_ne_true
  unfold Inference.component
  rw [hroots]
  exact ofMembers_blockShapes {} line h

/-- The template of a plan gives the schema of the plan: inferring from a file that holds the
template succeeds, and the schema of the document is read off the plan part by part. -/
theorem infer_templates {files : Files} {path : Path} {plans : List Plan}
    (hfile : files.Holds path (templates 0 plans))
    (hnamed : isWellNamed plans) :
    ∃ found, (infer files {} path).1 = .ok found ∧ found.root.schema = schema plans := by
  have hnames := hnamed
  simp only [isWellNamed, Bool.and_eq_true, decide_eq_true_eq] at hnames
  obtain ⟨here, hresolve⟩ := hfile.resolves
  obtain ⟨t, hread, hbody, hentries, htrailing⟩ := read_templates plans
  have hload : Inference.load files {} path = .ok t := by
    unfold Inference.load
    rw [hfile.read_text (not_mem_templates 0 plans)]
    dsimp only
    rw [hread]
    rfl
  have hnone : ∀ e ∈ ([] : List (Nat × String)), e.1 < 1 := by simp
  have hheld : t.comments.Hold 1 (blockLines 0 plans) :=
    Comments.hold_allComments hnone hentries
  have hnodes : (Site.statements { path, settings := {}, comments := t.comments }
      (Inference.includer files {} here path) [] t.body).result =
        .ok ([] ++ blockShapes false 1 plans) :=
    result_statements rfl htrailing 0 1 plans hnames.2 (nodup_blockShapes 1 hnames.1) hheld hbody
  obtain ⟨found, hfound, hroot⟩ := Inference.infer_of_statements hresolve hload hnodes
  refine ⟨found, hfound, ?_⟩
  rw [hroot, List.nil_append, component_blockShapes 1 hnames.1]
  exact schema_document 1 hnamed

/-- An album: its title, its tracks, and under a condition its label and the label's country. -/
def albumPlan : List Plan :=
  [.value ⟨"title", by decide, by decide⟩ .string,
    .array ⟨"tracks", by decide, by decide⟩
      [.value ⟨"number", by decide, by decide⟩ .integer,
        .conditional [.value ⟨"bonus", by decide, by decide⟩ .boolean]],
    .conditional
      [.object ⟨"label", by decide, by decide⟩
        [.value ⟨"country", by decide, by decide⟩ .string]]]

def albumPath : Path := .ofString "/views/albums/show.json.jbuilder"

def albumFiles : Files := .ofContents [(albumPath.location, .text (templates 0 albumPlan))]

theorem infer_templates_album :
    albumFiles.Holds albumPath (templates 0 albumPlan) ∧ isWellNamed albumPlan ∧
      ∃ found, (infer albumFiles {} albumPath).1 = .ok found ∧
        found.root.schema = schema albumPlan := by
  have hfile : albumFiles.Holds albumPath (templates 0 albumPlan) :=
    ⟨⟨_, rfl⟩, by simp [albumFiles, Files.ofContents]⟩
  have hnamed : isWellNamed albumPlan := by decide
  exact ⟨hfile, hnamed, infer_templates hfile hnamed⟩

/-- What is required stops at a condition, also inside it. -/
example : schema albumPlan =
    [("type", .text "object"),
      ("properties", .map
        [("title", .map [("type", .text "string")]),
          ("tracks", .map
            [("type", .text "array"),
              ("items", .map
                [("type", .text "object"),
                  ("properties", .map
                    [("number", .map [("type", .text "integer")]),
                      ("bonus", .map [("type", .text "boolean")])]),
                  ("required", .list [.text "number"])])]),
          ("label", .map
            [("type", .text "object"),
              ("properties", .map [("country", .map [("type", .text "string")])])])]),
      ("required", .list [.text "title", .text "tracks"])] := rfl

end Plan
end ViewSchema
