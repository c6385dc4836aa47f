import ViewSchema.Proofs.Inference.Result
import ViewSchema.Proofs.Walk.Formed
import ViewSchema.Proofs.Walk.Outline

/-!
Where the root arrays of a template and of all templates it includes end up. An inference gives a
formed document. Every node in it has a place, and its schema is made without a warning, exactly
when the outlines read off the files say so: a root array is lost when an item template made of
several nodes has to hold it, or an object that includes a template that is nothing else.
-/

namespace ViewSchema.Inference

open Template

variable (files : Files) (settings : Settings)

/-- The outlines of the nodes that an inclusion gives, read off the files. -/
def outlinesOf (chain : List Location) (current : Path) (name : String) : List Outline :=
  let target := Partial.path name current settings
  match _entered : access files settings chain target with
  | .refused _ | .vacant _ => []
  | .entered here template =>
    Site.bodyOutlines { path := target, settings, comments := template.comments }
      (fun n => outlinesOf (chain ++ [here]) target n) [] template.body
termination_by (offChain files chain).length
decreasing_by exact length_offChain_of_entered _entered

/-- Every node of the template at a path finds a place in its document, read off the files. -/
def settles (path : Path) : Bool :=
  match files.resolve path, load files settings path with
  | .ok here, .ok template =>
    Outline.documentSettled
      (Site.bodyOutlines { path, settings, comments := template.comments }
        (outlinesOf files settings [here] path) [] template.body)
  | _, _ => true

variable {files settings}

/-- Inclusions give nodes of the outlines read off the files. -/
theorem outlined_nodesOf (chain : List Location) (current : Path) :
    Site.Outlined (nodesOf files settings chain current)
      (outlinesOf files settings chain current) := by
  intro name bindings line nodes h
  rw [outlinesOf]
  obtain ⟨fault?, hvacant, rfl⟩ | ⟨here, template, own, hentered, hown, rfl⟩ := result_nodesOf h
  · split
    · rfl
    · rfl
    · rename_i hentered
      cases hvacant.symm.trans hentered
  · have hinner := outlined_nodesOf (chain ++ [here]) (Partial.path name current settings)
    split
    · rename_i hrefused
      cases hentered.symm.trans hrefused
    · rename_i hvacant
      cases hentered.symm.trans hvacant
    · rename_i hsame
      cases hentered.symm.trans hsame
      rw [List.map_map]
      have hforeign : Shape.outline ∘ Shape.asForeign = Shape.outline := by
        funext s
        exact s.outline_asForeign
      rw [hforeign]
      exact Site.outline_statements hinner template.body hown
termination_by (offChain files chain).length
decreasing_by exact length_offChain_of_entered hentered

theorem formed_root {path : Path} {found : Inference}
    (h : (infer files settings path).1 = .ok found) : found.root.Formed :=
  root_of_invariant Site.formed_invariant (fun _ hs => hs.asForeign)
    (fun _ => Site.formed_blank_ofMembers) h

theorem isSettled_component (nodes : List Shape) :
    (component nodes).isSettled = Outline.documentSettled (nodes.map Shape.outline) := by
  have hroots : (nodes.map Shape.outline).filter Outline.isRoot =
      (nodes.filter Shape.isArrayRoot).map Shape.outline := by
    rw [List.filter_map]
    rfl
  unfold component Outline.documentSettled
  rw [hroots, List.getLast?_map]
  cases (nodes.filter Shape.isArrayRoot).getLast? with
  | none => exact Shape.isSettled_ofMembers {} nodes
  | some root => rfl

/-- Whether every member in a document has a name and no root array lies below its top can be read
off the files, and a document of which that holds leaves no warning when its schema is made. -/
theorem infer_settled_iff (files : Files) (settings : Settings) (path : Path) (found : Inference)
    (h : (infer files settings path).1 = .ok found) :
    (found.root.Settled ↔ settles files settings path) ∧
      (settles files settings path → found.root.warnings = []) := by
  have hsettled : found.root.isSettled = settles files settings path := by
    obtain ⟨here, template, nodes, hresolve, hload, hnodes, hroot, -⟩ := parts_of_infer h
    rw [hroot, isSettled_component,
      Site.outline_statements (outlined_nodesOf _ _) template.body hnodes]
    unfold settles
    rw [hresolve, hload]
    rfl
  constructor
  · rw [Shape.settled_iff, hsettled]
  · intro hsettles
    exact (formed_root h).warnings_eq_nil (hsettled.trans hsettles)

/-- A post whose tags come from an included template, beside a property of its own. -/
def tagsBesideTitle : Files :=
  .ofPaths
    [("/views/post.json.jbuilder",
      .text "json.post do\n  json.title 1\n  json.partial! 'tags'\nend\n"),
      ("/views/_tags.json.jbuilder", .text "json.array! @tags\n")]

theorem infer_settled_iff_tagsBesideTitle :
    ∃ found, (infer tagsBesideTitle {} (.ofString "/views/post.json.jbuilder")).1 =
        .ok found ∧
      found.root.Settled ∧ found.root.warnings = [] := by
  have hok : (infer tagsBesideTitle {}
      (.ofString "/views/post.json.jbuilder")).1.toOption.isSome := by
    decide +kernel
  have hsettles :
      settles tagsBesideTitle {} (.ofString "/views/post.json.jbuilder") := by
    decide +kernel
  cases h : (infer tagsBesideTitle {} (.ofString "/views/post.json.jbuilder")).1 with
  | error failure =>
    rw [h] at hok
    cases hok
  | ok found =>
    obtain ⟨hiff, hquiet⟩ := infer_settled_iff _ _ _ found h
    exact ⟨found, rfl, hiff.mpr hsettles, hquiet hsettles⟩

/-- A list of posts, each with an array beside a property. -/
def tagsBesideId : Files :=
  .ofPaths
    [("/views/posts.json.jbuilder",
      .text "json.array! @posts do |post|\n  json.id 1\n  json.array! @tags\nend\n")]

/-- The array beside the properties of an item gets no name, and the schema leaves it out. -/
theorem exists_unsettled_tagsBesideId :
    ∃ found, (infer tagsBesideId {} (.ofString "/views/posts.json.jbuilder")).1 =
        .ok found ∧
      ¬found.root.Settled ∧
      found.root.warnings =
        [Shape.warning "skipping unnamed array node inside an object"] := by
  have hfacts : ((infer tagsBesideId {}
      (.ofString "/views/posts.json.jbuilder")).1.toOption.map fun found =>
        (found.root.isSettled, found.root.warnings)) =
      some (false, [Shape.warning "skipping unnamed array node inside an object"]) := by
    decide +kernel
  cases h : (infer tagsBesideId {} (.ofString "/views/posts.json.jbuilder")).1 with
  | error failure =>
    rw [h] at hfacts
    cases hfacts
  | ok found =>
    rw [h] at hfacts
    obtain ⟨hsettled, hwarnings⟩ := Prod.mk.inj (Option.some.inj hfacts)
    refine ⟨found, rfl, ?_, hwarnings⟩
    rw [Shape.settled_iff, hsettled]
    decide

end ViewSchema.Inference
