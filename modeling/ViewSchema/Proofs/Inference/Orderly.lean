import ViewSchema.Proofs.Inference.Components
import ViewSchema.Proofs.Inference.Settled

/-!
What can be relied on in the documents that an inference gives: in the document of the template
and in the components of all templates it includes. That a shape is formed is said of each of its
nodes on its own, so that it can be read off node by node.
-/

namespace ViewSchema

namespace Shape

/-- A node of a document as a walk leaves it. It is a simple value, an object or an array. The named
members of an object have distinct names; an array has one item at most, and that has no name; a
root array has no name either; and a node whose note is conditional is conditional. -/
def IsOrderly : Shape → Prop
  | .simple f => f.note.conditional → f.conditional
  | .object f members =>
    (f.note.conditional → f.conditional) ∧ (members.filterMap Shape.name).Nodup
  | .array f isRoot items =>
    (f.note.conditional → f.conditional) ∧ (isRoot → f.name = none) ∧ items.length ≤ 1 ∧
      ∀ item ∈ items, item.name = none
  | .reference .. | .bare _ => False

theorem Formed.isOrderly {s : Shape} (h : s.Formed) : ∀ n ∈ s.walk, n.IsOrderly := by
  induction h with
  | simple hconditional => exact (forall_mem_walk _).mpr ⟨hconditional, nofun⟩
  | object hconditional hdistinct _ ih =>
    exact (forall_mem_walk _).mpr ⟨⟨hconditional, hdistinct⟩, ih⟩
  | array hconditional hroot hone hunnamed _ ih =>
    exact (forall_mem_walk _).mpr ⟨⟨hconditional, hroot, hone, hunnamed⟩, ih⟩

end Shape

namespace Inference

open Template

/-- The document of an inference and the components it registers. -/
def documents (found : Inference) : List Shape := found.root :: found.components.map Prod.snd

/-- A component is the document of a template inferred on its own. -/
theorem formed_documents {files : Files} {settings : Settings} {path : Path} {found : Inference}
    (h : (infer files settings path).1 = .ok found) : ∀ s ∈ found.documents, s.Formed := by
  intro s hs
  obtain rfl | hs := List.mem_cons.mp hs
  · exact formed_root h
  obtain ⟨⟨key, shape⟩, hmem, rfl⟩ := List.mem_map.mp hs
  obtain ⟨result, -, rfl⟩ := Walk.eq_of_map_ok h
  obtain ⟨i, -, alone, halone, rfl⟩ := (registered_walk path).alone key shape hmem
  exact formed_root halone

/-- Every node of every document that an inference gives is orderly, at whatever depth and however
it came there. -/
theorem infer_orderly (files : Files) (settings : Settings) (path : Path) (found : Inference)
    (h : (infer files settings path).1 = .ok found) :
    ∀ document ∈ found.documents, ∀ n ∈ document.walk, n.IsOrderly :=
  fun document hdocument => (formed_documents h document hdocument).isOrderly

/-- A post whose comments come from a template as a root array, which the post collapses under a
conditional note. Each comment names its author twice and has replies beside it. -/
def commentedPost : Files :=
  .ofPaths
    [("/views/post.json.jbuilder",
      .text ("# @openapi notes:array conditional:true\njson.notes do\n" ++
        "  json.partial! 'note'\nend\n")),
      ("/views/_note.json.jbuilder",
        .text ("json.array! @notes do |note|\n  json.author 1\n  json.author 2\n" ++
          "  json.array! @replies\nend\n"))]

theorem infer_orderly_commentedPost :
    ∃ found, (infer commentedPost {} (.ofString "/views/post.json.jbuilder")).1 = .ok found ∧
      found.documents.map (fun document => document.walk.length) = [5, 4] ∧
      ∀ document ∈ found.documents, ∀ n ∈ document.walk, n.IsOrderly := by
  have hlengths : (infer commentedPost {} (.ofString "/views/post.json.jbuilder")).1.toOption.map
      (fun found => found.documents.map fun document => document.walk.length) =
        some [5, 4] := by
    decide +kernel
  cases h : (infer commentedPost {} (.ofString "/views/post.json.jbuilder")).1 with
  | error failure =>
    rw [h] at hlengths
    cases hlengths
  | ok found =>
    rw [h] at hlengths
    exact ⟨found, rfl, Option.some.inj hlengths, infer_orderly _ _ _ found h⟩

end Inference
end ViewSchema
