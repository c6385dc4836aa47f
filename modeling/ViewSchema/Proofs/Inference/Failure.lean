import ViewSchema.Proofs.Inference.Chain
import ViewSchema.Proofs.Template.Total
import ViewSchema.Proofs.Walk.Loose

/-!
Why an inference fails. The path of a template leads nowhere, a file cannot be read or holds no
template, a visit comes to a file on its own chain or to a malformed call. Below the top, a file
that is missing or cannot be read for a foreseen reason ends nothing, and no value that is read from
a text lacks a source when it is bound.
-/

namespace ViewSchema

open Template

namespace Template

/-- Every node that is read from a text is sound. -/
theorem allSound_of_read {text : List Char} {template : ViewSchema.Template}
    (h : read text = .ok template) : Node.AllSound template.body := by
  rcases scan_outcome text with ⟨r, hscan, heof, -⟩ | ⟨fault, line, hscan, -⟩ | ⟨hscan, -⟩
  · rw [read_of_scan hscan] at h
    rcases template_outcome text heof with
      ⟨body, c, -, -, hsound, htemplate⟩ | ⟨fault, found, line, htemplate⟩
    · rw [htemplate] at h
      cases h
      exact hsound
    · rw [htemplate] at h
      cases h
  · rw [read_of_scan_error hscan] at h
    cases h
  · rw [read_of_scan_error hscan] at h
    cases h

end Template

namespace Inference

variable {files : Files} {settings : Settings}

open Demand (Met)

theorem allSound_of_load {path : Path} {template : ViewSchema.Template}
    (h : load files settings path = .ok template) : Node.AllSound template.body := by
  obtain ⟨text, -, hread⟩ := load_ok h
  exact allSound_of_read hread

/-- A visit asks for something only when its file is a template. -/
theorem load_of_mem_demands {v : Visit} {demand : Demand} (h : demand ∈ v.demands files settings) :
    ∃ template, load files settings v.path = .ok template ∧
      demand ∈ Site.bodyDemands { path := v.path, settings, comments := template.comments }
        template.body := by
  unfold Visit.demands at h
  split at h
  · cases h
  · rename_i template hload
    exact ⟨template, hload, h⟩

/-- What was read from a text has a source wherever it is bound. -/
theorem Visit.not_met_sourceless (v : Visit) :
    ¬Met (v.includer files settings) (v.demands files settings) .sourceless := by
  intro hmet
  obtain ⟨template, hload, hmem⟩ := load_of_mem_demands hmet.mem
  have hloose : ∀ n ∈ template.body, n.IsNode → n.Loose := fun n hn _ =>
    (allSound_of_load hload n hn).loose
  exact Site.sourceless_not_mem_bodyDemands _ hloose hmem

/-- An inference fails by a file exactly when its own path cannot be followed, its own file cannot
be read, or a visit includes a template that is refused for that reason. -/
theorem infer_eq_file_iff {path : Path} {fault : FileFault} :
    (infer files settings path).1 = .error (.file fault) ↔
      (∃ cause, files.resolve path = .error cause ∧ fault = .path cause) ∨
      (∃ here, files.resolve path = .ok here ∧
        files.read path settings.encoding = .error fault) ∨
      ∃ (v : Visit) (target : Path), v.Made files settings path ∧ v.Includes files settings target ∧
        Refusal files settings v.chain target (.file fault) := by
  rw [infer_eq_error_iff]
  constructor
  · rintro (⟨cause, hresolve, hfault⟩ | ⟨here, hresolve, hload⟩ | ⟨v, hmade, hfails⟩)
    · cases hfault
      exact .inl ⟨cause, hresolve, rfl⟩
    · rcases load_error hload with ⟨_, hsame, hread⟩ | ⟨_, _, hsame, -⟩ <;> cases hsame
      exact .inr (.inl ⟨here, hresolve, hread⟩)
    · cases hfails with
      | refused hincludes hrefusal => exact .inr (.inr ⟨v, _, hmade, hincludes, hrefusal⟩)
  · rintro (⟨cause, hresolve, rfl⟩ | ⟨here, hresolve, hread⟩ |
      ⟨v, target, hmade, hincludes, hrefusal⟩)
    · exact .inl ⟨cause, hresolve, rfl⟩
    · exact .inr (.inl ⟨here, hresolve, load_of_read_error hread⟩)
    · exact .inr (.inr ⟨v, hmade, .refused hincludes hrefusal⟩)

/-- An inference fails with a fault of a text exactly when some visit reads a text with that
fault. -/
theorem infer_eq_fault_iff {path : Path} {fault : Fault} :
    (infer files settings path).1 = .error (.template fault) ↔
      ∃ v : Visit, v.Made files settings path ∧
        load files settings v.path = .error (.template fault) := by
  rw [infer_eq_error_iff]
  constructor
  · rintro (⟨_, -, hfile⟩ | ⟨here, hresolve, hload⟩ | ⟨v, ⟨here, hresolve, hreaches⟩, hfails⟩)
    · cases hfile
    · exact ⟨.top here path, ⟨here, hresolve, .refl⟩, hload⟩
    · cases hfails with
      | refused hincludes hrefusal =>
        cases hrefusal with
        | @faulty l text _ henters hread htext =>
          refine ⟨⟨v.chain ++ [l], _⟩, ⟨here, hresolve, hreaches.tail ?_⟩,
            load_of_template_error hread htext⟩
          exact ⟨hincludes, l, henters, rfl⟩
  · rintro ⟨v, ⟨here, hresolve, hreaches⟩, hload⟩
    rcases Relation.ReflTransGen.cases_tail hreaches with rfl | ⟨u, hu, hincludes, l, henters, -⟩
    · exact .inr (.inl ⟨here, hresolve, hload⟩)
    · rcases load_error hload with ⟨_, hsame, -⟩ | ⟨_, text, hsame, hread, htext⟩ <;> cases hsame
      exact .inr (.inr ⟨u, ⟨here, hresolve, hu⟩, .refused hincludes (.faulty henters hread htext)⟩)

/-- An inference fails by a file, a text, a cycle or a malformed call. -/
theorem infer_error {path : Path} {failure : Failure}
    (h : (infer files settings path).1 = .error failure) :
    (∃ fault, failure = .file fault) ∨ (∃ fault, failure = .template fault) ∨
      (∃ cycle, failure = .cyclic cycle) ∨
      ∃ malformation line, failure = .malformed malformation line := by
  rw [infer_eq_error_iff] at h
  rcases h with ⟨fault, -, rfl⟩ | ⟨here, -, hload⟩ | ⟨v, -, hfails⟩
  · exact .inl ⟨_, rfl⟩
  · rcases load_error hload with ⟨fault, rfl, -⟩ | ⟨fault, _, rfl, -⟩
    · exact .inl ⟨fault, rfl⟩
    · exact .inr (.inl ⟨fault, rfl⟩)
  · cases hfails with
    | malformed hmet => exact .inr (.inr (.inr ⟨_, _, rfl⟩))
    | sourceless hmet => exact absurd hmet v.not_met_sourceless
    | refused _ hrefusal =>
      cases hrefusal with
      | unresolved _ | unseen _ _ _ | unread _ _ _ => exact .inl ⟨_, rfl⟩
      | cyclic _ _ => exact .inr (.inr (.inl ⟨_, rfl⟩))
      | faulty _ _ _ => exact .inr (.inl ⟨_, rfl⟩)

end Inference

end ViewSchema
