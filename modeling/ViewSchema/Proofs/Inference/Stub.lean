import ViewSchema.Proofs.CommentLine.Stub
import ViewSchema.Proofs.Inference.Result
import ViewSchema.Proofs.Walk.Written

/-!
The stubs of a document, read back as remarks. Each speaks of a node that no comment made a note on,
so it gives the name, the type of the structure and whether the node may be absent. Names of methods
may end in a mark, and attributes may have any text as their name; such names are no keys, and then
the stub is no remark on the node.
-/

namespace ViewSchema.Inference

open Template Remark

variable {files : Files} {settings : Settings}

theorem allWritten_root {path : Path} {found : Inference}
    (h : (infer files settings path).1 = .ok found) : found.root.AllWritten :=
  root_of_invariant Site.written_invariant (fun _ hs => hs.asForeign)
    (fun _ => .blank_ofMembers) h

/-- A stub describes the first node on its line that awaits one, with its name, its type and
whether it may be absent, exactly when the name is a key. -/
theorem infer_stub_comments (files : Files) (settings : Settings) (path : Path) (found : Inference)
    (h : (infer files settings path).1 = .ok found) :
    ∀ stub ∈ found.root.stubs, ∃ nodePath node name,
      found.root.firstAwaiting? stub.line = some (nodePath, node) ∧ node.name = some name ∧
      (Describes stub.comment name node.stubType node.isRequired ↔ isKey name.toList) := by
  intro stub hstub
  obtain ⟨⟨nodePath, node⟩, hfirst, hcomment⟩ := Shape.mem_stubs_iff.mp hstub
  have hawaits : node.awaitsStub stub.line := by simpa using List.find?_some hfirst
  obtain ⟨hwalk, hnamed⟩ :=
    Shape.mem_walk_of_mem_named "" found.root (nodePath, node) (List.mem_of_find?_eq_some hfirst)
  obtain ⟨name, hname⟩ := Option.isSome_iff_exists.mp hnamed
  have hblank : node.note = .blank := by
    refine (allWritten_root h node hwalk).eq_blank ?_
    simp only [Shape.awaitsStub, Bool.and_eq_true, Bool.not_eq_true', Bool.or_eq_false_iff]
      at hawaits
    exact hawaits.2.1
  refine ⟨nodePath, node, name, hfirst, hname, ?_⟩
  rw [hcomment]
  exact Shape.describes_stub_iff hblank nodePath hname

/-- A user with a name, an address that only some users have, and a question. -/
def markedUser : Files :=
  .ofPaths
    [("/views/user.json.jbuilder",
      .text ("json.name 1\nif @self # @openapi conditional:true\n  json.email 1\nend\n" ++
        "json.admin? 1\n"))]

/-- The stubs for the address and for the question. -/
theorem mem_stubs_markedUser :
    ∃ found, (infer markedUser {} (.ofString "/views/user.json.jbuilder")).1 = .ok found ∧
      ⟨3, "# @openapi email:string required:false"⟩ ∈ found.root.stubs ∧
      ⟨5, "# @openapi admin?:string"⟩ ∈ found.root.stubs := by
  have hfirst : ((infer markedUser {} (.ofString "/views/user.json.jbuilder")).1.toOption.map
      fun found => [3, 5].map fun line => (found.root.firstAwaiting? line).map fun e =>
        CommentLine.property (e.2.property e.1).toRecord) =
      some [some "# @openapi email:string required:false", some "# @openapi admin?:string"] := by
    decide +kernel
  obtain ⟨found, h, hfirst⟩ := Walk.eq_of_toOption_map hfirst
  simp only [List.map_cons, List.map_nil, List.cons.injEq, Option.map_eq_some_iff, and_true]
    at hfirst
  obtain ⟨⟨email, hemail, hemailComment⟩, admin, hadmin, hadminComment⟩ := hfirst
  exact ⟨found, h, Shape.mem_stubs_iff.mpr ⟨email, hemail, hemailComment.symm⟩,
    Shape.mem_stubs_iff.mpr ⟨admin, hadmin, hadminComment.symm⟩⟩

theorem infer_stub_comments_markedUser :
    ∃ found, (infer markedUser {} (.ofString "/views/user.json.jbuilder")).1 = .ok found ∧
      ⟨3, "# @openapi email:string required:false"⟩ ∈ found.root.stubs ∧
      ∀ stub ∈ found.root.stubs, ∃ nodePath node name,
        found.root.firstAwaiting? stub.line = some (nodePath, node) ∧ node.name = some name ∧
        (Describes stub.comment name node.stubType node.isRequired ↔ isKey name.toList) := by
  obtain ⟨found, h, hemail, -⟩ := mem_stubs_markedUser
  exact ⟨found, h, hemail, infer_stub_comments _ _ _ found h⟩

/-- The stub for the question is no remark. -/
theorem exists_unread_markedUser :
    ∃ found stub, (infer markedUser {} (.ofString "/views/user.json.jbuilder")).1 = .ok found ∧
      stub ∈ found.root.stubs ∧ stub.line = 5 ∧ of? stub.comment.toList = none := by
  obtain ⟨found, h, -, hadmin⟩ := mem_stubs_markedUser
  exact ⟨found, _, h, hadmin, rfl, by decide +kernel⟩

end ViewSchema.Inference
