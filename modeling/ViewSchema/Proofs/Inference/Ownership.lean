import ViewSchema.Proofs.Inference.Failure
import ViewSchema.Proofs.Inference.Orderly
import ViewSchema.Proofs.Stub
import ViewSchema.Proofs.Walk.Ownership

/-!
Which properties of a document have stubs. They are told by the lines of the calls that gave them
their names, in the document that the same template makes when nothing included has a line. A line
of the template has a stub exactly when a call on it names a node that no remark speaks of and that
was not written in another file; an array from another file that a property takes over has none.
-/

namespace ViewSchema.Inference

open Template

/-- The document of a template with lines for what the template names itself, and no others. -/
def ownDocument (files : Files) (settings : Settings) (path : Path) : Except Failure Shape := do
  let here ← locate files path
  let template ← load files settings path
  let site : Site := { path, settings, comments := template.comments }
  let nodes ← (site.statements (includer files settings here path).lineless [] template.body).result
  return component nodes

variable {files : Files} {settings : Settings}

/-- What an inclusion gives was written in an included file. -/
theorem foreign_of_nodesOf {chain : List Location} {current : Path} {name : String}
    {bindings : Record} {line : Option Int} {nodes : List Shape}
    (h : (nodesOf files settings chain current name bindings line).result = .ok nodes) :
    ∀ n ∈ nodes, ∃ own : Shape, n = own.asForeign := by
  obtain ⟨-, -, rfl⟩ | ⟨here, template, own, -, -, rfl⟩ := result_nodesOf h
  · simp
  · intro n hn
    obtain ⟨before, -, rfl⟩ := List.mem_map.mp hn
    exact ⟨before, rfl⟩

/-- A node of an included file stands for itself without its lines. -/
theorem owned_lineless {builder : String} {calls : List Invocation} {own : Shape}
    (h : own.asForeign.Formed) :
    Site.Owned builder calls own.asForeign own.asForeign.lineless := by
  constructor
  · simp only [Shape.withoutForeignLines, Shape.lineless, Shape.asForeign,
      Shape.mapFacts_mapFacts]
    rfl
  · intro n hn
    rw [Shape.lineless, Shape.walk_mapFacts] at hn
    obtain ⟨kept, hkept, rfl⟩ := List.mem_map.mp hn
    have hforeign : kept.facts.foreign := by
      rw [Shape.asForeign, Shape.walk_mapFacts] at hkept
      obtain ⟨before, -, rfl⟩ := List.mem_map.mp hkept
      rw [Shape.facts_mapFacts]
    refine ⟨fun hroot => ?_, fun name hname => .inr ?_⟩
    · rw [Shape.isArrayRoot_mapFacts] at hroot
      refine kept.name_lineless.trans ?_
      obtain ⟨f, items, rfl⟩ := Shape.eq_array_of_isArrayRoot hroot
      exact (h.isOrderly _ hkept).2.1 rfl
    · rw [Shape.facts_mapFacts]
      exact ⟨hforeign, rfl⟩

theorem matched_lineless (builder : String) (calls : List Invocation) (chain : List Location)
    (current : Path) :
    Site.Matched (Site.Owned builder calls) (nodesOf files settings chain current)
      (Includer.lineless (nodesOf files settings chain current)) := by
  intro name bindings line nodes h
  have hformed := gives_nodesOf Site.formed_invariant (fun s hs => hs.asForeign) chain current
    name bindings line nodes h
  refine ⟨nodes.map Shape.lineless, ?_, ?_⟩
  · rw [Includer.lineless, Walk.result_bind_pure, h]
    rfl
  · rw [List.forall₂_map_right_iff, List.forall₂_same]
    intro n hn
    obtain ⟨own, rfl⟩ := foreign_of_nodesOf h n hn
    exact owned_lineless (hformed _ hn)

theorem withoutForeignLines_component (nodes : List Shape) :
    (component nodes).withoutForeignLines = component (nodes.map Shape.withoutForeignLines) := by
  have hroots : (nodes.map Shape.withoutForeignLines).filter Shape.isArrayRoot =
      (nodes.filter Shape.isArrayRoot).map Shape.withoutForeignLines := by
    rw [List.filter_map]
    congr 1
    refine List.filter_congr fun s _ => ?_
    exact Shape.isArrayRoot_mapFacts _ s
  unfold component
  rw [hroots, List.getLast?_map]
  cases (nodes.filter Shape.isArrayRoot).getLast? with
  | none => exact Shape.withoutForeignLines_ofMembers {} nodes
  | some root => rfl

/-- Without the lines of what is included, an inference gives the same document otherwise, and all
names in it are attributed. -/
theorem exists_ownDocument {path : Path} {found : Inference}
    (h : (infer files settings path).1 = .ok found) :
    ∃ template document, load files settings path = .ok template ∧
      ownDocument files settings path = .ok document ∧
      found.root.withoutForeignLines = document.withoutForeignLines ∧
      document.AllAttributed settings.builder (Node.bodyCalls template.body) := by
  obtain ⟨here, template, nodes, hresolve, hload, hnodes, hroot, -⟩ := parts_of_infer h
  have hmatched : Site.Matched (Site.Owned settings.builder (Node.bodyCalls template.body))
      (includer files settings here path) (includer files settings here path).lineless :=
    matched_lineless _ _ [here] path
  obtain ⟨others, hothers, howned⟩ := (Site.congruence_owned
      { path, settings, comments := template.comments } (Node.bodyCalls template.body)).statements
    hmatched template.body .nil (fun _ hi => hi) nodes hnodes
  obtain ⟨hsame, hall⟩ := Site.forall₂_owned.mp howned
  refine ⟨template, component others, hload, ?_, ?_, component_of .ofMembers_blank hall⟩
  · unfold ownDocument
    rw [locate_eq_ok_iff.mpr hresolve, hload]
    change (Site.statements _ _ _ _).result.bind _ = _
    rw [hothers]
    rfl
  · rw [hroot, withoutForeignLines_component, withoutForeignLines_component, hsame]

/-- Which nodes await a stub does not depend on the lines of foreign nodes. -/
theorem exists_awaiting_iff {s t : Shape} (h : s.withoutForeignLines = t.withoutForeignLines)
    (line : Int) :
    (∃ e ∈ s.named "", e.2.awaitsStub line) ↔ ∃ e ∈ t.named "", e.2.awaitsStub line := by
  have hawaits : ∀ n : Shape, n.withoutForeignLines.awaitsStub line = n.awaitsStub line := by
    intro n
    have hfacts : n.withoutForeignLines.facts = n.facts.withoutForeignLine :=
      Shape.facts_mapFacts _ n
    simp only [Shape.awaitsStub, Shape.note, hfacts, Facts.note_withoutForeignLine,
      Facts.foreign_withoutForeignLine]
    cases hforeign : n.facts.foreign with
    | false => rw [n.facts.withoutForeignLine_of_own hforeign]
    | true => simp
  have hkept : ∀ n : Shape, (∃ e ∈ n.named "", e.2.awaitsStub line) ↔
      ∃ e ∈ n.withoutForeignLines.named "", e.2.awaitsStub line := by
    intro n
    rw [Shape.withoutForeignLines, Shape.named_mapFacts Facts.name_withoutForeignLine]
    simp only [List.mem_map, exists_exists_and_eq_and]
    refine exists_congr fun e => and_congr_right fun _ => ?_
    exact (iff_of_eq (congrArg (· = true) (hawaits e.2))).symm
  rw [hkept s, hkept t, h]

/-- A line of a template has a stub exactly when a call of the template on that line gave a name to
a node without a remark that is not foreign. Every name in the document was given by a call of the
template, on whose line the node then is in the template's own document, or else by an included
file; foreign nodes among the former are arrays that a property took over. -/
theorem infer_stub_lines (files : Files) (settings : Settings) (path : Path) (found : Inference)
    (h : (infer files settings path).1 = .ok found) :
    ∃ template document, load files settings path = .ok template ∧
      ownDocument files settings path = .ok document ∧
      found.root.withoutForeignLines = document.withoutForeignLines ∧
      (∀ e ∈ document.named "", ∃ name, e.2.name = some name ∧
        ((∃ line, e.2.facts.line = some line ∧
          e.2.IsNamedBy settings.builder (Node.bodyCalls template.body) name) ∨
            e.2.facts.foreign ∧ e.2.facts.line = none)) ∧
      ∀ line, (∃ stub ∈ found.root.stubs, stub.line = line) ↔
        ∃ e ∈ document.named "", e.2.facts.line = some line ∧ ¬e.2.note.annotated ∧
          ¬e.2.facts.foreign := by
  obtain ⟨template, document, hload, hdocument, hsame, hall⟩ := exists_ownDocument h
  refine ⟨template, document, hload, hdocument, hsame, fun e he => ?_, fun line => ?_⟩
  · obtain ⟨hwalk, hnamed⟩ := Shape.mem_walk_of_mem_named "" document e he
    obtain ⟨name, hname⟩ := Option.isSome_iff_exists.mp hnamed
    have hattributed := hall e.2 hwalk
    have hroot : e.2.isArrayRoot = false := by
      rw [Bool.eq_false_iff]
      intro hroot
      rw [hattributed.unnamed hroot] at hname
      cases hname
    have hlabel : e.2.label = some name := by rw [Shape.label, hroot, ← hname]; rfl
    refine ⟨name, hname, (hattributed.attributed name hlabel).imp_left fun hby => ?_⟩
    obtain ⟨i, hi, hline, -⟩ := id hby
    obtain ⟨n, hn, hcall⟩ := Node.mem_bodyCalls.mp hi
    obtain ⟨line, hsome⟩ := Option.isSome_iff_exists.mp
      ((allSound_of_load hload n hn).line_of_mem_calls hcall)
    exact ⟨line, hline.trans hsome, hby⟩
  · rw [Shape.exists_stub_iff, exists_awaiting_iff hsame]
    simp [Shape.awaitsStub]

/-- A post with a title and with tags that come from an included template, which emits an array. -/
def taggedPost : Files :=
  .ofPaths
    [("/views/post.json.jbuilder",
      .text "json.title 1\njson.tags do\n  json.partial! 'tags'\nend\n"),
      ("/views/_tags.json.jbuilder", .text "json.array! @tags do |tag|\n  json.label 1\nend\n")]

/-- The one stub of the post is for its title. -/
theorem lines_stubs_taggedPost :
    ∃ found, (infer taggedPost {} (.ofString "/views/post.json.jbuilder")).1 = .ok found ∧
      found.root.stubs.map Stub.line = [1] := by
  refine Walk.eq_of_toOption_map ?_
  decide +kernel

theorem infer_stub_lines_taggedPost :
    ∃ found document, (infer taggedPost {} (.ofString "/views/post.json.jbuilder")).1 = .ok found ∧
      ownDocument taggedPost {} (.ofString "/views/post.json.jbuilder") = .ok document ∧
      found.root.stubs.map Stub.line = [1] ∧
      ∀ line, (∃ stub ∈ found.root.stubs, stub.line = line) ↔
        ∃ e ∈ document.named "", e.2.facts.line = some line ∧ ¬e.2.note.annotated ∧
          ¬e.2.facts.foreign := by
  obtain ⟨found, h, hlines⟩ := lines_stubs_taggedPost
  obtain ⟨template, document, -, hdocument, -, -, hiff⟩ := infer_stub_lines _ _ _ found h
  exact ⟨found, document, h, hdocument, hlines, hiff⟩

/-- The post names its tags on a line of its own, without a remark, and has no stub there. -/
theorem exists_unstubbed_taggedPost :
    ∃ found document, (infer taggedPost {} (.ofString "/views/post.json.jbuilder")).1 = .ok found ∧
      ownDocument taggedPost {} (.ofString "/views/post.json.jbuilder") = .ok document ∧
      (∃ e ∈ document.named "", e.2.name = some "tags" ∧ e.2.facts.line = some 2 ∧
        e.2.note.annotated = false) ∧
      ¬∃ stub ∈ found.root.stubs, stub.line = 2 := by
  have hnamed : ((ownDocument taggedPost {}
      (.ofString "/views/post.json.jbuilder")).toOption.map fun document =>
        (document.named "").map fun e => (e.2.name, e.2.facts.line, e.2.note.annotated)) =
      some [(some "title", some 1, false), (some "tags", some 2, false),
        (some "label", none, false)] := by
    decide +kernel
  obtain ⟨found, h, hlines⟩ := lines_stubs_taggedPost
  obtain ⟨document, hdocument, hnamed⟩ := Walk.eq_of_toOption_map hnamed
  refine ⟨found, document, h, hdocument, ?_, ?_⟩
  · have htags : (some "tags", some 2, false) ∈
        (document.named "").map fun e => (e.2.name, e.2.facts.line, e.2.note.annotated) := by
      rw [hnamed]
      decide
    obtain ⟨e, he, hfacts⟩ := List.mem_map.mp htags
    simp only [Prod.mk.injEq] at hfacts
    exact ⟨e, he, hfacts⟩
  · rintro ⟨stub, hstub, hline⟩
    have hmem : (2 : Int) ∈ found.root.stubs.map Stub.line :=
      List.mem_map.mpr ⟨stub, hstub, hline⟩
    rw [hlines] at hmem
    exact absurd hmem (by decide)

end ViewSchema.Inference
