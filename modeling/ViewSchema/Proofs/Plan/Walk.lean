import ViewSchema.Proofs.Plan.Reading
import ViewSchema.Proofs.Plan.Remark
import ViewSchema.Proofs.Plan.Shape
import ViewSchema.Proofs.Walk.Result

/-!
Walking the template of a plan. Every statement finds the comment that was written for it on the
line above, and gives the shapes that the plan asks for.
-/

namespace ViewSchema

open Template

namespace Template

def Line.said? : Line → Option String
  | .comment _ said => some (String.ofList (Text.trim said))
  | .code .. => none

/-- The lines from a line on are commented as they say. -/
def Comments.Hold (c : Comments) (line : Nat) : List Line → Prop
  | [] => True
  | l :: rest => c.on line = l.said? ∧ c.Hold (line + 1) rest

namespace Comments

theorem hold_append (c : Comments) (line : Nat) (these others : List Line) :
    c.Hold line (these ++ others) ↔
      c.Hold line these ∧ c.Hold (line + these.length) others := by
  induction these generalizing line with
  | nil => simp [Hold]
  | cons l rest ih =>
    have hline : line + (l :: rest).length = line + 1 + rest.length := by
      rw [List.length_cons]
      omega
    rw [List.cons_append, Hold, Hold, ih, hline, and_assoc]

theorem lookup_allComments_early {line place : Nat} (lines : List Line) (h : place < line) :
    (Line.allComments line lines).lookup place = none := by
  induction lines generalizing line with
  | nil => rfl
  | cons l rest ih =>
    have hrest := ih (Nat.lt_succ_of_lt h)
    have hne : (place == line) = false := by simpa using Nat.ne_of_lt h
    cases l with
    | comment indent said =>
      rw [Line.allComments, Line.comments, List.singleton_append, List.lookup_cons, hne]
      exact hrest
    | code indent glyphs => exact hrest

/-- The comments of lines hold on them, also behind earlier comments. -/
theorem hold_allComments {c : Comments} {before : List (Nat × String)} {line : Nat}
    {lines : List Line} (hbefore : ∀ e ∈ before, e.1 < line)
    (hentries : c.entries = before ++ Line.allComments line lines) : c.Hold line lines := by
  induction lines generalizing before line with
  | nil => trivial
  | cons l rest ih =>
    have hold : before.lookup line = none := by
      rw [List.lookup_eq_none_iff]
      intro e he
      have hlt := hbefore e he
      simpa using Nat.ne_of_gt hlt
    have hlate := lookup_allComments_early rest (Nat.lt_succ_self line)
    have hhere : c.on line = l.said? := by
      rw [on, hentries, List.lookup_append, hold, Option.none_or, Line.allComments,
        List.lookup_append, hlate]
      cases l with
      | comment indent said => simp [Line.comments, Line.said?]
      | code indent glyphs => rfl
    have hpast : ∀ e ∈ before ++ l.comments line, e.1 < line + 1 := by
      intro e he
      rcases List.mem_append.mp he with hearly | hnow
      · exact Nat.lt_succ_of_lt (hbefore e hearly)
      · cases l with
        | comment indent said =>
          obtain rfl := List.mem_singleton.mp hnow
          exact Nat.lt_succ_self line
        | code indent glyphs => cases hnow
    refine ⟨hhere, ih hpast ?_⟩
    rw [hentries, Line.allComments, List.append_assoc]

/-- A statement without a comment of its own is spoken of by the comment above it. -/
theorem remarkFor_below {c : Comments} {line : Nat} {said : Option String}
    (htrailing : c.trailing = []) (habove : c.on line = said) (hhere : c.on (line + 1) = none) :
    c.remarkFor (some ((line + 1 : Nat) : Int)) =
      (Remark.ofComment? said).filter Remark.isOfField := by
  have halone : c.above (some ((line + 1 : Nat) : Int)) = said := by
    change c.alone line = said
    rw [alone, htrailing, ← habove]
    rfl
  have hnone : c.here (some ((line + 1 : Nat) : Int)) = none := hhere
  rw [remarkFor, halone, hnone]
  rfl

end Comments

end Template

namespace Plan

theorem isTypeWord_word (type : Scalar) : Remark.isTypeWord type.word.toList := by
  cases type <;> decide

theorem toList_remark (name : PropertyName) (type : String) :
    (remark name type).toList =
      Remark.line Remark.fieldTag [(name.text.toList, type.toList)] := by
  have hopening : "# @openapi ".toList = '#' :: ' ' :: (Remark.fieldTag ++ [' ']) := by decide
  have hcolon : ":".toList = [':'] := rfl
  simp [remark, Remark.line, Remark.written, hopening, hcolon]

/-- What is heard of the comment in front of a property. -/
theorem ofComment?_remark (indent : Nat) (name : PropertyName) {type : String}
    (htype : Remark.isTypeWord type.toList) :
    Remark.ofComment? (Line.comment indent (remark name type).toList).said? =
      some (.field [("field_name", .text name.text), ("type", .text type)]) := by
  rw [Line.said?, toList_remark, Remark.trim_fieldComment name.plain htype]
  change Remark.of? (String.ofList _).toList = _
  rw [String.toList_ofList, Remark.of?_fieldComment name.plain htype, String.ofList_toList,
    String.ofList_toList]

theorem ofComment?_marker (indent : Nat) :
    Remark.ofComment? (Line.comment indent "# @openapi conditional:true".toList).said? =
      some .marker := by
  have htrim : Text.trim "# @openapi conditional:true".toList =
      "# @openapi conditional:true".toList := by decide
  have hcontent : Remark.content? Remark.operationTag "# @openapi conditional:true".toList =
      none := by decide
  have hmarker : Remark.hasMarker "# @openapi conditional:true".toList = true := by decide
  rw [Line.said?, htrim, String.ofList_toList]
  change Remark.of? "# @openapi conditional:true".toList = _
  rw [Remark.of?, Remark.operationOf?, Remark.fieldOf?, hcontent, hmarker]
  rfl

theorem ofRecord_field (name : PropertyName) {type : String} (htype : type ≠ "") :
    Note.ofRecord [("field_name", .text name.text), ("type", .text type)] = noteOf name type := by
  simp [Note.ofRecord, Record.has, Record.get, Record.find?_cons, Record.keys, Value.text?,
    Note.ownKeys, Note.choicesOf, Note.itemsOf, noteOf, htype]

section Walk

variable {site : Site} {includer : Includer}

/-- The note on the statement below the comment of a property. -/
theorem noteFor_remark (htrailing : site.comments.trailing = []) {line indent : Nat}
    {name : PropertyName} {type : String} (htype : Remark.isTypeWord type.toList)
    (habove : site.comments.on line = (Line.comment indent (remark name type).toList).said?)
    (hhere : site.comments.on (line + 1) = none) :
    site.comments.noteFor (some ((line + 1 : Nat) : Int)) = noteOf name type := by
  have hne : type ≠ "" := by
    rintro rfl
    cases htype
  have hfield : Remark.isOfField
      (.field [("field_name", .text name.text), ("type", .text type)]) = true := by
    simp [Remark.isOfField, Remark.operation?, Remark.toRecord, Record.find?_cons]
  rw [Comments.noteFor, Comments.remarkFor_below htrailing habove hhere,
    ofComment?_remark indent name htype, Option.filter_some, if_pos hfield]
  exact ofRecord_field name hne

theorem marks_marker (htrailing : site.comments.trailing = []) {line indent : Nat}
    (habove : site.comments.on line =
      (Line.comment indent "# @openapi conditional:true".toList).said?)
    (hhere : site.comments.on (line + 1) = none) :
    site.comments.marks (some ((line + 1 : Nat) : Int)) = true := by
  rw [Comments.marks, Comments.remarkFor_below htrailing habove hhere, ofComment?_marker]
  rfl

theorem not_mem_reservedMethods (name : PropertyName) : name.text ∉ reservedMethods := by
  intro hmem
  have hall : ∀ method ∈ reservedMethods,
      Text.isPlainName method.toList = false ∨ method = "call" := by decide
  rcases hall name.text hmem with hplain | hcall
  · rw [name.plain] at hplain
    cases hplain
  · exact name.free hcall

theorem isNamed_reserved {name : PropertyName} {c : Call} (h : c.method = some name.text)
    {methods : List String} (hmethods : methods ⊆ reservedMethods) :
    c.isNamed methods = false := by
  have hfresh : name.text ∉ methods := fun hmem => not_mem_reservedMethods name (hmethods hmem)
  simpa [Call.isNamed, h] using hfresh

theorem kind_property {name : PropertyName} {line : Nat} {c : Call}
    (hmethod : c.method = some name.text) (hreceiver : c.receiver = some (builderNode line)) :
    c.kind "json" = .property := by
  have hon : c.isOnBuilder "json" = true := by
    rw [Call.isOnBuilder, hreceiver]
    rfl
  have hnamed : ∀ methods ⊆ reservedMethods, c.isNamed methods = false :=
    fun methods hmethods => isNamed_reserved hmethod hmethods
  have harray : c.isArray "json" = false := by
    rw [Call.isArray, hnamed _ (by decide), Bool.false_and]
  have hinclusion : c.isInclusion = false := hnamed _ (by decide)
  have hextraction : c.isExtraction "json" = false := by
    rw [Call.isExtraction, hnamed _ (by decide), hnamed _ (by decide), Bool.false_and]
    rfl
  have hdirective : c.isDirective "json" = false := by
    rw [Call.isDirective, Call.isCache, Call.isKeyFormat, Call.isNullHandling,
      Call.isManipulation, hnamed _ (by decide), hnamed _ (by decide), hnamed _ (by decide),
      hnamed _ (by decide)]
    rfl
  have hproperty : c.isProperty "json" = true := by
    have hfresh := not_mem_reservedMethods name
    simp [Call.isProperty, hmethod, hreceiver, hon, hfresh]
  simp [Call.kind, harray, hinclusion, hextraction, hdirective, hproperty]

theorem invocation_propertyCall {name : PropertyName} {line : Nat} {c : Call}
    (h : IsPropertyCall name line c) : ∃ i : Invocation, (Node.call c).invocation = .ok i ∧
      i.call.kind "json" = .property ∧ i.call.hasPartialKey = false ∧ i.args.drop 1 = [] ∧
      i.method = name.text ∧ i.line = some (line : Int) := by
  obtain ⟨args, hargs, hlength, hplain⟩ := h.args
  have hne : name.text ≠ "" := by
    intro hempty
    have hname := name.plain
    rw [hempty] at hname
    cases hname
  refine ⟨{ receiver := c.receiver, method := name.text, args, line := c.extent.line }, ?_,
    kind_property rfl h.receiver, ?_, List.drop_eq_nil_of_le hlength, rfl, h.line⟩
  · simp only [Node.invocation, h.method, hargs]
  · simp only [Call.hasPartialKey, Invocation.call, Arguments.toList, List.any_eq_false]
    intro n hn
    have hnone : n.hashPairs? = none := hplain n hn
    simp [hnone]

theorem nodup_blockShapes (line : Nat) {plans : List Plan} (h : (blockNames plans).Nodup) :
    (([] ++ blockShapes false line plans).filterMap Shape.name).Nodup := by
  rw [List.nil_append, filterMap_name_blockShapes]
  exact h

theorem ofMembers_blockShapes (f : Facts) (line : Nat) {plans : List Plan}
    (h : (blockNames plans).Nodup) :
    Shape.ofMembers f (blockShapes false line plans) =
      .object f (blockShapes false line plans) := by
  rw [Shape.ofMembers, Shape.addMembers_of_distinct (nodup_blockShapes line h), List.nil_append]

theorem asItems_of_not_root {s : Shape} (h : s.isArrayRoot = false) : Site.asItems s = s := by
  cases s with
  | array f isRoot items =>
    obtain rfl : isRoot = false := h
    rfl
  | _ => rfl

/-- A block without a root array makes an object. -/
theorem enclosing_blockShapes (f : Facts) (line : Nat) {plans : List Plan}
    (h : (blockNames plans).Nodup) :
    Site.enclosing f (blockShapes false line plans) =
      .object f (blockShapes false line plans) := by
  have hroots := isArrayRoot_blockShapes false line plans
  have hitems : (blockShapes false line plans).map Site.asItems = blockShapes false line plans := by
    rw [List.map_congr_left fun s hs => asItems_of_not_root (hroots s hs), List.map_id']
  unfold Site.enclosing
  split
  · rename_i inner items heq
    have hroot := hroots (.array inner true items) (heq ▸ List.mem_singleton_self _)
    cases hroot
  · rw [hitems]
    exact ofMembers_blockShapes f line h

/-- The item template that a block without a root array makes. -/
theorem itemOf_blockShapes (line : Nat) {plans : List Plan} (h : (blockNames plans).Nodup) :
    Site.itemOf (blockShapes false line plans) = .object {} (blockShapes false line plans) := by
  have hroots := isArrayRoot_blockShapes false line plans
  unfold Site.itemOf
  split
  · rename_i facts items heq
    have hroot := hroots (.array facts true items) (heq ▸ List.mem_singleton_self _)
    cases hroot
  · exact ofMembers_blockShapes {} line h

theorem result_propertyCall (hbuilder : site.settings.builder = "json")
    (htrailing : site.comments.trailing = []) {line indent : Nat} {name : PropertyName}
    {type : String} (htype : Remark.isTypeWord type.toList)
    (habove : site.comments.on line = (Line.comment indent (remark name type).toList).said?)
    (hhere : site.comments.on (line + 1) = none) {c : Call}
    (hc : IsPropertyCall name (line + 1) c) (body : Option Body) :
    (site.call includer (.call c) body).result =
      match body with
      | some b => b.nodes.result.map fun nodes =>
          [Site.ofBlock (factsOf false name type (line + 1)) b.hasParams nodes]
      | none => .ok [.simple (factsOf false name type (line + 1))] := by
  obtain ⟨i, hinvocation, hkind, hpartial, hargs, hmethod, hline⟩ := invocation_propertyCall hc
  have hnote := noteFor_remark htrailing htype habove hhere
  have hfacts : site.propertyFacts i = factsOf false name type (line + 1) := by
    rw [Site.propertyFacts, hmethod, hline, hnote]
    rfl
  rw [Site.result_call site includer hinvocation, hbuilder, hkind]
  dsimp only
  rw [Site.result_property, hpartial, if_neg Bool.false_ne_true, hfacts, hargs]
  cases body with
  | none => rfl
  | some b =>
    dsimp only
    cases b.nodes.result <;> rfl

/-- What the comments say of the lines of a compound part. -/
theorem hold_compound {c : Comments} {line indent : Nat} {said : List Char} {glyphs : List Glyph}
    {body : List Plan}
    (h : c.Hold line ([Line.comment indent said, Line.code indent glyphs] ++
      blockLines (indent + 2) body ++ [Line.code indent [.word false "end"]])) :
    c.on line = (Line.comment indent said).said? ∧ c.on (line + 1) = none ∧
      c.Hold (line + 2) (blockLines (indent + 2) body) := by
  rw [Comments.hold_append, Comments.hold_append] at h
  exact ⟨h.1.1.1, h.1.1.2.1, h.1.2⟩

mutual

/-- The statement of a part gives the shapes that the part asks for. -/
theorem result_statement (hbuilder : site.settings.builder = "json")
    (htrailing : site.comments.trailing = []) (indent line : Nat) :
    ∀ (p : Plan) {n : Node}, p.isDistinct → (names p).Nodup →
      site.comments.Hold line (p.lines indent) → IsReadAs line p n →
        (site.statement includer n).result = .ok (shapes false line p)
  | .value name type, _, _, _, hheld, hread => by
    obtain ⟨c, rfl, hc⟩ := hread
    obtain ⟨habove, hhere, -⟩ := hheld
    rw [Site.statement, result_propertyCall hbuilder htrailing (isTypeWord_word type) habove hhere
      hc none]
    rfl
  | .object name body, _, hdistinct, _, hheld, hread => by
    obtain ⟨c, params, nodes, extent, rfl, hc, hempty, hnodes⟩ := hread
    simp only [isDistinct, Bool.and_eq_true, decide_eq_true_eq] at hdistinct
    obtain ⟨habove, hhere, hbody⟩ := hold_compound hheld
    have hinner : (site.statements includer [] nodes).result =
        .ok ([] ++ blockShapes false (line + 2) body) :=
      result_statements hbuilder htrailing (indent + 2) (line + 2) body hdistinct.2
        (nodup_blockShapes (line + 2) hdistinct.1) hbody hnodes
    rw [Site.statement, result_propertyCall hbuilder htrailing (by decide) habove hhere hc]
    dsimp only
    rw [hinner, hempty]
    exact congrArg (fun s => Except.ok [s]) (enclosing_blockShapes _ (line + 2) hdistinct.1)
  | .array name body, _, hdistinct, _, hheld, hread => by
    obtain ⟨c, params, nodes, extent, rfl, hc, hparams, hnodes⟩ := hread
    simp only [isDistinct, Bool.and_eq_true, decide_eq_true_eq] at hdistinct
    obtain ⟨habove, hhere, hbody⟩ := hold_compound hheld
    have hinner : (site.statements includer [] nodes).result =
        .ok ([] ++ blockShapes false (line + 2) body) :=
      result_statements hbuilder htrailing (indent + 2) (line + 2) body hdistinct.2
        (nodup_blockShapes (line + 2) hdistinct.1) hbody hnodes
    rw [Site.statement, result_propertyCall hbuilder htrailing (by decide) habove hhere hc]
    dsimp only
    rw [hinner, hparams]
    exact congrArg (fun s => Except.ok [Shape.array _ false [s]])
      (itemOf_blockShapes (line + 2) hdistinct.1)
  | .conditional body, _, hdistinct, hnames, hheld, hread => by
    obtain ⟨keyword, condition, nodes, extent, rfl, hline, hnodes⟩ := hread
    obtain ⟨habove, hhere, hbody⟩ := hold_compound hheld
    have hinner : (site.statements includer [] nodes).result =
        .ok ([] ++ blockShapes false (line + 2) body) :=
      result_statements hbuilder htrailing (indent + 2) (line + 2) body hdistinct
        (nodup_blockShapes (line + 2) hnames) hbody hnodes
    have hmarks := marks_marker htrailing habove hhere
    have hmarked := map_marked_blockShapes false (line + 2) body
    have hnone : (site.branches includer []).result = .ok [] := by
      rw [Site.branches]
      rfl
    rw [Site.result_conditional, Site.result_branches_cons, hinner, hline, hmarks, hnone]
    simp only [Except.bind, Except.map, List.nil_append, List.append_nil, if_true, hmarked]
    rfl

theorem result_statements (hbuilder : site.settings.builder = "json")
    (htrailing : site.comments.trailing = []) (indent line : Nat) :
    ∀ (plans : List Plan) {nodes : List Node} {members : List Shape}, areDistinct plans →
      ((members ++ blockShapes false line plans).filterMap Shape.name).Nodup →
      site.comments.Hold line (blockLines indent plans) → AreReadAs line plans nodes →
        (site.statements includer members nodes).result =
          .ok (members ++ blockShapes false line plans)
  | [], _, members, _, _, _, hread => by
    obtain rfl := hread
    rw [Site.statements, blockShapes, List.append_nil]
    rfl
  | p :: rest, _, members, hdistinct, hnames, hheld, hread => by
    obtain ⟨n, others, rfl, hn, hothers⟩ := hread
    simp only [areDistinct, Bool.and_eq_true] at hdistinct
    rw [blockLines, Comments.hold_append, length_lines] at hheld
    rw [blockShapes, ← List.append_assoc] at hnames ⊢
    have hfirst : ((members ++ shapes false line p).filterMap Shape.name).Nodup := by
      rw [List.filterMap_append] at hnames
      exact (List.nodup_append.mp hnames).1
    have hown : (names p).Nodup := by
      rw [List.filterMap_append, filterMap_name_shapes] at hfirst
      exact (List.nodup_append.mp hfirst).2.1
    have hstatement := result_statement hbuilder htrailing indent line p hdistinct.1 hown hheld.1 hn
    have hadded : Shape.addMembers members (shapes false line p) =
        members ++ shapes false line p := Shape.addMembers_of_distinct hfirst
    rw [Site.result_statements_cons, hstatement]
    dsimp only [Except.bind]
    rw [hadded]
    exact result_statements hbuilder htrailing indent (line + p.height) rest hdistinct.2 hnames
      hheld.2 hothers

end

end Walk

end Plan
end ViewSchema
