import ViewSchema.Proofs.Walk.Silent

/-!
What a walk passes through. A directive or an unrelated call with a block stands for the statements
of the block, and a conditional without a marker for those of its branches, one after the other; a
conditional with a marker stands for the same nodes, made conditional.
-/

namespace ViewSchema

open Template

namespace Site

variable {site : Site} {includer : Includer}

/-- The block of a directive or of an unrelated call gives the nodes of its body. -/
theorem statement_block_of_kind {callee : Node} {i : Invocation} (hi : callee.invocation = .ok i)
    (hkind : i.call.kind site.settings.builder = .directive ∨
      i.call.kind site.settings.builder = .other) (params : List String) (body : List Node)
    (extent : Extent) :
    site.statement includer (.block callee params body extent) =
      site.statements includer [] body := by
  rw [statement, call, hi]
  rcases hkind with hkind | hkind <;> simp only [hkind]

theorem silent_statements_singleton (members : List Shape) (n : Node) :
    (site.statements includer members [n]).silent =
      (site.statement includer n).silent >>= fun nodes =>
        pure (Shape.addMembers members nodes) := by
  rw [silent_statements_cons]
  rfl

/-- A statement can be replaced by statements that add the same nodes. -/
theorem silent_statements_replace {n : Node} {body : List Node}
    (h : ∀ members, (site.statements includer members [n]).silent =
      (site.statements includer members body).silent)
    (members : List Shape) (pre post : List Node) :
    (site.statements includer members (pre ++ n :: post)).silent =
      (site.statements includer members (pre ++ body ++ post)).silent := by
  rw [List.append_assoc, silent_statements_append, silent_statements_append _ pre]
  refine bind_congr fun gathered => ?_
  rw [← List.singleton_append, silent_statements_append, silent_statements_append, h]

/-- Adding the nodes of all branches is walking the branches as one body. -/
theorem silent_branches (members : List Shape) (branches : List (List Node)) :
    ((site.branches includer branches).silent >>= fun nodes =>
        pure (Shape.addMembers members nodes)) =
      (site.statements includer members branches.flatten).silent := by
  induction branches generalizing members with
  | nil => simp only [Site.branches, statements, Walk.silent_pure, pure_bind, List.flatten_nil,
      Shape.addMembers, List.foldl_nil]
  | cons body rest ih =>
    rw [List.flatten_cons, silent_statements_append, silent_statements, Site.branches]
    simp only [Walk.silent_bind, Walk.silent_pure, bind_assoc, pure_bind, Shape.addMembers_append,
      ih]

theorem silent_conditional (keyword : String) (condition : Option Node)
    (branches : List (List Node)) (extent : Extent) (members : List Shape) :
    (site.statements includer members [.conditional keyword condition branches extent]).silent =
      (site.statements includer [] branches.flatten).silent >>= fun nodes =>
        pure (Shape.addMembers members
          (if site.comments.marks extent.line then nodes.map Shape.marked else nodes)) := by
  rw [silent_statements_singleton, statement, ← silent_branches []]
  simp only [Walk.silent_bind, Walk.silent_pure, bind_assoc, pure_bind]
  refine bind_congr fun nodes => ?_
  split
  · rw [Shape.map_addMembers Shape.name_marked, List.map_nil, Shape.addMembers_nil_addMembers]
  · rw [Shape.addMembers_nil_addMembers]

/-- Blocks of directives and of unrelated calls, and conditionals without a marker, can be replaced
by what is in them; a conditional with a marker adds the same nodes, made conditional. Two bodies,
one after the other, give the nodes of the second added to those of the first. Nothing but messages
differs, and a failure stays what it is. -/
theorem statements_transparent (site : Site) (includer : Includer) (members : List Shape)
    (pre post : List Node) :
    (∀ (callee : Node) (params : List String) (body : List Node) (extent : Extent) (i : Invocation),
      callee.invocation = .ok i →
      i.call.kind site.settings.builder = .directive ∨
        i.call.kind site.settings.builder = .other →
      (site.statements includer members (pre ++ .block callee params body extent :: post)).silent =
        (site.statements includer members (pre ++ body ++ post)).silent) ∧
    (∀ (keyword : String) (condition : Option Node) (branches : List (List Node)) (extent : Extent),
      (site.comments.marks extent.line = false →
        (site.statements includer members
            (pre ++ .conditional keyword condition branches extent :: post)).silent =
          (site.statements includer members (pre ++ branches.flatten ++ post)).silent) ∧
      (site.comments.marks extent.line = true →
        (site.statements includer members
            (pre ++ .conditional keyword condition branches extent :: post)).silent = do
          let before ← (site.statements includer members pre).silent
          let nodes ← (site.statements includer [] branches.flatten).silent
          let gathered := Shape.addMembers before (nodes.map Shape.marked)
          (site.statements includer gathered post).silent)) ∧
    (∀ first second : List Node,
      (site.statements includer members (first ++ second)).silent = do
        let before ← (site.statements includer members first).silent
        let nodes ← (site.statements includer [] second).silent
        return Shape.addMembers before nodes) := by
  refine ⟨?block, ?conditional, ?bodies⟩
  case block =>
    intro callee params body extent i hi hkind
    apply silent_statements_replace
    intro gathered
    rw [silent_statements_singleton, statement_block_of_kind hi hkind, ← silent_statements]
  case conditional =>
    intro keyword condition branches extent
    constructor
    · intro hmarks
      apply silent_statements_replace
      intro gathered
      rw [silent_conditional, silent_statements gathered]
      simp only [hmarks, Bool.false_eq_true, if_false]
    · intro hmarks
      rw [silent_statements_append]
      refine bind_congr fun before => ?_
      rw [← List.singleton_append, silent_statements_append, silent_conditional, bind_assoc]
      simp only [hmarks, if_true, pure_bind]
  case bodies =>
    intro first second
    rw [silent_statements_append]
    exact bind_congr fun before => silent_statements before second

/-- A call on the document builder without arguments. -/
def builderCall (method : String) (line : Int) : Node :=
  .call
    { receiver := some (.name "json" { line := some line })
      method := some method
      args := .list []
      extent := { line := some line } }

def cachedSite : Site :=
  { path := .ofString "/views/post.json.jbuilder"
    settings := {}
    comments := { entries := [(4, "# @openapi conditional:true")] } }

def cachedBody : List Node := [builderCall "author" 3, builderCall "title" 3]

theorem statements_transparent_cachedPost :
    let includer : Includer := fun _ _ _ => return []
    let before := [builderCall "title" 1]
    let after := [builderCall "author" 9]
    let branches := [cachedBody, [builderCall "tags" 7]]
    (builderCall "cache!" 2).invocation.isOk ∧
      cachedSite.comments.marks (some 2) = false ∧ cachedSite.comments.marks (some 5) = true ∧
      (cachedSite.statements includer []
          (before ++ .block (builderCall "cache!" 2) [] cachedBody {} :: after)).silent =
        (cachedSite.statements includer [] (before ++ cachedBody ++ after)).silent ∧
      (cachedSite.statements includer []
          (before ++ .conditional "if" none branches { line := some 2 } :: after)).silent =
        (cachedSite.statements includer [] (before ++ branches.flatten ++ after)).silent ∧
      ((cachedSite.statements includer []
          (before ++ .conditional "if" none branches { line := some 5 } :: after)).silent = do
        let first ← (cachedSite.statements includer [] before).silent
        let nodes ← (cachedSite.statements includer [] branches.flatten).silent
        let gathered := Shape.addMembers first (nodes.map Shape.marked)
        (cachedSite.statements includer gathered after).silent) := by
  intro includer before after branches
  have hplain : cachedSite.comments.marks (some 2) = false := by decide +kernel
  have hmarked : cachedSite.comments.marks (some 5) = true := by decide +kernel
  obtain ⟨hblock, hconditional, -⟩ :=
    statements_transparent cachedSite includer [] before after
  exact ⟨rfl, hplain, hmarked, hblock _ [] cachedBody {} _ rfl (.inl (by decide +kernel)),
    (hconditional "if" none branches { line := some 2 }).1 hplain,
    (hconditional "if" none branches { line := some 5 }).2 hmarked⟩

end Site
end ViewSchema
