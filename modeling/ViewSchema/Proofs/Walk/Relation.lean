import ViewSchema.Walk.Statement

/-!
Walks over the same statements with two includers. A relation between walks that every step keeps
relates the two walks once it relates what the includers leave, nodes and accounts together.
-/

namespace ViewSchema

open Template

namespace Walk

/-- A relation between walks that every step keeps. The name that is settled may depend on the
result of the walk. -/
structure Congruence (R : ∀ {α : Type}, Walk α → Walk α → Prop) : Prop where
  refl : ∀ {α : Type} (w : Walk α), R w w
  bind : ∀ {α β : Type} {first second : Walk α} {next next' : α → Walk β}, R first second →
    (∀ a, R (next a) (next' a)) → R (first >>= next) (second >>= next')
  settle : ∀ {first second : Walk (List Shape)}
    (name : Except Failure (List Shape) → Option String), R first second →
    R (first.settle (name first.result)) (second.settle (name second.result))

variable {R : ∀ {α : Type}, Walk α → Walk α → Prop}

theorem Congruence.bind_pure {α β : Type} (hR : Congruence R) {first second : Walk α}
    (h : R first second) (f : α → β) :
    R (first >>= fun a => pure (f a)) (second >>= fun a => pure (f a)) :=
  hR.bind h fun _ => hR.refl _

end Walk

namespace Site

/-- What the first includer leaves is related to what the second leaves. -/
def Related (R : ∀ {α : Type}, Walk α → Walk α → Prop) (first second : Includer) : Prop :=
  ∀ name bindings line, R (first name bindings line) (second name bindings line)

namespace Related

variable {R : ∀ {α : Type}, Walk α → Walk α → Prop} {first second : Includer} (site : Site)

/-- No block twice, or two blocks whose walks are related. -/
inductive Blocks (R : ∀ {α : Type}, Walk α → Walk α → Prop) : Option Body → Option Body → Prop where
  | none : Blocks R none none
  | some (hasParams : Bool) {nodes nodes' : Walk (List Shape)} :
    R nodes nodes' → Blocks R (some ⟨hasParams, nodes⟩) (some ⟨hasParams, nodes'⟩)

variable {body body' : Option Body}

theorem itemOfBody (hR : Walk.Congruence R) {nodes nodes' : Walk (List Shape)}
    (h : R nodes nodes') : R (Site.itemOfBody nodes) (Site.itemOfBody nodes') :=
  hR.bind_pure (hR.settle (fun _ => none) h) _

/-- The name that a block gives to a root array in it comes from the nodes of the block alone. -/
theorem ofBody (hR : Walk.Congruence R) (facts : Facts) {nodes nodes' : Walk (List Shape)}
    (h : R nodes nodes') : R (Site.ofBody facts nodes) (Site.ofBody facts nodes') := by
  let name (result : Except Failure (List Shape)) : Option String :=
    result.toOption.bind (rootName facts.name)
  have hname : ∀ body, Site.ofBody facts body =
      body.settle (name body.result) >>= fun nodes => pure (enclosing facts nodes) := by
    rintro ⟨result, account⟩
    cases result <;> rfl
  rw [hname, hname]
  exact hR.bind_pure (hR.settle name h) _

theorem included (h : Related R first second) (hR : Walk.Congruence R) (i : Invocation) :
    R (site.included first i) (site.included second i) := by
  unfold Site.included
  split
  · exact hR.refl _
  · exact hR.bind (hR.refl _) fun bindings => h _ bindings _

theorem includedItem (h : Related R first second) (hR : Walk.Congruence R) (i : Invocation) :
    R (site.includedItem first i) (site.includedItem second i) :=
  itemOfBody hR (h.included site hR i)

theorem property (h : Related R first second) (hR : Walk.Congruence R) (hbody : Blocks R body body')
    (i : Invocation) : R (site.property first i body) (site.property second i body') := by
  unfold Site.property
  split
  · exact hR.bind (h.includedItem site hR i) fun item => hR.refl _
  · cases hbody with
    | none => exact hR.refl _
    | some hasParams hnodes =>
      dsimp only
      split
      · exact hR.bind_pure (itemOfBody hR hnodes) _
      · exact ofBody hR _ hnodes

theorem array (h : Related R first second) (hR : Walk.Congruence R) (hbody : Blocks R body body')
    (i : Invocation) : R (site.array first i body) (site.array second i body') := by
  unfold Site.array
  split
  · exact hR.bind_pure (h.includedItem site hR i) _
  · cases hbody with
    | none => exact hR.refl _
    | some hasParams hnodes => exact hR.bind_pure (itemOfBody hR hnodes) _

theorem inclusion (h : Related R first second) (hR : Walk.Congruence R) (i : Invocation) :
    R (site.inclusion first i) (site.inclusion second i) := by
  unfold Site.inclusion
  split
  · exact hR.bind_pure (h.includedItem site hR i) _
  · exact h.included site hR i

theorem call (h : Related R first second) (hR : Walk.Congruence R) (hbody : Blocks R body body')
    (n : Node) : R (site.call first n body) (site.call second n body') := by
  unfold Site.call
  split
  · exact hR.refl _
  · split
    · exact hR.bind_pure (h.array site hR hbody _) _
    · exact h.inclusion site hR _
    · exact hR.refl _
    · exact hR.bind_pure (h.property site hR hbody _) _
    all_goals
      cases hbody with
      | none => exact hR.refl _
      | some hasParams hnodes => exact hnodes

mutual

/-- The walks of a statement are related. The proof follows the statement tree. -/
theorem statement (h : Related R first second) (hR : Walk.Congruence R) : ∀ n : Node,
    R (site.statement first n) (site.statement second n)
  | .conditional _ _ branches extent => by
    rw [Site.statement, Site.statement]
    exact hR.bind_pure (h.branches hR branches) _
  | .block callee params body _ => by
    rw [Site.statement, Site.statement]
    exact h.call site hR (.some _ (statements h hR body [])) callee
  | .call c => by
    rw [Site.statement, Site.statement]
    exact h.call site hR .none (.call c)
  | .expression parts _ => by
    rw [Site.statement, Site.statement]
    exact h.parts hR parts
  | .name .. => hR.refl _
  | .literal .. => hR.refl _
  | .hash .. => hR.refl _
  | .array .. => hR.refl _
  | .alien _ => hR.refl _

theorem statements (h : Related R first second) (hR : Walk.Congruence R) :
    ∀ (body : List Node) (members : List Shape),
      R (site.statements first members body) (site.statements second members body)
  | [], _ => hR.refl _
  | n :: rest, members => by
    rw [Site.statements, Site.statements]
    exact hR.bind (statement h hR n) fun nodes => hR.bind (hR.refl _) fun more =>
      statements h hR rest more

theorem branches (h : Related R first second) (hR : Walk.Congruence R) :
    ∀ branches : List (List Node), R (site.branches first branches) (site.branches second branches)
  | [] => hR.refl _
  | body :: rest => by
    rw [Site.branches, Site.branches]
    exact hR.bind (statements h hR body []) fun nodes => hR.bind_pure (branches h hR rest) _

theorem parts (h : Related R first second) (hR : Walk.Congruence R) :
    ∀ parts : List Node, R (site.parts first parts) (site.parts second parts)
  | [] => hR.refl _
  | n :: rest => by
    have hfirst := statement h hR n
    have hrest := parts h hR rest
    -- Only blocks and conditionals are walked; every other part is passed over.
    cases n with
    | block => exact hR.bind hfirst fun nodes => hR.bind_pure hrest _
    | conditional => exact hR.bind hfirst fun nodes => hR.bind_pure hrest _
    | _ => exact hR.bind (hR.refl _) fun nodes => hR.bind_pure hrest _

end

end Related

end Site
end ViewSchema
