import ViewSchema.Walk.Statement

/-!
What a walk leaves in its account. A walk puts its account together from messages and from the
accounts of the inclusions it comes to, so a property of accounts that is kept when accounts follow
one another, and when names are settled in them, holds of the account of a whole walk once it holds
of the account of each inclusion. Whether the walk ends or fails does not matter.
-/

namespace ViewSchema

open Template

/-- A property of accounts that walking keeps. -/
structure Account.Closed (P : Account → Prop) : Prop where
  messages : ∀ log, P { log }
  append : ∀ {a b}, P a → P b → P (a.append b)
  settle : ∀ name {a}, P a → P (a.settle name)

namespace Account.Closed

variable {P : Account → Prop} {α β : Type}

theorem pure (hP : Closed P) (a : α) : P (pure a : Walk α).account := hP.messages []

theorem say (hP : Closed P) (level : Level) (message : String) :
    P (Walk.say level message).account := hP.messages _

theorem fail (hP : Closed P) (failure : Failure) : P (Walk.fail failure : Walk α).account :=
  hP.messages []

theorem ofExcept (hP : Closed P) (result : Except Failure α) :
    P (Walk.ofExcept result).account := hP.messages []

theorem bind (hP : Closed P) {w : Walk α} {next : α → Walk β} (hw : P w.account)
    (hnext : ∀ a, P (next a).account) : P (w >>= next).account := by
  change P (w.andThen next).account
  unfold Walk.andThen
  cases w.result with
  | error failure => exact hw
  | ok a => exact hP.append hw (hnext a)

theorem bind_pure (hP : Closed P) {w : Walk α} (hw : P w.account) (f : α → β) :
    P (w >>= fun a => Pure.pure (f a)).account :=
  hP.bind hw fun a => hP.pure (f a)

end Account.Closed

namespace Site

open Account (Closed)

variable {P : Account → Prop} {includer : Includer} (site : Site)

theorem account_gather (hP : Closed P) (members : List Shape) (node : Shape) :
    P (site.gather members node).account := by
  unfold gather
  split
  · split
    · exact hP.bind (hP.say _ _) fun _ => hP.pure _
    · exact hP.pure _
  · exact hP.pure _

theorem account_gatherAll (hP : Closed P) (members nodes : List Shape) :
    P (site.gatherAll members nodes).account := by
  induction nodes generalizing members with
  | nil => exact hP.pure _
  | cons node rest ih => exact hP.bind (site.account_gather hP members node) ih

theorem account_itemOfBody (hP : Closed P) {body : Walk (List Shape)} (hbody : P body.account) :
    P (itemOfBody body).account :=
  hP.bind_pure (hP.settle none hbody) _

theorem account_ofBody (hP : Closed P) (facts : Facts) {body : Walk (List Shape)}
    (hbody : P body.account) : P (ofBody facts body).account :=
  hP.bind_pure (hP.settle _ hbody) _

/-- Each inclusion leaves an account of a property. -/
def Leaves (includer : Includer) (P : Account → Prop) : Prop :=
  ∀ name bindings line, P (includer name bindings line).account

theorem account_included (hP : Closed P) (h : Leaves includer P) (i : Invocation) :
    P (site.included includer i).account := by
  unfold included
  split
  · exact hP.bind (hP.say _ _) fun _ => hP.pure _
  · exact hP.bind (hP.ofExcept _) fun bindings => h _ bindings _

theorem account_property (hP : Closed P) (h : Leaves includer P) (i : Invocation)
    {body : Option Body} (hbody : ∀ b ∈ body, P b.nodes.account) :
    P (site.property includer i body).account := by
  unfold property
  split
  · refine hP.bind (account_itemOfBody hP (site.account_included hP h i)) fun item => ?_
    split <;> exact hP.pure _
  · cases body with
    | some b =>
      dsimp only
      split
      · exact hP.bind_pure (account_itemOfBody hP (hbody b rfl)) _
      · exact account_ofBody hP _ (hbody b rfl)
    | none =>
      dsimp only
      split
      · exact hP.pure _
      · split <;> exact hP.pure _

theorem account_array (hP : Closed P) (h : Leaves includer P) (i : Invocation)
    {body : Option Body} (hbody : ∀ b ∈ body, P b.nodes.account) :
    P (site.array includer i body).account := by
  unfold array
  split
  · exact hP.bind_pure (account_itemOfBody hP (site.account_included hP h i)) _
  · cases body with
    | some b => exact hP.bind_pure (account_itemOfBody hP (hbody b rfl)) _
    | none =>
      dsimp only
      split <;> exact hP.pure _

theorem account_inclusion (hP : Closed P) (h : Leaves includer P) (i : Invocation) :
    P (site.inclusion includer i).account := by
  unfold inclusion
  split
  · exact hP.bind_pure (account_itemOfBody hP (site.account_included hP h i)) _
  · exact site.account_included hP h i

theorem account_call (hP : Closed P) (h : Leaves includer P) (n : Node) {body : Option Body}
    (hbody : ∀ b ∈ body, P b.nodes.account) : P (site.call includer n body).account := by
  unfold call
  split
  · exact hP.fail _
  · split
    · exact hP.bind_pure (site.account_array hP h _ hbody) _
    · exact site.account_inclusion hP h _
    · exact hP.pure _
    · exact hP.bind_pure (site.account_property hP h _ hbody) _
    all_goals
      cases body with
      | some b => exact hbody b rfl
      | none => exact hP.pure _

mutual

/-- The account of a statement has a property that walking keeps. The proof follows the statement
tree. -/
theorem account_statement (hP : Closed P) (h : Leaves includer P) : ∀ n : Node,
    P (site.statement includer n).account
  | .conditional _ _ branches extent => by
    rw [statement]
    exact hP.bind_pure (account_branches hP h branches) _
  | .block callee params body _ => by
    rw [statement]
    refine site.account_call hP h callee ?_
    rintro b ⟨⟩
    exact account_statements hP h body []
  | .call c => by
    rw [statement]
    refine site.account_call hP h (.call c) ?_
    rintro b ⟨⟩
  | .expression parts _ => by
    rw [statement]
    exact account_parts hP h parts
  | .name .. => hP.pure _
  | .literal .. => hP.pure _
  | .hash .. => hP.pure _
  | .array .. => hP.pure _
  | .alien _ => hP.pure _

theorem account_statements (hP : Closed P) (h : Leaves includer P) :
    ∀ (body : List Node) (members : List Shape),
      P (site.statements includer members body).account
  | [], _ => hP.pure _
  | n :: rest, members => by
    rw [statements]
    refine hP.bind (account_statement hP h n) fun nodes => ?_
    exact hP.bind (site.account_gatherAll hP members nodes) fun more =>
      account_statements hP h rest more

theorem account_branches (hP : Closed P) (h : Leaves includer P) : ∀ branches : List (List Node),
    P (site.branches includer branches).account
  | [] => hP.pure _
  | body :: rest => by
    rw [Site.branches]
    refine hP.bind (account_statements hP h body []) fun nodes => ?_
    exact hP.bind_pure (account_branches hP h rest) _

theorem account_parts (hP : Closed P) (h : Leaves includer P) : ∀ parts : List Node,
    P (site.parts includer parts).account
  | [] => hP.pure _
  | n :: rest => by
    have hfirst := account_statement hP h n
    have hrest := account_parts hP h rest
    -- Only blocks and conditionals are walked; every other part is passed over.
    cases n with
    | block => exact hP.bind hfirst fun nodes => hP.bind_pure hrest _
    | conditional => exact hP.bind hfirst fun nodes => hP.bind_pure hrest _
    | _ => exact hP.bind (hP.pure _) fun nodes => hP.bind_pure hrest _

end

end Site
end ViewSchema
