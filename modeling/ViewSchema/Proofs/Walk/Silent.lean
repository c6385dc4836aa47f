import ViewSchema.Proofs.Shape.Members
import ViewSchema.Proofs.Walk.Components
import ViewSchema.Walk.Statement

/-!
Walks as programs. Accounts can be put together in any grouping, so the steps of a walk can be
regrouped like those of a program. Without its messages, gathering nodes is nothing but adding them
to the members there are, and the nodes of a body can be gathered on their own before they are added
to others.
-/

namespace ViewSchema

open Template

namespace Account

theorem nil_append (a : Account) : append {} a = a := by
  simp [append, Components.nil_merge]

theorem append_nil (a : Account) : append a {} = a := by
  simp [append, Components.merge_nil]

theorem append_assoc (a b c : Account) : (a.append b).append c = a.append (b.append c) := by
  simp [append, Components.merge_assoc]

/-- The account without its messages. -/
def silent (a : Account) : Account := { a with log := [] }

end Account

namespace Walk

variable {α β : Type}

theorem bind_def (w : Walk α) (next : α → Walk β) : w >>= next = w.andThen next := rfl

instance : LawfulMonad Walk := LawfulMonad.mk' Walk
  (by
    rintro α ⟨result, account⟩
    cases result <;> simp [Functor.map, andThen, Account.append_nil])
  (by
    intro α β a next
    simp [Bind.bind, Pure.pure, andThen, Account.nil_append])
  (by
    rintro α β γ ⟨result, account⟩ next last
    cases result with
    | error failure => rfl
    | ok a =>
      simp only [bind_def, andThen]
      cases (next a).result <;> simp [Account.append_assoc])

/-- The walk without its messages. -/
def silent (w : Walk α) : Walk α := { w with account := w.account.silent }

@[simp] theorem silent_pure (a : α) : (pure a : Walk α).silent = pure a := rfl

@[simp] theorem silent_say (level : Level) (message : String) :
    (say level message).silent = pure () := rfl

@[simp] theorem silent_bind (w : Walk α) (next : α → Walk β) :
    (w >>= next).silent = w.silent >>= fun a => (next a).silent := by
  obtain ⟨result, account⟩ := w
  cases result <;> rfl

end Walk

namespace Site

variable {site : Site} {includer : Includer}

theorem silent_gather (members : List Shape) (node : Shape) :
    (site.gather members node).silent = pure (Shape.addMember members node) := by
  rw [gather]
  split
  · split
    · simp only [Walk.silent_bind, Walk.silent_say, Walk.silent_pure, pure_bind]
    · rfl
  · rfl

theorem silent_gatherAll (members nodes : List Shape) :
    (site.gatherAll members nodes).silent = pure (Shape.addMembers members nodes) := by
  induction nodes generalizing members with
  | nil => rfl
  | cons node rest ih =>
    rw [gatherAll, Walk.silent_bind, silent_gather, pure_bind, ih, Shape.addMembers_cons]

theorem silent_statements_cons (members : List Shape) (n : Node) (rest : List Node) :
    (site.statements includer members (n :: rest)).silent =
      (site.statement includer n).silent >>= fun nodes =>
        (site.statements includer (Shape.addMembers members nodes) rest).silent := by
  simp only [statements, Walk.silent_bind, silent_gatherAll, pure_bind]

theorem silent_statements_append (members : List Shape) (first second : List Node) :
    (site.statements includer members (first ++ second)).silent =
      (site.statements includer members first).silent >>= fun gathered =>
        (site.statements includer gathered second).silent := by
  induction first generalizing members with
  | nil => simp only [List.nil_append, statements, Walk.silent_pure, pure_bind]
  | cons n rest ih =>
    rw [List.cons_append, silent_statements_cons, silent_statements_cons, bind_assoc]
    exact bind_congr fun nodes => ih (Shape.addMembers members nodes)

/-- The nodes of a body can be gathered on their own before they are added. -/
theorem silent_statements (members : List Shape) (body : List Node) :
    (site.statements includer members body).silent =
      (site.statements includer [] body).silent >>= fun nodes =>
        pure (Shape.addMembers members nodes) := by
  induction body generalizing members with
  | nil => simp only [statements, Walk.silent_pure, pure_bind, Shape.addMembers, List.foldl_nil]
  | cons n rest ih =>
    rw [silent_statements_cons, silent_statements_cons, bind_assoc]
    refine bind_congr fun nodes => ?_
    have hone : ((Shape.addMembers [] nodes).filterMap Shape.name).Nodup :=
      Shape.distinct_addMembers List.nodup_nil
    rw [ih (Shape.addMembers members nodes), ih (Shape.addMembers [] nodes), bind_assoc]
    refine bind_congr fun gathered => ?_
    rw [pure_bind, Shape.addMembers_gathered hone, Shape.addMembers_nil_addMembers]

end Site
end ViewSchema
