import ViewSchema.Proofs.Inference.Result
import ViewSchema.Proofs.Walk.Account
import ViewSchema.Proofs.Walk.Silent

/-!
The account of an inference. What walking keeps, and putting a resolved inclusion on account too,
holds of the account of every inclusion and of a whole inference. Messages aside, the account of an
inference is that of the statements of its template.
-/

namespace ViewSchema

theorem Walk.account_bind_pure {α β : Type} (w : Walk α) (f : α → β) :
    (w >>= fun a => pure (f a)).account = w.account := by
  obtain ⟨result, account⟩ := w
  cases result with
  | error failure => rfl
  | ok a => exact account.append_nil

namespace Inference

open Template

variable {files : Files} {settings : Settings} {P : Account → Prop}

/-- An inclusion without a template leaves a message and itself. -/
theorem account_vacant (hclosed : Account.Closed P) {inclusion : Inclusion}
    (hown : P { inclusions := [inclusion] }) (level : Level) (message : String) :
    P ((Walk.say level message >>= fun _ =>
      Walk.unresolved inclusion >>= fun _ => pure []) : Walk (List Shape)).account :=
  hclosed.bind (hclosed.say _ _) fun _ => hclosed.bind hown fun _ => hclosed.pure _

/-- What walking and resolving keep holds of the account that an inclusion leaves. The files off the
chain become fewer with each inclusion. -/
theorem leaves_nodesOf (hclosed : Account.Closed P)
    (hunresolved : ∀ inclusion : Inclusion, inclusion.resolved = false →
      P { inclusions := [inclusion] })
    (hresolved : ∀ (chain : List Location) (here : Location) (inclusion : Inclusion)
      (template : ViewSchema.Template),
      access files settings chain inclusion.path = .entered here template →
      let walk := bodyWalk files settings (chain ++ [here]) inclusion.path template
      P walk.account → P (resolved inclusion walk).account)
    (chain : List Location) (current : Path) :
    Site.Leaves (nodesOf files settings chain current) P := by
  induction hn : (offChain files chain).length using Nat.strongRecOn
    generalizing chain current with
  | ind n ih => ?_
  intro name bindings line
  cases haccess : access files settings chain (Partial.path name current settings) with
  | refused failure =>
    rw [nodesOf_of_refused haccess]
    exact hclosed.fail _
  | vacant fault? =>
    rw [nodesOf_of_vacant haccess]
    exact account_vacant hclosed (hunresolved _ rfl) _ _
  | entered here template =>
    rw [nodesOf_of_entered haccess]
    have hinner := ih _ (hn ▸ length_offChain_of_entered haccess) (chain ++ [here])
      (Partial.path name current settings) rfl
    exact hresolved chain here _ template haccess
      (Site.account_statements _ hclosed hinner template.body [])

/-- What walking keeps holds of the account of an inference, once it holds of those that the
inclusions leave. -/
theorem account_walk_of (hclosed : Account.Closed P) {path : Path}
    (hleaves : ∀ here, Site.Leaves (includer files settings here path) P) :
    P (walk files settings path).account := by
  unfold walk
  refine hclosed.bind (hclosed.ofExcept _) fun here => hclosed.bind (hclosed.ofExcept _)
    fun template => hclosed.bind_pure ?_ _
  have hbody := Site.account_statements { path, settings, comments := template.comments } hclosed
    (hleaves here) template.body []
  refine hclosed.bind hbody fun nodes => ?_
  unfold document
  split
  · split
    · exact hclosed.bind (hclosed.say _ _) fun _ => hclosed.pure _
    · exact hclosed.pure _
  · exact hclosed.pure _

theorem silent_document (path : Path) (nodes : List Shape) :
    (document path nodes).silent = pure (component nodes) := by
  unfold document component
  split
  · split
    · simp only [Walk.silent_bind, Walk.silent_say, Walk.silent_pure, pure_bind]
    · rfl
  · rfl

/-- Messages aside, the account of an inference is that of the statements of its template. -/
theorem silent_account_walk {path : Path} {here : Location} {template : ViewSchema.Template}
    (hresolve : files.resolve path = .ok here) (hload : load files settings path = .ok template) :
    (walk files settings path).account.silent =
      (bodyWalk files settings [here] path template).account.silent := by
  have hroot (site : Site) : (rootOf files here site template.body).account.silent =
      (site.statements (includer files site.settings here site.path) []
        template.body).account.silent := by
    change (rootOf files here site template.body).silent.account = _
    rw [rootOf, Walk.silent_bind]
    simp only [silent_document]
    exact Walk.account_bind_pure _ _
  rw [walk_of_load hresolve hload, Walk.account_bind_pure]
  exact hroot _

end Inference
end ViewSchema
