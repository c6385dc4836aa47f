import ViewSchema.Proofs.Inference.Failure

/-!
Malformed calls. Where the statements of a template are given as a tree, calls may lack their method
name or their argument list, anything may stand in the place of a block's call, and statements may
be no nodes at all. The main statement says what comes of such a tree: a document, a malformed call,
or the refusal of a template that is included on the way; and a malformed call is the cause exactly
when the walk reaches one.
-/

namespace ViewSchema

open Template

namespace Template.Node

/-- Why what stands in the place of a call is no call that can be walked. -/
inductive Malformed : Node → Malformation → Prop
  | noCall {n : Node} (h : ∀ c, n ≠ .call c) : Malformed n (.noCall n.kindName)
  | noMethod {c : Call} (h : c.method = none ∨ c.method = some "") : Malformed (.call c) .noMethod
  | noArguments {c : Call} {method : String} (hmethod : c.method = some method)
      (hname : method ≠ "") (h : ∀ args, c.args ≠ .list args) :
      Malformed (.call c) (.noArguments method)

theorem invocation_eq_error_iff {n : Node} {malformation : Malformation} {line : Option Int} :
    n.invocation = .error (malformation, line) ↔ n.Malformed malformation ∧ line = n.line? := by
  constructor
  · intro h
    unfold invocation at h
    split at h
    · rename_i c
      split at h
      · rename_i hmethod
        cases h
        exact ⟨.noMethod (.inl hmethod), rfl⟩
      · rename_i hmethod
        cases h
        exact ⟨.noMethod (.inr hmethod), rfl⟩
      · cases h
      · rename_i hname hmethod hargs
        cases h
        exact ⟨.noArguments hmethod hname hargs, rfl⟩
    · rename_i hother
      cases h
      exact ⟨.noCall hother, rfl⟩
  · rintro ⟨hmalformed, rfl⟩
    cases hmalformed with
    | noCall h =>
      cases n with
      | call c => exact absurd rfl (h c)
      | _ => rfl
    | noMethod h =>
      unfold invocation
      rcases h with hnone | hempty
      · simp [hnone, line?, extent?]
      · simp [hempty, line?, extent?]
    | @noArguments c method hmethod hname h =>
      cases hargs : c.args with
      | list args => exact absurd hargs (h args)
      | absent | stray _ => simp [invocation, hmethod, hargs, line?, extent?]

end Template.Node

namespace Inference

open Demand (Met firstFailure?)

section Body

variable (files) (here : Location) (site : Site) (body : List Node)

/-- The walk over a body, whose path leads to a location, comes to an inclusion of the file at a
path. -/
def BodyIncludes (target : Path) : Prop :=
  ∃ template bindings line,
    Met (includer files site.settings here site.path) (site.bodyDemands body)
      (.inclusion template bindings line) ∧
    target = Partial.path template site.path site.settings

/-- The walk over a body opens a visit: it comes to an inclusion of another file, which exists. -/
def OpenedBy (v : Visit) : Prop :=
  BodyIncludes files here site body v.path ∧
    ∃ l, Enters files [here] v.path l ∧ v.chain = [here, l]

/-- A visit is made on the way when a body is walked. -/
def VisitedBy (w : Visit) : Prop :=
  ∃ v, OpenedBy files here site body v ∧ v.Reaches files site.settings w

/-- A template is included over a chain of files when a body is walked: by the body itself, or by a
template visited on the way. -/
inductive IncludedOver : List Location → Path → Prop
  | own {target : Path} (h : BodyIncludes files here site body target) : IncludedOver [here] target
  | visited {w : Visit} {target : Path} (hvisited : VisitedBy files here site body w)
    (hincludes : w.Includes files site.settings target) :
    IncludedOver w.chain target

/-- The walks that are made when a body is walked: that of the body itself, and those of the
templates that it includes, directly or not. -/
inductive Walked : Site → Includer → List Node → Prop
  | own : Walked site (includer files site.settings here site.path) body
  | included {v : Visit} {template : ViewSchema.Template}
    (hvisited : VisitedBy files here site body v)
    (hload : load files site.settings v.path = .ok template) :
      Walked { path := v.path, settings := site.settings, comments := template.comments }
        (v.includer files site.settings) template.body

theorem failure?_rootOf :
    (rootOf files here site body).failure? =
      firstFailure? (includer files site.settings here site.path) (site.bodyDemands body) := by
  rw [rootOf, Walk.failure?_bind_safe (failure?_document site.path), Site.failure?_statements]

end Body

section Outcome

variable {files : Files} {here : Location} {site : Site} {body : List Node}

/-- Why the walk over a loose body fails. -/
theorem cause_of_rootOf (hbody : ∀ n ∈ body, n.IsNode → n.Loose) {failure : Failure}
    (h : (rootOf files here site body).failure? = some failure) :
    (∃ malformation line walked includer statements callee,
        failure = .malformed malformation line ∧
        Walked files here site body walked includer statements ∧
        walked.Reaches includer statements callee ∧
        callee.invocation = .error (malformation, line)) ∨
      ∃ chain target, IncludedOver files here site body chain target ∧
        Refusal files site.settings chain target failure := by
  rw [failure?_rootOf] at h
  rcases firstFailure?_nodesOf_iff.mp h with ⟨malformation, line, hmet, rfl⟩ | ⟨hmet, -⟩ |
    ⟨template, bindings, line, hmet, hcause⟩
  · obtain ⟨callee, hreached, herror⟩ := (site.met_malformed_iff _ body _ _).mp hmet
    exact .inl ⟨_, _, site, _, body, callee, rfl, .own, hreached, herror⟩
  · exact absurd hmet.mem (site.sourceless_not_mem_bodyDemands hbody)
  have hincludes : BodyIncludes files here site body
      (Partial.path template site.path site.settings) :=
    ⟨template, bindings, line, hmet, rfl⟩
  rcases hcause with hrefusal | ⟨l, henters, hv⟩
  · exact .inr ⟨_, _, .own hincludes, hrefusal⟩
  obtain ⟨w, hreaches, hfails⟩ := (Visit.failure?_iff files site.settings _ failure).mp hv
  have hvisited : VisitedBy files here site body w :=
    ⟨_, ⟨hincludes, l, henters, rfl⟩, hreaches⟩
  cases hfails with
  | malformed hmet =>
    obtain ⟨own, hload, -⟩ := load_of_mem_demands hmet.mem
    rw [Visit.demands, hload] at hmet
    obtain ⟨callee, hreached, herror⟩ := (Site.met_malformed_iff _ _ _ _ _).mp hmet
    exact .inl ⟨_, _, _, _, _, callee, rfl, .included hvisited hload, hreached, herror⟩
  | sourceless hmet => exact absurd hmet w.not_met_sourceless
  | refused hincluded hrefusal => exact .inr ⟨_, _, .visited hvisited hincluded, hrefusal⟩

/-- A visit that is made on the way and fails ends the whole. -/
theorem failure?_of_visitedBy {w : Visit} (h : VisitedBy files here site body w)
    {failure : Failure} (hw : w.failure? files site.settings = some failure) :
    (rootOf files here site body).failure? = some failure := by
  obtain ⟨⟨chain, path⟩, ⟨⟨template, bindings, line, hmet, htarget⟩, l, henters, hchain⟩,
    hreaches⟩ := h
  simp only at htarget henters hchain
  subst htarget hchain
  obtain ⟨u, hu, hfails⟩ := (Visit.failure?_iff files site.settings w failure).mp hw
  have hv := (Visit.failure?_iff files site.settings _ failure).mpr ⟨u, hreaches.trans hu, hfails⟩
  rw [failure?_rootOf]
  exact firstFailure?_nodesOf_iff.mpr
    (.inr (.inr ⟨template, bindings, line, hmet, .inr ⟨l, henters, hv⟩⟩))

/-- A walk that reaches a malformed call ends the whole. -/
theorem failure?_of_walked {walked : Site} {includer : Includer} {statements : List Node}
    (hwalked : Walked files here site body walked includer statements) {callee : Node}
    (hreached : walked.Reaches includer statements callee) {malformation : Malformation}
    {line : Option Int} (herror : callee.invocation = .error (malformation, line)) :
    (rootOf files here site body).failure? = some (.malformed malformation line) := by
  have hmet := (walked.met_malformed_iff includer statements malformation line).mpr
    ⟨callee, hreached, herror⟩
  cases hwalked with
  | own =>
    rw [failure?_rootOf]
    exact hmet.firstFailure? rfl
  | included hvisited hload =>
    refine failure?_of_visitedBy hvisited ?_
    rw [Visit.failure?, Visit.demands, hload]
    exact hmet.firstFailure? rfl

end Outcome

/-- A property whose value is a call without an argument list, a text among the statements, and a
block whose call is missing. -/
def danglingBlock : List Node :=
  [.call { receiver := some (.name "json" {}), method := some "title"
           args := .list [.call { receiver := none, method := none, args := .absent, extent := {} }]
           extent := {} },
    .alien (.text "title"), .block (.alien .null) [] [] {}]

/-- No files, on a machine that takes no path with a NUL in it. -/
def nulRefused : Files :=
  { Files.ofPaths [] with
    resolve := fun p =>
      if p.segments.any fun s => s.toList.contains '\x00' then
        .error (.improper "embedded null byte")
      else .ok p.location
    mem_locations := by
      rintro p l - ⟨⟩
    isNormal_resolve := by
      intro p l hclean hresolve
      split at hresolve <;> cases hresolve
      exact hclean.isNormal_location }

/-- The inclusion of a template whose name holds a NUL. -/
def includesNul : List Node :=
  [.call { receiver := some (.name "json" {}), method := some "partial!"
           args := .list [.literal .text (.text "us\x00er") false {}], extent := {} }]

end Inference
end ViewSchema
