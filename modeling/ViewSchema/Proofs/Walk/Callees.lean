import ViewSchema.Proofs.Walk.Demand

/-!
The calls that a walk comes to. A walk follows the statements of a template depth first: a call
before the block behind it, and the block only when the call lets it count. What a walk asks for is
what these calls ask for on their own, in the same order, so it fails as the first of them that
does.
-/

namespace ViewSchema

open Template

theorem Demand.Met.mem {includer : Includer} {demands : List Demand} {demand : Demand}
    (h : Demand.Met includer demands demand) : demand ∈ demands := by
  obtain ⟨before, after, rfl, -⟩ := h
  simp

namespace Site

/-- The block behind a call counts for the document. -/
def entersBlock (site : Site) (callee : Node) : Bool :=
  match callee.invocation with
  | .error _ => false
  | .ok i =>
    match i.call.kind site.settings.builder with
    | .array | .property => !i.call.hasPartialKey
    | .directive | .other => true
    | .inclusion | .extraction => false

mutual

/-- What stands in the places of the calls that the walk over a statement comes to, in order. -/
def callees (site : Site) : Node → List Node
  | .conditional _ _ branches _ => site.branchCallees branches
  | .block callee _ body _ =>
    callee :: if site.entersBlock callee then site.bodyCallees body else []
  | .call c => [.call c]
  | .expression parts _ => site.partCallees parts
  | .name .. | .literal .. | .hash .. | .array .. | .alien _ => []

def bodyCallees (site : Site) : List Node → List Node
  | [] => []
  | n :: rest => site.callees n ++ site.bodyCallees rest

def branchCallees (site : Site) : List (List Node) → List Node
  | [] => []
  | body :: rest => site.bodyCallees body ++ site.branchCallees rest

/-- Of the parts of an expression only blocks and conditionals are walked. -/
def partCallees (site : Site) : List Node → List Node
  | [] => []
  | n :: rest =>
    (match n with
      | .block .. | .conditional .. => site.callees n
      | _ => []) ++ site.partCallees rest

end

/-- What a call asks for on its own. -/
def ownDemands (site : Site) (callee : Node) : List Demand := site.callDemands callee []

variable (site : Site)

/-- A call asks for its own demands and for those of its block, if that counts. -/
theorem callDemands_eq (callee : Node) (inner : List Demand) :
    site.callDemands callee inner =
      site.ownDemands callee ++ if site.entersBlock callee then inner else [] := by
  unfold ownDemands callDemands entersBlock
  cases callee.invocation with
  | error fault => simp
  | ok i =>
    cases hkind : i.call.kind site.settings.builder with
    | array | property => cases hpartial : i.call.hasPartialKey <;> simp [hkind, hpartial]
    | inclusion | extraction | directive | other => simp [hkind]

/-- A call that cannot be walked asks for nothing else; one that can asks for what it includes. -/
theorem mem_ownDemands {callee : Node} {demand : Demand} (h : demand ∈ site.ownDemands callee) :
    (∃ malformation line, callee.invocation = .error (malformation, line) ∧
      demand = .malformed malformation line) ∨
      ∃ i, callee.invocation = .ok i ∧ demand ∈ includedDemands i := by
  unfold ownDemands callDemands at h
  cases hi : callee.invocation with
  | error fault =>
    rw [hi] at h
    exact .inl ⟨_, _, rfl, List.mem_singleton.mp h⟩
  | ok i =>
    refine .inr ⟨i, rfl, ?_⟩
    simp only [hi] at h
    split at h
    · split at h
      · exact h
      · cases h
    · split at h
      · exact h
      · cases h
    · exact h
    · cases h
    · cases h
    · cases h

mutual

theorem demands_eq : ∀ n : Node, site.demands n = (site.callees n).flatMap site.ownDemands
  | .conditional _ _ branches _ => by rw [demands, callees, branchDemands_eq branches]
  | .block callee _ body _ => by
    rw [demands, callees, callDemands_eq, List.flatMap_cons, bodyDemands_eq body]
    split <;> rfl
  | .call c => by rw [demands, callees, List.flatMap_singleton, ownDemands]
  | .expression parts _ => by rw [demands, callees, partDemands_eq parts]
  | .name .. => rfl
  | .literal .. => rfl
  | .hash .. => rfl
  | .array .. => rfl
  | .alien _ => rfl

theorem bodyDemands_eq : ∀ body : List Node,
    site.bodyDemands body = (site.bodyCallees body).flatMap site.ownDemands
  | [] => rfl
  | n :: rest => by
    rw [bodyDemands, bodyCallees, List.flatMap_append, demands_eq n, bodyDemands_eq rest]

theorem branchDemands_eq : ∀ branches : List (List Node),
    site.branchDemands branches = (site.branchCallees branches).flatMap site.ownDemands
  | [] => rfl
  | body :: rest => by
    rw [branchDemands, branchCallees, List.flatMap_append, bodyDemands_eq body,
      branchDemands_eq rest]

theorem partDemands_eq : ∀ parts : List Node,
    site.partDemands parts = (site.partCallees parts).flatMap site.ownDemands
  | [] => rfl
  | n :: rest => by
    have hfirst := demands_eq n
    cases n with
    | block | conditional =>
      simp only [partDemands, partCallees]
      rw [List.flatMap_append, hfirst, partDemands_eq rest]
    | _ =>
      simp only [partDemands, partCallees, List.nil_append]
      exact partDemands_eq rest

end

/-- A property of statements that all statements inside have as well, and which gives another one
for what stands in the places of calls. -/
structure Descends (S P : Node → Prop) : Prop where
  call : ∀ {c}, S (.call c) → P (.call c)
  callee : ∀ {callee params body e}, S (.block callee params body e) → P callee
  body : ∀ {callee params body e}, S (.block callee params body e) → ∀ n ∈ body, S n
  branches : ∀ {keyword condition branches e},
    S (.conditional keyword condition branches e) → ∀ b ∈ branches, ∀ n ∈ b, S n
  parts : ∀ {parts e}, S (.expression parts e) → ∀ n ∈ parts, S n

namespace Descends

variable {S P : Node → Prop}

mutual

theorem callees (h : Descends S P) : ∀ n : Node, S n → ∀ c ∈ site.callees n, P c
  | .conditional _ _ branches _, hn => branchCallees h branches (h.branches hn)
  | .block callee _ body _, hn => by
    refine List.forall_mem_cons.mpr ⟨h.callee hn, ?_⟩
    split
    · exact bodyCallees h body (h.body hn)
    · exact nofun
  | .call c, hn => List.forall_mem_singleton.mpr (h.call hn)
  | .expression parts _, hn => partCallees h parts (h.parts hn)
  | .name .., _ => nofun
  | .literal .., _ => nofun
  | .hash .., _ => nofun
  | .array .., _ => nofun
  | .alien _, _ => nofun

theorem bodyCallees (h : Descends S P) : ∀ body : List Node, (∀ n ∈ body, S n) →
    ∀ c ∈ site.bodyCallees body, P c
  | [], _ => nofun
  | n :: rest, hbody =>
    have ⟨hn, hrest⟩ := List.forall_mem_cons.mp hbody
    List.forall_mem_append.mpr ⟨callees h n hn, bodyCallees h rest hrest⟩

theorem branchCallees (h : Descends S P) : ∀ branches : List (List Node),
    (∀ b ∈ branches, ∀ n ∈ b, S n) → ∀ c ∈ site.branchCallees branches, P c
  | [], _ => nofun
  | body :: rest, hbranches =>
    have ⟨hbody, hrest⟩ := List.forall_mem_cons.mp hbranches
    List.forall_mem_append.mpr ⟨bodyCallees h body hbody, branchCallees h rest hrest⟩

theorem partCallees (h : Descends S P) : ∀ parts : List Node, (∀ n ∈ parts, S n) →
    ∀ c ∈ site.partCallees parts, P c
  | [], _ => nofun
  | n :: rest, hparts => by
    have ⟨hn, hrest⟩ := List.forall_mem_cons.mp hparts
    have hfirst := callees h n hn
    cases n with
    | block | conditional =>
      exact List.forall_mem_append.mpr ⟨hfirst, partCallees h rest hrest⟩
    | _ => exact partCallees h rest hrest

end

end Descends

section Reaches

open Demand (Met firstFailure?)

variable (includer : Includer)

/-- What stands in the place of a call is reached by the walk over a body: none of the calls in
front of it fails on its own. -/
def Reaches (body : List Node) (callee : Node) : Prop :=
  ∃ before after, site.bodyCallees body = before ++ callee :: after ∧
    ∀ earlier ∈ before, (site.call includer earlier none).failure? = none

theorem met_append (first second : List Demand) (demand : Demand) :
    Met includer (first ++ second) demand ↔
      Met includer first demand ∨
        (firstFailure? includer first = none ∧ Met includer second demand) := by
  constructor
  · rintro ⟨before, after, hsplit, hbefore⟩
    rcases List.append_eq_append_iff.mp hsplit with ⟨more, rfl, hmore⟩ | ⟨more, rfl, hmore⟩
    · obtain ⟨hnone, hrest⟩ := List.forall_mem_append.mp hbefore
      exact .inr ⟨List.findSome?_eq_none_iff.mpr hnone, more, after, hmore, hrest⟩
    · cases more with
      | nil =>
        rw [List.append_nil]
        exact .inr ⟨List.findSome?_eq_none_iff.mpr hbefore, [], after, hmore.symm, nofun⟩
      | cons _ more =>
        cases hmore
        exact .inl ⟨before, more, rfl, hbefore⟩
  · rintro (⟨before, after, rfl, hbefore⟩ | ⟨hnone, before, after, rfl, hbefore⟩)
    · exact ⟨before, after ++ second, by simp, hbefore⟩
    · exact ⟨first ++ before, after, by simp,
        List.forall_mem_append.mpr ⟨List.findSome?_eq_none_iff.mp hnone, hbefore⟩⟩

theorem met_flatMap (asked : Node → List Demand) (callees : List Node) (demand : Demand) :
    Met includer (callees.flatMap asked) demand ↔
      ∃ before callee after, callees = before ++ callee :: after ∧
        (∀ earlier ∈ before, firstFailure? includer (asked earlier) = none) ∧
        Met includer (asked callee) demand := by
  induction callees with
  | nil =>
    constructor
    · rintro ⟨before, after, hsplit, -⟩
      simp at hsplit
    · rintro ⟨before, callee, after, hsplit, -⟩
      simp at hsplit
  | cons first rest ih =>
    rw [List.flatMap_cons, met_append, ih]
    constructor
    · rintro (hfirst | ⟨hnone, before, callee, after, rfl, hbefore, hmet⟩)
      · exact ⟨[], first, rest, rfl, nofun, hfirst⟩
      · exact ⟨first :: before, callee, after, rfl, List.forall_mem_cons.mpr ⟨hnone, hbefore⟩, hmet⟩
    · rintro ⟨before, callee, after, hsplit, hbefore, hmet⟩
      cases before with
      | nil =>
        cases hsplit
        exact .inl hmet
      | cons _ before =>
        cases hsplit
        obtain ⟨hnone, hrest⟩ := List.forall_mem_cons.mp hbefore
        exact .inr ⟨hnone, before, callee, after, rfl, hrest, hmet⟩

/-- A walk comes to what the calls that it reaches ask for on their own. -/
theorem met_bodyDemands_iff (body : List Node) (demand : Demand) :
    Met includer (site.bodyDemands body) demand ↔
      ∃ callee, site.Reaches includer body callee ∧
        Met includer (site.ownDemands callee) demand := by
  have hown : ∀ callee, (site.call includer callee none).failure? =
      firstFailure? includer (site.ownDemands callee) :=
    fun callee => site.failure?_call includer callee none [] rfl
  simp only [Reaches, hown]
  rw [bodyDemands_eq, met_flatMap]
  constructor
  · rintro ⟨before, callee, after, hsplit, hbefore, hmet⟩
    exact ⟨callee, ⟨before, after, hsplit, hbefore⟩, hmet⟩
  · rintro ⟨callee, ⟨before, after, hsplit, hbefore⟩, hmet⟩
    exact ⟨before, callee, after, hsplit, hbefore, hmet⟩

/-- A walk stops at a malformed call when it reaches one. -/
theorem met_malformed_iff (body : List Node) (malformation : Malformation) (line : Option Int) :
    Met includer (site.bodyDemands body) (.malformed malformation line) ↔
      ∃ callee, site.Reaches includer body callee ∧
        callee.invocation = .error (malformation, line) := by
  rw [met_bodyDemands_iff]
  refine exists_congr fun callee => and_congr_right fun _ => ⟨fun hmet => ?_, fun herror => ?_⟩
  · rcases site.mem_ownDemands hmet.mem with ⟨_, _, herror, hdemand⟩ | ⟨i, -, hincluded⟩
    · cases hdemand
      exact herror
    · unfold includedDemands at hincluded
      split at hincluded
      · cases hincluded
      · split at hincluded <;> simp at hincluded
  · have hown : site.ownDemands callee = [.malformed malformation line] := by
      rw [ownDemands, callDemands, herror]
    exact ⟨[], [], hown, nofun⟩

end Reaches

end Site
end ViewSchema
