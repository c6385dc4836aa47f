import Mathlib.Data.Set.Card
import Mathlib.Data.Set.Finite.Lattice
import Mathlib.Logic.Relation
import ViewSchema.Proofs.Inference.Result
import ViewSchema.Proofs.Path
import ViewSchema.Proofs.Walk.Demand

/-!
The chain of files that leads to an included template. A visit is one template being walked, with
the chain up to and with it; a visit opens another one for each inclusion that its walk comes to
and whose file exists and is not on the chain. A visit fails on its own account, or because one on
the way from it does. The main statement says that an inference makes finitely many visits, that
their chains are paths of distinct files in normal form, and that the inference reports a cycle
exactly when some visit comes to an inclusion of a file on its own chain.
-/

namespace ViewSchema

/-- There is a file at a location. -/
def Files.HasFile (files : Files) (l : Location) : Prop :=
  ∃ path, files.resolve path = .ok l ∧ files.isFile path = .ok true

theorem Files.finite_hasFile (files : Files) : {l | files.HasFile l}.Finite := by
  refine files.locations.finite_toSet.subset ?_
  rintro l ⟨path, hresolve, hfile⟩
  exact files.mem_locations hresolve hfile

namespace Inference

open Template
open Demand (firstFailure? Met)

/-- A template being walked, and the chain of files that leads to it, itself at the end. -/
structure Visit where
  chain : List Location
  path : Path

namespace Visit

/-- The visit to a template at the top, whose path leads to a location. -/
def top (here : Location) (path : Path) : Visit := ⟨[here], path⟩

variable (files : Files) (settings : Settings)

/-- The includer that the walk of a visit uses. -/
def includer (v : Visit) : Includer := nodesOf files settings v.chain v.path

/-- What the walk of a visit asks for; nothing when its file is no template. -/
def demands (v : Visit) : List Demand :=
  match load files settings v.path with
  | .error _ => []
  | .ok template =>
    Site.bodyDemands { path := v.path, settings, comments := template.comments } template.body

/-- The walk of a visit comes to an inclusion of the file at a path. -/
def Includes (v : Visit) (target : Path) : Prop :=
  ∃ template bindings line,
    Met (v.includer files settings) (v.demands files settings)
      (.inclusion template bindings line) ∧
    target = Partial.path template v.path settings

/-- A visit opens another one: it comes to an inclusion of a file that exists and is not on its
chain yet. -/
def Opens (v w : Visit) : Prop :=
  v.Includes files settings w.path ∧
    ∃ l, Enters files v.chain w.path l ∧ w.chain = v.chain ++ [l]

/-- A visit is made on the way from another one. -/
def Reaches : Visit → Visit → Prop := Relation.ReflTransGen (Opens files settings)

/-- An inference makes the visit to its own template, once the path leads somewhere, and all those
on the way from it. -/
def Made (path : Path) (v : Visit) : Prop :=
  ∃ here, files.resolve path = .ok here ∧ (top here path).Reaches files settings v

/-- A visit comes to an inclusion of a file on its own chain. -/
def Recurs (v : Visit) (again : Location) : Prop :=
  ∃ target, v.Includes files settings target ∧ files.resolve target = .ok again ∧ again ∈ v.chain

/-- The failure that ends the walk of a visit. -/
def failure? (v : Visit) : Option Failure :=
  firstFailure? (v.includer files settings) (v.demands files settings)

/-- What ends the walk of a visit on its own account: it comes to a malformed call, binds what has
no source, or includes what is refused to it. -/
inductive Fails (v : Visit) : Failure → Prop where
  | malformed {malformation : Malformation} {line : Option Int}
    (hmet : Met (v.includer files settings) (v.demands files settings)
      (.malformed malformation line)) :
    Fails v (.malformed malformation line)
  | sourceless (hmet : Met (v.includer files settings) (v.demands files settings) .sourceless) :
    Fails v .sourceless
  | refused {target : Path} {failure : Failure} (hincludes : v.Includes files settings target)
    (hrefusal : Refusal files settings v.chain target failure) :
    Fails v failure

end Visit

open Visit

variable {files : Files} {settings : Settings}

theorem failure?_resolved (inclusion : Inclusion) (walk : Walk (List Shape)) :
    (resolved inclusion walk).failure? = walk.failure? := by
  unfold resolved Walk.failure?
  cases walk.result <;> rfl

theorem failure?_bodyWalk {chain : List Location} {path : Path} {template : ViewSchema.Template}
    (h : load files settings path = .ok template) :
    (bodyWalk files settings chain path template).failure? =
      Visit.failure? files settings ⟨chain, path⟩ := by
  rw [bodyWalk, Site.failure?_statements]
  simp only [Visit.failure?, Visit.demands, h]
  rfl

/-- A visit that fails has loaded its template. -/
theorem Visit.load_of_failure? {v : Visit} {failure : Failure}
    (h : v.failure? files settings = some failure) :
    ∃ template, load files settings v.path = .ok template := by
  cases hload : load files settings v.path with
  | ok template => exact ⟨template, rfl⟩
  | error _ =>
    simp only [Visit.failure?, Visit.demands, hload] at h
    cases h

/-- An inclusion fails when it is refused, or when its file is entered and the visit to it fails. -/
theorem failure?_nodesOf_iff {chain : List Location} {current : Path} {name : String}
    {bindings : Record} {line : Option Int} {failure : Failure} :
    let target := Partial.path name current settings
    (nodesOf files settings chain current name bindings line).failure? = some failure ↔
      Refusal files settings chain target failure ∨
        ∃ here, Enters files chain target here ∧
          Visit.failure? files settings ⟨chain ++ [here], target⟩ = some failure := by
  intro target
  constructor
  · intro h
    cases haccess : access files settings chain target with
    | refused cause =>
      rw [nodesOf_of_refused haccess] at h
      cases h
      exact .inl (access_eq_refused_iff.mp haccess)
    | vacant fault? =>
      rw [nodesOf_of_vacant haccess] at h
      cases h
    | entered here template =>
      obtain ⟨henters, hload⟩ := access_eq_entered_iff.mp haccess
      rw [nodesOf_of_entered haccess, failure?_resolved, failure?_bodyWalk hload] at h
      exact .inr ⟨here, henters, h⟩
  · rintro (hrefusal | ⟨here, henters, h⟩)
    · rw [nodesOf_of_refused (access_eq_refused_iff.mpr hrefusal)]
      rfl
    · obtain ⟨template, hload⟩ := Visit.load_of_failure? h
      rw [nodesOf_of_entered (access_eq_entered_iff.mpr ⟨henters, hload⟩), failure?_resolved,
        failure?_bodyWalk hload]
      exact h

/-- Walking over a chain fails at a malformed call, at a value without a source, or at an inclusion
that is refused or whose visit fails. -/
theorem firstFailure?_nodesOf_iff {chain : List Location} {current : Path} {demands : List Demand}
    {failure : Failure} :
    let includer := nodesOf files settings chain current
    firstFailure? includer demands = some failure ↔
      (∃ malformation line, Met includer demands (.malformed malformation line) ∧
        failure = .malformed malformation line) ∨
      (Met includer demands .sourceless ∧ failure = .sourceless) ∨
      ∃ template bindings line, Met includer demands (.inclusion template bindings line) ∧
        (Refusal files settings chain (Partial.path template current settings) failure ∨
          ∃ here, Enters files chain (Partial.path template current settings) here ∧
            Visit.failure? files settings
              ⟨chain ++ [here], Partial.path template current settings⟩ = some failure) := by
  intro includer
  constructor
  · intro h
    obtain ⟨demand, hmet, hfailure⟩ := Demand.exists_met_of_firstFailure? h
    cases demand with
    | malformed malformation line =>
      cases hfailure
      exact .inl ⟨malformation, line, hmet, rfl⟩
    | sourceless =>
      cases hfailure
      exact .inr (.inl ⟨hmet, rfl⟩)
    | inclusion template bindings line =>
      exact .inr (.inr ⟨template, bindings, line, hmet, failure?_nodesOf_iff.mp hfailure⟩)
  · rintro (⟨malformation, line, hmet, rfl⟩ | ⟨hmet, rfl⟩ |
      ⟨template, bindings, line, hmet, hcause⟩)
    · exact hmet.firstFailure? rfl
    · exact hmet.firstFailure? rfl
    · exact hmet.firstFailure? (failure?_nodesOf_iff.mpr hcause)

namespace Visit

variable (files settings)

/-- A visit fails on its own account or as one does that it opens. -/
theorem failure?_eq_some_iff (v : Visit) (failure : Failure) :
    v.failure? files settings = some failure ↔
      v.Fails files settings failure ∨
        ∃ w, v.Opens files settings w ∧ w.failure? files settings = some failure := by
  unfold Visit.failure? Visit.includer
  refine firstFailure?_nodesOf_iff.trans ?_
  constructor
  · rintro (⟨_, _, hmet, rfl⟩ | ⟨hmet, rfl⟩ | ⟨template, bindings, line, hmet, hcause⟩)
    · exact .inl (.malformed hmet)
    · exact .inl (.sourceless hmet)
    · have hincludes : v.Includes files settings (Partial.path template v.path settings) :=
        ⟨template, bindings, line, hmet, rfl⟩
      rcases hcause with hrefusal | ⟨here, henters, hw⟩
      · exact .inl (.refused hincludes hrefusal)
      · exact .inr ⟨⟨_, _⟩, ⟨hincludes, here, henters, rfl⟩, hw⟩
  · rintro (hfails | ⟨⟨chain, path⟩, ⟨hincludes, here, henters, hchain⟩, hw⟩)
    · cases hfails with
      | malformed hmet => exact .inl ⟨_, _, hmet, rfl⟩
      | sourceless hmet => exact .inr (.inl ⟨hmet, rfl⟩)
      | refused hincludes hrefusal =>
        obtain ⟨template, bindings, line, hmet, rfl⟩ := hincludes
        exact .inr (.inr ⟨template, bindings, line, hmet, .inl hrefusal⟩)
    · obtain ⟨template, bindings, line, hmet, htarget⟩ := hincludes
      simp only at htarget hchain henters
      subst htarget hchain
      exact .inr (.inr ⟨template, bindings, line, hmet, .inr ⟨here, henters, hw⟩⟩)

/-- A visit that is opened has fewer files left to open. -/
theorem length_offChain_of_opens {v w : Visit} (h : v.Opens files settings w) :
    (offChain files w.chain).length < (offChain files v.chain).length := by
  obtain ⟨-, l, henters, hchain⟩ := h
  rw [hchain]
  exact henters.length_offChain_lt

/-- A visit fails exactly as some visit on the way from it fails on its own account. Opening visits
uses files up, which bounds the way. -/
theorem failure?_iff (v : Visit) (failure : Failure) :
    v.failure? files settings = some failure ↔
      ∃ w, v.Reaches files settings w ∧ w.Fails files settings failure := by
  constructor
  · intro h
    induction hn : (offChain files v.chain).length using Nat.strong_induction_on
      generalizing v with
    | _ n ih =>
      rcases (v.failure?_eq_some_iff files settings failure).mp h with hown | ⟨u, hopens, hu⟩
      · exact ⟨v, .refl, hown⟩
      · have hless := length_offChain_of_opens files settings hopens
        obtain ⟨w, hreaches, hfails⟩ := ih _ (hn ▸ hless) u hu rfl
        exact ⟨w, .head hopens hreaches, hfails⟩
  · rintro ⟨w, hreaches, hfails⟩
    induction hreaches using Relation.ReflTransGen.head_induction_on with
    | refl => exact (w.failure?_eq_some_iff files settings failure).mpr (.inl hfails)
    | @head u u' hopens _ ih =>
      exact (u.failure?_eq_some_iff files settings failure).mpr (.inr ⟨u', hopens, ih⟩)

/-- The visits that a visit opens are among finitely many. -/
theorem finite_opens (v : Visit) : {w | v.Opens files settings w}.Finite := by
  let opened : Demand → Visit := fun demand =>
    match demand with
    | .inclusion template _ _ =>
      let target := Partial.path template v.path settings
      ⟨v.chain ++ (files.resolve target).toOption.toList, target⟩
    | _ => v
  refine ((v.demands files settings).map opened).finite_toSet.subset ?_
  rintro ⟨chain, path⟩
    ⟨⟨template, bindings, line, ⟨before, after, hsplit, -⟩, htarget⟩, l, henters, hchain⟩
  simp only at htarget hchain henters
  subst htarget hchain
  simp only [Set.mem_ofPred_eq, List.mem_map]
  refine ⟨.inclusion template bindings line, by simp [hsplit], ?_⟩
  simp only [opened, henters.resolve]
  rfl

/-- Only finitely many visits are made on the way from a visit. -/
theorem finite_reaches (v : Visit) : {w | v.Reaches files settings w}.Finite := by
  induction hn : (offChain files v.chain).length using Nat.strong_induction_on generalizing v with
  | _ n ih =>
    have hbelow : (⋃ u ∈ {u | v.Opens files settings u},
        {w | Visit.Reaches files settings u w}).Finite := by
      apply (finite_opens files settings v).biUnion
      intro u hu
      exact ih _ (hn ▸ length_offChain_of_opens files settings hu) u rfl
    refine (hbelow.insert v).subset ?_
    intro w hw
    rcases Relation.ReflTransGen.cases_head hw with rfl | ⟨u, hopens, hrest⟩
    · exact Set.mem_insert _ _
    · exact Set.mem_insert_of_mem _ (Set.mem_biUnion hopens hrest)

theorem finite_made (path : Path) : {v : Visit | v.Made files settings path}.Finite := by
  cases hresolve : files.resolve path with
  | error fault => simp [Made, hresolve]
  | ok here => simpa [Made, hresolve] using finite_reaches files settings (top here path)

/-- What holds of every visit that an inference makes: its chain starts where the path of the top
template leads and ends where its own does, in distinct locations in normal form, and at all but the
first there is a file, whose visit was opened by the one that ends right before it. -/
structure WellChained (start : Path) (v : Visit) : Prop where
  clean : v.path.IsClean
  nodup : v.chain.Nodup
  normal : ∀ l ∈ v.chain, l.IsNormal
  head : ∃ here, files.resolve start = .ok here ∧ v.chain.head? = some here
  last : ∃ l, files.resolve v.path = .ok l ∧ v.chain.getLast? = some l
  found : ∀ l ∈ v.chain.tail, files.HasFile l
  opened : ∀ before l after, v.chain = before ++ l :: after → before ≠ [] →
    ∃ u w : Visit, u.Made files settings start ∧ u.Opens files settings w ∧
      u.chain = before ∧ w.chain = before ++ [l]

theorem wellChained_top {start : Path} {here : Location} (h : start.IsClean)
    (hresolve : files.resolve start = .ok here) :
    WellChained files settings start (top here start) where
  clean := h
  nodup := List.nodup_singleton _
  normal := by
    intro l hl
    obtain rfl := List.mem_singleton.mp hl
    exact files.isNormal_resolve h hresolve
  head := ⟨here, hresolve, rfl⟩
  last := ⟨here, hresolve, rfl⟩
  found := by simp [top]
  opened := by
    intro before l after hsplit hbefore
    have hlength := congrArg List.length hsplit
    have hpositive := List.length_pos_iff.mpr hbefore
    simp only [top, List.length_append, List.length_cons, List.length_nil] at hlength
    omega

/-- Opening a visit keeps chains well formed: the file put on the chain is fresh and exists. -/
theorem WellChained.opens {start : Path} {v w : Visit} (hv : WellChained files settings start v)
    (hmade : v.Made files settings start) (h : v.Opens files settings w) :
    WellChained files settings start w := by
  have hopens := h
  obtain ⟨⟨template, bindings, line, -, htarget⟩, here, henters, hchain⟩ := h
  obtain ⟨first, hresolve, hhead⟩ := hv.head
  have hne : v.chain ≠ [] := by
    intro hnil
    simp [hnil] at hhead
  have hclean : w.path.IsClean := htarget ▸ Partial.isClean_path template settings hv.clean
  refine ⟨hclean, ?_, ?_, ⟨first, hresolve, ?_⟩, ⟨here, henters.resolve, ?_⟩, ?_, ?_⟩
  · rw [hchain]
    exact List.nodup_append.mpr ⟨hv.nodup, List.nodup_singleton _,
      fun a ha b hb heq => henters.fresh (List.mem_singleton.mp hb ▸ heq ▸ ha)⟩
  · intro l hl
    rw [hchain] at hl
    rcases List.mem_append.mp hl with hold | hnew
    · exact hv.normal l hold
    · obtain rfl := List.mem_singleton.mp hnew
      exact files.isNormal_resolve hclean henters.resolve
  · rw [hchain, List.head?_append_of_ne_nil _ hne]
    exact hhead
  · rw [hchain, List.getLast?_concat]
  · intro l hl
    rw [hchain, List.tail_append_of_ne_nil hne] at hl
    rcases List.mem_append.mp hl with hold | hnew
    · exact hv.found l hold
    · obtain rfl := List.mem_singleton.mp hnew
      exact ⟨w.path, henters.resolve, henters.isFile⟩
  · intro before l after hsplit hbefore
    rw [hchain] at hsplit
    rcases List.eq_nil_or_concat after with rfl | ⟨after, final, rfl⟩
    · -- The split is at the end of the chain, where `v` opens `w`.
      obtain ⟨rfl, hl⟩ := List.append_inj' hsplit rfl
      exact ⟨v, w, hmade, hopens, rfl, hchain.trans (by rw [List.singleton_inj.mp hl])⟩
    · refine hv.opened before l after ?_ hbefore
      have hinit : v.chain ++ [here] = (before ++ l :: after) ++ [final] := by
        simpa using hsplit
      exact (List.append_inj' hinit rfl).1

theorem wellChained_of_made {start : Path} (h : start.IsClean) {v : Visit}
    (hmade : v.Made files settings start) : WellChained files settings start v := by
  obtain ⟨here, hresolve, hreaches⟩ := hmade
  induction hreaches with
  | refl => exact wellChained_top files settings h hresolve
  | tail hbefore hopens ih => exact ih.opens files settings ⟨here, hresolve, hbefore⟩ hopens

/-- A chain is at most one longer than there are files. -/
theorem WellChained.length_le {start : Path} {v : Visit} (h : WellChained files settings start v) :
    v.chain.length ≤ {l | files.HasFile l}.ncard + 1 := by
  have hsubset : (v.chain.tail.toFinset : Set Location) ⊆ {l | files.HasFile l} := by
    intro l hl
    exact h.found l (List.mem_toFinset.mp hl)
  have hle := Set.ncard_le_ncard hsubset files.finite_hasFile
  rw [Set.ncard_coe_finset, List.toFinset_card_of_nodup h.nodup.tail, List.length_tail] at hle
  omega

end Visit

theorem failure?_document (path : Path) (nodes : List Shape) :
    (document path nodes).failure? = none := by
  unfold document
  split
  · split <;> rfl
  · rfl

/-- The walk of a template that was read fails as its visit does. -/
theorem failure?_walk {path : Path} {here : Location} {template : Template}
    (hresolve : files.resolve path = .ok here) (hload : load files settings path = .ok template) :
    (walk files settings path).failure? = (Visit.top here path).failure? files settings := by
  rw [walk_of_load hresolve hload]
  simp only []
  rw [Walk.failure?_bind_pure, rootOf, Walk.failure?_bind_safe (failure?_document path)]
  exact failure?_bodyWalk hload

theorem infer_eq_error_iff_walk (path : Path) (failure : Failure) :
    (infer files settings path).1 = .error failure ↔
      (walk files settings path).failure? = some failure := by
  rw [Walk.failure?_eq_some_iff, infer]
  cases (walk files settings path).result <;> simp [Except.map]

theorem infer_of_resolve_error {path : Path} {fault : PathFault}
    (h : files.resolve path = .error fault) :
    (infer files settings path).1 = .error (.file (.path fault)) := by
  rw [infer_eq_error_iff_walk, walk, locate, h]
  rfl

theorem infer_of_load_error {path : Path} {here : Location} {failure : Failure}
    (hresolve : files.resolve path = .ok here)
    (h : load files settings path = .error failure) :
    (infer files settings path).1 = .error failure := by
  rw [infer_eq_error_iff_walk, walk, locate_eq_ok_iff.mpr hresolve, h]
  rfl

/-- Why an inference fails: its path leads nowhere, its template cannot be loaded, or a visit that
it makes fails on its own account. -/
theorem infer_eq_error_iff {path : Path} {failure : Failure} :
    (infer files settings path).1 = .error failure ↔
      (∃ fault, files.resolve path = .error fault ∧ failure = .file (.path fault)) ∨
      (∃ here, files.resolve path = .ok here ∧ load files settings path = .error failure) ∨
      ∃ v : Visit, v.Made files settings path ∧ v.Fails files settings failure := by
  cases hresolve : files.resolve path with
  | error fault =>
    rw [infer_of_resolve_error hresolve]
    simp [Made, hresolve, eq_comm]
  | ok here =>
    have hmade : (∃ v : Visit, v.Made files settings path ∧ v.Fails files settings failure) ↔
        (Visit.top here path).failure? files settings = some failure := by
      rw [Visit.failure?_iff]
      simp [Made, hresolve]
    cases hload : load files settings path with
    | error cause =>
      have hnone : (Visit.top here path).failure? files settings = none := by
        simp only [Visit.failure?, Visit.demands, Visit.top, hload]
        rfl
      rw [infer_of_load_error hresolve hload, hmade, hnone]
      simp
    | ok template =>
      rw [hmade, ← failure?_walk hresolve hload, infer_eq_error_iff_walk]
      simp

/-- An inference fails with a cycle exactly when a visit that it makes closes it. -/
theorem infer_eq_cyclic_iff {path : Path} {cycle : List Location} :
    (infer files settings path).1 = .error (.cyclic cycle) ↔
      ∃ (v : Visit) (again : Location), v.Made files settings path ∧ v.Recurs files settings again ∧
        cycle = v.chain ++ [again] := by
  rw [infer_eq_error_iff]
  constructor
  · rintro (⟨fault, -, hfile⟩ | ⟨here, -, hload⟩ | ⟨v, hmade, hfails⟩)
    · cases hfile
    · rcases load_error hload with ⟨_, hfile, -⟩ | ⟨_, _, hfault, -⟩
      · cases hfile
      · cases hfault
    · cases hfails with
      | refused hincludes hrefusal =>
        cases hrefusal with
        | cyclic hresolve hchain =>
          exact ⟨v, _, hmade, ⟨_, hincludes, hresolve, hchain⟩, rfl⟩
  · rintro ⟨v, again, hmade, ⟨target, hincludes, hresolve, hchain⟩, rfl⟩
    exact .inr (.inr ⟨v, hmade, .refused hincludes (.cyclic hresolve hchain)⟩)

/-- Including templates comes to an end and reports exactly the cycles. From any start an
inference makes finitely many visits. The chain of each visit is well formed and at most one longer
than there are files. The inference fails with a cycle exactly when a visit comes to an inclusion
of a file on its own chain; the cycle is then that chain and the file met again, so its last
element occurs before and all others are distinct. While no visit includes a file on its own chain
there is no cycle, however often a file is included. -/
theorem infer_visits_and_cycles (files : Files) (settings : Settings) (start : String) :
    let path := Path.ofString start
    {v : Visit | v.Made files settings path}.Finite ∧
    (∀ v : Visit, v.Made files settings path →
      v.WellChained files settings path ∧
        v.chain.length ≤ {l | files.HasFile l}.ncard + 1) ∧
    (∀ cycle, (infer files settings path).1 = .error (.cyclic cycle) ↔
      ∃ (v : Visit) (again : Location), v.Made files settings path ∧ v.Recurs files settings again ∧
        cycle = v.chain ++ [again]) ∧
    (∀ cycle, (infer files settings path).1 = .error (.cyclic cycle) →
      ∃ chain again, cycle = chain ++ [again] ∧ again ∈ chain ∧ chain.Nodup) ∧
    ((∀ (v : Visit) (again : Location), v.Made files settings path →
        ¬v.Recurs files settings again) →
      ∀ cycle, (infer files settings path).1 ≠ .error (.cyclic cycle)) := by
  intro path
  have hchained : ∀ v : Visit, v.Made files settings path → v.WellChained files settings path :=
    fun v hv => Visit.wellChained_of_made files settings (Path.isClean_ofString start) hv
  refine ⟨Visit.finite_made files settings _, ?_, fun _ => infer_eq_cyclic_iff, ?_, ?_⟩
  · intro v hv
    exact ⟨hchained v hv, (hchained v hv).length_le files settings⟩
  · intro cycle hcycle
    obtain ⟨v, again, hv, ⟨target, -, -, hmem⟩, rfl⟩ := infer_eq_cyclic_iff.mp hcycle
    exact ⟨v.chain, again, rfl, hmem, (hchained v hv).nodup⟩
  · intro hnone cycle hcycle
    obtain ⟨v, again, hv, hrecurs, -⟩ := infer_eq_cyclic_iff.mp hcycle
    exact hnone v again hv hrecurs

end Inference
end ViewSchema
