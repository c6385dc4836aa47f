import ViewSchema.Proofs.Inference.Account
import ViewSchema.Proofs.Walk.Components
import ViewSchema.Proofs.Walk.Includer

/-!
The components that an inference registers. Each component is the document that the included
template makes when it is inferred on its own: whatever the including templates do with its nodes,
they do to the nodes they were given, and the chain of files that led to the template only decides
whether an inclusion is refused. A shorter chain refuses less, so a template that was included
without a cycle can also be inferred on its own, and gives the same nodes.
-/

namespace ViewSchema.Inference

open Template

variable {files : Files} {settings : Settings}

/-- Over a chain of fewer files an inclusion that gives nodes is what it is over the longer one,
nodes and account together. The files off the longer chain become fewer with each inclusion. -/
theorem upheld_nodesOf {chain shorter : List Location} (h : shorter ⊆ chain) (current : Path) :
    Site.Related @Walk.Upheld (nodesOf files settings chain current)
      (nodesOf files settings shorter current) := by
  intro name bindings line nodes hnodes
  cases haccess : access files settings chain (Partial.path name current settings) with
  | refused failure =>
    rw [nodesOf_of_refused haccess] at hnodes
    cases hnodes
  | vacant fault? =>
    have hshorter := (access_of_subset h (by simp [haccess])).trans haccess
    rw [nodesOf_of_vacant haccess, nodesOf_of_vacant hshorter]
  | entered l template =>
    have hshorter := (access_of_subset h (by simp [haccess])).trans haccess
    rw [nodesOf_of_entered haccess] at hnodes ⊢
    rw [nodesOf_of_entered hshorter]
    obtain ⟨own, hown, -⟩ := result_of_resolved hnodes
    have hinner : Site.Related @Walk.Upheld
        (nodesOf files settings (chain ++ [l]) (Partial.path name current settings))
        (nodesOf files settings (shorter ++ [l]) (Partial.path name current settings)) :=
      upheld_nodesOf (List.append_subset.mpr
        ⟨List.subset_append_of_subset_left _ h, List.subset_append_right _ _⟩) _
    have hbody := hinner.statements _ Walk.Upheld.congruence template.body [] own hown
    exact congrArg (resolved _) hbody
termination_by (offChain files chain).length
decreasing_by exact length_offChain_of_entered haccess

/-- A template whose nodes were found over some chain is walked on its own in the same way. -/
theorem bodyWalk_onChain {chain : List Location} {here : Location} {path : Path}
    {template : ViewSchema.Template} {nodes : List Shape}
    (hnodes : (bodyWalk files settings (chain ++ [here]) path template).result = .ok nodes) :
    bodyWalk files settings [here] path template =
      bodyWalk files settings (chain ++ [here]) path template :=
  Site.Related.statements _ (upheld_nodesOf (List.subset_append_right _ _) path)
    Walk.Upheld.congruence template.body [] nodes hnodes

/-- A template that was entered and whose nodes were found can be inferred on its own, and its
document is made of these nodes. -/
theorem infer_of_entered {chain : List Location} {here : Location} {path : Path}
    {template : ViewSchema.Template} {nodes : List Shape}
    (hentered : access files settings chain path = .entered here template)
    (hnodes : (bodyWalk files settings (chain ++ [here]) path template).result = .ok nodes) :
    ∃ found, (infer files settings path).1 = .ok found ∧ found.root = component nodes := by
  obtain ⟨henters, hload⟩ := access_eq_entered_iff.mp hentered
  exact infer_of_statements henters.resolve hload
    ((congrArg Walk.result (bodyWalk_onChain hnodes)).trans hnodes)

/-- An inclusion that was resolved and has a component name. -/
def Registers (inclusions : List Inclusion) (key : String) (i : Inclusion) : Prop :=
  i ∈ inclusions ∧ i.resolved ∧ Partial.componentName i.template = key

/-- The components of an account are those of its resolved inclusions, each the document of one of
the templates that were included under its name. -/
structure Registered (files : Files) (settings : Settings) (a : Account) : Prop where
  nodup : (a.components.map Prod.fst).Nodup
  keys : ∀ key, key ∈ a.components.map Prod.fst ↔ ∃ i, Registers a.inclusions key i
  alone : ∀ key shape, (key, shape) ∈ a.components → ∃ i, Registers a.inclusions key i ∧
    ∃ found, (infer files settings i.path).1 = .ok found ∧ found.root = shape

theorem registers_append {first second : List Inclusion} {key : String} {i : Inclusion} :
    Registers (first ++ second) key i ↔ Registers first key i ∨ Registers second key i := by
  simp only [Registers, List.mem_append]
  tauto

theorem exists_registers_append {first second : List Inclusion} {key : String} :
    (∃ i, Registers (first ++ second) key i) ↔
      (∃ i, Registers first key i) ∨ ∃ i, Registers second key i := by
  simp only [registers_append, exists_or]

/-- Walking keeps components and inclusions together. -/
theorem closed_registered (files : Files) (settings : Settings) :
    Account.Closed (Registered files settings) where
  messages log :=
    { nodup := List.nodup_nil
      keys := by simp [Registers]
      alone := by simp }
  append {a b} ha hb := by
    refine ⟨Components.nodup_merge ha.nodup hb.nodup, ?_, ?_⟩
    · intro key
      exact Components.mem_keys_merge.trans
        ((or_congr (ha.keys key) (hb.keys key)).trans exists_registers_append.symm)
    · intro key shape hmem
      rcases Components.mem_merge.mp hmem with hold | ⟨hnew, -⟩
      · obtain ⟨i, hi, hfound⟩ := ha.alone key shape hold
        exact ⟨i, registers_append.mpr (.inl hi), hfound⟩
      · obtain ⟨i, hi, hfound⟩ := hb.alone key shape hnew
        exact ⟨i, registers_append.mpr (.inr hi), hfound⟩
  settle name a ha := by
    have hsettled : ∀ key i, Registers a.inclusions key i →
        Registers (a.settle name).inclusions key
          { i with entries := i.entries.map (Entry.settle name) } := by
      rintro key i ⟨hmem, hresolved, hkey⟩
      exact ⟨List.mem_map_of_mem hmem, hresolved, hkey⟩
    refine ⟨ha.nodup, ?_, ?_⟩
    · intro key
      refine (ha.keys key).trans ⟨fun ⟨i, hi⟩ => ⟨_, hsettled key i hi⟩, ?_⟩
      rintro ⟨i, hmem, hresolved, hkey⟩
      obtain ⟨before, hbefore, rfl⟩ := List.mem_map.mp hmem
      exact ⟨before, hbefore, hresolved, hkey⟩
    · intro key shape hmem
      obtain ⟨i, hi, hfound⟩ := ha.alone key shape hmem
      exact ⟨_, hsettled key i hi, hfound⟩

/-- An inclusion that was not resolved registers nothing. -/
theorem registered_unresolved {inclusion : Inclusion} (h : inclusion.resolved = false) :
    Registered files settings { inclusions := [inclusion] } where
  nodup := List.nodup_nil
  keys := by simp [Registers, h]
  alone := by simp

/-- A template that was included and walked registers its own document, unless an inclusion below
it has registered its name. -/
theorem registered_resolved {inclusion : Inclusion} {walk : Walk (List Shape)}
    (hwalk : Registered files settings walk.account)
    (halone : ∀ nodes, walk.result = .ok nodes →
      ∃ found, (infer files settings inclusion.path).1 = .ok found ∧
        found.root = component nodes) :
    Registered files settings (resolved inclusion walk).account := by
  unfold resolved
  split
  · exact hwalk
  · rename_i nodes hnodes
    let done : Inclusion := { inclusion with resolved := true, entries := nodes.map Entry.of }
    have hdone : ∀ rest,
        Registers (done :: rest) (Partial.componentName inclusion.template) done :=
      fun rest => ⟨List.mem_cons_self, rfl, rfl⟩
    have hbelow : ∀ {key i}, Registers walk.account.inclusions key i →
        Registers (done :: walk.account.inclusions) key i := fun ⟨hmem, hrest⟩ =>
      ⟨List.mem_cons_of_mem _ hmem, hrest⟩
    refine ⟨Components.nodup_merge hwalk.nodup (List.nodup_singleton _), ?_, ?_⟩
    · intro key
      rw [Components.mem_keys_merge, hwalk.keys]
      constructor
      · rintro (⟨i, hi⟩ | hown)
        · exact ⟨i, hbelow hi⟩
        · obtain rfl : key = Partial.componentName inclusion.template := by simpa using hown
          exact ⟨done, hdone _⟩
      · rintro ⟨i, hmem, hresolved, hkey⟩
        rcases List.mem_cons.mp hmem with rfl | hmem
        · exact .inr (by simp [← hkey])
        · exact .inl ⟨i, hmem, hresolved, hkey⟩
    · intro key shape hmem
      rcases Components.mem_merge.mp hmem with hold | ⟨hnew, -⟩
      · obtain ⟨i, hi, hfound⟩ := hwalk.alone key shape hold
        exact ⟨i, hbelow hi, hfound⟩
      · obtain ⟨rfl, rfl⟩ : key = _ ∧ shape = _ := by simpa using hnew
        exact ⟨done, hdone _, halone nodes hnodes⟩

/-- The account that an inclusion leaves keeps components and inclusions together. -/
theorem leaves_registered (chain : List Location) (current : Path) :
    Site.Leaves (nodesOf files settings chain current) (Registered files settings) :=
  leaves_nodesOf (closed_registered files settings) (fun _ h => registered_unresolved h)
    (fun _ _ _ _ hentered hwalk =>
      registered_resolved hwalk fun _ hnodes => infer_of_entered hentered hnodes)
    chain current

theorem registered_walk (path : Path) :
    Registered files settings (walk files settings path).account :=
  account_walk_of (closed_registered files settings) fun here => leaves_registered [here] path

/-- A component does not depend on what includes it. The names of the components are those of the
inclusions that were resolved, each once, and every component is the document of one of the
templates included under its name, inferred on its own. -/
theorem infer_components (files : Files) (settings : Settings) (path : Path) (found : Inference)
    (h : (infer files settings path).1 = .ok found) :
    (found.components.map Prod.fst).Nodup ∧
    (∀ key, key ∈ found.components.map Prod.fst ↔
      ∃ i ∈ found.inclusions, i.resolved ∧ Partial.componentName i.template = key) ∧
    ∀ key shape, (key, shape) ∈ found.components →
      ∃ i ∈ found.inclusions, i.resolved ∧ Partial.componentName i.template = key ∧
        ∃ alone, (infer files settings i.path).1 = .ok alone ∧ alone.root = shape := by
  obtain ⟨result, -, rfl⟩ := Walk.eq_of_map_ok h
  have hregistered : Registered files settings (walk files settings path).account :=
    registered_walk path
  refine ⟨hregistered.nodup, hregistered.keys, ?_⟩
  intro key shape hmem
  obtain ⟨i, ⟨hi, hresolved, hkey⟩, halone⟩ := hregistered.alone key shape hmem
  exact ⟨i, hi, hresolved, hkey, halone⟩

/-- A post that includes its tags twice, once on a condition and once as a property; every tag
includes its author. -/
def tagsOnCondition : Files :=
  .ofPaths
    [("/views/post.json.jbuilder",
      .text ("# @openapi conditional:true\nif c\n  json.partial! 'tags'\nend\n" ++
        "json.tags do\n  json.partial! 'tags'\nend\n")),
      ("/views/_tags.json.jbuilder",
        .text "json.array! @tags do |tag|\n  json.author 1\n  json.partial! 'users/user'\nend\n"),
      ("/views/users/_user.json.jbuilder", .text "json.name 1\n")]

theorem infer_components_tagsOnCondition :
    ∃ found, (infer tagsOnCondition {} (.ofString "/views/post.json.jbuilder")).1 = .ok found ∧
      found.components.map Prod.fst = ["UsersUser", "Tags"] ∧
      ∃ i ∈ found.inclusions, i.resolved ∧ Partial.componentName i.template = "Tags" ∧
        ∃ alone, (infer tagsOnCondition {} i.path).1 = .ok alone ∧
          ("Tags", alone.root) ∈ found.components := by
  have hkeys : (infer tagsOnCondition {}
      (.ofString "/views/post.json.jbuilder")).1.toOption.map
        (fun found => found.components.map Prod.fst) = some ["UsersUser", "Tags"] := by
    decide +kernel
  cases h : (infer tagsOnCondition {} (.ofString "/views/post.json.jbuilder")).1 with
  | error failure =>
    rw [h] at hkeys
    cases hkeys
  | ok found =>
    rw [h] at hkeys
    have hkeys : found.components.map Prod.fst = ["UsersUser", "Tags"] := Option.some.inj hkeys
    obtain ⟨-, -, halone⟩ := infer_components _ _ _ found h
    have htags : "Tags" ∈ found.components.map Prod.fst := by simp [hkeys]
    obtain ⟨⟨key, shape⟩, hmem, rfl⟩ := List.mem_map.mp htags
    obtain ⟨i, hi, hresolved, hkey, alone, hinfer, rfl⟩ := halone _ _ hmem
    exact ⟨found, rfl, hkeys, i, hi, hresolved, hkey, alone, hinfer, hmem⟩

end ViewSchema.Inference
