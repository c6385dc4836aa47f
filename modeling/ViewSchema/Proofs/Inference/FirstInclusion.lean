import ViewSchema.Proofs.Inference.Components

/-!
Which of several inclusions of one component name registers the component. The first one that was
resolved decides: its shape is registered, unless the template has itself included one of the same
name. Inclusions go on account before the templates they include are walked, but shapes are
registered afterwards, so what is nested comes first.
-/

namespace ViewSchema

/-- The inclusion was resolved and has a component name. -/
def Inclusion.isRegistering (key : String) (i : Inclusion) : Bool :=
  i.resolved && Partial.componentName i.template == key

namespace Inference

open Template

variable {files : Files} {settings : Settings} {key : String}

/-- The shape that is registered under a name when the template is included under it: what is
nested in the template counts first. -/
def registering (alone : Inference) (key : String) : Shape :=
  (alone.components.lookup key).getD alone.root

/-- The shape is registered under a name when the template of the inclusion is. -/
def Registering (files : Files) (settings : Settings) (key : String) (i : Inclusion)
    (shape : Shape) : Prop :=
  ∃ alone, (infer files settings i.path).1 = .ok alone ∧ shape = alone.registering key

/-- Every component of an account is what the first resolved inclusion of its name registers. -/
def FirstRegistered (files : Files) (settings : Settings) (a : Account) : Prop :=
  ∀ key, Option.Rel (Registering files settings key)
    (a.inclusions.find? (Inclusion.isRegistering key)) (a.components.lookup key)

theorem rel_or {α β : Type} {R : α → β → Prop} {a a' : Option α} {b b' : Option β}
    (h : Option.Rel R a b) (h' : Option.Rel R a' b') : Option.Rel R (a.or a') (b.or b') := by
  cases h with
  | none => exact h'
  | some h => exact .some h

theorem closed_firstRegistered (files : Files) (settings : Settings) :
    Account.Closed (FirstRegistered files settings) where
  messages _ _ := .none
  append {a b} ha hb key := by
    change Option.Rel _ ((a.inclusions ++ b.inclusions).find? _)
      ((a.components.merge b.components).lookup key)
    rw [List.find?_append, Components.lookup_merge]
    exact rel_or (ha key) (hb key)
  settle name a ha key := by
    have hfirst := ha key
    change Option.Rel _ ((a.inclusions.map _).find? _) (a.components.lookup key)
    rw [List.find?_map]
    change Option.Rel _ ((a.inclusions.find? (Inclusion.isRegistering key)).map _) _
    generalize a.inclusions.find? (Inclusion.isRegistering key) = first at hfirst ⊢
    generalize a.components.lookup key = own at hfirst ⊢
    cases hfirst with
    | none => exact .none
    | some h => exact .some h

theorem firstRegistered_unresolved {inclusion : Inclusion} (h : inclusion.resolved = false) :
    FirstRegistered files settings { inclusions := [inclusion] } := by
  intro key
  have hnot : inclusion.isRegistering key = false := by
    rw [Inclusion.isRegistering, h, Bool.false_and]
  simp only [List.find?_cons, hnot]
  exact .none

/-- A template that was entered and whose nodes were found registers on its own what it does
there. -/
theorem registering_onChain {chain : List Location} {here : Location} {path : Path}
    {template : ViewSchema.Template} {nodes : List Shape}
    (hentered : access files settings chain path = .entered here template)
    (hnodes : (bodyWalk files settings (chain ++ [here]) path template).result = .ok nodes) :
    ∃ alone, (infer files settings path).1 = .ok alone ∧
      ∀ key, alone.registering key =
        ((bodyWalk files settings (chain ++ [here]) path
          template).account.components.lookup key).getD (component nodes) := by
  obtain ⟨alone, halone, hroot⟩ := infer_of_entered hentered hnodes
  refine ⟨alone, halone, fun key => ?_⟩
  have hcomponents : alone.components =
      (bodyWalk files settings [here] path template).account.components := by
    obtain ⟨henters, hload⟩ := access_eq_entered_iff.mp hentered
    obtain ⟨result, -, rfl⟩ := Walk.eq_of_map_ok halone
    have hsilent := congrArg Account.components (silent_account_walk henters.resolve hload)
    exact hsilent
  rw [registering, hcomponents, bodyWalk_onChain hnodes, hroot]

/-- A template that was included and walked registers its own document behind what is nested in
it. -/
theorem firstRegistered_resolved {inclusion : Inclusion} {walk : Walk (List Shape)}
    (hwalk : FirstRegistered files settings walk.account)
    (halone : ∀ nodes, walk.result = .ok nodes →
      ∃ alone, (infer files settings inclusion.path).1 = .ok alone ∧
        ∀ key, alone.registering key =
          (walk.account.components.lookup key).getD (component nodes)) :
    FirstRegistered files settings (resolved inclusion walk).account := by
  unfold resolved
  split
  · exact hwalk
  · rename_i nodes hnodes
    intro key
    simp only [List.find?_cons, Components.lookup_merge]
    by_cases hkey : Partial.componentName inclusion.template = key
    · obtain ⟨alone, hinfer, hregistering⟩ := halone nodes hnodes
      simp only [Inclusion.isRegistering, hkey, beq_self_eq_true, Bool.and_true]
      rw [List.lookup_cons_self, Option.or_some, ← hregistering]
      exact .some ⟨alone, hinfer, rfl⟩
    · have hname : (key == Partial.componentName inclusion.template) = false :=
        beq_false_of_ne (Ne.symm hkey)
      have hnot : ∀ entries, Inclusion.isRegistering key
          { inclusion with resolved := true, entries } = false := fun entries => by
        simp only [Inclusion.isRegistering, Bool.true_and]
        exact beq_false_of_ne hkey
      simp only [hnot, List.lookup_cons, hname, List.lookup_nil, Option.or_none]
      exact hwalk key

theorem firstRegistered_walk (path : Path) :
    FirstRegistered files settings (walk files settings path).account :=
  account_walk_of (closed_firstRegistered files settings) fun here =>
    leaves_nodesOf (closed_firstRegistered files settings)
      (fun _ h => firstRegistered_unresolved h)
      (fun _ _ _ _ hentered hwalk => firstRegistered_resolved hwalk fun _ hnodes =>
        registering_onChain hentered hnodes)
      [here] path

theorem rel_of_infer {path : Path} {found : Inference}
    (h : (infer files settings path).1 = .ok found) (key : String) :
    Option.Rel (Registering files settings key)
      (found.inclusions.find? (Inclusion.isRegistering key)) (found.components.lookup key) := by
  obtain ⟨-, -, rfl⟩ := Walk.eq_of_map_ok h
  exact firstRegistered_walk path key

theorem lookup_of_not_nested {path : Path} {alone : Inference}
    (h : (infer files settings path).1 = .ok alone)
    (hnested : ∀ nested ∈ alone.inclusions, ¬nested.isRegistering key) :
    alone.components.lookup key = none := by
  have hfirst := rel_of_infer h key
  rw [List.find?_eq_none.mpr hnested] at hfirst
  generalize alone.components.lookup key = own at hfirst
  cases hfirst
  rfl

/-- The first resolved inclusion of a component name decides what is registered under the name: the
document of its template, unless that template includes one of the same name in turn; then it is
what that template registers on its own. -/
theorem infer_components_first (files : Files) (settings : Settings) (path : Path)
    (found : Inference) (h : (infer files settings path).1 = .ok found) (key : String)
    (shape : Shape) (hmem : (key, shape) ∈ found.components) :
    ∃ i alone, found.inclusions.find? (Inclusion.isRegistering key) = some i ∧
      (infer files settings i.path).1 = .ok alone ∧
      shape = (alone.components.lookup key).getD alone.root ∧
      ((∀ nested ∈ alone.inclusions, ¬nested.isRegistering key) → shape = alone.root) := by
  have hlookup : found.components.lookup key = some shape := by
    obtain ⟨result, -, rfl⟩ := Walk.eq_of_map_ok h
    exact Components.lookup_of_mem (registered_walk path).nodup hmem
  have hfirst := rel_of_infer h key
  rw [hlookup] at hfirst
  cases hfind : found.inclusions.find? (Inclusion.isRegistering key) with
  | none =>
    rw [hfind] at hfirst
    cases hfirst
  | some i =>
    rw [hfind] at hfirst
    cases hfirst with
    | some hregistering =>
      obtain ⟨alone, halone, rfl⟩ := hregistering
      refine ⟨i, alone, rfl, halone, rfl, fun hnested => ?_⟩
      rw [registering, lookup_of_not_nested halone hnested, Option.getD_none]

/-- A post that includes its user, whose template includes another one of the same bare name by way
of a card. -/
def nestedUser : Files :=
  .ofPaths
    [("/views/posts/show.json.jbuilder", .text "json.partial! 'user'\n"),
      ("/views/posts/_user.json.jbuilder", .text "json.name 1\njson.partial! 'users/card'\n"),
      ("/views/users/_card.json.jbuilder", .text "json.partial! 'user'\n"),
      ("/views/users/_user.json.jbuilder", .text "json.id 1\n")]

def showPath : Path := .ofString "/views/posts/show.json.jbuilder"

/-- What a run shows of the component of a name: the names of its members, and the member names of
the document of the first resolved inclusion of the name. -/
def firstShown (files : Files) (path : Path) (key : String) :
    Option (List String × List String) := do
  let found ← (infer files {} path).1.toOption
  let shape ← found.components.lookup key
  let i ← found.inclusions.find? (Inclusion.isRegistering key)
  let alone ← (infer files {} i.path).1.toOption
  return (shape.children.filterMap Shape.name, alone.root.children.filterMap Shape.name)

theorem exists_of_firstShown {path : Path} {names own : List String}
    (h : firstShown files path key = some (names, own)) :
    ∃ found shape i alone, (infer files {} path).1 = .ok found ∧ (key, shape) ∈ found.components ∧
      found.inclusions.find? (Inclusion.isRegistering key) = some i ∧
      (infer files {} i.path).1 = .ok alone ∧
      shape.children.filterMap Shape.name = names ∧
      alone.root.children.filterMap Shape.name = own := by
  obtain ⟨found, hfound, h⟩ := Option.bind_eq_some_iff.mp h
  obtain ⟨shape, hshape, h⟩ := Option.bind_eq_some_iff.mp h
  obtain ⟨i, hi, h⟩ := Option.bind_eq_some_iff.mp h
  obtain ⟨alone, halone, h⟩ := Option.bind_eq_some_iff.mp h
  obtain ⟨rfl, rfl⟩ := Prod.mk.inj (Option.some.inj h)
  obtain ⟨before, after, hsplit, -⟩ := List.lookup_eq_some_iff.mp hshape
  refine ⟨found, shape, i, alone, Walk.eq_of_toOption hfound, ?_, hi, Walk.eq_of_toOption halone,
    rfl, rfl⟩
  rw [hsplit]
  exact List.mem_append_right _ List.mem_cons_self

theorem firstShown_nestedUser :
    firstShown nestedUser showPath "User" = some (["id"], ["name", "id"]) := by
  decide +kernel

theorem infer_components_first_nestedUser :
    ∃ found shape, (infer nestedUser {} showPath).1 = .ok found ∧
      ("User", shape) ∈ found.components ∧ shape.children.filterMap Shape.name = ["id"] ∧
      ∃ i alone, found.inclusions.find? (Inclusion.isRegistering "User") = some i ∧
        (infer nestedUser {} i.path).1 = .ok alone ∧
        shape = (alone.components.lookup "User").getD alone.root := by
  obtain ⟨found, shape, -, -, hfound, hmem, -, -, hnames, -⟩ :=
    exists_of_firstShown firstShown_nestedUser
  obtain ⟨i, alone, hi, halone, hshape, -⟩ :=
    infer_components_first nestedUser {} showPath found hfound "User" shape hmem
  exact ⟨found, shape, hfound, hmem, hnames, i, alone, hi, halone, hshape⟩

/-- A component that is not the document of the first resolved inclusion of its name. -/
theorem exists_notFirst_nestedUser :
    ∃ found shape i alone, (infer nestedUser {} showPath).1 = .ok found ∧
      ("User", shape) ∈ found.components ∧
      found.inclusions.find? (Inclusion.isRegistering "User") = some i ∧
      (infer nestedUser {} i.path).1 = .ok alone ∧ shape ≠ alone.root := by
  obtain ⟨found, shape, i, alone, hfound, hmem, hi, halone, hnames, hown⟩ :=
    exists_of_firstShown firstShown_nestedUser
  refine ⟨found, shape, i, alone, hfound, hmem, hi, halone, ?_⟩
  rintro rfl
  rw [hnames] at hown
  exact absurd hown (by decide)

end Inference
end ViewSchema
