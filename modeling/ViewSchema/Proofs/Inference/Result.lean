import ViewSchema.Proofs.Inference.Access
import ViewSchema.Proofs.Walk.Invariant
import ViewSchema.Proofs.Walk.Silent

/-!
What an inference results in: the nodes that an inclusion gives are those of the body of the
included template, and the document is made of the nodes of the body of the template at the top. So
an invariant of walks holds of all nodes that inclusions give.
-/

namespace ViewSchema.Inference

open Template

variable {files : Files} {settings : Settings}

/-- The walk over the body of a template that was loaded from a path, with what it includes over a
chain of files. -/
def bodyWalk (files : Files) (settings : Settings) (chain : List Location) (path : Path)
    (template : ViewSchema.Template) : Walk (List Shape) :=
  Site.statements { path, settings, comments := template.comments }
    (nodesOf files settings chain path) [] template.body

section Access

variable {chain : List Location} {current : Path} {name : String}

theorem nodesOf_of_refused {failure : Failure}
    (h : access files settings chain (Partial.path name current settings) = .refused failure)
    (bindings : Record) (line : Option Int) :
    nodesOf files settings chain current name bindings line = Walk.fail failure := by
  rw [nodesOf]
  split <;> cases h.symm.trans ‹_›
  rfl

/-- No template is to be had: a message and the inclusion are left. -/
theorem nodesOf_of_vacant {fault? : Option FileFault}
    (h : access files settings chain (Partial.path name current settings) = .vacant fault?)
    (bindings : Record) (line : Option Int) :
    let target := Partial.path name current settings
    let place := current.toString ++ ":" ++ Site.shownLine line
    nodesOf files settings chain current name bindings line = do
      Walk.say .warning (vacancyMessage place name target.toString fault?)
      Walk.unresolved { template := name, path := target, line, bindings }
      return [] := by
  intro target place
  rw [nodesOf]
  split <;> cases h.symm.trans ‹_›
  rfl

/-- The template is entered and walked. -/
theorem nodesOf_of_entered {l : Location} {template : ViewSchema.Template}
    (h : access files settings chain (Partial.path name current settings) = .entered l template)
    (bindings : Record) (line : Option Int) :
    let target := Partial.path name current settings
    nodesOf files settings chain current name bindings line =
      resolved { template := name, path := target, line, bindings }
        (bodyWalk files settings (chain ++ [l]) target template) := by
  intro target
  rw [nodesOf]
  split <;> cases h.symm.trans ‹_›
  rfl

theorem result_of_resolved {inclusion : Inclusion} {walk : Walk (List Shape)} {nodes : List Shape}
    (h : (resolved inclusion walk).result = .ok nodes) :
    ∃ own, walk.result = .ok own ∧ nodes = own.map Shape.asForeign := by
  unfold resolved at h
  split at h
  · cases h
  · rename_i own hown
    exact ⟨own, hown, (Except.ok.inj h).symm⟩

/-- The nodes that an inclusion gives: none, when no template is to be had; or else those of the
body of the template. -/
theorem result_nodesOf {bindings : Record} {line : Option Int} {nodes : List Shape}
    (h : (nodesOf files settings chain current name bindings line).result = .ok nodes) :
    let target := Partial.path name current settings
    (∃ fault?, access files settings chain target = .vacant fault? ∧ nodes = []) ∨
      ∃ l template own, access files settings chain target = .entered l template ∧
        (bodyWalk files settings (chain ++ [l]) target template).result = .ok own ∧
        nodes = own.map Shape.asForeign := by
  intro target
  cases haccess : access files settings chain target with
  | refused failure =>
    rw [nodesOf_of_refused haccess] at h
    cases h
  | vacant fault? =>
    rw [nodesOf_of_vacant haccess] at h
    cases h
    exact .inl ⟨fault?, rfl, rfl⟩
  | entered l template =>
    rw [nodesOf_of_entered haccess] at h
    obtain ⟨own, hown, hnodes⟩ := result_of_resolved h
    exact .inr ⟨l, template, own, rfl, hown, hnodes⟩

end Access

/-- What every walk keeps, and the mark of an included file too, holds of all nodes that inclusions
give. The files off the chain become fewer with each inclusion. -/
theorem gives_nodesOf {P : Shape → Prop} (hP : ∀ site : Site, site.Invariant P)
    (hforeign : ∀ s : Shape, P s → P s.asForeign) (chain : List Location) (current : Path) :
    Site.Gives (nodesOf files settings chain current) P := by
  intro name bindings line nodes h
  obtain ⟨-, -, rfl⟩ | ⟨l, template, own, hentered, hown, rfl⟩ := result_nodesOf h
  · simp
  · have hinner : Site.Gives
        (nodesOf files settings (chain ++ [l]) (Partial.path name current settings)) P :=
      gives_nodesOf hP hforeign _ _
    intro n hn
    obtain ⟨before, hbefore, rfl⟩ := List.mem_map.mp hn
    exact hforeign before
      ((hP _).statements hinner template.body (by simp) hown before hbefore)
termination_by (offChain files chain).length
decreasing_by exact length_offChain_of_entered hentered

theorem result_document (path : Path) (nodes : List Shape) :
    (document path nodes).result = .ok (component nodes) := by
  unfold document component
  split
  · split <;> rfl
  · rfl

theorem locate_eq_ok_iff {path : Path} {here : Location} :
    locate files path = .ok here ↔ files.resolve path = .ok here :=
  mapError_eq_ok_iff

/-- Where the path leads somewhere and the template can be loaded, the walk is that of its body. -/
theorem walk_of_load {path : Path} {here : Location} {template : ViewSchema.Template}
    (hresolve : files.resolve path = .ok here) (hload : load files settings path = .ok template) :
    walk files settings path = do
      let site : Site := { path, settings, comments := template.comments }
      return (← rootOf files here site template.body, template.comments.operation?) := by
  have hhere : Walk.ofExcept (locate files path) = pure here := by
    rw [locate_eq_ok_iff.mpr hresolve]
    rfl
  have htemplate : Walk.ofExcept (load files settings path) = pure template := by
    rw [hload]
    rfl
  rw [walk, hhere, pure_bind, htemplate, pure_bind]

/-- What an inference says of a template comes from its body and its comments. -/
theorem parts_of_infer {path : Path} {found : Inference}
    (h : (infer files settings path).1 = .ok found) :
    ∃ here template nodes, files.resolve path = .ok here ∧
      load files settings path = .ok template ∧
      (bodyWalk files settings [here] path template).result = .ok nodes ∧
      found.root = component nodes ∧ found.operation = template.comments.operation? := by
  obtain ⟨⟨root, operation⟩, hwalk, rfl⟩ := Walk.eq_of_map_ok h
  unfold walk at hwalk
  rw [Walk.result_bind] at hwalk
  obtain ⟨here, hhere, hrest⟩ := Walk.eq_of_bind_ok hwalk
  rw [Walk.result_bind] at hrest
  obtain ⟨template, hload, hrest⟩ := Walk.eq_of_bind_ok hrest
  rw [Walk.result_bind_pure] at hrest
  obtain ⟨document, hdocument, hpair⟩ := Walk.eq_of_map_ok hrest
  unfold rootOf at hdocument
  rw [Walk.result_bind] at hdocument
  obtain ⟨nodes, hnodes, hroot⟩ := Walk.eq_of_bind_ok hdocument
  rw [result_document] at hroot
  cases hroot
  cases hpair
  exact ⟨here, template, nodes, locate_eq_ok_iff.mp hhere, hload, hnodes, rfl, rfl⟩

/-- What holds of objects made of nodes of a property, and of these nodes, holds of a component. -/
theorem component_of {P : Shape → Prop} {nodes : List Shape}
    (hmembers : (∀ n ∈ nodes, P n) → P (.ofMembers {} nodes)) (h : ∀ n ∈ nodes, P n) :
    P (component nodes) := by
  unfold component
  split
  · rename_i root hroot
    exact h root (List.mem_filter.mp (List.mem_of_getLast? hroot)).1
  · exact hmembers h

/-- What every walk keeps holds of the document of an inference. -/
theorem root_of_invariant {P : Shape → Prop} (hP : ∀ site : Site, site.Invariant P)
    (hforeign : ∀ s : Shape, P s → P s.asForeign)
    (hmembers : ∀ nodes : List Shape, (∀ n ∈ nodes, P n) → P (.ofMembers {} nodes)) {path : Path}
    {found : Inference} (h : (infer files settings path).1 = .ok found) : P found.root := by
  obtain ⟨here, template, nodes, -, -, hnodes, hroot, -⟩ := parts_of_infer h
  rw [hroot]
  refine component_of (hmembers nodes) ((hP _).statements ?_ template.body (by simp) hnodes)
  exact gives_nodesOf hP hforeign _ _

/-- An inference gives a result when its template can be read and the nodes of its body can be
found. -/
theorem infer_of_statements {path : Path} {here : Location} {template : ViewSchema.Template}
    {nodes : List Shape} (hresolve : files.resolve path = .ok here)
    (hload : load files settings path = .ok template)
    (hnodes : (bodyWalk files settings [here] path template).result = .ok nodes) :
    ∃ found, (infer files settings path).1 = .ok found ∧ found.root = component nodes := by
  have hroot : (rootOf files here { path, settings, comments := template.comments }
      template.body).result = .ok (component nodes) := by
    rw [rootOf, Walk.result_bind]
    change (bodyWalk files settings [here] path template).result.bind _ = _
    rw [hnodes]
    exact result_document path nodes
  have hwalk : (walk files settings path).result =
      .ok (component nodes, template.comments.operation?) := by
    rw [walk_of_load hresolve hload, Walk.result_bind_pure, hroot]
    rfl
  unfold infer
  dsimp only
  rw [hwalk]
  exact ⟨_, rfl, rfl⟩

end ViewSchema.Inference
