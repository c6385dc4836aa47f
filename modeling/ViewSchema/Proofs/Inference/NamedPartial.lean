import ViewSchema.Proofs.Inference.Account
import ViewSchema.Proofs.Inference.Failure

/-!
Calls that name the template they include in a hash. Whether a call does so is asked of every hash
among its arguments, but the name and all bindings are taken from the first one. A name that stands
in another hash than the first is not found: nothing is included then, and a warning is left.
-/

namespace ViewSchema

open Template

namespace Template

/-- The node is a hash with the key. -/
def Node.hasKey (key : String) (n : Node) : Bool :=
  (n.hashPairs?.getD []).any fun p => p.1.staticText? == some key

namespace Invocation

/-- The values under plain texts, by how they are written. -/
def namedSources (pairs : List (Node × Node)) : List (String × Value) :=
  pairs.filterMap fun p => p.1.staticText?.map fun name => (name, .text p.2.source)

/-- What a hash of options binds inside the template that it names: its local values, then all pairs
that are no options, then the name of the item, which stands for the collection that the hash names
or else for the argument in front. -/
def boundBy (pairs : List (Node × Node)) (first : Option Node) : Record :=
  let locals := ((pairValue? "locals" pairs).bind Node.hashPairs?).getD []
  let item :=
    match (pairValue? "as" pairs).bind Node.staticText?,
        (pairValue? "collection" pairs).or first with
    | some name, some collection => [(name, .text collection.source)]
    | _, _ => []
  .ofEntries (namedSources locals ++
    (namedSources pairs).filter (fun e => !optionKeys.contains e.1) ++ item)

theorem sourceOf_of_loose {n : Node} (h : n.Loose) : sourceOf n = .ok n.source := by
  obtain ⟨e, he⟩ := h.exists_extent
  rw [sourceOf, Node.source, he]
  rfl

/-- Pairs with loose values are bound one by one. -/
theorem bindPairs_eq {pairs : List (Node × Node)} (h : ∀ p ∈ pairs, p.2.Loose)
    (test : String → Bool) (bound : Record) :
    bindPairs test bound pairs = .ok (((namedSources pairs).filter fun e => test e.1).foldl
      (fun r e => Record.insert r e.1 e.2) bound) := by
  induction pairs generalizing bound with
  | nil => rfl
  | cons pair rest ih =>
    obtain ⟨key, value⟩ := pair
    obtain ⟨hvalue, hrest⟩ := List.forall_mem_cons.mp h
    rw [bindPairs, namedSources, List.filterMap_cons]
    cases hkey : key.staticText? with
    | none => exact ih hrest bound
    | some name =>
      cases htest : test name with
      | false =>
        simp only [Option.map_some, List.filter_cons, htest, if_false, Bool.false_eq_true]
        exact ih hrest bound
      | true =>
        simp only [Option.map_some, List.filter_cons, htest, if_true, sourceOf_of_loose hvalue]
        exact ih hrest _

variable {i : Invocation} {before after : List Node} {pairs : List (Node × Node)} {e : Extent}

theorem options_of_first (hargs : i.args = before ++ .hash pairs e :: after)
    (hbefore : ∀ n ∈ before, n.hashPairs? = none) : i.options? = some pairs := by
  rw [options?, hargs, List.findSome?_append, List.findSome?_eq_none_iff.mpr hbefore]
  rfl

/-- The argument in front is what a call iterates over when its options name no collection. -/
theorem collection_of_first (hargs : i.args = before ++ .hash pairs e :: after)
    (hbefore : ∀ n ∈ before, n.hashPairs? = none) (hmethod : (i.method == "partial!") = false) :
    i.collection? = (pairValue? "collection" pairs).or (before.head?.bind Node.present?) := by
  rw [collection?, option?, options_of_first hargs hbefore, hmethod, hargs]
  cases before with
  | nil => rfl
  | cons first rest =>
    have hfirst := hbefore first List.mem_cons_self
    simp [hfirst]

/-- The bindings come from the first hash. -/
theorem bindings_eq_boundBy (hsound : Node.AllSound i.args)
    (hargs : i.args = before ++ .hash pairs e :: after)
    (hbefore : ∀ n ∈ before, n.hashPairs? = none) (hmethod : (i.method == "partial!") = false) :
    i.bindings = .ok (boundBy pairs (before.head?.bind Node.present?)) := by
  have hloose : ∀ n ∈ i.args, n.Loose := fun n hn => (hsound n hn).loose
  have hoptions := options_of_first hargs hbefore
  have hlocals : ∀ p ∈ ((pairValue? "locals" pairs).bind Node.hashPairs?).getD [], p.2.Loose := by
    cases hfound : (pairValue? "locals" pairs).bind Node.hashPairs? with
    | none => nofun
    | some found =>
      obtain ⟨n, hn, hpairs⟩ := Option.bind_eq_some_iff.mp hfound
      have hoption : i.option? "locals" = some n := by rw [option?, hoptions]; exact hn
      exact (loose_of_option hloose hoption).values hpairs
  have hcollection := collection_of_first hargs hbefore hmethod
  have hitem : ∀ n ∈ (pairValue? "collection" pairs).or (before.head?.bind Node.present?),
      n.Loose := fun n hn => loose_of_collection hloose (hcollection.trans hn)
  simp only [bindings, option?, hoptions, Option.bind_some, bindPairs_eq hlocals,
    bindPairs_eq (loose_of_options hloose hoptions), hcollection, bind, Except.bind, pure,
    Except.pure]
  rw [boundBy, Record.ofEntries, List.foldl_append, List.foldl_append, List.filter_true]
  cases hname : (pairValue? "as" pairs).bind Node.staticText? with
  | none => rfl
  | some name =>
    cases hvalue : (pairValue? "collection" pairs).or (before.head?.bind Node.present?) with
    | none => rfl
    | some collection =>
      simp only [sourceOf_of_loose (hitem collection hvalue)]
      rfl

theorem partialName_of_first (hargs : i.args = before ++ .hash pairs e :: after)
    (hbefore : ∀ n ∈ before, n.hashPairs? = none) (hmethod : (i.method == "partial!") = false) :
    i.partialName? = (pairValue? "partial" pairs).bind Node.staticText? := by
  rw [partialName?, hmethod, option?, options_of_first hargs hbefore]
  rfl

/-- No name is found when a hash in front of the one with the name is the first. -/
theorem partialName_of_later (hargs : i.args = before ++ after)
    (hhash : ∃ n ∈ before, n.hashPairs?.isSome) (hlacks : ∀ n ∈ before, n.hasKey "partial" = false)
    (hmethod : (i.method == "partial!") = false) : i.partialName? = none := by
  obtain ⟨other, hother⟩ : ∃ other, before.findSome? Node.hashPairs? = some other :=
    Option.isSome_iff_exists.mp (List.findSome?_isSome_iff.mpr hhash)
  obtain ⟨n, hn, hpairs⟩ := List.exists_of_findSome?_eq_some hother
  have hnone := hlacks n hn
  rw [Node.hasKey, hpairs, Option.getD_some, List.any_eq_false] at hnone
  have hfind : other.find? (fun p => p.1.staticText? == some "partial") = none :=
    List.find?_eq_none.mpr hnone
  rw [partialName?, hmethod, option?, options?, hargs, List.findSome?_append, hother]
  simp [pairValue?, hfind]

/-- The hash with the key is among the arguments that are asked for it. -/
theorem hasPartialKey_of_name (hargs : i.args = before ++ .hash pairs e :: after)
    (hname : ((pairValue? "partial" pairs).bind Node.staticText?).isSome) :
    i.call.hasPartialKey = true := by
  obtain ⟨t, ht⟩ := Option.isSome_iff_exists.mp hname
  obtain ⟨n, hvalue, -⟩ := Option.bind_eq_some_iff.mp ht
  obtain ⟨p, hp, -⟩ := Option.bind_eq_some_iff.mp hvalue
  have hkey : pairs.any (fun p => p.1.staticText? == some "partial") = true :=
    List.any_eq_true.mpr ⟨p, List.mem_of_find?_eq_some hp, by simpa using List.find?_some hp⟩
  simp [Call.hasPartialKey, Invocation.call, Arguments.toList, hargs, Node.hashPairs?, hkey]

end Invocation

theorem Invocation.method_of_kind {i : Invocation} {builder : String}
    (h : i.call.kind builder = .array ∨ i.call.kind builder = .property) :
    (i.method == "partial!") = false := by
  by_contra hmethod
  rw [Bool.not_eq_false, beq_iff_eq] at hmethod
  have hinclusion : i.call.kind builder = .inclusion := by
    simp [Call.kind, Call.isArray, Call.isInclusion, Call.isNamed, Invocation.call, hmethod]
  rw [hinclusion] at h
  rcases h with h | h <;> cases h

end Template

namespace Site

variable {site : Site} {includer : Includer} {i : Invocation}

/-- A call that names a template in a hash makes its nodes from those of the template. -/
theorem call_of_hasPartialKey {n : Node} (hn : n.invocation = .ok i)
    (hkind : i.call.kind site.settings.builder = .array ∨
      i.call.kind site.settings.builder = .property)
    (hkey : i.call.hasPartialKey = true) (includer : Includer) (body : Option Body) :
    ∃ finish : List Shape → List Shape, site.call includer n body = do
      return finish (← (site.included includer i).settle none) := by
  have hcall : ∃ finish : Shape → List Shape, site.call includer n body = do
      return finish (← site.includedItem includer i) := by
    unfold call
    rw [hn]
    rcases hkind with harray | hproperty
    · simp only [harray, array, hkey, if_true, bind_assoc, pure_bind]
      exact ⟨_, rfl⟩
    · simp only [hproperty, property, hkey, if_true, bind_assoc]
      split
      · simp only [pure_bind]
        exact ⟨_, rfl⟩
      · simp only [pure_bind]
        exact ⟨_, rfl⟩
  obtain ⟨finish, hfinish⟩ := hcall
  refine ⟨fun nodes => finish (itemOf nodes), ?_⟩
  rw [hfinish, includedItem, itemOfBody, bind_assoc]
  simp only [pure_bind]

theorem included_of_name {t : String} {b : Record} (hname : i.partialName? = some t)
    (hbindings : i.bindings = .ok b) : site.included includer i = includer t b i.line := by
  have hbound : Walk.ofExcept i.bindings = pure b := by
    rw [hbindings]
    rfl
  simp only [included, hname, hbound, pure_bind]

/-- The message about a call whose template is not named in its first hash. -/
def unnamed (site : Site) (line : Option Int) : LogEntry :=
  ⟨.warning, .walker, site.place line ++ ": partial name is not a literal, skipping"⟩

theorem included_of_no_name (hname : i.partialName? = none) :
    site.included includer i = ⟨.ok [], { log := [site.unnamed i.line] }⟩ := by
  simp only [included, hname]
  rfl

end Site

/-- What an inclusion says before the template is walked. -/
def Inclusion.request (i : Inclusion) : Inclusion := { i with resolved := false, entries := [] }

namespace Inference

variable {files : Files} {settings : Settings}

/-- An inclusion that does not fail is the first that it puts on account, resolved or not. -/
theorem inclusions_nodesOf {chain : List Location} {current : Path} {name : String}
    {bindings : Record} {line : Option Int}
    (h : (nodesOf files settings chain current name bindings line).failure? = none) :
    ∃ inclusion rest,
      (nodesOf files settings chain current name bindings line).account.inclusions =
        inclusion :: rest ∧
      inclusion.request =
        { template := name, path := Partial.path name current settings, line, bindings } := by
  cases haccess : access files settings chain (Partial.path name current settings) with
  | refused failure =>
    rw [nodesOf_of_refused haccess] at h
    cases h
  | vacant fault? =>
    rw [nodesOf_of_vacant haccess]
    exact ⟨_, [], rfl, rfl⟩
  | entered here template =>
    rw [nodesOf_of_entered haccess] at h ⊢
    revert h
    unfold resolved
    split
    · intro h
      cases h
    · exact fun _ => ⟨_, _, rfl, rfl⟩

/-- A call names the template that it includes: the first pair under `partial` in one of its hashes
has a plain text, and no other argument is a hash with that key. -/
structure NamesPartial (i : Invocation) (before : List Node) (pairs : List (Node × Node))
    (after : List Node) (template : String) : Prop where
  args : ∃ e, i.args = before ++ .hash pairs e :: after
  name : (pairValue? "partial" pairs).bind Node.staticText? = some template
  others : ∀ n ∈ before ++ after, n.hasKey "partial" = false

/-- A call that names its template includes it, bound as the same hash says, when no other hash
stands in front of that one; the inclusion goes on account first, unless it fails. When another hash
stands in front, nothing is included and a warning is left. -/
theorem call_of_namesPartial (files : Files) (site : Site) (chain : List Location) {n : Node}
    {i : Invocation} {before after : List Node} {pairs : List (Node × Node)} {template : String}
    (hn : n.invocation = .ok i)
    (hkind : i.call.kind site.settings.builder = .array ∨
      i.call.kind site.settings.builder = .property)
    (hsound : Node.AllSound i.args) (h : NamesPartial i before pairs after template)
    (body : Option Body) :
    let bindings := Invocation.boundBy pairs (before.head?.bind Node.present?)
    let includer := nodesOf files site.settings chain site.path
    let walk := site.call includer n body
    ((∀ other ∈ before, other.hashPairs? = none) →
      walk.failure? = (includer template bindings i.line).failure? ∧
        (walk.failure? = none → ∃ inclusion rest, walk.account.inclusions = inclusion :: rest ∧
          inclusion.request =
            { template, path := Partial.path template site.path site.settings, line := i.line,
              bindings })) ∧
      ((∃ other ∈ before, other.hashPairs?.isSome) →
        walk.failure? = none ∧ walk.account.inclusions = [] ∧
          walk.account.log = [site.unnamed i.line]) := by
  intro bindings includer walk
  obtain ⟨⟨e, hargs⟩, hname, hothers⟩ := h
  have hmethod := Invocation.method_of_kind hkind
  have hkey := Invocation.hasPartialKey_of_name hargs (Option.isSome_of_eq_some hname)
  obtain ⟨finish, hwalk⟩ : ∃ finish : List Shape → List Shape, walk = do
      return finish (← (site.included includer i).settle none) :=
    Site.call_of_hasPartialKey hn hkind hkey includer body
  have hfailure : walk.failure? = (site.included includer i).failure? := by
    rw [hwalk, Walk.failure?_bind_pure, Walk.failure?_settle]
  have haccount : walk.account = (site.included includer i).account.settle none := by
    rw [hwalk, Walk.account_bind_pure]
    rfl
  refine ⟨fun hbefore => ?_, fun hhash => ?_⟩
  · have hincluded : site.included includer i = includer template bindings i.line :=
      Site.included_of_name ((Invocation.partialName_of_first hargs hbefore hmethod).trans hname)
        (Invocation.bindings_eq_boundBy hsound hargs hbefore hmethod)
    rw [hfailure, haccount, hincluded]
    refine ⟨rfl, fun hnone => ?_⟩
    obtain ⟨inclusion, rest, hinclusions, hasked⟩ := inclusions_nodesOf hnone
    refine ⟨{ inclusion with entries := inclusion.entries.map (Entry.settle none) },
      rest.map fun i => { i with entries := i.entries.map (Entry.settle none) }, ?_, hasked⟩
    rw [Account.settle, hinclusions, List.map_cons]
  · have hincluded : site.included includer i = ⟨.ok [], { log := [site.unnamed i.line] }⟩ :=
      Site.included_of_no_name (Invocation.partialName_of_later hargs hhash
        (fun n hn => hothers n (List.mem_append_left _ hn)) hmethod)
    rw [hfailure, haccount, hincluded]
    exact ⟨rfl, rfl, rfl⟩

/-- The site of a template without comments. -/
def postSite : Site :=
  { path := .ofString "/views/post.json.jbuilder", settings := {}, comments := {} }

def symbol (s : String) : Node := .literal .symbol (.text s) false { source := s }

theorem sound_symbols (key value : String) :
    (Node.hash [(symbol key, symbol value)] {}).Sound := by
  refine .hash ?_ ?_ rfl <;> exact List.forall_mem_singleton.mpr (.literal _ _ _ rfl)

/-- The author of a post, by a property call with the given arguments. -/
def authorCall (args : List Node) : Node :=
  .call
    { receiver := some (.name "json" {}), method := some "author", args := .list args,
      extent := {} }

/-- The call `json.author(@author, partial: :user, as: :person)` in a place without templates. -/
theorem call_namedUser :
    let args : List Node := [.name "@author" { source := "@author" },
      .hash [(symbol "partial", symbol "user"), (symbol "as", symbol "person")] {}]
    ∃ inclusion rest,
      (postSite.call (nodesOf (.ofPaths []) {} [postSite.path.location] postSite.path)
        (authorCall args) none).account.inclusions = inclusion :: rest ∧
      inclusion.template = "user" ∧ inclusion.bindings = [("person", .text "@author")] := by
  intro args
  have hsound : Node.AllSound args := by
    refine .cons (.name _ rfl) (.single (.hash ?_ ?_ rfl)) <;>
      exact List.forall_mem_cons.mpr
        ⟨.literal _ _ _ rfl, List.forall_mem_singleton.mpr (.literal _ _ _ rfl)⟩
  have hnames : NamesPartial
      { receiver := some (.name "json" {}), method := "author", args, line := some 1 }
      [.name "@author" { source := "@author" }]
      [(symbol "partial", symbol "user"), (symbol "as", symbol "person")] [] "user" :=
    ⟨⟨_, rfl⟩, by decide +kernel, by decide +kernel⟩
  obtain ⟨hfirst, -⟩ := call_of_namesPartial (.ofPaths []) postSite [postSite.path.location]
    (n := authorCall args) rfl (.inr (by decide +kernel)) hsound hnames none
  obtain ⟨hfailure, hrecorded⟩ := hfirst (by simp [Node.hashPairs?])
  obtain ⟨inclusion, rest, hinclusions, hasked⟩ := hrecorded (hfailure.trans (by decide +kernel))
  refine ⟨inclusion, rest, hinclusions, ?_, ?_⟩
  · exact congrArg Inclusion.template hasked
  · exact (congrArg Inclusion.bindings hasked).trans rfl

/-- The call `json.author({a: :b}, partial: :user)` includes nothing. -/
theorem exists_unrecorded_partial :
    ∃ n i before pairs after template, n.invocation = .ok i ∧ i.call.kind "json" = .property ∧
      Node.AllSound i.args ∧ NamesPartial i before pairs after template ∧
      ∀ files, (postSite.call (nodesOf files {} [postSite.path.location] postSite.path)
        n none).account.inclusions = [] := by
  refine ⟨authorCall [.hash [(symbol "a", symbol "b")] {},
    .hash [(symbol "partial", symbol "user")] {}], _,
    [.hash [(symbol "a", symbol "b")] {}], [(symbol "partial", symbol "user")], [], "user", rfl,
    by decide +kernel, ?_, ⟨⟨_, rfl⟩, by decide +kernel, by decide +kernel⟩, fun files => ?_⟩
  · exact .cons (sound_symbols _ _) (.single (sound_symbols _ _))
  · rfl

end Inference
end ViewSchema
