import ViewSchema.Proofs.Firsts
import ViewSchema.Proofs.Shape.Copy

/-!
The members of an object in closed form. Whatever is inserted one by one, each member stands where a
node without a name was inserted or where a name came up first, in the order of these places; it is
the last node that was inserted under its name, and nodes without a name all stay.
-/

namespace ViewSchema

section Insertion

variable {α : Type} (name : α → Option String)

/-- A list with one more node: in the place of the first node of its name, or at the end. -/
def insertByName (node : α) : List α → List α
  | [] => [node]
  | first :: rest =>
    if (name node).isSome && name first == name node then node :: rest
    else first :: insertByName node rest

/-- The nodes that open a place of their own: those without a name and the first of each name. -/
def openers (nodes : List α) : List α :=
  firsts (fun m n => (name n).isSome && name m == name n) nodes

/-- The last of the nodes that have the name of a node; a node without a name stands for itself. -/
def latest (nodes : List α) (node : α) : α :=
  if (name node).isSome then ((nodes.filter fun n => name n == name node).getLast?).getD node
  else node

/-- A node opens a place behind others: if it has a name, none of them has the same. -/
def OpensPlace (nodes : List α) (node : α) : Prop :=
  ∀ x, name node = some x → ∀ n ∈ nodes, ¬name n = some x

/-- Each opener's place, with the last node of its name in it. -/
def gathered (nodes : List α) : List α := (openers name nodes).map (latest name nodes)

variable {name}

theorem opens_or_taken (name : α → Option String) (nodes : List α) (node : α) :
    OpensPlace name nodes node ∨ ∃ x, name node = some x ∧ x ∈ nodes.filterMap name := by
  refine or_iff_not_imp_left.mpr fun hopens => ?_
  unfold OpensPlace at hopens
  push Not at hopens
  obtain ⟨x, hname, n, hn, hsame⟩ := hopens
  exact ⟨x, hname, List.mem_filterMap.mpr ⟨n, hn, hsame⟩⟩

/-- None of the nodes in front stands in the way of a node that opens a place. -/
theorem OpensPlace.other {nodes : List α} {node : α} (h : OpensPlace name nodes node) :
    ∀ n ∈ nodes, ((name node).isSome && name n == name node) = false := by
  intro n hn
  cases hname : name node with
  | none => rfl
  | some x => simpa using h x hname n hn

theorem insertByName_of_opens {node : α} {nodes : List α} (h : OpensPlace name nodes node) :
    insertByName name node nodes = nodes ++ [node] := by
  induction nodes with
  | nil => rfl
  | cons first rest ih =>
    have hrest : OpensPlace name rest node :=
      fun x hname n hn => h x hname n (List.mem_cons_of_mem _ hn)
    rw [insertByName, h.other first List.mem_cons_self, ih hrest]
    rfl

/-- Where names are distinct, a node of a name that is there takes the place of that name. -/
theorem insertByName_of_taken {node : α} {nodes : List α} {x : String} (hnode : name node = some x)
    (hdistinct : (nodes.filterMap name).Nodup) (htaken : x ∈ nodes.filterMap name) :
    insertByName name node nodes = nodes.map fun n => if name n = some x then node else n := by
  induction nodes with
  | nil => cases htaken
  | cons first rest ih =>
    by_cases hfirst : name first = some x
    · have hrest : ∀ n ∈ rest, ¬name n = some x := fun n hn hsame => by
        rw [List.filterMap_cons_some hfirst] at hdistinct
        exact (List.nodup_cons.mp hdistinct).1 (List.mem_filterMap.mpr ⟨n, hn, hsame⟩)
      have hkept : rest.map (fun n => if name n = some x then node else n) = rest := by
        conv_rhs => rw [← List.map_id rest]
        exact List.map_congr_left fun n hn => if_neg (hrest n hn)
      rw [insertByName, if_pos (by simp [hnode, hfirst]), List.map_cons, if_pos hfirst, hkept]
    · have hlater : x ∈ rest.filterMap name := by
        obtain ⟨n, hn, hsame⟩ := List.mem_filterMap.mp htaken
        rcases List.mem_cons.mp hn with rfl | hn
        · exact absurd hsame hfirst
        · exact List.mem_filterMap.mpr ⟨n, hn, hsame⟩
      have hrest : (rest.filterMap name).Nodup :=
        hdistinct.sublist ((List.sublist_cons_self first rest).filterMap _)
      rw [insertByName, if_neg (by simp [hnode, hfirst]), ih hrest hlater, List.map_cons,
        if_neg hfirst]

theorem openers_concat_of_opens {nodes : List α} {node : α} (h : OpensPlace name nodes node) :
    openers name (nodes ++ [node]) = openers name nodes ++ [node] := by
  rw [openers, firsts_concat, if_neg]
  · rfl
  · rw [List.any_eq_true]
    rintro ⟨n, hn, hsame⟩
    exact absurd hsame (Bool.eq_false_iff.mp (h.other n hn))

theorem openers_concat_of_taken {nodes : List α} {node : α} {x : String}
    (hname : name node = some x) (htaken : x ∈ nodes.filterMap name) :
    openers name (nodes ++ [node]) = openers name nodes := by
  obtain ⟨n, hn, hsame⟩ := List.mem_filterMap.mp htaken
  rw [openers, firsts_concat, if_pos]
  · rfl
  · exact List.any_eq_true.mpr ⟨n, hn, by simp [hname, hsame]⟩

theorem sublist_openers (nodes : List α) : (openers name nodes).Sublist nodes :=
  sublist_firsts nodes

/-- Every name that comes up has a place, and one place only. -/
theorem names_openers (nodes : List α) :
    ((openers name nodes).filterMap name).Nodup ∧
      ∀ x, x ∈ (openers name nodes).filterMap name ↔ x ∈ nodes.filterMap name := by
  induction nodes using List.reverseRecOn with
  | nil => exact ⟨List.nodup_nil, fun _ => .rfl⟩
  | append_singleton nodes node ih =>
    obtain ⟨hdistinct, hnames⟩ := ih
    rcases opens_or_taken name nodes node with hopens | ⟨x, hname, htaken⟩
    · rw [openers_concat_of_opens hopens]
      simp only [List.filterMap_append, List.nodup_append, List.mem_append]
      refine ⟨⟨hdistinct, ?_, fun y hy z hz => ?_⟩, fun y => or_congr_left (hnames y)⟩
      · cases hname : name node <;> simp [hname]
      · obtain ⟨n, hn, hny⟩ := List.mem_filterMap.mp ((hnames y).mp hy)
        obtain ⟨m, hm, hmz⟩ := List.mem_filterMap.mp hz
        obtain rfl := List.mem_singleton.mp hm
        rintro rfl
        exact hopens y hmz n hn hny
    · rw [openers_concat_of_taken hname htaken]
      refine ⟨hdistinct, fun y => ?_⟩
      simp only [List.filterMap_append, List.filterMap_cons_some hname, List.filterMap_nil,
        List.mem_append, hnames]
      exact ⟨.inl, fun h => h.elim id fun hy => List.mem_singleton.mp hy ▸ htaken⟩

theorem name_latest (name : α → Option String) (nodes : List α) (node : α) :
    name (latest name nodes node) = name node := by
  unfold latest
  split
  · cases hlast : (nodes.filter fun n => name n == name node).getLast? with
    | none => rfl
    | some n => simpa using (List.mem_filter.mp (List.mem_of_getLast? hlast)).2
  · rfl

theorem latest_concat (nodes : List α) (node other : α) :
    latest name (nodes ++ [node]) other =
      if (name other).isSome && name node == name other then node
      else latest name nodes other := by
  unfold latest
  cases hother : name other with
  | none => rfl
  | some x =>
    by_cases hsame : name node = some x
    · simp [hsame]
    · simp [hsame]

theorem names_gathered (nodes : List α) :
    (gathered name nodes).filterMap name = (openers name nodes).filterMap name := by
  rw [gathered, List.filterMap_map]
  exact List.filterMap_congr fun n _ => name_latest name nodes n

/-- One more node that is inserted takes its place among those gathered so far. -/
theorem gathered_concat (nodes : List α) (node : α) :
    gathered name (nodes ++ [node]) = insertByName name node (gathered name nodes) := by
  rcases opens_or_taken name nodes node with hopens | ⟨x, hname, htaken⟩
  · have hkept : (openers name nodes).map (latest name (nodes ++ [node])) =
        gathered name nodes := by
      refine List.map_congr_left fun n hn => ?_
      rw [latest_concat, if_neg]
      intro hlater
      obtain ⟨hnamed, hsame⟩ := Bool.and_eq_true_iff.mp hlater
      obtain ⟨x, hx⟩ := Option.isSome_iff_exists.mp hnamed
      exact hopens x ((beq_iff_eq.mp hsame).trans hx) n ((sublist_openers nodes).subset hn) hx
    have hlast : latest name (nodes ++ [node]) node = node := by
      rw [latest_concat]
      cases hname : name node <;> simp [latest, hname]
    have hgathered : OpensPlace name (gathered name nodes) node := by
      intro x hname n hn
      obtain ⟨opener, hopener, rfl⟩ := List.mem_map.mp hn
      rw [name_latest name]
      exact hopens x hname opener ((sublist_openers nodes).subset hopener)
    rw [gathered, openers_concat_of_opens hopens, List.map_append, hkept, List.map_singleton,
      hlast, insertByName_of_opens hgathered]
  · rw [insertByName_of_taken hname (names_gathered nodes ▸ (names_openers nodes).1)
      (names_gathered nodes ▸ ((names_openers nodes).2 x).mpr htaken), gathered,
      openers_concat_of_taken hname htaken, gathered, List.map_map]
    refine List.map_congr_left fun n _ => ?_
    rw [Function.comp_apply, name_latest name, latest_concat, hname]
    cases hn : name n with
    | none => rfl
    | some y =>
      by_cases hy : y = x
      · simp [hy]
      · simp [hy, Ne.symm hy]

theorem mem_of_mem_gathered {nodes : List α} {member : α} (h : member ∈ gathered name nodes) :
    member ∈ nodes := by
  obtain ⟨opener, hopener, rfl⟩ := List.mem_map.mp h
  have hnode := (sublist_openers nodes).subset hopener
  unfold latest
  split
  · cases hlast : (nodes.filter fun n => name n == name opener).getLast? with
    | none => exact hnode
    | some n => exact (List.mem_filter.mp (List.mem_of_getLast? hlast)).1
  · exact hnode

/-- Nodes without a name all stay, in their order. -/
theorem filter_isNone_gathered (nodes : List α) :
    (gathered name nodes).filter (fun n => (name n).isNone) =
      nodes.filter fun n => (name n).isNone := by
  have hopeners : (openers name nodes).filter (fun n => (name n).isNone) =
      nodes.filter fun n => (name n).isNone := by
    induction nodes using List.reverseRecOn with
    | nil => rfl
    | append_singleton nodes node ih =>
      rw [List.filter_append]
      rcases opens_or_taken name nodes node with hopens | ⟨x, hname, htaken⟩
      · rw [openers_concat_of_opens hopens, List.filter_append, ih]
      · rw [openers_concat_of_taken hname htaken, ih]
        simp [hname]
  rw [gathered, List.filter_map, ← hopeners]
  have hsame : ((fun n => (name n).isNone) ∘ latest name nodes) = fun n => (name n).isNone :=
    funext fun n => congrArg Option.isNone (name_latest name nodes n)
  rw [hsame]
  conv_rhs => rw [← List.map_id (List.filter _ _)]
  refine List.map_congr_left fun n hn => ?_
  have hnone : (name n).isNone = true := (List.mem_filter.mp hn).2
  simp [latest, Option.isNone_iff_eq_none.mp hnone]

/-- A member with a name is the last node of that name. -/
theorem getLast?_of_mem_gathered {nodes : List α} {member : α} (h : member ∈ gathered name nodes)
    {x : String} (hname : name member = some x) :
    (nodes.filter fun n => name n == some x).getLast? = some member := by
  obtain ⟨opener, hopener, rfl⟩ := List.mem_map.mp h
  rw [name_latest name] at hname
  have hmem : opener ∈ nodes.filter fun n => name n == some x :=
    List.mem_filter.mpr ⟨(sublist_openers nodes).subset hopener, by simp [hname]⟩
  rw [latest, hname]
  rw [List.getLast?_eq_some_getLast (List.ne_nil_of_mem hmem)]
  rfl

/-- What is found under a name is the last node that was inserted under it. -/
theorem find?_gathered (nodes : List α) (x : String) :
    (gathered name nodes).find? (fun n => name n == some x) =
      (nodes.filter fun n => name n == some x).getLast? := by
  cases hfound : (gathered name nodes).find? (fun n => name n == some x) with
  | some member =>
    have hname : name member = some x := by simpa using List.find?_some hfound
    exact (getLast?_of_mem_gathered (List.mem_of_find?_eq_some hfound) hname).symm
  | none =>
    symm
    rw [List.getLast?_eq_none_iff, List.filter_eq_nil_iff]
    intro n hn hsame
    have hplace : x ∈ (gathered name nodes).filterMap name := by
      rw [names_gathered, (names_openers nodes).2]
      exact List.mem_filterMap.mpr ⟨n, hn, by simpa using hsame⟩
    obtain ⟨member, hmember, hmemberName⟩ := List.mem_filterMap.mp hplace
    have := List.find?_eq_none.mp hfound member hmember
    simp [hmemberName] at this

end Insertion

/-- The members of an object in the shape of a document come about in the same way. -/
theorem Shape.addMembers_eq_gathered (nodes : List Shape) :
    addMembers [] nodes = gathered Shape.name nodes := by
  have hstep : ∀ (members : List Shape) (node : Shape),
      addMember members node = insertByName Shape.name node members := by
    intro members node
    induction members with
    | nil => rfl
    | cons first rest ih => rw [addMember, insertByName, ih]
  induction nodes using List.reverseRecOn with
  | nil => rfl
  | append_singleton nodes node ih =>
    rw [addMembers, List.foldl_append, gathered_concat, ← ih]
    exact hstep _ _

namespace Store

theorem placed_eq (s : Store) (node : Ref) (refs : List Ref) :
    s.placed node refs = insertByName s.name node refs := by
  induction refs with
  | nil => rfl
  | cons first rest ih => rw [placed, insertByName, ih]

/-- Make an object of nodes there are: it is made empty and extended by them. -/
def makeObject (s : Store) (f : Facts) (nodes : List Ref) : Ref × Store :=
  let (r, t) := s.make { facts := startingFacts f, form := .object [] }
  (r, t.extend r nodes)

/-- The objects of a tree are made of their members. -/
theorem build_object (s : Store) (f : Facts) (members : List Shape) :
    s.build (.object f members) =
      (s.buildAll members).2.makeObject f (s.buildAll members).1 := rfl

/-- A way of putting nodes into an object. -/
inductive Insertion where
  | add (node : Ref)
  | extend (nodes : List Ref)

namespace Insertion

/-- The nodes that are put in, in order. -/
def nodes : Insertion → List Ref
  | .add node => [node]
  | .extend nodes => nodes

def run (r : Ref) (s : Store) : Insertion → Store
  | .add node => s.add r node
  | .extend nodes => s.extend r nodes

end Insertion

/-- The object has gathered some nodes: nothing was renamed, and it is the parent of all of them. -/
structure Gathered (s : Store) (r : Ref) (nodes : List Ref) (t : Store) : Prop where
  length : t.cells.length = s.cells.length
  name : t.name = s.name
  form : (t.cell r).form = .object (gathered s.name nodes)
  parent : ∀ node ∈ nodes, (t.cell node).parent = some r

namespace Gathered

variable {s t : Store} {r : Ref} {nodes : List Ref}

theorem add (h : Gathered s r nodes t) (hr : r < s.cells.length) {node : Ref}
    (hnode : node < s.cells.length) : Gathered s r (nodes ++ [node]) (t.add r node) := by
  have hadded : t.add r node = (t.setParent node (some r)).update r fun c =>
      { c with form := .object (gathered s.name (nodes ++ [node])) } := by
    rw [Store.add, h.form]
    simp only [placed_eq, h.name, gathered_concat]
  have hparent : ∀ q, ((t.add r node).cell q).parent =
      ((t.setParent node (some r)).cell q).parent := by
    intro q
    rw [hadded]
    have hcell := (t.setParent node (some r)).cell_update r q
      fun c => { c with form := .object (gathered s.name (nodes ++ [node])) }
    rcases hcell with hkept | ⟨-, hkept⟩
    all_goals rw [hkept]
  refine ⟨?_, ?_, ?_, fun q hq => ?_⟩
  · rw [hadded, length_update, Store.setParent, length_update, h.length]
  · rw [hadded]
    have hplaced := (t.setParent node (some r)).name_update r
      (fun c => { c with form := .object (gathered s.name (nodes ++ [node])) }) fun _ => rfl
    exact (hplaced.trans (t.name_update node _ fun _ => rfl)).trans h.name
  · have hr' : r < (t.setParent node (some r)).cells.length := by
      rwa [Store.setParent, length_update, h.length]
    rw [hadded, cell_update_self hr']
  · rw [hparent, Store.setParent]
    by_cases hsame : q = node
    · rw [hsame, cell_update_self (h.length ▸ hnode)]
    · rw [cell_update_of_ne _ hsame]
      exact h.parent q ((List.mem_append.mp hq).resolve_right (by simpa using hsame))

theorem extend (h : Gathered s r nodes t) (hr : r < s.cells.length) {more : List Ref}
    (hmore : ∀ node ∈ more, node < s.cells.length) :
    Gathered s r (nodes ++ more) (t.extend r more) := by
  induction more generalizing nodes t with
  | nil => rwa [List.append_nil]
  | cons node rest ih =>
    obtain ⟨hnode, hrest⟩ := List.forall_mem_cons.mp hmore
    have hlater := ih (h.add hr hnode) hrest
    rwa [List.append_assoc] at hlater

theorem run (h : Gathered s r nodes t) (hr : r < s.cells.length) {insertions : List Insertion}
    (hknown : ∀ node ∈ insertions.flatMap Insertion.nodes, node < s.cells.length) :
    Gathered s r (nodes ++ insertions.flatMap Insertion.nodes)
      (insertions.foldl (Insertion.run r) t) := by
  induction insertions generalizing nodes t with
  | nil => simpa using h
  | cons insertion rest ih =>
    rw [List.flatMap_cons, List.forall_mem_append] at hknown
    have hstep : Gathered s r (nodes ++ insertion.nodes) (insertion.run r t) := by
      cases insertion with
      | add node => exact h.add hr (hknown.1 node List.mem_cons_self)
      | extend more => exact h.extend hr hknown.1
    have hlater := ih hstep hknown.2
    rwa [List.append_assoc, ← List.flatMap_cons] at hlater

end Gathered

/-- What an object holds after nodes were put in, some when it was made and others later, one by one
or several at once: the gathered nodes. Their names are distinct and in the order in which they came
up first; each is the last node that was put in under its name; nodes without a name all stay; what
is found under a name is the last node that was put in under it; and the object is the parent of all
it holds. Nothing is renamed. -/
theorem members_of_insertions (s : Store) (f : Facts) (initial : List Ref)
    (insertions : List Insertion)
    (hknown : ∀ node ∈ initial ++ insertions.flatMap Insertion.nodes,
      node < (s.makeObject f []).2.cells.length) :
    let made := s.makeObject f initial
    let r := made.1
    let t := insertions.foldl (Insertion.run r) made.2
    let nodes := initial ++ insertions.flatMap Insertion.nodes
    t.name = (s.makeObject f []).2.name ∧
      t.children r = (openers t.name nodes).map (latest t.name nodes) ∧
      (openers t.name nodes).Sublist nodes ∧
      (t.children r).map t.name = (openers t.name nodes).map t.name ∧
      ((t.children r).filterMap t.name).Nodup ∧
      ((t.children r).filter fun c => (t.name c).isNone) =
        nodes.filter (fun n => (t.name n).isNone) ∧
      (∀ x, t.member? r (some x) = (nodes.filter fun n => t.name n == some x).getLast?) ∧
      ∀ c ∈ t.children r,
        (∀ x, t.name c = some x →
          (nodes.filter fun n => t.name n == some x).getLast? = some c) ∧
        ∀ inUse, r ∈ inUse → t.parent? inUse c = some r := by
  intro made r t nodes
  let u := (s.makeObject f []).2
  have hr : r < u.cells.length := lt_length_make s _
  have hempty : Gathered u r [] u :=
    ⟨rfl, rfl, congrArg Cell.form (cell_make_self s _), fun _ hnone => by cases hnone⟩
  obtain ⟨hinitial, hlater⟩ := List.forall_mem_append.mp hknown
  have hall : Gathered u r nodes t := (hempty.extend hr hinitial).run hr hlater
  have hchildren : t.children r = gathered t.name nodes := by
    rw [children, hall.form, hall.name]
    rfl
  have hwithin : ∀ c ∈ t.children r, c ∈ nodes := by
    rw [hchildren]
    exact fun c hc => mem_of_mem_gathered hc
  refine ⟨hall.name, hchildren, sublist_openers nodes, ?_, ?_, ?_, fun x => ?_,
    fun c hc => ⟨?_, ?_⟩⟩
  · rw [hchildren, gathered, List.map_map]
    exact List.map_congr_left fun n _ => name_latest t.name nodes n
  · rw [hchildren, names_gathered]
    exact (names_openers nodes).1
  · rw [hchildren, filter_isNone_gathered]
  · rw [member?, hchildren, find?_gathered]
  · exact fun x hname => getLast?_of_mem_gathered (hchildren ▸ hc) hname
  · intro inUse hinUse
    rw [parent?, hall.parent c (hwithin c hc), Option.filter_some, if_pos]
    exact List.any_eq_true.mpr ⟨r, hinUse, by simp [allBelow, below]⟩

/-- Four nodes: two with one name, one with another name and one without. -/
def titledNodes : Store :=
  ["title", "", "label", "title"].foldl (fun s name =>
    (s.make { facts := { name := if name = "" then none else some name }, form := .simple }).2) {}

theorem members_of_insertions_titled :
    let t := [Insertion.add 2, .extend [3, 1]].foldl (Insertion.run 4)
      (titledNodes.makeObject {} [0, 1]).2
    (∀ node ∈ [0, 1] ++ [Insertion.add 2, .extend [3, 1]].flatMap Insertion.nodes,
      node < (titledNodes.makeObject {} []).2.cells.length) ∧
      t.children 4 = [3, 1, 2, 1] ∧ t.member? 4 (some "title") = some 3 ∧
      t.parent? [4] 3 = some 4 := by
  intro t
  have hknown : ∀ node ∈ [0, 1] ++ [Insertion.add 2, .extend [3, 1]].flatMap Insertion.nodes,
      node < (titledNodes.makeObject {} []).2.cells.length := by decide
  obtain ⟨hname, hchildren, -, -, -, -, hfound, hmembers⟩ :=
    members_of_insertions titledNodes {} [0, 1] [.add 2, .extend [3, 1]] hknown
  have hclosed : t.children 4 = [3, 1, 2, 1] := by
    refine hchildren.trans ?_
    rw [hname]
    decide
  refine ⟨hknown, hclosed, (hfound "title").trans ?_, ?_⟩
  · rw [hname]
    decide
  · exact (hmembers 3 (hclosed ▸ List.mem_cons_self)).2 [4] List.mem_cons_self

end Store

end ViewSchema
