import ViewSchema.Template.Grammar

/-!
Sound trees: a node stands wherever one belongs, every node has a line, every call has a method
name and an argument list, and a block has a call. Where all nodes are sound, nothing that is asked
of a node is missing.
-/

namespace ViewSchema.Template

/-- A tree without alien values and malformed calls. -/
inductive Node.Sound : Node → Prop
  | name (identifier : String) {e : Extent} (hline : e.line.isSome) : Sound (.name identifier e)
  | literal (kind : LiteralKind) (value : Value) (dynamic : Bool) {e : Extent}
      (hline : e.line.isSome) : Sound (.literal kind value dynamic e)
  | hash {pairs : List (Node × Node)} {e : Extent} (hkeys : ∀ p ∈ pairs, Sound p.1)
      (hvalues : ∀ p ∈ pairs, Sound p.2) (hline : e.line.isSome) : Sound (.hash pairs e)
  | array {elements : List Node} {e : Extent} (helements : ∀ n ∈ elements, Sound n)
      (hline : e.line.isSome) : Sound (.array elements e)
  | expression {parts : List Node} {e : Extent} (hparts : ∀ n ∈ parts, Sound n)
      (hline : e.line.isSome) : Sound (.expression parts e)
  | call {receiver : Option Node} (method : String) {args : List Node} {e : Extent}
      (hreceiver : ∀ n ∈ receiver, Sound n) (hargs : ∀ n ∈ args, Sound n)
      (hline : e.line.isSome) :
      Sound (.call { receiver, method := some method, args := .list args, extent := e })
  | block {call : Call} (params : List String) {body : List Node} {e : Extent}
      (hcall : Sound (.call call)) (hbody : ∀ n ∈ body, Sound n) (hline : e.line.isSome) :
      Sound (.block (.call call) params body e)
  | conditional (keyword : String) {condition : Option Node} {branches : List (List Node)}
      {e : Extent} (hcondition : ∀ n ∈ condition, Sound n)
      (hbranches : ∀ b ∈ branches, ∀ n ∈ b, Sound n) (hline : e.line.isSome) :
      Sound (.conditional keyword condition branches e)

namespace Node

/-- Every node of a list is sound. -/
def AllSound (nodes : List Node) : Prop := ∀ n ∈ nodes, n.Sound

theorem allSound_nil : AllSound [] := nofun

theorem AllSound.cons {n : Node} {nodes : List Node} (h : n.Sound) (hall : AllSound nodes) :
    AllSound (n :: nodes) :=
  List.forall_mem_cons.mpr ⟨h, hall⟩

theorem AllSound.append {first second : List Node} (h : AllSound first) (h' : AllSound second) :
    AllSound (first ++ second) :=
  List.forall_mem_append.mpr ⟨h, h'⟩

theorem AllSound.reverse {nodes : List Node} (h : AllSound nodes) : AllSound nodes.reverse :=
  fun n hn => h n (List.mem_reverse.mp hn)

theorem AllSound.single {n : Node} (h : n.Sound) : AllSound [n] := allSound_nil.cons h

/-- Keys and values are sound. -/
structure PairsSound (pairs : List (Node × Node)) : Prop where
  keys : ∀ p ∈ pairs, p.1.Sound
  values : ∀ p ∈ pairs, p.2.Sound

theorem pairsSound_nil : PairsSound [] := ⟨nofun, nofun⟩

theorem PairsSound.cons {key value : Node} {pairs : List (Node × Node)} (hkey : key.Sound)
    (hvalue : value.Sound) (h : PairsSound pairs) : PairsSound ((key, value) :: pairs) :=
  ⟨List.forall_mem_cons.mpr ⟨hkey, h.keys⟩, List.forall_mem_cons.mpr ⟨hvalue, h.values⟩⟩

theorem PairsSound.hash {pairs : List (Node × Node)} {e : Extent} (h : PairsSound pairs)
    (hline : e.line.isSome) : (Node.hash pairs.reverse e).Sound :=
  .hash (fun p hp => h.keys p (List.mem_reverse.mp hp))
    (fun p hp => h.values p (List.mem_reverse.mp hp)) hline

theorem Sound.line {n : Node} (h : n.Sound) : n.line?.isSome := by
  cases h with
  | name identifier hline => exact hline
  | literal kind value dynamic hline => exact hline
  | hash hkeys hvalues hline => exact hline
  | array helements hline => exact hline
  | expression hparts hline => exact hline
  | call method hreceiver hargs hline => exact hline
  | block params hcall hbody hline => exact hline
  | conditional keyword hcondition hbranches hline => exact hline

end Node

theorem sound_none : ∀ m ∈ (none : Option Node), m.Sound := nofun

theorem sound_some {n : Node} (h : n.Sound) : ∀ m ∈ some n, m.Sound := by
  rintro _ ⟨⟩
  exact h

theorem sound_nameOf (t : Token) : (nameOf t).Sound := .name _ rfl

theorem sound_keyOf (t : Token) : (keyOf t).Sound := .literal _ _ _ rfl

theorem sound_spreadKey (t : Token) : (spreadKey t).Sound := .literal _ _ _ rfl

end ViewSchema.Template
