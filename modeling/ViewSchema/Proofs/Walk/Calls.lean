import ViewSchema.Proofs.Template.Sound
import ViewSchema.Walk.Statement

/-!
The calls that a walk over statements comes to, and the names that each of them can give to nodes
of the document.
-/

namespace ViewSchema.Template

namespace Node

/-- The call that a node is, if it can be walked. -/
def invoked (n : Node) : List Invocation :=
  match n.invocation with
  | .ok i => [i]
  | .error _ => []

mutual

/-- The calls of a statement and of the statements in it. -/
def calls : Node → List Invocation
  | .conditional _ _ branches _ => branchCalls branches
  | .block callee _ body _ => callee.invoked ++ bodyCalls body
  | .call c => (Node.call c).invoked
  | .expression parts _ => partCalls parts
  | .name .. | .literal .. | .hash .. | .array .. | .alien _ => []

def bodyCalls : List Node → List Invocation
  | [] => []
  | n :: rest => n.calls ++ bodyCalls rest

def branchCalls : List (List Node) → List Invocation
  | [] => []
  | body :: rest => bodyCalls body ++ branchCalls rest

/-- The calls of the blocks and conditionals among the parts of an expression. -/
def partCalls : List Node → List Invocation
  | [] => []
  | n :: rest =>
    (match n with
      | .block .. | .conditional .. => n.calls
      | _ => []) ++ partCalls rest

end

theorem mem_bodyCalls {body : List Node} {i : Invocation} :
    i ∈ bodyCalls body ↔ ∃ n ∈ body, i ∈ n.calls := by
  induction body with
  | nil => simp [bodyCalls]
  | cons n rest ih => simp [bodyCalls, ih]

theorem mem_branchCalls {branches : List (List Node)} {i : Invocation} :
    i ∈ branchCalls branches ↔ ∃ body ∈ branches, ∃ n ∈ body, i ∈ n.calls := by
  induction branches with
  | nil => simp [branchCalls]
  | cons body rest ih => simp [branchCalls, mem_bodyCalls, ih]

theorem mem_partCalls_cons (n : Node) {rest : List Node} {i : Invocation}
    (h : i ∈ partCalls rest) : i ∈ partCalls (n :: rest) := by
  cases n <;> simp [partCalls, h]

theorem exists_of_mem_partCalls {parts : List Node} {i : Invocation} (h : i ∈ partCalls parts) :
    ∃ n ∈ parts, i ∈ n.calls := by
  induction parts with
  | nil => simp [partCalls] at h
  | cons n rest ih =>
    have hsplit : i ∈ n.calls ∨ i ∈ partCalls rest := by
      cases n with
      | block => simpa [partCalls] using h
      | conditional => simpa [partCalls] using h
      | _ => exact .inr (by simpa [partCalls] using h)
    rcases hsplit with hfirst | hrest
    · exact ⟨n, List.mem_cons_self, hfirst⟩
    · obtain ⟨m, hm, hi⟩ := ih hrest
      exact ⟨m, List.mem_cons_of_mem _ hm, hi⟩

theorem Sound.line_of_mem_invoked {c : Call} (h : (Node.call c).Sound) {i : Invocation}
    (hi : i ∈ (Node.call c).invoked) : i.line.isSome := by
  have hline : i.line = c.extent.line := by
    unfold invoked at hi
    split at hi
    · rename_i found hfound
      obtain rfl := List.mem_singleton.mp hi
      simp only [Node.invocation] at hfound
      split at hfound <;> cases hfound
      rfl
    · cases hi
  rw [hline]
  exact h.line

/-- The calls of a sound statement have lines. -/
theorem Sound.line_of_mem_calls {n : Node} (h : n.Sound) {i : Invocation} (hi : i ∈ n.calls) :
    i.line.isSome := by
  induction h with
  | call method hreceiver hargs hline =>
    rw [calls] at hi
    exact Sound.line_of_mem_invoked (.call method hreceiver hargs hline) hi
  | block params hcall _ _ _ ihbody =>
    rw [calls] at hi
    rcases List.mem_append.mp hi with hcallee | hinner
    · exact hcall.line_of_mem_invoked hcallee
    · obtain ⟨n, hn, hi⟩ := mem_bodyCalls.mp hinner
      exact ihbody n hn hi
  | conditional keyword _ _ _ _ ihbranches =>
    rw [calls] at hi
    obtain ⟨body, hbody, n, hn, hi⟩ := mem_branchCalls.mp hi
    exact ihbranches body hbody n hn hi
  | expression _ _ ihparts =>
    rw [calls] at hi
    obtain ⟨n, hn, hi⟩ := exists_of_mem_partCalls hi
    exact ihparts n hn hi
  | _ => simp [calls] at hi

end Node

namespace Invocation

/-- The attributes that a call lists behind its first argument. -/
def attributeNames (i : Invocation) : List String := (i.args.drop 1).filterMap Node.staticText?

/-- The call makes a node with the name: a property of its method, one of its attributes, or the
array that it emits, as a member of a property. -/
def Names (builder : String) (i : Invocation) (name : String) : Prop :=
  match i.call.kind builder with
  | .property => name = i.method ∨ name ∈ i.attributeNames
  | .extraction => name ∈ i.attributeNames
  | .array => name = "items" ∨ name ∈ i.attributeNames
  | .inclusion => name = "items" ∧ (i.option? "collection").isSome
  | .directive | .other => False

end Invocation

end ViewSchema.Template
