import ViewSchema.Proofs.Template.Run

/-!
Brackets among the tokens. Scanning keeps the brackets that are open, the innermost first. They are
the ones that the brackets read so far leave without a partner, so that brackets are balanced where
none is left open.
-/

namespace ViewSchema.Template

open Lexer (closer)

def openers : List Char := ['(', '[', '\x7b']

/-- Every bracket has its partner, and what stands between the two is balanced. -/
inductive Balanced : List Char → Prop
  | nil : Balanced []
  | nest {opener : Char} {inner rest : List Char} (hopener : opener ∈ openers)
      (hinner : Balanced inner) (hrest : Balanced rest) :
      Balanced (opener :: (inner ++ closer opener :: rest))

/-- The last bracket that is still open. -/
def Innermost (opener : Char) (brackets : List Char) : Prop :=
  ∃ before inner, brackets = before ++ opener :: inner ∧ Balanced inner

def bracketSigns : List (String × Char) :=
  [("(", '('), (")", ')'), ("[", '['), ("]", ']'), ("\x7b", '\x7b'), ("\x7d", '\x7d')]

def Lexeme.bracket? : Lexeme → Option Char
  | .operator op => bracketSigns.lookup op
  | _ => none

/-- The brackets among some tokens, in their order. -/
def bracketsOf (tokens : List Token) : List Char := tokens.filterMap fun t => t.lexeme.bracket?

/-- The brackets of a sequence that have no partner in it, the innermost first. -/
inductive LeavesOpen : List Char → List Char → Prop
  | none {sequence : List Char} (h : Balanced sequence) : LeavesOpen sequence []
  | one {front stack inner : List Char} {opener : Char} (hfront : LeavesOpen front stack)
      (hopener : opener ∈ openers) (hinner : Balanced inner) :
      LeavesOpen (front ++ opener :: inner) (opener :: stack)

theorem Balanced.append {first second : List Char} (h : Balanced first) (h' : Balanced second) :
    Balanced (first ++ second) := by
  induction h with
  | nil => exact h'
  | @nest opener inner rest hopener hinner hrest _ ih =>
    simpa using Balanced.nest hopener hinner ih

namespace LeavesOpen

variable {sequence stack : List Char} {opener : Char}

theorem append {more : List Char} (h : LeavesOpen sequence stack) (hmore : Balanced more) :
    LeavesOpen (sequence ++ more) stack := by
  cases h with
  | none h => exact .none (h.append hmore)
  | one hfront hopener hinner =>
    rw [List.append_assoc]
    exact .one hfront hopener (hinner.append hmore)

theorem push (h : LeavesOpen sequence stack) (hopener : opener ∈ openers) :
    LeavesOpen (sequence ++ [opener]) (opener :: stack) :=
  .one h hopener .nil

theorem pop (h : LeavesOpen sequence (opener :: stack)) :
    LeavesOpen (sequence ++ [closer opener]) stack := by
  cases h with
  | @one front _ inner _ hfront hopener hinner =>
    have hpair : Balanced (opener :: (inner ++ [closer opener])) := .nest hopener hinner .nil
    simpa using hfront.append hpair

/-- A sequence that leaves nothing open is balanced. -/
theorem balanced (h : LeavesOpen sequence []) : Balanced sequence := by
  cases h with
  | none h => exact h

end LeavesOpen

/-- One more bracket, with some open already; none when it closes another than the innermost one. -/
def turn (stack : List Char) (c : Char) : Option (List Char) :=
  if c ∈ openers then some (c :: stack)
  else
    match stack with
    | opener :: outer => if closer opener = c then some outer else none
    | [] => none

theorem turn_opener {opener : Char} (h : opener ∈ openers) (stack : List Char) :
    turn stack opener = some (opener :: stack) := if_pos h

theorem turn_closer {opener : Char} (h : opener ∈ openers) (outer : List Char) :
    turn (opener :: outer) (closer opener) = some outer := by
  have hother : ∀ opener ∈ openers, closer opener ∉ openers := by
    simp [openers, closer]
  rw [turn, if_neg (hother opener h)]
  exact if_pos rfl

/-- Balanced brackets leave open what was open before. -/
theorem Balanced.foldlM_turn {inner : List Char} (h : Balanced inner) (stack : List Char) :
    inner.foldlM turn stack = some stack := by
  induction h generalizing stack with
  | nil => rfl
  | nest hopener _ _ ihinner ihrest =>
    simp [turn_opener hopener, turn_closer hopener, ihinner, ihrest]

theorem LeavesOpen.foldlM_turn {sequence stack : List Char} (h : LeavesOpen sequence stack) :
    sequence.foldlM turn [] = some stack := by
  induction h with
  | none h => exact h.foldlM_turn []
  | one _ hopener hinner ih => simp [ih, turn_opener hopener, hinner.foldlM_turn]

/-- The innermost of the brackets that are left open is the last of them. -/
theorem LeavesOpen.head_of_innermost {sequence stack : List Char} {opener : Char}
    (h : LeavesOpen sequence stack) (hopener : opener ∈ openers)
    (hinnermost : Innermost opener sequence) : stack.head? = some opener := by
  obtain ⟨before, inner, rfl, hinner⟩ := hinnermost
  have hturns := h.foldlM_turn
  rw [List.foldlM_append] at hturns
  obtain ⟨outer, -, hbehind⟩ := Option.bind_eq_some_iff.mp hturns
  have hstack : opener :: outer = stack := by
    simpa [turn_opener hopener, hinner.foldlM_turn] using hbehind
  rw [← hstack]
  rfl

namespace Scan

/-- The brackets that scanning keeps open behind an operator are those left open then. -/
theorem leavesOpen_nested {sequence stack stack' : List Char} {op : String}
    (h : LeavesOpen sequence stack) (hnested : nested stack op = .ok stack') :
    LeavesOpen (sequence ++ (bracketSigns.lookup op).toList) stack' := by
  have hclose : ∀ {opener c : Char}, closer opener = c →
      nested.close stack opener c = .ok stack' → LeavesOpen (sequence ++ [c]) stack' := by
    rintro opener c rfl hclose
    unfold nested.close at hclose
    split at hclose
    · rename_i d outer
      split at hclose
      · rename_i hsame
        cases hclose
        rw [eq_of_beq hsame] at h
        exact h.pop
      · cases hclose
    · cases hclose
  unfold nested at hnested
  split at hnested
  · cases hnested
    exact h.push (by decide)
  · cases hnested
    exact h.push (by decide)
  · cases hnested
    exact h.push (by decide)
  · exact hclose rfl hnested
  · exact hclose rfl hnested
  · exact hclose rfl hnested
  · rename_i hround hsquare hcurly hround' hsquare' hcurly'
    cases hnested
    have hnone : bracketSigns.lookup op = none := by
      rw [List.lookup_eq_none_iff]
      simpa [bracketSigns] using ⟨hround, hround', hsquare, hsquare', hcurly, hcurly'⟩
    simpa [hnone] using h

theorem leavesOpen_bracketsAfter {s : Scan} {sequence stack : List Char} {lexeme : Lexeme}
    (h : LeavesOpen sequence s.brackets) (hafter : s.bracketsAfter lexeme = .ok stack) :
    LeavesOpen (sequence ++ lexeme.bracket?.toList) stack := by
  unfold bracketsAfter at hafter
  split at hafter
  · exact leavesOpen_nested h hafter
  · rename_i hother
    cases hafter
    have hnone : lexeme.bracket? = none := by
      cases lexeme <;> first | rfl | exact absurd rfl (hother _)
    simpa [hnone] using h

end Scan

end ViewSchema.Template
