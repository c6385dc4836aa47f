import ViewSchema.Proofs.Template.Grammar

/-!
The rules for conditionals: a condition or a subject, then arms one behind the other, and an arm for
all other cases.
-/

namespace ViewSchema.Template.Read

/-- A conditional on a line, by its condition and its branches. -/
def IsConditional (keyword : String) (line : Nat) (Condition : Node → Prop)
    (Branches : List (List Node) → Prop) (n : Node) : Prop :=
  ∃ condition branches extent, n = .conditional keyword (some condition) branches extent ∧
    extent.line = some (line : Int) ∧ Condition condition ∧ Branches branches

theorem leads_skipThen {tokens : List Seen} (h : (Seen.next tokens).isWordOf ["then"] = false) :
    Leads skipThen tokens (breaks tokens) fun _ => True :=
  Leads.noWord h (leads_skipBreaks tokens)

theorem leads_compound (t : Token) (keyword : String) (condition : Node)
    (branches : List (List Node)) (line : Nat) (spaced : Bool) (after : List Seen) :
    Leads (compound t keyword (some condition) branches)
      (⟨.identifier "end", line, spaced⟩ :: after) after
      (IsConditional keyword t.line (· = condition) (· = branches.reverse)) := by
  apply (leads_expectWord after (by simp [Lexeme.isWordOf])).bind
  intro _ _
  apply (leads_extentFrom t after).bind_pure.mono
  rintro _ ⟨extent, hline, rfl⟩
  exact ⟨condition, branches.reverse, extent, rfl, hline, rfl, rfl⟩

/-- A step that reads one more arm, or finds that there is none. -/
abbrev ArmTurn := List (List Node) → Read (Turn (List (List Node)) (List (List Node)))

variable (g : Grammar)

/-- The arms of a conditional, the latest first, and the arm for all other cases. -/
def arms (turn : ArmTurn) (branches : List (List Node)) : Read (List (List Node)) :=
  repeated turn branches >>= elseBranch g

variable {g} {before middle after : List Seen} {branches : List (List Node)}

theorem leads_elseBranch_none (h : (Seen.next before).isWordOf ["else"] = false) :
    Leads (elseBranch g branches) before before (· = branches) :=
  Leads.noWord h (leads_pure branches before)

theorem leads_elseBranch_some {line : Nat} {spaced : Bool} {Q : List Node → Prop}
    (hbody : Leads (g.statements ["end"] none) before after Q) :
    Leads (elseBranch g branches) (⟨.identifier "else", line, spaced⟩ :: before) after
      fun all => ∃ nodes, Q nodes ∧ all = nodes :: branches := by
  apply Leads.onWord (by simp [Seen.next, Lexeme.isWordOf])
  apply (leads_advance _ before).bind
  intro _ _
  exact hbody.bind_pure

section Arms

variable {turn : ArmTurn} {P : List (List Node) → Prop}

/-- One more arm. -/
theorem leads_arms_again {Q : List Node → Prop}
    (hturn : Leads (turn branches) before middle fun t =>
      ∃ next, t = .again next ∧ ∃ nodes, Q nodes ∧ next = nodes :: branches)
    (hless : middle.length < before.length)
    (hrest : ∀ nodes, Q nodes → Leads (arms g turn (nodes :: branches)) middle after P) :
    Leads (arms g turn branches) before after P := by
  apply Leads.again_bind hturn hless
  rintro _ ⟨nodes, hnodes, rfl⟩
  exact hrest nodes hnodes

theorem leads_arms_end
    (hturn : Leads (turn branches) before before fun t => t = .finished branches)
    (helse : Leads (elseBranch g branches) before after P) :
    Leads (arms g turn branches) before after P := by
  have hfinish : Leads (repeated turn branches) before before (· = branches) := by
    apply Leads.finish
    apply hturn.mono
    rintro _ rfl
    exact ⟨branches, rfl, rfl⟩
  apply hfinish.bind
  rintro _ rfl
  exact helse

end Arms

section Turns

variable {line : Nat} {spaced : Bool} {body : List Seen} {Q : List Node → Prop}

theorem leads_elsifTurn (hcondition : Leads (g.expression true true) before body fun _ => True)
    (hthen : (Seen.next body).isWordOf ["then"] = false)
    (hbody : Leads (g.statements ["elsif", "else", "end"] none) (breaks body) after Q) :
    Leads (elsifTurn g branches) (⟨.identifier "elsif", line, spaced⟩ :: before) after fun t =>
      ∃ next, t = .again next ∧ ∃ nodes, Q nodes ∧ next = nodes :: branches := by
  apply Leads.onWord (by simp [Seen.next, Lexeme.isWordOf])
  apply (leads_advance _ before).bind
  intro _ _
  apply hcondition.bind
  intro _ _
  apply (leads_skipThen hthen).bind
  intro _ _
  apply hbody.bind_pure.mono
  rintro _ ⟨nodes, hnodes, rfl⟩
  exact ⟨_, rfl, nodes, hnodes, rfl⟩

theorem leads_elsifTurn_finished (h : (Seen.next before).isWordOf ["elsif"] = false) :
    Leads (elsifTurn g branches) before before (· = .finished branches) :=
  Leads.noWord h (leads_pure _ before)

theorem leads_whenTurn (hvalues : Leads (arguments g none true) before body fun _ => True)
    (hthen : (Seen.next body).isWordOf ["then"] = false)
    (hbody : Leads (g.statements ["when", "in", "else", "end"] none) (breaks body) after Q) :
    Leads (whenTurn g branches) (⟨.identifier "when", line, spaced⟩ :: before) after fun t =>
      ∃ next, t = .again next ∧ ∃ nodes, Q nodes ∧ next = nodes :: branches := by
  apply Leads.onWord (by simp [Seen.next, Lexeme.isWordOf])
  apply (leads_advance _ before).bind
  intro _ _
  apply hvalues.bind
  intro _ _
  apply (leads_skipThen hthen).bind
  intro _ _
  apply hbody.bind_pure.mono
  rintro _ ⟨nodes, hnodes, rfl⟩
  exact ⟨_, rfl, nodes, hnodes, rfl⟩

theorem leads_whenTurn_finished (h : (Seen.next before).isWordOf ["when", "in"] = false) :
    Leads (whenTurn g branches) before before (· = .finished branches) :=
  Leads.noWord h (leads_pure _ before)

end Turns

section Compound

variable (line : Nat) (spaced : Bool) {endLine : Nat} {endSpaced : Bool} {inner body : List Seen}
  {Condition : Node → Prop} {Branches : List (List Node) → Prop}

theorem leads_ifStatement (keyword : String) {First : List Node → Prop}
    (hcondition : Leads (g.expression true true) inner body Condition)
    (hthen : (Seen.next body).isWordOf ["then"] = false)
    (hfirst : Leads (g.statements ["elsif", "else", "end"] none) (breaks body) middle First)
    (harms : ∀ first, First first → Leads (arms g (elsifTurn g) [first]) middle
      (⟨.identifier "end", endLine, endSpaced⟩ :: after) fun all =>
        ∃ branches, all = branches.reverse ∧ Branches branches) :
    Leads (ifStatement g) (⟨.identifier keyword, line, spaced⟩ :: inner) after
      (IsConditional keyword line Condition Branches) := by
  apply (leads_advance _ inner).bind
  intro t ht
  have hline : t.line = line := ht.2.2 _ rfl
  have hkeyword : t.lexeme.written = keyword := by
    rw [ht.1]
    rfl
  apply hcondition.bind
  intro condition hconditioned
  apply (leads_skipThen hthen).bind
  intro _ _
  apply hfirst.bind
  intro first hnodes
  rw [← bind_assoc]
  apply (harms first hnodes).bind
  rintro _ ⟨branches, rfl, hall⟩
  rw [hkeyword, ← hline]
  apply (leads_compound t keyword condition branches.reverse endLine endSpaced after).mono
  rintro _ ⟨_, _, extent, rfl, hextent, rfl, rfl⟩
  rw [List.reverse_reverse]
  exact ⟨_, branches, extent, rfl, hextent, hconditioned, hall⟩

theorem leads_caseStatement (hnewline : Seen.next inner ≠ .newline)
    (hsubject : Leads (g.expression true false) inner body Condition)
    (harms : Leads (arms g (whenTurn g) []) (breaks body)
      (⟨.identifier "end", endLine, endSpaced⟩ :: after) fun all =>
        ∃ branches, all = branches.reverse ∧ Branches branches) :
    Leads (caseStatement g) (⟨.identifier "case", line, spaced⟩ :: inner) after
      (IsConditional "case" line Condition Branches) := by
  apply (leads_advance _ inner).bind
  intro t ht
  have hline : t.line = line := ht.2.2 _ rfl
  apply (leads_current inner).bind
  intro u hu
  have hsome : (u.lexeme == .newline) = false := by simpa [hu.1] using hnewline
  simp only [hsome, Bool.false_eq_true, if_false]
  apply hsubject.bind
  intro subject hsubjected
  apply (leads_pure (some subject) body).bind
  rintro _ rfl
  apply (leads_skipBreaks body).bind
  intro _ _
  rw [← bind_assoc]
  apply harms.bind
  rintro _ ⟨branches, rfl, hall⟩
  rw [← hline]
  apply (leads_compound t "case" subject branches.reverse endLine endSpaced after).mono
  rintro _ ⟨_, _, extent, rfl, hextent, rfl, rfl⟩
  rw [List.reverse_reverse]
  exact ⟨_, branches, extent, rfl, hextent, hsubjected, hall⟩

end Compound

end ViewSchema.Template.Read
