import ViewSchema.Proofs.Template.Grammar

/-!
Phrases of plainly written templates, read by a grammar that is open to some depth: whole numbers
and variables as arguments, names as conditions, and calls on the builder with one argument.
-/

namespace ViewSchema.Template

namespace Read

variable {d : Nat} {after : List Seen} {P : Node → Prop}

/-! ### Operands -/

theorem leads_unary_integer (n line : Nat) (spaced : Bool) (hafter : Seen.quiet after) :
    Leads (unary (grammar d) false true) (⟨.integer n, line, spaced⟩ :: after) after
      (IsInteger n) :=
  leads_unary_operand (grammar d) false true rfl
    (leads_operand_integer (grammar d) false true n line spaced after)
    (Seen.settled_of_quiet hafter)

theorem leads_ternary_integer (n line : Nat) (spaced : Bool) (hafter : Seen.quiet after) :
    Leads ((grammar (d + 1)).ternary false true) (⟨.integer n, line, spaced⟩ :: after) after
      (IsInteger n) :=
  (leads_unary_integer n line spaced hafter).ternary (Seen.settled_of_quiet hafter)

theorem leads_ternary_instanceVariable (name : String) (line : Nat) (spaced : Bool)
    (hafter : Seen.quiet after) :
    Leads ((grammar (d + 1)).ternary false true) (⟨.instanceVariable name, line, spaced⟩ :: after)
      after (· = nameAt line name) :=
  (leads_unary_operand (grammar d) false true rfl
    (leads_operand_instanceVariable (grammar d) false true name line spaced after)
    (Seen.settled_of_quiet hafter)).ternary (Seen.settled_of_quiet hafter)

/-- Words that open no operand but go on with an expression. -/
def goingOnWords : List String := "do" :: Seen.junctionWords

/-- What comes next opens no operand, and ends an expression. -/
def stops (tokens : List Seen) : Bool :=
  match Seen.next tokens with
  | .newline | .endOfText => true
  | .operator op => Seen.closingOperators.contains op
  | .identifier word => nonArgumentWords.contains word && !goingOnWords.contains word
  | _ => false

theorem not_mem_goingOnWords {tokens : List Seen} (h : stops tokens) {word : String}
    (hnext : Seen.next tokens = .identifier word) : word ∉ goingOnWords := by
  unfold stops at h
  rw [hnext] at h
  obtain ⟨-, hother⟩ := Bool.and_eq_true_iff.mp h
  intro hmem
  rw [List.contains_iff_mem.mpr hmem] at hother
  cases hother

theorem settled_of_stops {tokens : List Seen} (h : stops tokens) : Seen.settled tokens := by
  unfold Seen.settled
  cases hnext : Seen.next tokens with
  | identifier word =>
    have hother := not_mem_goingOnWords h hnext
    simp only [goingOnWords, List.mem_cons, not_or] at hother
    simpa using hother.2
  | operator op =>
    unfold stops at h
    rw [hnext] at h
    exact h
  | _ => rfl

theorem isWordOf_do_of_stops {tokens : List Seen} (h : stops tokens) :
    (Seen.next tokens).isWordOf ["do"] = false := by
  cases hnext : Seen.next tokens with
  | identifier word =>
    have hother := not_mem_goingOnWords h hnext
    simp only [goingOnWords, List.mem_cons, not_or] at hother
    simpa [Lexeme.isWordOf] using hother.1
  | _ => rfl

/-- What ends an expression is no argument, with a blank before it or without. -/
theorem leads_atCommandArgument_stops {tokens : List Seen} (h : stops tokens) :
    Leads atCommandArgument tokens tokens (· = false) := by
  apply (leads_current tokens).bind
  intro t ht
  unfold stops at h
  rw [← ht.1] at h
  split
  · exact leads_pure false tokens
  · cases hlexeme : t.lexeme with
    | operator op =>
      rw [hlexeme] at h
      have hop : op = ";" ∨ op = ")" ∨ op = "\x7d" := by
        simpa [Seen.closingOperators] using h
      rcases hop with rfl | rfl | rfl <;> exact leads_pure false tokens
    | identifier word =>
      rw [hlexeme] at h
      have hword : nonArgumentWords.contains word = true := (Bool.and_eq_true_iff.mp h).1
      have hopens : (Lexeme.identifier word).opensArgument = false := by
        rw [Lexeme.opensArgument, hword, Bool.not_true]
      simp only [hopens]
      exact leads_pure false tokens
    | newline => exact leads_pure false tokens
    | endOfText => exact leads_pure false tokens
    | _ =>
      rw [hlexeme] at h
      cases h

/-- A name is read as an expression in front of what ends one. -/
theorem leads_expression_name (g : Grammar) {word : String} (hword : keywords.contains word = false)
    (noDo : Bool) (line : Nat) (spaced : Bool) (rest : List Seen) (hrest : stops rest) :
    Leads (expression g true noDo) (⟨.identifier word, line, spaced⟩ :: rest) rest
      (· = nameAt line word) := by
  have hopens := opensOperand_name hword line spaced rest
  have hsettled := settled_of_stops hrest
  apply Leads.expression _ hopens hsettled
  apply leads_unary_operand g true noDo hopens _ hsettled
  exact leads_operand_name g true noDo line spaced hword
    (Seen.isOneOf_of_settled hsettled (by decide)) (isWordOf_do_of_stops hrest)
    (leads_atCommandArgument_stops hrest)

/-! ### Calls -/

/-- A statement that calls a method on the builder with a whole number. -/
theorem leads_integer_statement (method : String) (n line : Nat) (hafter : Seen.quiet after)
    (hbrace : (Seen.next after).isOneOf ["\x7b"] = false)
    (hdo : (Seen.next after).isWordOf ["do"] = false) :
    Leads (statement (grammar (d + 1)))
      (⟨.identifier "json", line, true⟩ :: ⟨.operator ".", line, false⟩ ::
        ⟨.identifier method, line, false⟩ :: ⟨.integer n, line, true⟩ :: after) after
      fun node => ∃ c, node = .call c ∧ IsCall (nameAt line "json") method (some (line : Int))
        (fun args => ∃ one, args = [one] ∧ IsInteger n one) c := by
  have hargument := leads_ternary_integer (d := d) n line true hafter
  apply leads_call_statement keywords_json _ (Nat.le_succ _) hafter
  intro start
  apply leads_callOf rfl (leads_atCommandArgument_spaced rfl (by simp [Seen.next]))
    (leads_arguments_one rfl rfl rfl hargument hafter)
  intro c hc
  apply (leads_withBlock_none hbrace hdo).mono
  rintro _ rfl
  exact ⟨c, rfl, hc⟩

/-- A call with a variable, whose name has been taken, and its block. -/
theorem ends_callOf_instanceVariable {F : Faults} {receiver : Node} {method : String}
    {line : Option Int} {start : Nat} (name : String) (place : Nat) {inner : List Seen}
    (hinner : Seen.quiet inner)
    (hblock : ∀ c, IsCall receiver method line (· = [nameAt place name]) c →
      Ends (fun _ => True) F (withBlock (grammar (d + 1)) c start false) inner after P) :
    Ends (fun _ => True) F (callOf (grammar (d + 1)) (some receiver) method line start true false)
      (⟨.instanceVariable name, place, true⟩ :: inner) after P := by
  have hargument := leads_ternary_instanceVariable (d := d) name place true hinner
  apply ends_callOf rfl (leads_atCommandArgument_spaced rfl (by simp [Seen.next])).ends
    (leads_arguments_one rfl rfl rfl hargument hinner).ends
  intro c hc
  apply hblock c (hc.mono _)
  rintro _ ⟨_, rfl, rfl⟩
  rfl

theorem leads_callOf_instanceVariable {receiver : Node} {method : String} {line : Option Int}
    {start : Nat} (name : String) (place : Nat) {inner : List Seen} (hinner : Seen.quiet inner)
    (hblock : ∀ c, IsCall receiver method line (· = [nameAt place name]) c →
      Leads (withBlock (grammar (d + 1)) c start false) inner after P) :
    Leads (callOf (grammar (d + 1)) (some receiver) method line start true false)
      (⟨.instanceVariable name, place, true⟩ :: inner) after P :=
  (ends_callOf_instanceVariable name place hinner fun c hc => (hblock c hc).ends).leads

end Read
end ViewSchema.Template
