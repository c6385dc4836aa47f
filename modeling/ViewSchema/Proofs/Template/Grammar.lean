import ViewSchema.Proofs.Template.Read
import ViewSchema.Proofs.Template.Resting

/-!
The rules of the grammar on plainly written expressions that are read: a builder's call with or
without an argument and a block. What follows is quiet, that is, joins nothing to what was read.
-/

namespace ViewSchema.Template

namespace Read

variable (g : Grammar)

/-- A node that is no hash: as an argument it says nothing about the call. -/
def IsPlain (n : Node) : Prop := n.hashPairs? = none

/-- A literal of a whole number. -/
def IsInteger (n : Nat) (node : Node) : Prop :=
  ∃ dynamic extent, node = .literal .integer (.int n) dynamic extent

theorem IsInteger.isPlain {n : Nat} {node : Node} (h : IsInteger n node) : IsPlain node := by
  obtain ⟨dynamic, extent, rfl⟩ := h
  rfl

theorem leads_operand_integer (command noDo : Bool) (n line : Nat) (spaced : Bool)
    (rest : List Seen) :
    Leads (operand g command noDo) (⟨.integer n, line, spaced⟩ :: rest) rest (IsInteger n) := by
  apply (ends_operand_integer g command noDo n line spaced rest).leads.mono
  rintro _ ⟨t, source, -, rfl⟩
  exact ⟨t.dynamic, _, rfl⟩

theorem leads_operand_instanceVariable (command noDo : Bool) (name : String) (line : Nat)
    (spaced : Bool) (rest : List Seen) :
    Leads (operand g command noDo) (⟨.instanceVariable name, line, spaced⟩ :: rest) rest
      (· = nameAt line name) :=
  (ends_operand_instanceVariable g command noDo name line spaced rest).leads

/-- A name in front of something that is neither its argument nor its block. -/
theorem leads_operand_name (command noDo : Bool) {word : String} (line : Nat) (spaced : Bool)
    {rest : List Seen} (hword : keywords.contains word = false)
    (hopens : (Seen.next rest).isOneOf ["(", "\x7b"] = false)
    (hblock : (Seen.next rest).isWordOf ["do"] = false)
    (hcommand : Leads atCommandArgument rest rest (· = false)) :
    Leads (operand g command noDo) (⟨.identifier word, line, spaced⟩ :: rest) rest
      (· = nameAt line word) := by
  have hanswer := hcommand.mono fun answer hno => (hno ▸ Bool.and_false command :
    (command && answer) = false)
  exact (ends_operand_name g command noDo line spaced hword hopens hblock hanswer.ends).leads

theorem leads_unary_operand (command noDo : Bool) {before after : List Seen} {P : Node → Prop}
    (hopens : opensOperand before) (hoperand : Leads (operand g command noDo) before after P)
    (hafter : Seen.settled after) : Leads (unary g command noDo) before after P :=
  (Ends.unary hopens hoperand.ends (Seen.endsChain_of_rests (Seen.rests_of_settled hafter))).leads

/-- A sign in front of an operand. -/
theorem leads_unary_sign (command noDo : Bool) (op : String) (line : Nat) (spaced : Bool)
    {inner after : List Seen} {P : Node → Prop}
    (hop : ["!", "-", "+", "~", "*", "**", "&", "::"].contains op)
    (hinner : Leads (g.unary command noDo) inner after P) :
    Leads (unary g command noDo) (⟨.operator op, line, spaced⟩ :: inner) after
      fun n => ∃ node extent, n = .expression [node] extent ∧ P node := by
  apply (Ends.unary_sign line spaced hop hinner.ends).leads.mono
  rintro _ ⟨node, source, hnode, rfl⟩
  exact ⟨node, _, rfl, hnode⟩

section Quiet

variable {g} {command noDo : Bool} {before after : List Seen} {P : Node → Prop}

theorem Leads.ternary (h : Leads (unary g command noDo) before after P)
    (hafter : Seen.settled after) : Leads (ternary g command noDo) before after P :=
  (h.ends.ternary (Seen.rests_of_settled hafter)).leads

theorem Leads.expression (h : Leads (unary g command noDo) before after P)
    (hbefore : opensOperand before) (hafter : Seen.settled after) :
    Leads (expression g command noDo) before after P :=
  (h.ends.expression hbefore hafter).leads

theorem Leads.statement (h : Leads (unary g true false) before after P)
    (hbefore : opensOperand before) (hafter : Seen.quiet after) :
    Leads (statement g) before after P :=
  (h.ends.statement hbefore hafter).leads

end Quiet

/-- At most one argument, which is no hash. -/
def ArePlain (args : List Node) : Prop := args.length ≤ 1 ∧ ∀ a ∈ args, IsPlain a

theorem arePlain_one {n : Node} (h : IsPlain n) : ArePlain [n] :=
  ⟨Nat.le_refl 1, List.forall_mem_singleton.mpr h⟩

theorem leads_atCommandArgument_spaced {tokens : List Seen} (hspaced : Seen.nextSpaced tokens)
    (hoperator : ∀ op, Seen.next tokens ≠ .operator op) :
    Leads atCommandArgument tokens tokens (· = (Seen.next tokens).opensArgument) := by
  apply (leads_current tokens).bind
  intro t ht
  have htspaced : t.spaced = true := ht.2.1.trans hspaced
  rw [← ht.1] at hoperator ⊢
  simp only [htspaced, Bool.not_true, Bool.false_eq_true, if_false]
  cases hlexeme : t.lexeme
  case operator op => exact absurd hlexeme (hoperator op)
  all_goals exact leads_pure _ tokens

variable {g}

/-- The word that opens a block opens no argument. -/
theorem leads_atCommandArgument_do (line : Nat) (rest : List Seen) :
    Leads atCommandArgument (⟨.identifier "do", line, true⟩ :: rest)
      (⟨.identifier "do", line, true⟩ :: rest) (· = false) := by
  have hopens : (Seen.next (⟨.identifier "do", line, true⟩ :: rest)).opensArgument = false := by
    simp [Seen.next, Lexeme.opensArgument, nonArgumentWords]
  rw [← hopens]
  exact leads_atCommandArgument_spaced rfl (by simp [Seen.next])

/-- A brace behind a blank opens no argument. -/
theorem leads_atCommandArgument_brace (line : Nat) (rest : List Seen) :
    Leads atCommandArgument (⟨.operator "\x7b", line, true⟩ :: rest)
      (⟨.operator "\x7b", line, true⟩ :: rest) (· = false) := by
  apply (leads_current _).bind
  intro t ht
  have hlexeme : t.lexeme = .operator "\x7b" := ht.1
  have hspaced : t.spaced = true := ht.2.1
  simp only [hlexeme, hspaced]
  exact leads_pure false _

theorem leads_arguments_one {before after : List Seen} {P : Node → Prop}
    (hlabel : (Seen.next before).isLabel = false)
    (hspread : (Seen.next before).isOperator "**" = false)
    (hnot : (Seen.next before).isWordOf ["not"] = false)
    (h : Leads (g.ternary false true) before after P) (hafter : Seen.quiet after) :
    Leads (arguments g none true) before after fun args => ∃ n, args = [n] ∧ P n := by
  have hargument : Leads (argument g true) before after P := Leads.noWord hnot h
  have hlisted := (ends_listed_argument none {} hlabel hspread hargument.ends
    (Seen.isOneOf_of_quiet hafter _)).leads
  have hturn : Leads (listTurn g none true {}) before after
      fun turn => ∃ a, turn = .finished a ∧ ∃ n, a = ArgumentList.add {} n ∧ P n := by
    apply (leads_pure false before).bind
    rintro _ rfl
    apply hlisted.bind
    intro a ha
    apply Leads.noOperator (Seen.isOneOf_of_quiet hafter _)
    exact (leads_pure _ after).mono fun _ hturn => ⟨a, hturn, ha⟩
  apply (Leads.finish hturn).bind
  rintro _ ⟨n, rfl, hn⟩
  apply (leads_pure _ after).mono
  rintro _ rfl
  exact ⟨n, rfl, hn⟩

/-- A call whose name has been taken, with an argument or without. -/
theorem leads_callOf {receiver : Node} {method : String} {line : Option Int} {start : Nat}
    {noDo takes : Bool} {before middle after : List Seen} {Args : List Node → Prop}
    {P : Node → Prop} (hparenthesis : (Seen.next before).isOperator "(" = false)
    (htakes : Leads atCommandArgument before before (· = takes))
    (hargs : Leads (if takes then arguments g none true else pure []) before middle Args)
    (hblock : ∀ c, IsCall receiver method line Args c →
      Leads (withBlock g c start noDo) middle after P) :
    Leads (callOf g (some receiver) method line start true noDo) before after P :=
  (ends_callOf hparenthesis htakes.ends hargs.ends fun c hc => (hblock c hc).ends).leads

/-- A call whose name has been taken, with nothing behind it that could be an argument. -/
theorem leads_callOf_bare {receiver : Node} {method : String} {line : Option Int} {start : Nat}
    {noDo : Bool} {before after : List Seen} {P : Node → Prop}
    (hparenthesis : (Seen.next before).isOperator "(" = false)
    (htakes : Leads atCommandArgument before before (· = false))
    (hblock : ∀ c, IsCall receiver method line (· = []) c →
      Leads (withBlock g c start noDo) before after P) :
    Leads (callOf g (some receiver) method line start true noDo) before after P :=
  leads_callOf hparenthesis htakes (leads_pure [] before) hblock

theorem leads_withBlock_none {c : Call} {start : Nat} {noDo : Bool} {rest : List Seen}
    (hbrace : (Seen.next rest).isOneOf ["\x7b"] = false)
    (hdo : (Seen.next rest).isWordOf ["do"] = false) :
    Leads (withBlock g c start noDo) rest rest (· = .call c) :=
  (ends_withBlock_none hbrace hdo).leads

/-- A call with a block up to an `end`. -/
theorem leads_withBlock_do {c : Call} {start line endLine : Nat} {spaced endSpaced : Bool}
    {inner body after : List Seen} {Q : List String → Prop} {R : List Node → Prop}
    (hparams : Leads (blockParameters g) inner body Q)
    (hbody : Leads (g.statements ["end"] none) body
      (⟨.identifier "end", endLine, endSpaced⟩ :: after) R) :
    Leads (withBlock g c start false) (⟨.identifier "do", line, spaced⟩ :: inner) after
      (IsBlock c Q R) :=
  (ends_withBlock_do hparams.ends hbody.ends).leads

/-- What comes next, behind line breaks, opens no pair of a hash. -/
def opensBody (tokens : List Seen) : Bool :=
  match Seen.next (tokens.dropWhile fun t => t.lexeme == .newline) with
  | .identifier _ | .operator _ => true
  | _ => false

theorem leads_atHash_body {t : Seen} {inner : List Seen} (h : opensBody inner) :
    Leads atHash (t :: inner) (t :: inner) (· = false) := by
  intro s c _ hc
  refine ⟨false, c, ?_, hc, rfl⟩
  have hinner : ((c.tokens.drop 1).dropWhile fun t => t.lexeme == .newline).map Token.seen =
      inner.dropWhile fun t => t.lexeme == .newline := by
    have htail : inner = (c.tokens.map Token.seen).tail := by rw [hc, List.tail_cons]
    rw [htail, ← List.map_tail, ← List.drop_one, List.dropWhile_map]
    rfl
  unfold opensBody at h
  rw [← hinner] at h
  unfold atHash
  cases hbehind : (c.tokens.drop 1).dropWhile fun t => t.lexeme == .newline with
  | nil =>
    rw [hbehind] at h
    cases h
  | cons u rest =>
    rw [hbehind] at h
    have hlexeme : (match u.lexeme with
      | .identifier _ | .operator _ => true
      | _ => false) = true := h
    cases hu : u.lexeme <;> simp_all

/-- A call with a block in braces. -/
theorem leads_withBlock_braces {c : Call} {start line endLine : Nat}
    {noDo spaced endSpaced : Bool} {inner body after : List Seen} {Q : List String → Prop}
    {R : List Node → Prop} (hopens : opensBody inner)
    (hparams : Leads (blockParameters g) inner body Q)
    (hbody : Leads (g.statements [] (some "\x7d")) body
      (⟨.operator "\x7d", endLine, endSpaced⟩ :: after) R) :
    Leads (withBlock g c start noDo) (⟨.operator "\x7b", line, spaced⟩ :: inner) after
      (IsBlock c Q R) := by
  apply Leads.onOperator (by simp [Seen.next, Lexeme.isOneOf])
  apply Leads.onNo (leads_atHash_body hopens)
  apply (leads_advance _ inner).bind
  intro _ _
  apply hparams.bind
  intro params hp
  apply hbody.bind
  intro nodes hn
  apply (leads_expectOperator after (by simp [Lexeme.isOneOf])).bind
  intro _ _
  apply (leads_sourceFrom start after).bind
  intro source _
  apply (leads_pure _ after).mono
  rintro _ rfl
  exact ⟨params, nodes, _, rfl, rfl, hp, hn⟩

/-- A block without parameters: line breaks behind `do` are passed over. -/
theorem leads_blockParameters_none {tokens rest : List Seen}
    (hrest : (tokens.dropWhile fun t => t.lexeme == .newline) = rest)
    (hbars : (Seen.next rest).isOneOf ["||", "|"] = false) :
    Leads (blockParameters g) tokens rest (·.isEmpty) := by
  have hnone : (Seen.next rest).isOneOf ["||"] = false ∧
      (Seen.next rest).isOneOf ["|"] = false := by
    cases hnext : Seen.next rest <;> simp_all [Lexeme.isOneOf]
  have hskip := leads_skipNewlines tokens
  rw [hrest] at hskip
  apply hskip.bind
  intro _ _
  apply Leads.noOperator hnone.1
  apply Leads.noOperator hnone.2
  apply (leads_pure _ rest).mono
  rintro _ rfl
  rfl

/-- The tokens of further parameters of a block, each behind a comma. -/
def parametersSeen (line : Nat) (params : List String) : List Seen :=
  params.flatMap fun p => [⟨.operator ",", line, false⟩, ⟨.identifier p, line, true⟩]

theorem leads_parameterTurn_name {param : String} {line : Nat} {spaced : Bool}
    (params : List String) (rest : List Seen) :
    Leads (blockParameterTurn g params) (⟨.identifier param, line, spaced⟩ :: rest) rest
      fun turn => ∃ next, turn = .again next ∧ next = param :: params := by
  apply Leads.noOperator rfl
  apply (leads_advance _ rest).bind
  intro t ht
  have hlexeme : t.lexeme = .identifier param := ht.1
  simp only [hlexeme]
  exact (leads_pure _ rest).mono fun _ h => ⟨_, h, rfl⟩

theorem leads_parameterTurn_comma {line : Nat} {spaced : Bool} (params : List String)
    (rest : List Seen) :
    Leads (blockParameterTurn g params) (⟨.operator ",", line, spaced⟩ :: rest) rest
      fun turn => ∃ next, turn = .again next ∧ next = params := by
  apply Leads.noOperator (by simp [Seen.next, Lexeme.isOneOf])
  apply (leads_advance _ rest).bind
  intro t ht
  have hlexeme : t.lexeme = .operator "," := ht.1
  simp only [hlexeme]
  exact (leads_pure _ rest).mono fun _ h => ⟨_, h, rfl⟩

/-- Further parameters of a block, up to the closing bar. -/
theorem leads_parameters_rest {line endLine : Nat} {endSpaced : Bool} (params others : List String)
    (rest : List Seen) :
    Leads (repeated (blockParameterTurn g) params)
      (parametersSeen line others ++ ⟨.operator "|", endLine, endSpaced⟩ :: rest) rest
      (· = others.reverse ++ params) := by
  induction others generalizing params with
  | nil =>
    apply Leads.finish
    apply Leads.onOperator (by simp [parametersSeen, Seen.next, Lexeme.isOneOf])
    apply (leads_advance _ rest).bind
    intro _ _
    exact (leads_pure _ rest).mono fun _ h => ⟨_, h, rfl⟩
  | cons param others ih =>
    have hseen : parametersSeen line (param :: others) =
        ⟨.operator ",", line, false⟩ :: ⟨.identifier param, line, true⟩ ::
          parametersSeen line others := by simp [parametersSeen]
    rw [hseen, List.cons_append, List.cons_append]
    apply Leads.again (leads_parameterTurn_comma params _) (Nat.lt_succ_self _)
    rintro _ rfl
    apply Leads.again (leads_parameterTurn_name _ _) (Nat.lt_succ_self _)
    rintro _ rfl
    apply (ih _).mono
    rintro _ rfl
    simp

theorem leads_blockParameters_some {param : String} {line₁ line₂ endLine : Nat}
    {spaced₁ spaced₂ endSpaced : Bool} (line : Nat) (others : List String) (rest : List Seen) :
    Leads (blockParameters g)
      (⟨.operator "|", line₁, spaced₁⟩ :: ⟨.identifier param, line₂, spaced₂⟩ ::
        (parametersSeen line others ++ ⟨.operator "|", endLine, endSpaced⟩ :: rest)) rest
      (· = param :: others) := by
  apply (leads_skipNewlines _).bind
  intro _ _
  apply Leads.noOperator (by simp [Seen.next, Lexeme.isOneOf])
  apply Leads.onOperator (by simp [Seen.next, Lexeme.isOneOf])
  apply (leads_advance _ _).bind
  intro _ _
  have hparams : Leads (repeated (blockParameterTurn g) [])
      (⟨.identifier param, line₂, spaced₂⟩ ::
        (parametersSeen line others ++ ⟨.operator "|", endLine, endSpaced⟩ :: rest)) rest
      (· = others.reverse ++ [param]) := by
    apply Leads.again (leads_parameterTurn_name [] _) (Nat.lt_succ_self _)
    rintro _ rfl
    exact leads_parameters_rest [param] others rest
  apply hparams.bind
  rintro _ rfl
  apply (leads_pure _ rest).mono
  rintro _ rfl
  simp

theorem dropWhile_newline_of_next {tokens : List Seen} (h : Seen.next tokens ≠ .newline) :
    (tokens.dropWhile fun t => t.lexeme == .newline) = tokens := by
  cases tokens with
  | nil => rfl
  | cons t rest =>
    apply List.dropWhile_cons_of_neg
    simpa [Seen.next] using h

/-- A statement that is a call on a name. -/
theorem leads_call_statement {name method : String} {line line₁ line₂ : Nat}
    {spaced spaced₂ : Bool} {rest after : List Seen} {P : Node → Prop}
    (hname : keywords.contains name = false)
    (hcall : ∀ start, Leads
      (callOf g (some (nameAt line name)) method (some line) start true false) rest after P)
    (hless : after.length ≤ rest.length) (hafter : Seen.quiet after) :
    Leads (statement g)
      (⟨.identifier name, line, spaced⟩ :: ⟨.operator ".", line₁, false⟩ ::
        ⟨.identifier method, line₂, spaced₂⟩ :: rest) after P :=
  (ends_call_statement hname (fun start => (hcall start).ends) hless hafter).leads

/-- A statement that opens with a keyword. -/
theorem leads_keyword_statement {word : String} {rule : Read Node} {line : Nat} {spaced : Bool}
    {inner after : List Seen} {P : Node → Prop}
    (hrule : ∀ t, wordOperand g t word true false = rule) (hword : word ∉ ["defined?", "not"])
    (h : Leads rule (⟨.identifier word, line, spaced⟩ :: inner) after P)
    (hafter : Seen.quiet after) :
    Leads (statement g) (⟨.identifier word, line, spaced⟩ :: inner) after P := by
  have hopens : opensOperand (⟨.identifier word, line, spaced⟩ :: inner) := by
    simpa [opensOperand, Seen.next, Lexeme.isOneOf, Lexeme.isWordOf] using hword
  apply Leads.statement _ hopens hafter
  apply leads_unary_operand g true false hopens _ (Seen.settled_of_quiet hafter)
  apply (leads_current _).bind
  intro t ht
  have hlexeme : t.lexeme = .identifier word := ht.1
  simp only [hlexeme, hrule]
  exact h

end Read
end ViewSchema.Template
