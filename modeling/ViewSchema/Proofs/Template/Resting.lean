import ViewSchema.Proofs.Template.Ends
import ViewSchema.Template.Grammar

/-!
How the rules of the grammar end on plainly written operands and calls, in front of tokens that do
not go on with an operand. Each rule is lifted from the rules under it. In front of a bar an
expression goes on, and fails where the line ends.
-/

namespace ViewSchema.Template

def Seen.joiningWords : List String :=
  ["and", "or", "if", "unless", "while", "until", "rescue"]

/-- What comes next neither is an operator nor goes on with a statement. -/
def Seen.quiet (tokens : List Seen) : Bool :=
  match Seen.next tokens with
  | .operator _ => false
  | .identifier word => !Seen.joiningWords.contains word
  | _ => true

def Seen.junctionWords : List String := ["and", "or"]

/-- Operators that end an expression. -/
def Seen.closingOperators : List String := [";", ")", "\x7d"]

/-- What comes next does not go on with an expression, though it may go on with a statement. -/
def Seen.settled (tokens : List Seen) : Bool :=
  match Seen.next tokens with
  | .operator op => Seen.closingOperators.contains op
  | .identifier word => !Seen.junctionWords.contains word
  | _ => true

namespace Seen

theorem isOneOf_of_quiet {tokens : List Seen} (h : quiet tokens) (ops : List String) :
    (next tokens).isOneOf ops = false := by
  unfold quiet at h
  cases hnext : next tokens <;> simp_all [Lexeme.isOneOf]

theorem isWordOf_of_quiet {tokens : List Seen} (h : quiet tokens) {words : List String}
    (hwords : words ⊆ joiningWords) : (next tokens).isWordOf words = false := by
  unfold quiet at h
  cases hnext : next tokens with
  | identifier word =>
    rw [hnext] at h
    have hword : word ∉ words := by
      intro hmem
      have hjoins := hwords hmem
      simp_all
    simpa [Lexeme.isWordOf] using hword
  | _ => rfl

theorem settled_of_quiet {tokens : List Seen} (h : quiet tokens) : settled tokens := by
  unfold quiet at h
  unfold settled
  cases hnext : next tokens <;> simp_all [joiningWords, junctionWords]

theorem isOneOf_of_settled {tokens : List Seen} (h : settled tokens) {ops : List String}
    (hops : ∀ op ∈ closingOperators, op ∉ ops) : (next tokens).isOneOf ops = false := by
  unfold settled at h
  cases hnext : next tokens with
  | operator op =>
    rw [hnext] at h
    have hop := hops op (List.contains_iff_mem.mp h)
    simpa [Lexeme.isOneOf] using hop
  | _ => rfl

theorem isWordOf_of_settled {tokens : List Seen} (h : settled tokens) :
    (next tokens).isWordOf ["and", "or"] = false := by
  unfold settled at h
  cases hnext : next tokens with
  | identifier word =>
    rw [hnext] at h
    simpa [Lexeme.isWordOf, junctionWords] using h
  | _ => rfl

theorem quiet_do (line : Nat) (spaced : Bool) (rest : List Seen) :
    quiet (⟨.identifier "do", line, spaced⟩ :: rest) = true := by
  simp [quiet, next, joiningWords]

/-- Operators that link a call, a constant or an index to an operand. -/
def linkingOperators : List String := [".", "&.", "::", "["]

/-- What comes next links nothing to an operand, though it may join another operand to it. -/
def endsChain (tokens : List Seen) : Bool := !(next tokens).isOneOf linkingOperators

/-- What comes next does not go on with an operand at all. -/
def rests (tokens : List Seen) : Bool :=
  !(next tokens).isOneOf ("?" :: binaryOperators ++ linkingOperators)

theorem isOneOf_of_subset {l : Lexeme} {ops others : List String} (h : l.isOneOf others = false)
    (hops : ops ⊆ others) : l.isOneOf ops = false := by
  cases l with
  | operator op =>
    have hop : op ∉ others := by simpa [Lexeme.isOneOf] using h
    simpa [Lexeme.isOneOf] using mt (@hops op) hop
  | _ => rfl

theorem isOneOf_of_rests {tokens : List Seen} (h : rests tokens) {ops : List String}
    (hops : ops ⊆ "?" :: binaryOperators ++ linkingOperators) :
    (next tokens).isOneOf ops = false :=
  isOneOf_of_subset (by simpa [rests] using h) hops

theorem isOneOf_of_endsChain {tokens : List Seen} (h : endsChain tokens) :
    (next tokens).isOneOf linkingOperators = false := by
  simpa [endsChain] using h

theorem isOperator_of_endsChain {tokens : List Seen} (h : endsChain tokens) {op : String}
    (hop : op ∈ linkingOperators) : (next tokens).isOperator op = false := by
  have hone := isOneOf_of_subset (isOneOf_of_endsChain h)
    (List.cons_subset.mpr ⟨hop, List.nil_subset _⟩)
  cases hnext : next tokens <;> simp_all [Lexeme.isOneOf, Lexeme.isOperator]

theorem endsChain_of_rests {tokens : List Seen} (h : rests tokens) : endsChain tokens := by
  rw [endsChain, isOneOf_of_rests h (by decide)]
  rfl

theorem rests_of_settled {tokens : List Seen} (h : settled tokens) : rests tokens := by
  rw [rests, isOneOf_of_settled h (by decide)]
  rfl

theorem rests_of_quiet {tokens : List Seen} (h : quiet tokens) : rests tokens :=
  rests_of_settled (settled_of_quiet h)

end Seen

theorem keywords_json : keywords.contains "json" = false := by decide

theorem ne_of_keywords {word keyword : String} (hword : keywords.contains word = false)
    (hkeyword : keywords.contains keyword = true) : word ≠ keyword := by
  rintro rfl
  rw [hword] at hkeyword
  cases hkeyword

namespace Read

/-- A name or a variable as it stands on a line. -/
def nameAt (line : Nat) (name : String) : Node :=
  .name name { line := some (line : Int), source := name }

/-- Signs and words that stand before an operand. -/
def opensOperand (tokens : List Seen) : Bool :=
  !(Seen.next tokens).isOneOf ["!", "-", "+", "~", "*", "**", "&", "::"] &&
    !(Seen.next tokens).isWordOf ["defined?", "not"]

theorem isWordOf_of_opensOperand {tokens : List Seen} (h : opensOperand tokens) {word : String}
    (hword : word ∈ ["defined?", "not"]) : (Seen.next tokens).isWordOf [word] = false := by
  unfold opensOperand at h
  cases hnext : Seen.next tokens with
  | identifier other =>
    rw [hnext] at h
    simp only [Lexeme.isOneOf, Lexeme.isWordOf, Bool.not_false, Bool.true_and] at h
    have hne : other ≠ word := by
      rintro rfl
      simp_all
    simpa [Lexeme.isWordOf] using hne
  | _ => rfl

theorem opensOperand_name {word : String} (hword : keywords.contains word = false) (line : Nat)
    (spaced : Bool) (rest : List Seen) :
    opensOperand (⟨.identifier word, line, spaced⟩ :: rest) = true := by
  have hdefined : word ≠ "defined?" := ne_of_keywords hword (by decide)
  have hnot : word ≠ "not" := ne_of_keywords hword (by decide)
  simp [opensOperand, Seen.next, Lexeme.isOneOf, Lexeme.isWordOf, hdefined, hnot]

theorem breaks_of_next {tokens : List Seen} (hnewline : Seen.next tokens ≠ .newline)
    (hsemicolon : Seen.next tokens ≠ .operator ";") : breaks tokens = tokens := by
  cases tokens with
  | nil => rfl
  | cons t rest =>
    apply List.dropWhile_cons_of_neg
    simpa [Seen.next] using ⟨hnewline, hsemicolon⟩

theorem breaks_word (word : String) (line : Nat) (spaced : Bool) (rest : List Seen) :
    breaks (⟨.identifier word, line, spaced⟩ :: rest) =
      ⟨.identifier word, line, spaced⟩ :: rest :=
  breaks_of_next (by simp [Seen.next]) (by simp [Seen.next])

/-- A call of a method on a receiver with arguments of a kind. -/
structure IsCall (receiver : Node) (method : String) (line : Option Int)
    (Args : List Node → Prop) (c : Call) : Prop where
  receiver : c.receiver = some receiver
  method : c.method = some method
  args : ∃ args, c.args = .list args ∧ Args args
  line : c.extent.line = line

theorem IsCall.mono {receiver : Node} {method : String} {line : Option Int}
    {Args Others : List Node → Prop} {c : Call} (h : IsCall receiver method line Args c)
    (hargs : ∀ args, Args args → Others args) : IsCall receiver method line Others c := by
  obtain ⟨args, hc, hlisted⟩ := h.args
  exact ⟨h.receiver, h.method, ⟨args, hc, hargs args hlisted⟩, h.line⟩

/-- A call with a block, by the parameters and the body of the block. -/
def IsBlock (c : Call) (Params : List String → Prop) (Body : List Node → Prop) (n : Node) : Prop :=
  ∃ params nodes extent, n = .block (.call c) params nodes extent ∧
    extent.line = c.extent.line ∧ Params params ∧ Body nodes

variable {T : Token → Prop} {F : Faults} (g : Grammar)

theorem wordOperand_name (t : Token) {word : String} (command noDo : Bool)
    (hword : keywords.contains word = false) :
    wordOperand g t word command noDo = (do
      let _ ← advance
      if (← atAttached "(") || (command && (← atCommandArgument)) then
        callOf g none word (some t.line) t.start command noDo
      else if (← atOperator ["\x7b"]) || ((← atWord ["do"]) && !noDo) then
        callOf g none word (some t.line) t.start command noDo
      else return nameOf t) := by
  simp [keywords] at hword
  simp [wordOperand, keywords, hword]


/-- A chain ends where nothing is linked to it. -/
theorem ends_chain_end (start : Nat) (command noDo : Bool) (node : Node) {rest : List Seen}
    (hrest : Seen.endsChain rest) :
    Ends T F (repeated (chainTurn g start command noDo) node) rest rest (· = node) := by
  apply Ends.finish
  unfold chainTurn
  apply Ends.noOperator (Seen.isOneOf_of_subset (Seen.isOneOf_of_endsChain hrest) (by decide))
  apply Ends.noAttached (Seen.isOperator_of_endsChain hrest (by decide))
  apply Ends.noAttached (Seen.isOperator_of_endsChain hrest (by decide))
  exact (ends_pure _ rest).mono fun _ h => ⟨node, h, rfl⟩

/-! ### Operands -/

/-- A literal on a line, made from a token of which something is known. -/
def IsLiteral (T : Token → Prop) (kind : LiteralKind) (v : Value) (line : Nat) (n : Node) : Prop :=
  ∃ t source, T t ∧ n = .literal kind v t.dynamic { line := some (line : Int), source }

theorem ends_literalToken {t : Token} {tok : Seen} {rest : List Seen} (kind : LiteralKind)
    (ht : Opens T (tok :: rest) t) :
    Ends T F (literalToken t kind) (tok :: rest) rest
      (IsLiteral T kind tok.lexeme.value tok.line) := by
  apply (ends_advance _ rest).bind
  intro _ _
  apply (ends_extentFrom t rest).bind_pure.mono
  rintro _ ⟨_, ⟨source, rfl⟩, rfl⟩
  have hlexeme : t.lexeme = tok.lexeme := ht.1.1
  have hline : t.line = tok.line := ht.1.2.2 tok rfl
  exact ⟨t, source, ht.2 (by simp), by rw [hlexeme, hline]⟩

theorem ends_operand_integer (command noDo : Bool) (n line : Nat) (spaced : Bool)
    (rest : List Seen) :
    Ends T F (operand g command noDo) (⟨.integer n, line, spaced⟩ :: rest) rest
      (IsLiteral T .integer (.int n) line) := by
  apply (ends_current _).bind
  intro t ht
  have hlexeme : t.lexeme = .integer n := ht.1.1
  simp only [hlexeme]
  exact ends_literalToken .integer ht

theorem ends_operand_symbol (command noDo : Bool) (name : String) (line : Nat) (spaced : Bool)
    (rest : List Seen) :
    Ends T F (operand g command noDo) (⟨.symbol name, line, spaced⟩ :: rest) rest
      (IsLiteral T .symbol (.text name) line) := by
  apply (ends_current _).bind
  intro t ht
  have hlexeme : t.lexeme = .symbol name := ht.1.1
  simp only [hlexeme]
  exact ends_literalToken .symbol ht

/-- A text by itself: no other text follows it. -/
theorem ends_operand_text (command noDo : Bool) (said : String) (line : Nat) (spaced : Bool)
    {rest : List Seen} (hrest : ∀ more, Seen.next rest ≠ .text more) :
    Ends T F (operand g command noDo) (⟨.text said, line, spaced⟩ :: rest) rest
      (IsLiteral T .text (.text said) line) := by
  apply (ends_current _).bind
  intro t ht
  have hlexeme : t.lexeme = .text said := ht.1.1
  have hline : t.line = line := ht.1.2.2 _ rfl
  simp only [hlexeme]
  apply (ends_advance _ rest).bind
  intro _ _
  have halone : Ends T F (repeated textTurn (said, t.dynamic)) rest rest
      (· = (said, t.dynamic)) := by
    apply Ends.finish
    apply (ends_current rest).bind
    intro u hu
    have hother : ∀ more, u.lexeme ≠ .text more := fun more h => hrest more (hu.1.1 ▸ h)
    cases hu : u.lexeme with
    | text more => exact absurd hu (hother more)
    | _ => exact (ends_pure _ rest).mono fun _ h => ⟨_, h, rfl⟩
  apply halone.bind
  rintro _ rfl
  apply (ends_extentFrom t rest).bind_pure.mono
  rintro _ ⟨_, ⟨source, rfl⟩, rfl⟩
  exact ⟨t, source, ht.2 (by simp), by rw [hline]⟩

theorem ends_operand_instanceVariable (command noDo : Bool) (name : String) (line : Nat)
    (spaced : Bool) (rest : List Seen) :
    Ends T F (operand g command noDo) (⟨.instanceVariable name, line, spaced⟩ :: rest) rest
      (· = nameAt line name) := by
  apply (ends_current _).bind
  intro t ht
  have hlexeme : t.lexeme = .instanceVariable name := ht.1.1
  have hline : t.line = line := ht.1.2.2 _ rfl
  simp only [hlexeme]
  apply (ends_advance _ rest).bind
  intro _ _
  apply (ends_pure _ rest).mono
  rintro _ rfl
  rw [nameOf, hlexeme, hline]
  rfl

theorem ends_peek (offset : Nat) (tokens : List Seen) :
    Ends T F (peek offset) tokens tokens fun t => t.seen.lexeme = Seen.next (tokens.drop offset) ∧
      t.spaced = Seen.nextSpaced (tokens.drop offset) := by
  intro s c hc
  have hdrop : Stands T (tokens.drop offset) s { c with tokens := c.tokens.drop offset } :=
    ⟨hc.eof, by rw [← hc.seen, List.map_drop], fun t ht => hc.known t (List.mem_of_mem_drop ht)⟩
  obtain ⟨⟨hlexeme, hspaced, -⟩, -⟩ := opens_headD hdrop
  exact .inl ⟨_, c, rfl, hc, hlexeme, hspaced⟩

/-- Whether an argument comes next is asked of any tokens. -/
theorem ends_atCommandArgument (tokens : List Seen) :
    Ends T F atCommandArgument tokens tokens fun _ => True := by
  have hanswer : ∀ b : Bool, Ends T F (pure b) tokens tokens fun _ => True := fun b =>
    (ends_pure b tokens).mono fun _ _ => trivial
  apply (ends_current tokens).bind
  intro t _
  split
  · exact hanswer false
  · cases t.lexeme with
    | operator op =>
      dsimp only
      split
      · exact hanswer true
      split
      · exact (ends_peek 1 tokens).bind fun u _ => hanswer _
      · exact hanswer false
    | _ => exact hanswer _

/-- Nothing that is glued to the token before is an argument without parentheses. -/
theorem ends_atCommandArgument_attached {tokens : List Seen}
    (h : Seen.nextSpaced tokens = false) :
    Ends T F atCommandArgument tokens tokens (· = false) := by
  apply (ends_current tokens).bind
  intro t ht
  have hspaced : t.spaced = false := ht.1.2.1.trans h
  simp only [hspaced]
  exact ends_pure false tokens

/-- A name in front of something that is neither its argument nor its block. -/
theorem ends_operand_name (command noDo : Bool) {word : String} (line : Nat) (spaced : Bool)
    {rest : List Seen} (hword : keywords.contains word = false)
    (hopens : (Seen.next rest).isOneOf ["(", "\x7b"] = false)
    (hblock : (Seen.next rest).isWordOf ["do"] = false)
    (hcommand : Ends T F atCommandArgument rest rest fun answer => (command && answer) = false) :
    Ends T F (operand g command noDo) (⟨.identifier word, line, spaced⟩ :: rest) rest
      (· = nameAt line word) := by
  apply (ends_current _).bind
  intro t ht
  have hlexeme : t.lexeme = .identifier word := ht.1.1
  have hline : t.line = line := ht.1.2.2 _ rfl
  simp only [hlexeme, wordOperand_name g t command noDo hword]
  have hparenthesis : (Seen.next rest).isOperator "(" = false := by
    cases hnext : Seen.next rest <;> simp_all [Lexeme.isOperator, Lexeme.isOneOf]
  have hbrace : (Seen.next rest).isOneOf ["\x7b"] = false := by
    cases hnext : Seen.next rest <;> simp_all [Lexeme.isOneOf]
  apply (ends_advance _ rest).bind
  intro _ _
  apply (ends_atAttached "(" rest).bind
  rintro _ rfl
  apply hcommand.bind
  intro answer hanswer
  rw [hparenthesis, Bool.false_and, Bool.false_or, hanswer, if_neg Bool.false_ne_true]
  apply (ends_atOperator ["\x7b"] rest).bind
  rintro _ rfl
  apply (ends_atWord ["do"] rest).bind
  rintro _ rfl
  rw [hbrace, hblock, Bool.false_and, Bool.or_false, if_neg Bool.false_ne_true]
  apply (ends_pure _ rest).mono
  rintro _ rfl
  rw [nameOf, hlexeme, hline]
  rfl

section Operand

variable {g} {command noDo : Bool} {before after : List Seen} {P : Node → Prop}

/-! ### Operands as expressions -/

theorem Ends.unary_chain {middle : List Seen} {Q : Node → Prop} (hopens : opensOperand before)
    (hoperand : Ends T F (operand g command noDo) before middle Q)
    (hchain : ∀ node start, Q node →
      Ends T F (repeated (chainTurn g start command noDo) node) middle after P) :
    Ends T F (unary g command noDo) before after P := by
  have hsign : (Seen.next before).isOneOf ["!", "-", "+", "~", "*", "**", "&", "::"] = false := by
    simp only [opensOperand, Bool.and_eq_true, Bool.not_eq_true'] at hopens
    exact hopens.1
  apply (ends_current before).bind
  intro t _
  apply Ends.noOperator hsign
  apply Ends.noWord (isWordOf_of_opensOperand hopens (by decide))
  apply hoperand.bind
  intro node hnode
  exact hchain node t.start hnode

theorem Ends.unary (hopens : opensOperand before)
    (hoperand : Ends T F (operand g command noDo) before after P) (hafter : Seen.endsChain after) :
    Ends T F (unary g command noDo) before after P :=
  .unary_chain hopens hoperand fun node start hnode =>
    (ends_chain_end g start command noDo node hafter).mono fun _ h => h ▸ hnode

/-- A sign in front of an operand. -/
theorem Ends.unary_sign {op : String} (line : Nat) (spaced : Bool)
    (hop : ["!", "-", "+", "~", "*", "**", "&", "::"].contains op)
    (hinner : Ends T F (g.unary command noDo) before after P) :
    Ends T F (Read.unary g command noDo) (⟨.operator op, line, spaced⟩ :: before) after
      fun n => ∃ inner source, P inner ∧
        n = .expression [inner] { line := some (line : Int), source } := by
  have hsign : (Seen.next (⟨.operator op, line, spaced⟩ :: before)).isOneOf
      ["!", "-", "+", "~", "*", "**", "&", "::"] = true := hop
  apply (ends_current _).bind
  intro t ht
  have hline : t.line = line := ht.1.2.2 _ rfl
  apply Ends.onOperator hsign
  apply (ends_advance _ before).bind
  intro _ _
  apply hinner.bind
  intro inner hinner
  apply (ends_extentFrom t after).bind_pure.mono
  rintro _ ⟨_, ⟨source, rfl⟩, rfl⟩
  exact ⟨inner, source, hinner, by rw [hline]⟩

theorem Ends.binary (h : Ends T F (Read.unary g command noDo) before after P)
    (hafter : Seen.rests after) : Ends T F (binary g command noDo) before after P := by
  apply (ends_current before).bind
  intro t _
  apply h.bind
  intro node hnode
  apply Ends.finish
  apply Ends.noOperator (Seen.isOneOf_of_rests hafter (by decide))
  exact (ends_pure _ after).mono fun _ hturn => ⟨node, hturn, hnode⟩

theorem Ends.ternary (h : Ends T F (Read.unary g command noDo) before after P)
    (hafter : Seen.rests after) : Ends T F (ternary g command noDo) before after P := by
  apply (ends_current before).bind
  intro t _
  apply (h.binary hafter).bind
  intro node hnode
  apply Ends.noOperator (Seen.isOneOf_of_rests hafter (by decide))
  exact (ends_pure node after).mono fun _ hsame => hsame ▸ hnode

theorem ends_atOperandEnd (tokens : List Seen) :
    Ends T F atOperandEnd tokens tokens fun _ => True := by
  apply (ends_current tokens).bind
  intro t _
  cases t.lexeme <;> exact (ends_pure _ tokens).mono fun _ _ => trivial

/-- Behind a bar another operand is asked for, and the end of the line is none. -/
theorem Ends.ternary_bar {line endLine : Nat} {spaced endSpaced : Bool} {rest : List Seen}
    {Q : Node → Prop}
    (h : Ends T F (Read.unary g command noDo) before (⟨.operator "|", line, spaced⟩ ::
      ⟨.newline, endLine, endSpaced⟩ :: rest) P)
    (hF : F .strayToken .newline endLine) :
    Ends T F (Read.ternary g command noDo) before after Q := by
  have hoperand : Ends T F (operand g false noDo) (⟨.newline, endLine, endSpaced⟩ :: rest) after
      fun _ => False := by
    apply (ends_current _).bind
    intro t ht
    have hlexeme : t.lexeme = .newline := ht.1.1
    simp only [hlexeme]
    exact ends_fail hF rest after _
  have hunary : Ends T F (Read.unary g false noDo) (⟨.newline, endLine, endSpaced⟩ :: rest) after
      fun _ => False := .unary_chain rfl hoperand fun _ _ hfalse => hfalse.elim
  have hbinary : Ends T F (Read.binary g command noDo) before after fun _ => False := by
    apply (ends_current before).bind
    intro t _
    apply h.bind
    intro node _
    apply Ends.finish
    apply Ends.onOperator (by simp [Seen.next, Lexeme.isOneOf, binaryOperators])
    apply (ends_advance _ _).bind
    intro op hop
    have hlexeme : op.lexeme = .operator "|" := hop.1.1
    apply (ends_atOperandEnd _).bind
    intro _ _
    simp only [hlexeme, Lexeme.isOneOf]
    exact hunary.bind fun _ hfalse => hfalse.elim
  apply (ends_current before).bind
  intro t _
  exact hbinary.bind fun _ hfalse => hfalse.elim

theorem Ends.expression (h : Ends T F (Read.unary g command noDo) before after P)
    (hopens : opensOperand before) (hafter : Seen.settled after) :
    Ends T F (expression g command noDo) before after P := by
  have hassignment : Ends T F (assignment g command noDo) before after P := by
    apply (ends_current before).bind
    intro t _
    apply (h.ternary (Seen.rests_of_settled hafter)).bind
    intro node hnode
    apply Ends.noOperator (Seen.isOneOf_of_settled hafter (by decide))
    exact (ends_pure node after).mono fun _ hsame => hsame ▸ hnode
  apply (ends_current before).bind
  intro t _
  apply Ends.noWord (isWordOf_of_opensOperand hopens (by decide))
  apply hassignment.bind
  intro node hnode
  apply Ends.finish
  apply Ends.noWord (Seen.isWordOf_of_settled hafter)
  exact (ends_pure _ after).mono fun _ hturn => ⟨node, hturn, hnode⟩

theorem Ends.statement (h : Ends T F (Read.unary g true false) before after P)
    (hopens : opensOperand before) (hafter : Seen.quiet after) :
    Ends T F (statement g) before after P := by
  apply (ends_current before).bind
  intro t _
  apply (h.expression hopens (Seen.settled_of_quiet hafter)).bind
  intro node hnode
  apply Ends.noOperator (Seen.isOneOf_of_quiet hafter _)
  apply (ends_pure node after).bind
  rintro _ rfl
  apply Ends.finish
  apply Ends.noWord (Seen.isWordOf_of_quiet hafter (by decide))
  exact (ends_pure _ after).mono fun _ hturn => ⟨_, hturn, hnode⟩

end Operand

/-! ### Calls on the builder -/

section Call

variable {g} {after : List Seen} {P : Node → Prop}

/-- A call of a method on a node, whose name comes next behind a dot. -/
theorem ends_chain_call {node : Node} {method : String} {start line₁ line₂ : Nat}
    {command noDo spaced₁ spaced₂ : Bool} {rest : List Seen}
    (hcall : Ends T F (callOf g (some node) method node.line? start command noDo) rest after P)
    (hless : after.length ≤ rest.length) (hafter : Seen.endsChain after) :
    Ends T F (repeated (chainTurn g start command noDo) node)
      (⟨.operator ".", line₁, spaced₁⟩ :: ⟨.identifier method, line₂, spaced₂⟩ :: rest)
      after P := by
  have hturn : Ends T F (chainTurn g start command noDo node)
      (⟨.operator ".", line₁, spaced₁⟩ :: ⟨.identifier method, line₂, spaced₂⟩ :: rest) after
      fun turn => ∃ next, turn = .again next ∧ P next := by
    apply Ends.onOperator (by simp [Seen.next, Lexeme.isOneOf])
    apply (ends_advance _ _).bind
    intro _ _
    apply (ends_skipBreaks_none (breaks_word method line₂ spaced₂ rest)).bind
    intro _ _
    apply Ends.noOperator rfl
    apply (ends_advance _ rest).bind
    intro t ht
    have hlexeme : t.lexeme = .identifier method := ht.1.1
    simp only [hlexeme]
    apply hcall.bind
    intro next hnext
    exact (ends_pure _ after).mono fun _ h => ⟨next, h, hnext⟩
  apply Ends.again hturn
  · simp only [List.length_cons]
    omega
  · intro next hnext
    exact (ends_chain_end g start command noDo next hafter).mono fun _ h => h ▸ hnext

section CallOf

variable {receiver : Node} {method : String} {line : Option Int} {start : Nat} {noDo : Bool}
  {before middle : List Seen} {Args : List Node → Prop}

/-- What is read behind the arguments of a call, with the call as it is read up to there. -/
theorem ends_callOf_block
    (hblock : ∀ c, IsCall receiver method line Args c →
      Ends T F (withBlock g c start noDo) middle after P) {args : List Node} (hargs : Args args) :
    Ends T F (do
      let source ← sourceFrom start
      withBlock g
        { receiver := some receiver, method := some method, args := .list args
          extent := { line, source } } start noDo) middle after P :=
  (ends_sourceFrom start middle).bind fun _ _ => hblock _ ⟨rfl, rfl, ⟨args, rfl, hargs⟩, rfl⟩

/-- A call with arguments that stand without parentheses, or with no arguments. -/
theorem ends_callOf {takes : Bool} (hparenthesis : (Seen.next before).isOperator "(" = false)
    (htakes : Ends T F atCommandArgument before before (· = takes))
    (hargs : Ends T F (if takes then arguments g none true else pure []) before middle Args)
    (hblock : ∀ c, IsCall receiver method line Args c →
      Ends T F (withBlock g c start noDo) middle after P) :
    Ends T F (callOf g (some receiver) method line start true noDo) before after P := by
  apply (ends_atAttached "(" before).bind
  rintro _ rfl
  apply htakes.bind
  intro answer hanswer
  rw [hparenthesis, Bool.false_and, if_neg Bool.false_ne_true, hanswer, Bool.true_and]
  cases takes <;> exact hargs.bind fun _ h => ends_callOf_block hblock h

/-- A call with arguments in parentheses. -/
theorem ends_callOf_parenthesis {command : Bool} {place : Nat}
    (hargs : Ends T F (arguments g (some ")") false) before middle Args)
    (hblock : ∀ c, IsCall receiver method line Args c →
      Ends T F (withBlock g c start noDo) middle after P) :
    Ends T F (callOf g (some receiver) method line start command noDo)
      (⟨.operator "(", place, false⟩ :: before) after P := by
  apply (ends_atAttached "(" _).bind
  rintro _ rfl
  apply (ends_atCommandArgument _).bind
  intro _ _
  have hopens : ((Seen.next (⟨.operator "(", place, false⟩ :: before)).isOperator "(" &&
      !Seen.nextSpaced (⟨.operator "(", place, false⟩ :: before)) = true := by
    simp [Seen.next, Seen.nextSpaced, Lexeme.isOperator]
  rw [hopens, if_pos rfl]
  apply (ends_advance _ before).bind
  intro _ _
  exact hargs.bind fun _ h => ends_callOf_block hblock h

end CallOf

/-- What may be an argument is one where no arrow comes next. -/
theorem ends_listed_argument (closing : Option String) {noDo : Bool} (a : ArgumentList)
    {before : List Seen} (hlabel : (Seen.next before).isLabel = false)
    (hspread : (Seen.next before).isOperator "**" = false)
    (hargument : Ends T F (argument g noDo) before after P)
    (hafter : (Seen.next after).isOneOf ["=>"] = false) :
    Ends T F (listed g closing noDo a) before after fun b => ∃ n, b = a.add n ∧ P n := by
  apply (ends_current _).bind
  intro t ht
  rw [ht.1.1, hlabel, hspread, if_neg Bool.false_ne_true, if_neg Bool.false_ne_true]
  apply hargument.bind
  intro n hn
  apply Ends.noOperator hafter
  exact (ends_pure _ after).mono fun _ h => ⟨n, h, hn⟩

/-- Where neither a brace nor a block comes next a call is complete. -/
theorem ends_withBlock_none {c : Call} {start : Nat} {noDo : Bool} {rest : List Seen}
    (hbrace : (Seen.next rest).isOneOf ["\x7b"] = false)
    (hdo : (Seen.next rest).isWordOf ["do"] = false) :
    Ends T F (withBlock g c start noDo) rest rest (· = .call c) := by
  apply Ends.noOperator hbrace
  apply (ends_atWord ["do"] rest).bind
  rintro _ rfl
  rw [hdo, Bool.false_and, if_neg Bool.false_ne_true]
  exact ends_pure _ rest

/-- A call with a block up to an `end`, unless its parameters or its body are refused. -/
theorem ends_withBlock_do {c : Call} {start line endLine : Nat} {spaced endSpaced : Bool}
    {inner body : List Seen} {Q : List String → Prop} {R : List Node → Prop}
    (hparams : Ends T F (blockParameters g) inner body Q)
    (hbody : Ends T F (g.statements ["end"] none) body
      (⟨.identifier "end", endLine, endSpaced⟩ :: after) R) :
    Ends T F (withBlock g c start false) (⟨.identifier "do", line, spaced⟩ :: inner) after
      (IsBlock c Q R) := by
  apply Ends.noOperator rfl
  apply (ends_atWord ["do"] _).bind
  rintro _ rfl
  have hdo : (Seen.next (⟨.identifier "do", line, spaced⟩ :: inner)).isWordOf ["do"] = true := by
    simp [Seen.next, Lexeme.isWordOf]
  rw [hdo, Bool.not_false, Bool.and_self, if_pos rfl]
  apply (ends_advance _ inner).bind
  intro _ _
  apply hparams.bind
  intro params hp
  apply hbody.bind
  intro nodes hn
  apply (ends_expectWord after (by simp [Lexeme.isWordOf])).bind
  intro _ _
  apply (ends_sourceFrom start after).bind
  intro source _
  apply (ends_pure _ after).mono
  rintro _ rfl
  exact ⟨params, nodes, _, rfl, rfl, hp, hn⟩

/-- A statement that is a call on a name. -/
theorem ends_call_statement {name method : String} {line line₁ line₂ : Nat}
    {spaced spaced₂ : Bool} {rest : List Seen} (hname : keywords.contains name = false)
    (hcall : ∀ start, Ends T F
      (callOf g (some (nameAt line name)) method (some (line : Int)) start true false) rest
      after P)
    (hless : after.length ≤ rest.length) (hafter : Seen.quiet after) :
    Ends T F (statement g)
      (⟨.identifier name, line, spaced⟩ :: ⟨.operator ".", line₁, false⟩ ::
        ⟨.identifier method, line₂, spaced₂⟩ :: rest) after P := by
  have hopens := opensOperand_name hname line spaced (⟨.operator ".", line₁, false⟩ ::
    ⟨.identifier method, line₂, spaced₂⟩ :: rest)
  apply Ends.statement _ hopens hafter
  apply Ends.unary_chain hopens (ends_operand_name g true false line spaced hname rfl rfl
    ((ends_atCommandArgument_attached rfl).mono fun _ hno => hno ▸ rfl))
  rintro _ start rfl
  exact ends_chain_call (hcall start) hless (Seen.endsChain_of_rests (Seen.rests_of_quiet hafter))

/-- A text of one statement, up to the line break at its end. -/
theorem ends_statements_one {line endLine : Nat} {spaced endSpaced : Bool} {inner : List Seen}
    (h : Ends T F (statement g) (⟨.identifier "json", line, spaced⟩ :: inner)
      [⟨.newline, endLine, endSpaced⟩] P) (hinner : inner ≠ []) :
    Ends T F (statements g [] none) (⟨.identifier "json", line, spaced⟩ :: inner) []
      fun nodes => ∃ n, nodes = [n] ∧ P n := by
  have hturn : Ends T F (statementTurn g [] none [])
      (⟨.identifier "json", line, spaced⟩ :: inner) [⟨.newline, endLine, endSpaced⟩]
      fun turn => ∃ next, turn = .again next ∧ ∃ n, next = [n] ∧ P n := by
    apply (ends_skipBreaks_none (breaks_word "json" line spaced inner)).bind
    intro _ _
    apply (ends_current _).bind
    intro t ht
    have hlexeme : t.lexeme = .identifier "json" := ht.1.1
    simp only [hlexeme]
    apply (ends_pure false _).bind
    rintro _ rfl
    apply h.bind
    intro n hn
    apply (ends_current _).bind
    intro u hu
    have hnewline : u.lexeme = .newline := hu.1.1
    simp only [hnewline]
    exact (ends_pure _ _).mono fun _ hagain => ⟨_, hagain, n, rfl, hn⟩
  have hrest : ∀ nodes, Ends T F (repeated (statementTurn g [] none) nodes)
      [⟨.newline, endLine, endSpaced⟩] [] (· = nodes) := by
    intro nodes
    apply Ends.finish
    apply (ends_skipBreaks _).bind
    intro _ _
    apply (ends_current _).bind
    intro t ht
    have hlexeme : t.lexeme = .endOfText := ht.1.1
    simp only [hlexeme]
    exact (ends_pure _ _).mono fun _ hdone => ⟨nodes, hdone, rfl⟩
  have hbody : Ends T F (repeated (statementTurn g [] none) [])
      (⟨.identifier "json", line, spaced⟩ :: inner) [] fun nodes => ∃ n, nodes = [n] ∧ P n := by
    apply Ends.again hturn
    · have hpositive := List.length_pos_iff.mpr hinner
      simp only [List.length_cons, List.length_nil]
      omega
    · rintro _ ⟨n, rfl, hn⟩
      exact (hrest [n]).mono fun _ hsame => ⟨n, hsame, hn⟩
  apply hbody.bind_pure.mono
  rintro _ ⟨_, ⟨n, rfl, hn⟩, rfl⟩
  exact ⟨n, rfl, hn⟩

end Call

end Read
end ViewSchema.Template
