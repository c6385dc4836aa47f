import ViewSchema.Proofs.Template.Compound

/-!
The rules for operands, operators and statements, and all rules together. Rules that work up to a
number of tokens make rules that work up to one more, so a grammar of some depth works for as many
tokens.
-/

namespace ViewSchema.Template

open Node (AllSound allSound_nil)

namespace Read

variable {g : Grammar} {bound : Nat}

section Operand

variable (hg : g.Works bound) {c : Cursor} (hleft : 0 < c.left) (hc : c.left ≤ bound)

include hg hleft hc

theorem reads_leaving (t : Token) (noDo : Bool) : (leaving g t noDo).ReadsNode c := by
  refine (ensures_advance c).bind ?_
  rintro _ d ⟨hd, -⟩
  refine (asks_atAttached "(" d).bind ?_
  rintro opens _ ⟨rfl, -⟩
  extract_lets join
  have hjoin : ∀ parts e, AllSound parts → e.left ≤ d.left →
      Ensures (join parts) e fun n f => n.Sound ∧ f.left < c.left := by
    intro parts e hparts he
    refine (ensures_extentFrom t e).bind ?_
    rintro extent _ ⟨rfl, hextent⟩
    exact ensures_pure ⟨.expression hparts hextent, by omega⟩
  refine (ensures_atCommandArgument d).bind ?_
  rintro argument _ rfl
  split
  · refine (ensures_advance d).bind ?_
    rintro _ e ⟨he, -⟩
    refine (reads_arguments hg (some ")") false (by omega)).bind ?_
    rintro parts f ⟨hparts, hf⟩
    exact hjoin parts f hparts (by omega)
  split
  · refine (reads_arguments hg none noDo (by omega)).bind ?_
    rintro parts e ⟨hparts, he⟩
    exact hjoin parts e hparts he
  · exact hjoin [] d allSound_nil (Nat.le_refl _)

theorem reads_wordOperand (t : Token) (word : String) (command noDo : Bool) :
    (wordOperand g t word command noDo).ReadsNode c := by
  have hplain : ∀ (kind : LiteralKind) (value : Value), ReadsNode (do
      let _ ← advance
      return Node.literal kind value false { line := some t.line, source := word }) c := by
    intro kind value
    refine (ensures_advance c).bind ?_
    rintro _ d ⟨hd, -⟩
    exact ensures_pure ⟨.literal _ _ _ rfl, by omega⟩
  have hcallOf : ∀ d : Cursor, d.left = c.left - 1 →
      Ensures (callOf g none word (some t.line) t.start command noDo) d fun n e =>
        n.Sound ∧ e.left < c.left := by
    intro d hd
    refine (ensures_callOf hg sound_none word rfl t.start command noDo (by omega)).mono ?_
    rintro n e ⟨hn, he⟩
    exact ⟨hn, by omega⟩
  unfold wordOperand
  extract_lets plain
  refine ensures_ite (hplain _ _) ?_
  refine ensures_ite (hplain _ _) ?_
  refine ensures_ite (hplain _ _) ?_
  refine ensures_ite ?_ ?_
  · refine (ensures_advance c).bind ?_
    rintro _ d ⟨hd, -⟩
    exact ensures_pure ⟨sound_nameOf t, by omega⟩
  refine ensures_ite (reads_ifStatement hg hleft hc) ?_
  refine ensures_ite (reads_caseStatement hg hleft hc) ?_
  refine ensures_ite (reads_loopStatement hg hleft hc) ?_
  refine ensures_ite (reads_beginStatement hg hleft hc) ?_
  refine ensures_ite (reads_leaving hg hleft hc t noDo) ?_
  refine ensures_ite (ensures_fail _ _ _) ?_
  refine ensures_ite (ensures_fail _ _ _) ?_
  -- A word of no special meaning is a call or a name.
  refine (ensures_advance c).bind ?_
  rintro _ d ⟨hd, -⟩
  refine (asks_atAttached "(" d).bind ?_
  rintro attached _ ⟨rfl, -⟩
  refine (ensures_atCommandArgument d).bind ?_
  rintro argument _ rfl
  refine ensures_ite (hcallOf d hd) ?_
  refine (asks_atOperator ["\x7b"] d).bind ?_
  rintro brace _ ⟨rfl, -⟩
  refine (asks_atWord ["do"] d).bind ?_
  rintro opens _ ⟨rfl, -⟩
  exact ensures_ite (hcallOf d hd) (ensures_pure ⟨sound_nameOf t, by omega⟩)

theorem reads_operatorOperand (t : Token) (op : String) (noDo : Bool) :
    (operatorOperand g t op noDo).ReadsNode c := by
  unfold operatorOperand
  split
  · refine (ensures_advance c).bind ?_
    rintro _ d ⟨hd, -⟩
    refine (hg.statements [] (some ")") d (by omega)).bind ?_
    rintro body e ⟨hbody, he⟩
    refine (ensures_expectOperator ")" e).bind fun _ f hf => ?_
    split
    · exact ensures_pure ⟨hbody _ (List.mem_singleton.mpr rfl), by omega⟩
    · refine (ensures_extentFrom t f).bind ?_
      rintro extent _ ⟨rfl, hextent⟩
      exact ensures_pure ⟨.expression hbody hextent, by omega⟩
  · refine (ensures_advance c).bind ?_
    rintro _ d ⟨hd, -⟩
    refine (reads_arguments hg (some "]") false (by omega)).bind ?_
    rintro elements e ⟨helements, he⟩
    refine (ensures_extentFrom t e).bind ?_
    rintro extent _ ⟨rfl, hextent⟩
    exact ensures_pure ⟨.array helements hextent, by omega⟩
  · exact reads_hash hg hc
  · exact reads_lambda hg hc
  · exact reads_prefixed t hleft fun d hd => hg.unary false noDo d (by omega)
  · exact reads_prefixed t hleft fun d hd => hg.unary false noDo d (by omega)
  · exact ensures_fail _ _ _

end Operand

theorem reads_literalToken (t : Token) (kind : LiteralKind) {c : Cursor} (hleft : 0 < c.left) :
    (literalToken t kind).ReadsNode c := by
  refine (ensures_advance c).bind ?_
  rintro _ d ⟨hd, -⟩
  refine (ensures_extentFrom t d).bind ?_
  rintro extent _ ⟨rfl, hextent⟩
  exact ensures_pure ⟨.literal _ _ _ hextent, by omega⟩

theorem reads_wordArray (t : Token) (kind : LiteralKind) (items : List String) {c : Cursor}
    (hleft : 0 < c.left) : (wordArray t kind items).ReadsNode c := by
  refine (ensures_advance c).bind ?_
  rintro _ d ⟨hd, -⟩
  refine (ensures_extentFrom t d).bind ?_
  rintro extent _ ⟨rfl, hextent⟩
  refine ensures_pure ⟨.array (fun n hn => ?_) hextent, by omega⟩
  obtain ⟨word, -, rfl⟩ := List.mem_map.mp hn
  exact .literal _ _ _ rfl

theorem turns_text (most : Nat) :
    TurnEnsures textTurn most (fun _ => True) fun _ => True := by
  intro state c _ hc
  refine (ensures_current c).bind ?_
  rintro t _ ⟨rfl, hcomes⟩
  split
  · rename_i more hlexeme
    have hleft := hcomes.left (by simp [hlexeme])
    refine (ensures_advance c).bind ?_
    rintro _ d ⟨hd, -⟩
    exact ensures_again trivial (by omega)
  · exact ensures_finished trivial (Nat.le_refl _)

theorem reads_operand (hg : g.Works bound) (command noDo : Bool) {c : Cursor}
    (hc : c.left ≤ bound) : (operand g command noDo).ReadsNode c := by
  refine (ensures_current c).bind ?_
  rintro t _ ⟨rfl, hcomes⟩
  have hleft := hcomes.left
  cases hlexeme : t.lexeme <;> rw [hlexeme] at hleft <;> dsimp only
  case identifier word => exact reads_wordOperand hg (hleft nofun) hc t word command noDo
  case constant word =>
    have hpositive := hleft nofun
    refine (ensures_advance c).bind ?_
    rintro _ d ⟨hd, -⟩
    refine (asks_atAttached "(" d).decide (fun _ => ?_) ?_
    · refine (ensures_callOf hg sound_none word rfl t.start command noDo (by omega)).mono ?_
      rintro n e ⟨hn, he⟩
      exact ⟨hn, by omega⟩
    · exact ensures_pure ⟨sound_nameOf t, by omega⟩
  case instanceVariable =>
    have hpositive := hleft nofun
    refine (ensures_advance c).bind ?_
    rintro _ d ⟨hd, -⟩
    exact ensures_pure ⟨sound_nameOf t, by omega⟩
  case globalVariable =>
    have hpositive := hleft nofun
    refine (ensures_advance c).bind ?_
    rintro _ d ⟨hd, -⟩
    exact ensures_pure ⟨sound_nameOf t, by omega⟩
  case text first =>
    have hpositive := hleft nofun
    refine (ensures_advance c).bind ?_
    rintro _ d ⟨hd, -⟩
    refine (ensures_repeated (turns_text d.left) trivial).bind ?_
    rintro all e ⟨-, he⟩
    refine (ensures_extentFrom t e).bind ?_
    rintro extent _ ⟨rfl, hextent⟩
    exact ensures_pure ⟨.literal _ _ _ hextent, by omega⟩
  case symbol => exact reads_literalToken t .symbol (hleft nofun)
  case integer => exact reads_literalToken t .integer (hleft nofun)
  case decimal => exact reads_literalToken t .decimal (hleft nofun)
  case words items => exact reads_wordArray t .text items (hleft nofun)
  case symbols items => exact reads_wordArray t .symbol items (hleft nofun)
  case label => exact ensures_fail _ _ _
  case operator op => exact reads_operatorOperand hg (hleft nofun) hc t op noDo
  case newline => exact ensures_fail _ _ _
  case endOfText => exact ensures_fail _ _ _

theorem ensures_constantIn {scope : Node} (hscope : scope.Sound) (constant : String) (start : Nat)
    (c : Cursor) : Ensures (constantIn scope constant start) c fun n d => n.Sound ∧ c = d := by
  refine (ensures_sourceFrom start c).bind ?_
  rintro source _ rfl
  exact ensures_pure ⟨.name _ hscope.line, rfl⟩

theorem turns_chain (hg : g.Works bound) (start : Nat) (command noDo : Bool) {most : Nat}
    (hmost : most ≤ bound) :
    TurnEnsures (chainTurn g start command noDo) most Node.Sound Node.Sound := by
  intro node c hnode hc
  have hcallOf : ∀ (method : String) (d : Cursor), d.left < c.left →
      Ensures (do return .again (← callOf g (some node) method node.line? start command noDo)) d
        (Turned c Node.Sound Node.Sound) := by
    intro method d hd
    refine (ensures_callOf hg (sound_some hnode) method hnode.line start command noDo
      (by omega)).bind ?_
    rintro n e ⟨hn, he⟩
    exact ensures_again hn (by omega)
  refine (asks_atOperator [".", "&."] c).decide (fun hleft => ?_) ?_
  · refine (ensures_advance c).bind ?_
    rintro _ d ⟨hd, -⟩
    refine (ensures_skipBreaks d).bind fun _ e he => ?_
    refine (asks_atOperator ["("] e).decide (fun _ => hcallOf "call" e (by omega)) ?_
    refine (ensures_advance e).bind ?_
    rintro t f ⟨hf, -⟩
    split
    · exact hcallOf _ f (by omega)
    · exact hcallOf _ f (by omega)
    · exact ensures_fail _ _ _
  refine (asks_atAttached "::" c).decide (fun hleft => ?_) ?_
  · refine (ensures_advance c).bind ?_
    rintro _ d ⟨hd, -⟩
    refine (ensures_advance d).bind ?_
    rintro t e ⟨he, -⟩
    split
    · refine (asks_atAttached "(" e).decide (fun _ => hcallOf _ e (by omega)) ?_
      refine (ensures_constantIn hnode _ start e).bind ?_
      rintro n _ ⟨hn, rfl⟩
      exact ensures_again hn (by omega)
    · exact hcallOf _ e (by omega)
    · exact ensures_fail _ _ _
  refine (asks_atAttached "[" c).decide (fun hleft => ?_)
    (ensures_finished hnode (Nat.le_refl _))
  refine (ensures_advance c).bind ?_
  rintro _ d ⟨hd, -⟩
  refine (reads_arguments hg (some "]") false (by omega)).bind ?_
  rintro index e ⟨hindex, he⟩
  refine (ensures_sourceFrom start e).bind ?_
  rintro source _ rfl
  exact ensures_again (.expression (hindex.cons hnode) hnode.line) (by omega)

theorem reads_unary (hg : g.Works bound) (command noDo : Bool) {c : Cursor} (hc : c.left ≤ bound) :
    (unary g command noDo).ReadsNode c := by
  refine (ensures_current c).bind ?_
  rintro t _ ⟨rfl, -⟩
  refine (asks_atOperator _ c).decide (fun hleft => ?_) ?_
  · exact reads_prefixed t hleft fun d hd => hg.unary command noDo d (by omega)
  refine (asks_atWord ["defined?"] c).decide (fun hleft => ?_) ?_
  · exact reads_prefixed t hleft fun d hd => hg.unary false noDo d (by omega)
  · refine (reads_operand hg command noDo hc).bind ?_
    rintro node d ⟨hnode, hd⟩
    refine (ensures_repeated (turns_chain hg t.start command noDo (by omega)) hnode).mono ?_
    rintro n e ⟨hn, he⟩
    exact ⟨hn, by omega⟩

theorem turns_binary (hg : g.Works bound) (t : Token) (noDo : Bool) {most : Nat}
    (hmost : most ≤ bound) : TurnEnsures (binaryTurn g t noDo) most Node.Sound Node.Sound := by
  intro node c hnode hc
  refine (asks_atOperator binaryOperators c).decide (fun hleft => ?_)
    (ensures_finished hnode (Nat.le_refl _))
  refine (ensures_advance c).bind ?_
  rintro op d ⟨hd, -⟩
  refine (ensures_atOperandEnd d).bind ?_
  rintro ends _ rfl
  split
  · refine (ensures_extentFrom t d).bind ?_
    rintro extent _ ⟨rfl, hextent⟩
    exact ensures_again (.expression (AllSound.single hnode) hextent) (by omega)
  · refine (reads_unary hg false noDo (by omega)).bind ?_
    rintro right e ⟨hright, he⟩
    refine (ensures_extentFrom t e).bind ?_
    rintro extent _ ⟨rfl, hextent⟩
    exact ensures_again (.expression ((AllSound.single hright).cons hnode) hextent) (by omega)

theorem reads_binary (hg : g.Works bound) (command noDo : Bool) {c : Cursor}
    (hc : c.left ≤ bound) : (binary g command noDo).ReadsNode c := by
  refine (ensures_current c).bind ?_
  rintro t _ ⟨rfl, -⟩
  refine (reads_unary hg command noDo hc).bind ?_
  rintro first d ⟨hfirst, hd⟩
  refine (ensures_repeated (turns_binary hg t noDo (by omega)) hfirst).mono ?_
  rintro n e ⟨hn, he⟩
  exact ⟨hn, by omega⟩

theorem reads_ternary (hg : g.Works bound) (command noDo : Bool) {c : Cursor}
    (hc : c.left ≤ bound) : (ternary g command noDo).ReadsNode c := by
  refine (ensures_current c).bind ?_
  rintro t _ ⟨rfl, -⟩
  refine (reads_binary hg command noDo hc).bind ?_
  rintro condition d ⟨hcondition, hd⟩
  refine (asks_atOperator ["?"] d).decide (fun _ => ?_) (ensures_pure ⟨hcondition, hd⟩)
  refine (ensures_advance d).bind ?_
  rintro _ e ⟨he, -⟩
  refine (hg.ternary false noDo e (by omega)).bind ?_
  rintro first f ⟨hfirst, hf⟩
  refine (ensures_skipBreaks f).bind fun _ i hi => ?_
  refine (ensures_current i).bind ?_
  rintro next _ ⟨rfl, -⟩
  extract_lets join
  have hjoin : ∀ (yes : Node) (j : Cursor), yes.Sound → j.left ≤ i.left →
      Ensures (join yes) j fun n k => n.Sound ∧ k.left < c.left := by
    intro yes j hyes hj
    refine (hg.ternary false noDo j (by omega)).bind ?_
    rintro no k ⟨hno, hk⟩
    refine (ensures_extentFrom t k).bind ?_
    rintro extent _ ⟨rfl, hextent⟩
    have hparts := ((AllSound.single hno).cons hyes).cons hcondition
    exact ensures_pure ⟨.expression hparts hextent, by omega⟩
  split
  · refine (ensures_advance i).bind ?_
    rintro _ j ⟨hj, -⟩
    exact hjoin (nameOf next) j (sound_nameOf next) (by omega)
  · refine (ensures_expectOperator ":" i).bind fun _ j hj => ?_
    exact hjoin first j hfirst (by omega)

theorem reads_assignment (hg : g.Works bound) (command noDo : Bool) {c : Cursor}
    (hc : c.left ≤ bound) : (assignment g command noDo).ReadsNode c := by
  refine (ensures_current c).bind ?_
  rintro t _ ⟨rfl, -⟩
  refine (reads_ternary hg command noDo hc).bind ?_
  rintro target d ⟨htarget, hd⟩
  refine (asks_atOperator assignmentOperators d).decide (fun _ => ?_) (ensures_pure ⟨htarget, hd⟩)
  refine (ensures_advance d).bind ?_
  rintro _ e ⟨he, -⟩
  refine (hg.expression true noDo e (by omega)).bind ?_
  rintro value f ⟨hvalue, hf⟩
  refine (ensures_extentFrom t f).bind ?_
  rintro extent _ ⟨rfl, hextent⟩
  exact ensures_pure ⟨.expression ((AllSound.single hvalue).cons htarget) hextent, by omega⟩

theorem turns_junction (hg : g.Works bound) (t : Token) (command noDo : Bool) {most : Nat}
    (hmost : most ≤ bound) :
    TurnEnsures (junctionTurn g t command noDo) most Node.Sound Node.Sound := by
  intro node c hnode hc
  refine (asks_atWord ["and", "or"] c).decide (fun hleft => ?_)
    (ensures_finished hnode (Nat.le_refl _))
  refine (ensures_advance c).bind ?_
  rintro _ d ⟨hd, -⟩
  refine (ensures_skipBreaks d).bind fun _ e he => ?_
  refine (reads_assignment hg command noDo (by omega)).bind ?_
  rintro right f ⟨hright, hf⟩
  refine (ensures_extentFrom t f).bind ?_
  rintro extent _ ⟨rfl, hextent⟩
  exact ensures_again (.expression ((AllSound.single hright).cons hnode) hextent) (by omega)

theorem reads_expression (hg : g.Works bound) (command noDo : Bool) {c : Cursor}
    (hc : c.left ≤ bound) : (expression g command noDo).ReadsNode c := by
  refine (ensures_current c).bind ?_
  rintro t _ ⟨rfl, -⟩
  refine (asks_atWord ["not"] c).decide (fun hleft => ?_) ?_
  · exact reads_prefixed t hleft fun d hd => hg.expression command noDo d (by omega)
  · refine (reads_assignment hg command noDo hc).bind ?_
    rintro first d ⟨hfirst, hd⟩
    refine (ensures_repeated (turns_junction hg t command noDo (by omega)) hfirst).mono ?_
    rintro n e ⟨hn, he⟩
    exact ⟨hn, by omega⟩

theorem turns_target (hg : g.Works bound) {most : Nat} (hmost : most ≤ bound) :
    TurnEnsures (targetTurn g) most AllSound AllSound := by
  intro targets c htargets hc
  refine (asks_atOperator [","] c).decide (fun hleft => ?_)
    (ensures_finished htargets (Nat.le_refl _))
  refine (ensures_advance c).bind ?_
  rintro _ d ⟨hd, -⟩
  refine (reads_unary hg false false (by omega)).bind ?_
  rintro target e ⟨htarget, he⟩
  exact ensures_again (htargets.cons htarget) (by omega)

theorem ensures_multipleAssignment (hg : g.Works bound) (t : Token) {first : Node}
    (hfirst : first.Sound) {c : Cursor} (hc : c.left ≤ bound) :
    (multipleAssignment g t first).ReadsNode c := by
  refine (ensures_repeated (turns_target hg hc) (.single hfirst)).bind ?_
  rintro targets d ⟨htargets, hd⟩
  refine (ensures_expectOperator "=" d).bind fun _ e he => ?_
  refine (ensures_skipBreaks e).bind fun _ f hf => ?_
  refine (reads_arguments hg none false (by omega)).bind ?_
  rintro values i ⟨hvalues, hi⟩
  refine (ensures_extentFrom t i).bind ?_
  rintro extent _ ⟨rfl, hextent⟩
  exact ensures_pure ⟨.expression (htargets.reverse.append hvalues) hextent, by omega⟩

theorem turns_modifier (hg : g.Works bound) (t : Token) {most : Nat} (hmost : most ≤ bound) :
    TurnEnsures (modifierTurn g t) most Node.Sound Node.Sound := by
  intro node c hnode hc
  refine (asks_atWord _ c).decide (fun hleft => ?_) (ensures_finished hnode (Nat.le_refl _))
  refine (ensures_advance c).bind ?_
  rintro keyword d ⟨hd, -⟩
  refine (reads_expression hg true false (by omega)).bind ?_
  rintro condition e ⟨hcondition, he⟩
  split
  · refine (ensures_extentFrom t e).bind ?_
    rintro extent _ ⟨rfl, hextent⟩
    have hbranches := branchesSound_single (AllSound.single hnode)
    exact ensures_again (.conditional _ (sound_some hcondition) hbranches hextent) (by omega)
  · refine (ensures_extentFrom t e).bind ?_
    rintro extent _ ⟨rfl, hextent⟩
    exact ensures_again (.expression ((AllSound.single hcondition).cons hnode) hextent) (by omega)

theorem reads_statement (hg : g.Works bound) {c : Cursor} (hc : c.left ≤ bound) :
    (statement g).ReadsNode c := by
  refine (ensures_current c).bind ?_
  rintro t _ ⟨rfl, -⟩
  refine (reads_expression hg true false hc).bind ?_
  rintro first d ⟨hfirst, hd⟩
  refine (asks_atOperator [","] d).bind ?_
  rintro comma _ ⟨rfl, -⟩
  extract_lets join
  have hjoin : ∀ (node : Node) (e : Cursor), node.Sound → e.left ≤ d.left →
      Ensures (join node) e fun n f => n.Sound ∧ f.left < c.left := by
    intro node e hnode he
    refine (ensures_repeated (turns_modifier hg t (by omega)) hnode).mono ?_
    rintro n f ⟨hn, hf⟩
    exact ⟨hn, by omega⟩
  split
  · refine (ensures_multipleAssignment hg t hfirst (by omega)).bind ?_
    rintro node e ⟨hnode, he⟩
    exact hjoin node e hnode (by omega)
  · exact hjoin first d hfirst (Nat.le_refl _)

theorem turns_statement (hg : g.Works bound) (closingWords : List String)
    (closingOperator : Option String) {most : Nat} (hmost : most ≤ bound) :
    TurnEnsures (statementTurn g closingWords closingOperator) most AllSound AllSound := by
  intro body c hbody hc
  refine (ensures_skipBreaks c).bind fun _ d hd => ?_
  refine (ensures_current d).bind ?_
  rintro t _ ⟨rfl, hcomes⟩
  split
  · split
    · exact ensures_fail _ _ _
    · exact ensures_finished hbody hd
  refine (asks_atClosing closingOperator d).bind ?_
  rintro closes _ ⟨rfl, -⟩
  split
  · exact ensures_finished hbody hd
  split
  · rename_i hstray
    -- A stray handler is a word, so there is something on its line to pass over.
    have hword := (Bool.and_eq_true_iff.mp hstray).1
    have hend : t.lexeme ≠ .endOfText := by
      intro h
      simp [h, Lexeme.isWordOf] at hword
    have hbreak : t.lexeme ≠ .newline := by
      intro h
      simp [h, Lexeme.isWordOf] at hword
    refine (ensures_skipLine_of_comes hcomes hend hbreak).bind fun _ e he => ?_
    exact ensures_again hbody (by omega)
  · refine (reads_statement hg (by omega)).bind ?_
    rintro node e ⟨hnode, he⟩
    refine (ensures_current e).bind ?_
    rintro next _ ⟨rfl, -⟩
    extract_lets ends
    exact ensures_ite (ensures_again (hbody.cons hnode) (by omega)) (ensures_fail _ _ _)

theorem reads_statements (hg : g.Works bound) (closingWords : List String)
    (closingOperator : Option String) {c : Cursor} (hc : c.left ≤ bound) :
    (statements g closingWords closingOperator).ReadsNodes c := by
  refine (ensures_repeated (turns_statement hg closingWords closingOperator hc)
    allSound_nil).bind ?_
  rintro body d ⟨hbody, hd⟩
  exact ensures_pure ⟨hbody.reverse, hd⟩

end Read

/-- A grammar of some depth works for fewer tokens than that. -/
theorem works_grammar (depth : Nat) : (grammar depth).Works depth := by
  induction depth with
  | zero => exact ⟨nofun, nofun, nofun, nofun⟩
  | succ depth ih =>
    exact
      { statements := fun words op _ hc => Read.reads_statements ih words op (Nat.le_of_lt_succ hc)
        expression := fun command noDo _ hc =>
          Read.reads_expression ih command noDo (Nat.le_of_lt_succ hc)
        ternary := fun command noDo _ hc =>
          Read.reads_ternary ih command noDo (Nat.le_of_lt_succ hc)
        unary := fun command noDo _ hc => Read.reads_unary ih command noDo (Nat.le_of_lt_succ hc) }

end ViewSchema.Template
