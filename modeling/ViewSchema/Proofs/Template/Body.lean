import ViewSchema.Proofs.Template.Grammar

/-!
Bodies: statements one behind the other, each on lines of its own, up to the word or the operator
that closes the body or to the end of the text.
-/

namespace ViewSchema.Template.Read

variable {g : Grammar} {words : List String} {op : Option String}

/-- The lexeme closes a body. -/
def closes (words : List String) (op : Option String) (l : Lexeme) : Bool :=
  (op.any fun o => l.isOneOf [o]) || l.isWordOf words

theorem leads_atClosing (op : Option String) (tokens : List Seen) :
    Leads (atClosing op) tokens tokens
      (· = op.any fun o => (Seen.next tokens).isOneOf [o]) := by
  cases op with
  | none => exact leads_pure false tokens
  | some o => exact leads_atOperator [o] tokens

/-- A body ends where it is closed, behind any line breaks. -/
def Closes (g : Grammar) (words : List String) (op : Option String)
    (closing after : List Seen) : Prop :=
  ∀ (body : List Node) (tokens : List Seen), breaks tokens = breaks closing →
    Leads (repeated (statementTurn g words op) body) tokens after (· = body)

theorem closes_token {t : Seen} (rest : List Seen) (hcloses : closes words op t.lexeme)
    (hbreaks : breaks (t :: rest) = t :: rest) :
    Closes g words op (t :: rest) (t :: rest) := by
  intro body tokens htokens
  have hskip := leads_skipBreaks tokens
  rw [htokens, hbreaks] at hskip
  apply Leads.finish
  apply hskip.bind
  intro _ _
  apply (leads_current _).bind
  intro u hu
  have hend : (t.lexeme == .endOfText) = false := by
    rw [beq_eq_false_iff_ne]
    intro hlexeme
    rw [hlexeme] at hcloses
    cases op <;> simp [closes, Lexeme.isOneOf, Lexeme.isWordOf] at hcloses
  rw [← show u.lexeme = t.lexeme from hu.1] at hcloses hend
  simp only [hend, Bool.false_eq_true, if_false]
  apply (leads_atClosing op _).bind
  rintro _ rfl
  rw [← hu.1]
  unfold closes at hcloses
  simp only [hcloses, if_true]
  exact (leads_pure _ _).mono fun _ h => ⟨body, h, rfl⟩

theorem closes_word {word : String} (hword : words.contains word) (line : Nat) (spaced : Bool)
    (rest : List Seen) : Closes g words op (⟨.identifier word, line, spaced⟩ :: rest)
      (⟨.identifier word, line, spaced⟩ :: rest) := by
  apply closes_token rest
  · unfold closes
    rw [show (Lexeme.identifier word).isWordOf words = true from hword, Bool.or_true]
  · exact breaks_word word line spaced rest

theorem closes_brace (line : Nat) (spaced : Bool) (rest : List Seen) :
    Closes g [] (some "\x7d") (⟨.operator "\x7d", line, spaced⟩ :: rest)
      (⟨.operator "\x7d", line, spaced⟩ :: rest) :=
  closes_token rest rfl (breaks_of_next (by simp [Seen.next]) (by simp [Seen.next]))

theorem closes_end {closing : List Seen} (hbreaks : breaks closing = []) :
    Closes g [] none closing [] := by
  intro body tokens htokens
  have hskip := leads_skipBreaks tokens
  rw [htokens, hbreaks] at hskip
  apply Leads.finish
  apply hskip.bind
  intro _ _
  apply (leads_current _).bind
  intro t ht
  have hlexeme : t.lexeme = .endOfText := ht.1
  simp only [hlexeme]
  exact (leads_pure _ _).mono fun _ h => ⟨body, h, rfl⟩

/-- One more statement, up to the end of its line. -/
theorem leads_statements_next {word : String} {line endLine : Nat}
    {spaced endSpaced : Bool} {tokens inner rest after : List Seen} {body : List Node}
    {Q : Node → Prop} {P : List Node → Prop}
    (hbreaks : breaks tokens = ⟨.identifier word, line, spaced⟩ :: inner)
    (hword : words.contains word = false) (hhandler : ["rescue", "ensure"].contains word = false)
    (hstatement : Leads (statement g) (⟨.identifier word, line, spaced⟩ :: inner)
      (⟨.newline, endLine, endSpaced⟩ :: rest) Q)
    (hless : rest.length + 1 < tokens.length)
    (hrest : ∀ n, Q n → Leads (repeated (statementTurn g words op) (n :: body))
      (⟨.newline, endLine, endSpaced⟩ :: rest) after P) :
    Leads (repeated (statementTurn g words op) body) tokens after P := by
  have hskip := leads_skipBreaks tokens
  rw [hbreaks] at hskip
  have hturn : Leads (statementTurn g words op body) tokens
      (⟨.newline, endLine, endSpaced⟩ :: rest)
      fun turn => ∃ next, turn = .again next ∧ ∃ n, next = n :: body ∧ Q n := by
    apply hskip.bind
    intro _ _
    apply (leads_current _).bind
    intro t ht
    have hlexeme : t.lexeme = .identifier word := ht.1
    have hnotClosing : (op.any fun o => (Lexeme.identifier word).isOneOf [o]) = false := by
      cases op <;> rfl
    simp only [hlexeme]
    apply (leads_atClosing op _).bind
    rintro _ rfl
    simp only [Seen.next, hnotClosing, Lexeme.isWordOf, hword, hhandler]
    apply hstatement.bind
    intro n hn
    apply (leads_current _).bind
    intro next hnext
    have hnewline : next.lexeme = .newline := hnext.1
    simp only [hnewline]
    exact (leads_pure _ _).mono fun _ h => ⟨_, h, n, rfl, hn⟩
  apply Leads.again hturn hless
  rintro _ ⟨n, rfl, hn⟩
  exact hrest n hn

/-- The words that plainly written statements open with. -/
def openers : List String := ["json", "if", "unless", "case"]

/-- Items that are read as statements: how many lines each takes, the tokens of these lines, and
what it is read as, by the line it starts on. -/
structure Layout (α : Type) where
  height : α → Nat
  seen : Nat → α → List Seen
  IsReadAs : Nat → α → Node → Prop

namespace Layout

variable {α : Type} (L : Layout α)

def allSeen (line : Nat) : List α → List Seen
  | [] => []
  | a :: rest => L.seen line a ++ allSeen (line + L.height a) rest

def AreReadAs (line : Nat) : List α → List Node → Prop
  | [], nodes => nodes = []
  | a :: rest, nodes => ∃ n others, nodes = n :: others ∧ L.IsReadAs line a n ∧
      AreReadAs (line + L.height a) rest others

/-- An item opens like a statement and is read as one, up to its last line break. -/
structure Reads (g : Grammar) (a : α) : Prop where
  opens : ∀ line, ∃ word place spaced inner,
    L.seen line a = ⟨.identifier word, place, spaced⟩ :: inner ∧ word ∈ openers ∧ inner ≠ []
  reads : ∀ line rest, Leads (statement g) (L.seen line a ++ rest)
    (⟨.newline, line + L.height a, false⟩ :: rest) (L.IsReadAs line a)

variable {L}

/-- Items are read one behind the other, when each of them is read as a statement. -/
theorem leads_turns (hwords : ∀ word ∈ openers, words.contains word = false)
    {closing after : List Seen} (hcloses : Closes g words op closing after) {items : List α}
    (hitems : ∀ a ∈ items, L.Reads g a) {line : Nat} {tokens : List Seen} {body : List Node}
    (htokens : breaks tokens = breaks (L.allSeen line items ++ closing)) :
    Leads (repeated (statementTurn g words op) body) tokens after fun result =>
      ∃ nodes, result = nodes.reverse ++ body ∧ L.AreReadAs line items nodes := by
  -- Behind a statement its line break still comes next, so tokens are known only up to breaks.
  induction items generalizing line tokens body with
  | nil =>
    apply (hcloses body tokens htokens).mono
    rintro _ rfl
    exact ⟨[], rfl, rfl⟩
  | cons a others ih =>
    obtain ⟨hopens, hreads⟩ := hitems a List.mem_cons_self
    obtain ⟨word, place, spaced, inner, hseen, hword, hinner⟩ := hopens line
    have hothers : ∀ a ∈ others, L.Reads g a := fun a ha => hitems a (List.mem_cons_of_mem _ ha)
    have hstatement := hreads line (L.allSeen (line + L.height a) others ++ closing)
    rw [hseen, List.cons_append] at hstatement
    have hbreaks : breaks tokens = ⟨.identifier word, place, spaced⟩ ::
        (inner ++ (L.allSeen (line + L.height a) others ++ closing)) := by
      rw [htokens, allSeen, hseen, List.append_assoc, List.cons_append, breaks_word]
    have hless : (L.allSeen (line + L.height a) others ++ closing).length + 1 <
        tokens.length := by
      have hshorter : (breaks tokens).length ≤ tokens.length :=
        (List.dropWhile_sublist _).length_le
      have hpositive := List.length_pos_iff.mpr hinner
      rw [hbreaks, List.length_cons, List.length_append] at hshorter
      omega
    have hhandler : ["rescue", "ensure"].contains word = false := by
      have hnone : ∀ w ∈ openers, ["rescue", "ensure"].contains w = false := by decide
      exact hnone word hword
    apply leads_statements_next hbreaks (hwords word hword) hhandler hstatement hless
    intro n hn
    have hrest : Leads (repeated (statementTurn g words op) (n :: body))
        (⟨.newline, line + L.height a, false⟩ ::
          (L.allSeen (line + L.height a) others ++ closing)) after fun result =>
        ∃ nodes, result = nodes.reverse ++ n :: body ∧
          L.AreReadAs (line + L.height a) others nodes := ih hothers rfl
    apply hrest.mono
    rintro _ ⟨nodes, rfl, hnodes⟩
    exact ⟨n :: nodes, by simp, n, nodes, rfl, hn, hnodes⟩

/-- A body of items, up to what closes it. -/
theorem leads_statements (hwords : ∀ word ∈ openers, words.contains word = false)
    {closing after : List Seen} (hcloses : Closes g words op closing after) {items : List α}
    (hitems : ∀ a ∈ items, L.Reads g a) {line : Nat} {tokens : List Seen}
    (htokens : breaks tokens = breaks (L.allSeen line items ++ closing)) :
    Leads (statements g words op) tokens after (L.AreReadAs line items) := by
  apply (leads_turns hwords hcloses hitems htokens).bind_pure.mono
  rintro _ ⟨_, ⟨nodes, rfl, hnodes⟩, rfl⟩
  simpa using hnodes

end Layout

end ViewSchema.Template.Read

namespace ViewSchema.Template

/-- A text of lines that fit is read, when its statements are, at any depth that is as large as the
number of tokens. -/
theorem read_lines {lines : List Line} (hfit : ∀ l ∈ lines, l.Fits)
    (hnest : Line.Nest [] lines []) {P : List Node → Prop}
    (hstatements : ∀ depth, (Line.allSeen 1 lines).length ≤ depth →
      Read.Leads (Read.statements (grammar depth) [] none)
        (Line.allSeen 1 lines ++ [⟨.newline, lines.length + 1, false⟩]) [] P) :
    ∃ t : ViewSchema.Template, read (Line.text lines) = .ok t ∧ P t.body ∧
      t.comments = { entries := Line.allComments 1 lines, trailing := [] } := by
  obtain ⟨s, hscan, htokens, heof, hspaced, hcomments, htrailing⟩ := scan_lines hfit hnest
  have hdepth : (Line.allSeen 1 lines).length ≤ s.tokens.length + 1 := by
    have hmapped := congrArg List.length htokens
    simp only [List.length_map, List.length_append, List.length_singleton] at hmapped
    omega
  obtain ⟨body, c, hrun, hrest, hbody⟩ := hstatements (s.tokens.length + 1) hdepth
    { text := Line.text lines, eof := s.eof } { tokens := s.tokens } ⟨heof, hspaced⟩ htokens
  have hdone : c.tokens = [] := List.map_eq_nil_iff.mp hrest
  refine ⟨{ body, comments := { entries := s.comments, trailing := s.trailing } }, ?_, hbody, ?_⟩
  · unfold read
    rw [hscan]
    change Scanning.template s _ = _
    simp only [Scanning.template, hrun, bind, Except.bind, hdone]
    rfl
  · rw [hcomments, htrailing]

end ViewSchema.Template
