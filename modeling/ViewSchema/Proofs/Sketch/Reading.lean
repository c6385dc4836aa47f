import ViewSchema.Proofs.Sketch.Lines
import ViewSchema.Proofs.Template.Body
import ViewSchema.Proofs.Template.Conditional
import ViewSchema.Proofs.Template.Phrase

/-!
Reading the template of a sketch. Every statement of the sketch is read as one node on the line of
its header, with the nodes of its body inside, and every arm of a conditional as one branch.
-/

namespace ViewSchema.Sketch

open Template
open Template.Read (Leads nameAt Closes)

/-! ### What is read -/

/-- A call of a method on the builder, on a line. -/
def IsCallOf (line : Nat) (name : Name) (Args : List Node → Prop) (c : Call) : Prop :=
  Read.IsCall (nameAt line "json") name.text (some (line : Int)) Args c

/-- The arguments of a call with a block: the collection that the block goes over, if it does. -/
def Enclosure.arguments (line : Nat) : Enclosure → List Name → List Node
  | .words, _ :: _ => [nameAt line "@xs"]
  | _, _ => []

mutual

/-- The node that a statement becomes when its header stands on a line. -/
def IsReadAs (line : Nat) : Sketch → Node → Prop
  | .property name, n => ∃ c, n = .call c ∧
      IsCallOf line name (fun args => ∃ one, args = [one] ∧ Read.IsInteger 1 one) c
  | .block enclosure name params body, n => ∃ c nodes extent,
      n = .block (.call c) (params.map Name.text) nodes extent ∧ extent.line = some (line : Int) ∧
      IsCallOf line name (· = enclosure.arguments line params) c ∧
      AreReadAs (line + 1) body nodes
  | .condition negated test body arms, n => ∃ nodes branches extent,
      n = .conditional (conditionWord negated) (some (nameAt line test.text)) (nodes :: branches)
        extent ∧ extent.line = some (line : Int) ∧ AreReadAs (line + 1) body nodes ∧
      arms.AreReadAs (line + 1 + (blockRows body).length) branches
  | .choice subject arms, n => ∃ branches extent,
      n = .conditional "case" (some (nameAt line subject.text)) branches extent ∧
      extent.line = some (line : Int) ∧ arms.AreReadAs (line + 1) branches

/-- A body becomes one node for every statement, in order. -/
def AreReadAs (line : Nat) : List Sketch → List Node → Prop
  | [], nodes => nodes = []
  | s :: rest, nodes => ∃ n others, nodes = n :: others ∧ IsReadAs line s n ∧
      AreReadAs (line + s.rows.length) rest others

/-- The arms of a conditional become one branch each, in order, that for all other cases last. -/
def Arms.AreReadAs (line : Nat) : {f : Fork} → Arms f → List (List Node) → Prop
  | _, .done, branches => branches = []
  | _, .otherwise body, branches => ∃ nodes, branches = [nodes] ∧
      Sketch.AreReadAs (line + 1) body nodes
  | _, .arm _ body others, branches => ∃ nodes rest, branches = nodes :: rest ∧
      Sketch.AreReadAs (line + 1) body nodes ∧
      others.AreReadAs (line + 1 + (blockRows body).length) rest

end

/-! ### What is seen -/

/-- The tokens of rows from a line on, each row with its line break. -/
def allSeen (line : Nat) : List Row → List Seen
  | [] => []
  | r :: rest =>
    Glyph.seen line true r.glyphs ++ ⟨.newline, line + 1, false⟩ :: allSeen (line + 1) rest

theorem allSeen_lines (margin : Nat → Nat) (line : Nat) (rows : List Row) :
    Line.allSeen line (lines margin line rows) = allSeen line rows := by
  induction rows generalizing line with
  | nil => rfl
  | cons r rest ih =>
    rw [lines, Line.allSeen, Line.seen, ih, allSeen]
    simp

theorem allSeen_append (line : Nat) (these others : List Row) :
    allSeen line (these ++ others) =
      allSeen line these ++ allSeen (line + these.length) others := by
  induction these generalizing line with
  | nil => rfl
  | cons r rest ih =>
    have hline : line + (r :: rest).length = line + 1 + rest.length := by
      rw [List.length_cons]
      omega
    rw [List.cons_append, allSeen, allSeen, ih, hline, List.append_assoc, List.cons_append]

theorem length_le_allSeen (line : Nat) (rows : List Row) :
    rows.length ≤ (allSeen line rows).length := by
  induction rows generalizing line with
  | nil => exact Nat.le_refl 0
  | cons r rest ih =>
    have hrest := ih (line + 1)
    simp only [allSeen, List.length_append, List.length_cons]
    omega

/-- The token that closes a block. -/
def Enclosure.closeSeen (line : Nat) : Enclosure → Seen
  | .words => ⟨.identifier "end", line, true⟩
  | .braces => ⟨.operator "\x7d", line, true⟩

/-- What is seen of the inside of a statement and its terminator. -/
def closed (line : Nat) (inner : List Row) (enclosure : Enclosure) (rest : List Seen) : List Seen :=
  allSeen line inner ++ enclosure.closeSeen (line + inner.length) ::
    ⟨.newline, line + inner.length + 1, false⟩ :: rest

theorem allSeen_closing (line : Nat) (inner : List Row) (enclosure : Enclosure)
    (rest : List Seen) :
    allSeen line (inner ++ [.closing enclosure]) ++ rest = closed line inner enclosure rest := by
  rw [allSeen_append, closed]
  cases enclosure <;> simp [allSeen, Row.glyphs, Glyph.seen, Enclosure.closeGlyph,
    Enclosure.closeSeen, Glyph.word, Glyph.closeBrace, Glyph.sign]

/-- The tokens of a statement open with a word that opens statements. -/
theorem opens_allSeen (line : Nat) (s : Sketch) : ∃ word place spaced inner,
    allSeen line s.rows = ⟨.identifier word, place, spaced⟩ :: inner ∧ word ∈ Read.openers ∧
      inner ≠ [] := by
  cases s with
  | property name => exact ⟨"json", line, true, _, rfl, by decide, by simp⟩
  | block enclosure name params body =>
    exact ⟨"json", line, true, _, by rw [rows]; rfl, by decide, by simp⟩
  | condition negated test body arms =>
    refine ⟨conditionWord negated, line, true, _, by rw [rows]; rfl, ?_, by simp⟩
    cases negated <;> decide
  | choice subject arms => exact ⟨"case", line, true, _, by rw [rows]; rfl, by decide, by simp⟩

/-- A word or a closing brace comes next. -/
def OpensItem (tokens : List Seen) : Prop :=
  (∃ word, Seen.next tokens = .identifier word) ∨ Seen.next tokens = .operator "\x7d"

theorem OpensItem.body (line : Nat) (body : List Sketch) {closing : List Seen}
    (h : OpensItem closing) : OpensItem (allSeen line (blockRows body) ++ closing) := by
  cases body with
  | nil => exact h
  | cons s rest =>
    obtain ⟨word, place, spaced, inner, hseen, -, -⟩ := opens_allSeen line s
    rw [blockRows, allSeen_append, hseen]
    exact .inl ⟨word, rfl⟩

theorem opensItem_closed (line : Nat) (body : List Sketch) (enclosure : Enclosure)
    (rest : List Seen) : OpensItem (closed line (blockRows body) enclosure rest) := by
  apply OpensItem.body
  cases enclosure with
  | words => exact .inl ⟨"end", rfl⟩
  | braces => exact .inr rfl

theorem OpensItem.breaks {tokens : List Seen} (h : OpensItem tokens) :
    Read.breaks tokens = tokens := by
  rcases h with ⟨word, hword⟩ | hbrace
  · exact Read.breaks_of_next (by simp [hword]) (by simp [hword])
  · exact Read.breaks_of_next (by simp [hbrace]) (by simp [hbrace])

theorem OpensItem.dropWhile_newline {tokens : List Seen} (h : OpensItem tokens) :
    (tokens.dropWhile fun t => t.lexeme == .newline) = tokens := by
  apply Read.dropWhile_newline_of_next
  rcases h with ⟨word, hword⟩ | hbrace
  · simp [hword]
  · simp [hbrace]

theorem OpensItem.opensBody {tokens : List Seen} (h : OpensItem tokens) (line : Nat) :
    Read.opensBody (⟨.newline, line, false⟩ :: tokens) = true := by
  rw [Read.opensBody, List.dropWhile_cons_of_pos rfl, h.dropWhile_newline]
  rcases h with ⟨word, hword⟩ | hbrace
  · rw [hword]
  · rw [hbrace]

theorem OpensItem.noBars {tokens : List Seen} (h : OpensItem tokens) :
    (Seen.next tokens).isOneOf ["||", "|"] = false := by
  rcases h with ⟨word, hword⟩ | hbrace
  · rw [hword]
    rfl
  · rw [hbrace]
    simp [Lexeme.isOneOf]

/-! ### Bodies -/

/-- Statements as items that are read one behind the other. -/
def layout : Read.Layout Sketch where
  height s := s.rows.length
  seen line s := allSeen line s.rows
  IsReadAs := IsReadAs

theorem allSeen_layout (line : Nat) (body : List Sketch) :
    layout.allSeen line body = allSeen line (blockRows body) := by
  induction body generalizing line with
  | nil => rfl
  | cons s rest ih =>
    rw [blockRows, allSeen_append, Read.Layout.allSeen, ih]
    rfl

theorem areReadAs_layout {body : List Sketch} {line : Nat} {nodes : List Node}
    (h : layout.AreReadAs line body nodes) : AreReadAs line body nodes := by
  induction body generalizing line nodes with
  | nil => exact h
  | cons s rest ih =>
    obtain ⟨n, others, rfl, hn, hothers⟩ := h
    exact ⟨n, others, rfl, hn, ih hothers⟩

/-- All statements of a body are read, with a grammar of some depth. -/
def BodyReads (d : Nat) (body : List Sketch) : Prop := ∀ s ∈ body, layout.Reads (grammar d) s

variable {d : Nat} {body : List Sketch} {words : List String} {op : Option String}

/-- A body is read up to what closes it. -/
theorem leads_body (hbody : BodyReads d body)
    (hwords : ∀ word ∈ Read.openers, words.contains word = false) {closing after : List Seen}
    (hcloses : Closes (grammar d) words op closing after) {line : Nat} {tokens : List Seen}
    (htokens : Read.breaks tokens = Read.breaks (allSeen line (blockRows body) ++ closing)) :
    Leads ((grammar (d + 1)).statements words op) tokens after (AreReadAs line body) := by
  rw [← allSeen_layout] at htokens
  exact (Read.Layout.leads_statements hwords hcloses hbody htokens).mono fun _ => areReadAs_layout

/-! ### Properties and blocks -/

/-- A property is read as a call with an argument. -/
theorem leads_property (name : Name) (line : Nat) (rest : List Seen) :
    Leads (Read.statement (grammar (d + 1))) (allSeen line (rows (.property name)) ++ rest)
      (⟨.newline, line + 1, false⟩ :: rest) (IsReadAs line (.property name)) :=
  Read.leads_integer_statement name.text 1 line rfl rfl rfl

theorem seen_listedGlyphs (line : Nat) (params : List Name) :
    Glyph.seen line false (listedGlyphs params ++ [.bar false]) =
      Read.parametersSeen line (params.map Name.text) ++ [⟨.operator "|", line, false⟩] := by
  induction params with
  | nil => rfl
  | cons p rest ih =>
    have hcons : Glyph.seen line false (listedGlyphs (p :: rest) ++ [.bar false]) =
        ⟨.operator ",", line, false⟩ :: ⟨.identifier p.text, line, true⟩ ::
          Glyph.seen line false (listedGlyphs rest ++ [.bar false]) := rfl
    rw [hcons, ih]
    rfl

/-- The parameters of a block are read, and the line break behind them if there are none. -/
theorem leads_parameters (g : Grammar) (line : Nat) (params : List Name) {inner : List Seen}
    (hinner : OpensItem inner) : ∃ tokens, Read.breaks tokens = Read.breaks inner ∧
      Leads (Read.blockParameters g)
        (Glyph.seen line false (parameterGlyphs params) ++ ⟨.newline, line + 1, false⟩ :: inner)
        tokens (· = params.map Name.text) := by
  cases params with
  | nil =>
    have hskip : ((⟨.newline, line + 1, false⟩ :: inner : List Seen).dropWhile fun t =>
        t.lexeme == .newline) = inner := by
      rw [List.dropWhile_cons_of_pos rfl, hinner.dropWhile_newline]
    refine ⟨inner, rfl, (Read.leads_blockParameters_none hskip hinner.noBars).mono ?_⟩
    exact fun _ hempty => List.isEmpty_iff.mp hempty
  | cons p others =>
    have hseen : Glyph.seen line false (parameterGlyphs (p :: others)) =
        ⟨.operator "|", line, true⟩ :: ⟨.identifier p.text, line, false⟩ ::
          Glyph.seen line false (listedGlyphs others ++ [.bar false]) := rfl
    refine ⟨⟨.newline, line + 1, false⟩ :: inner, rfl, ?_⟩
    rw [hseen, seen_listedGlyphs, List.cons_append, List.cons_append, List.append_assoc]
    exact Read.leads_blockParameters_some line _ _

/-- The block of a call, from its opening on. -/
theorem leads_enclosed (hbody : BodyReads d body) (enclosure : Enclosure) (params : List Name)
    (c : Call) (start line : Nat) (rest : List Seen) :
    Leads (Read.withBlock (grammar (d + 1)) c start false)
      (Glyph.seen line false (enclosure.openGlyph :: parameterGlyphs params) ++
        ⟨.newline, line + 1, false⟩ :: closed (line + 1) (blockRows body) enclosure rest)
      (⟨.newline, line + 1 + (blockRows body).length + 1, false⟩ :: rest)
      (Read.IsBlock c (· = params.map Name.text) (AreReadAs (line + 1) body)) := by
  have hopens := opensItem_closed (line + 1) body enclosure rest
  obtain ⟨tokens, htokens, hparams⟩ := leads_parameters (grammar (d + 1)) line params hopens
  cases enclosure with
  | words =>
    exact Read.leads_withBlock_do hparams
      (leads_body hbody (by decide) (Read.closes_word (by decide) _ _ _) htokens)
  | braces =>
    refine Read.leads_withBlock_braces ?_ hparams
      (leads_body hbody (by simp) (Read.closes_brace _ _ _) htokens)
    cases params with
    | nil => exact hopens.opensBody (line + 1)
    | cons p others => rfl

/-- A call with a block is read as such. -/
theorem leads_block (hbody : BodyReads d body) (enclosure : Enclosure) (name : Name)
    (params : List Name) (line : Nat) (rest : List Seen) :
    Leads (Read.statement (grammar (d + 1)))
      (allSeen line (rows (.block enclosure name params body)) ++ rest)
      (⟨.newline, line + 1 + (blockRows body).length + 1, false⟩ :: rest)
      (IsReadAs line (.block enclosure name params body)) := by
  have hseen : allSeen line (rows (.block enclosure name params body)) ++ rest =
      ⟨.identifier "json", line, true⟩ :: ⟨.operator ".", line, false⟩ ::
        ⟨.identifier name.text, line, false⟩ ::
          (Glyph.seen line false (enclosure.collectionGlyphs params ++
              enclosure.openGlyph :: parameterGlyphs params) ++
            ⟨.newline, line + 1, false⟩ ::
              closed (line + 1) (blockRows body) enclosure rest) := by
    rw [rows, allSeen, List.append_assoc, List.cons_append, allSeen_closing]
    rfl
  have hblock : ∀ start c, IsCallOf line name (· = enclosure.arguments line params) c →
      Leads (Read.withBlock (grammar (d + 1)) c start false)
        (Glyph.seen line false (enclosure.openGlyph :: parameterGlyphs params) ++
          ⟨.newline, line + 1, false⟩ :: closed (line + 1) (blockRows body) enclosure rest)
        (⟨.newline, line + 1 + (blockRows body).length + 1, false⟩ :: rest)
        (IsReadAs line (.block enclosure name params body)) := by
    intro start c hc
    apply (leads_enclosed hbody enclosure params c start line rest).mono
    rintro _ ⟨_, nodes, extent, rfl, hline, rfl, hnodes⟩
    exact ⟨c, nodes, extent, rfl, hline.trans hc.line, hc, hnodes⟩
  have hcall : ∀ start, Leads
      (Read.callOf (grammar (d + 1)) (some (nameAt line "json")) name.text (some (line : Int))
        start true false)
      (Glyph.seen line false (enclosure.collectionGlyphs params ++
          enclosure.openGlyph :: parameterGlyphs params) ++
        ⟨.newline, line + 1, false⟩ :: closed (line + 1) (blockRows body) enclosure rest)
      (⟨.newline, line + 1 + (blockRows body).length + 1, false⟩ :: rest)
      (IsReadAs line (.block enclosure name params body)) := by
    intro start
    cases enclosure with
    | braces =>
      exact Read.leads_callOf_bare rfl (Read.leads_atCommandArgument_brace line _) (hblock start)
    | words =>
      cases params with
      | nil =>
        exact Read.leads_callOf_bare rfl (Read.leads_atCommandArgument_do line _) (hblock start)
      | cons p others =>
        exact Read.leads_callOf_instanceVariable "@xs" line (Seen.quiet_do line true _)
          (hblock start)
  rw [hseen]
  refine Read.leads_call_statement keywords_json hcall ?_ rfl
  simp only [closed, List.length_append, List.length_cons]
  omega

/-! ### Conditionals -/

/-- A number is read as the value of an arm. -/
theorem leads_number (n : Number) (line : Nat) (rest : List Seen) :
    Leads (Read.arguments (grammar (d + 2)) none true)
      (Glyph.seen line false (Fork.headGlyphs (f := .numbers) n) ++
        ⟨.newline, line + 1, false⟩ :: rest)
      (⟨.newline, line + 1, false⟩ :: rest) fun _ => True := by
  obtain ⟨negative, first, more, hdigits⟩ := n
  have hafter : Seen.quiet (⟨.newline, line + 1, false⟩ :: rest) = true := rfl
  cases negative with
  | false =>
    have hvalue := Read.leads_ternary_integer (d := d + 1) (Numeral.ofDigits (first :: more)) line
      true hafter
    exact (Read.leads_arguments_one rfl rfl rfl hvalue hafter).mono fun _ _ => trivial
  | true =>
    have hunary := Read.leads_unary_integer (d := d) (Numeral.ofDigits (first :: more)) line false
      hafter
    have hsign := Read.leads_unary_sign (grammar (d + 1)) false true "-" line true (by decide)
      hunary
    have hvalue := hsign.ternary (Seen.settled_of_quiet hafter)
    exact (Read.leads_arguments_one rfl rfl rfl hvalue hafter).mono fun _ _ => trivial

/-- The words that end the body of an arm. -/
def Fork.ends : Fork → List String
  | .conditions => ["elsif", "else", "end"]
  | .numbers => ["when", "in", "else", "end"]

/-- The step that reads an arm. -/
def Fork.turn (g : Grammar) : Fork → Read.ArmTurn
  | .conditions => Read.elsifTurn g
  | .numbers => Read.whenTurn g

theorem Fork.not_ends (f : Fork) : ∀ word ∈ Read.openers, f.ends.contains word = false := by
  cases f <;> decide

theorem leads_turn {f : Fork} (head : f.Head) (line : Nat) {inner after : List Seen}
    {Q : List Node → Prop} {branches : List (List Node)}
    (hbody : Leads ((grammar (d + 2)).statements f.ends none)
      (Read.breaks (⟨.newline, line + 1, false⟩ :: inner)) after Q) :
    Leads (f.turn (grammar (d + 2)) branches)
      (⟨.identifier f.word, line, true⟩ ::
        (Glyph.seen line false (Fork.headGlyphs head) ++ ⟨.newline, line + 1, false⟩ :: inner))
      after fun t => ∃ next, t = .again next ∧ ∃ nodes, Q nodes ∧ next = nodes :: branches := by
  cases f with
  | conditions =>
    have hcondition := Read.leads_expression_name (grammar (d + 1)) (Name.free head) true line true
      (⟨.newline, line + 1, false⟩ :: inner) rfl
    exact Read.leads_elsifTurn (hcondition.mono fun _ _ => trivial) rfl hbody
  | numbers => exact Read.leads_whenTurn (leads_number head line inner) rfl hbody

theorem leads_turn_finished (g : Grammar) (f : Fork) {word : String}
    (hword : word ∈ ["else", "end"]) (line : Nat) (spaced : Bool) (rest : List Seen)
    (branches : List (List Node)) :
    Leads (f.turn g branches) (⟨.identifier word, line, spaced⟩ :: rest)
      (⟨.identifier word, line, spaced⟩ :: rest) (· = .finished branches) := by
  have hnone : ∀ w ∈ ["else", "end"], ["elsif"].contains w = false ∧
      ["when", "in"].contains w = false := by decide
  cases f with
  | conditions => exact Read.leads_elsifTurn_finished (hnone word hword).1
  | numbers => exact Read.leads_whenTurn_finished (hnone word hword).2

/-- The `end` of a conditional, and what follows. -/
def endSeen (line : Nat) (rest : List Seen) : List Seen := ⟨.identifier "end", line, true⟩ :: rest

/-- The arms of a conditional and its `end` open with a word that ends the body before. -/
theorem opens_arms {f : Fork} (arms : Arms f) (line endLine : Nat) (rest : List Seen) :
    ∃ word place inner, allSeen line arms.rows ++ endSeen endLine rest =
      ⟨.identifier word, place, true⟩ :: inner ∧ f.ends.contains word := by
  cases arms with
  | done => exact ⟨"end", endLine, rest, rfl, by cases f <;> decide⟩
  | otherwise body => exact ⟨"else", line, _, by rw [Arms.rows]; rfl, by cases f <;> decide⟩
  | arm head body others =>
    exact ⟨f.word, line, _, by rw [Arms.rows]; rfl, by cases f <;> decide⟩

theorem closes_arms (g : Grammar) {f : Fork} (arms : Arms f) (line endLine : Nat)
    (rest : List Seen) :
    Closes g f.ends none (allSeen line arms.rows ++ endSeen endLine rest)
      (allSeen line arms.rows ++ endSeen endLine rest) := by
  obtain ⟨word, place, inner, hseen, hword⟩ := opens_arms arms line endLine rest
  rw [hseen]
  exact Read.closes_word hword place true inner

/-- Arms are read one behind the other, up to the `end` of the conditional. -/
def ArmsRead (d : Nat) {f : Fork} (arms : Arms f) : Prop :=
  ∀ (branches : List (List Node)) (line endLine : Nat) (rest : List Seen),
    Leads (Read.arms (grammar d) (f.turn (grammar d)) branches)
      (allSeen line arms.rows ++ endSeen endLine rest) (endSeen endLine rest) fun all =>
      ∃ nodes, all = nodes.reverse ++ branches ∧ arms.AreReadAs line nodes

theorem armsRead_done (f : Fork) : ArmsRead d (.done (f := f)) := by
  intro branches line endLine rest
  apply Read.leads_arms_end (leads_turn_finished _ f (by decide) endLine true rest branches)
  apply (Read.leads_elseBranch_none rfl).mono
  rintro _ rfl
  exact ⟨[], rfl, rfl⟩

theorem armsRead_otherwise (f : Fork) (hbody : BodyReads d body) :
    ArmsRead (d + 1) (.otherwise (f := f) body) := by
  intro branches line endLine rest
  have hseen : allSeen line (Arms.otherwise (f := f) body).rows ++ endSeen endLine rest =
      ⟨.identifier "else", line, true⟩ :: ⟨.newline, line + 1, false⟩ ::
        (allSeen (line + 1) (blockRows body) ++ endSeen endLine rest) := by
    rw [Arms.rows]
    rfl
  rw [hseen]
  apply Read.leads_arms_end (leads_turn_finished _ f (by decide) line true _ branches)
  have hbranch : Leads ((grammar (d + 1)).statements ["end"] none)
      (⟨.newline, line + 1, false⟩ ::
        (allSeen (line + 1) (blockRows body) ++ endSeen endLine rest))
      (endSeen endLine rest) (AreReadAs (line + 1) body) :=
    leads_body hbody (by decide) (Read.closes_word (by decide) endLine true rest) rfl
  apply (Read.leads_elseBranch_some hbranch).mono
  rintro _ ⟨nodes, hnodes, rfl⟩
  exact ⟨[nodes], rfl, nodes, rfl, hnodes⟩

theorem armsRead_arm {f : Fork} (head : f.Head) {others : Arms f} (hbody : BodyReads (d + 1) body)
    (hothers : ArmsRead (d + 2) others) : ArmsRead (d + 2) (.arm head body others) := by
  intro branches line endLine rest
  have hseen : allSeen line (Arms.arm head body others).rows ++ endSeen endLine rest =
      ⟨.identifier f.word, line, true⟩ :: (Glyph.seen line false (Fork.headGlyphs head) ++
        ⟨.newline, line + 1, false⟩ :: (allSeen (line + 1) (blockRows body) ++
          (allSeen (line + 1 + (blockRows body).length) others.rows ++
            endSeen endLine rest))) := by
    rw [Arms.rows, allSeen, allSeen_append, List.append_assoc, List.cons_append, List.append_assoc]
    rfl
  have hbranch := leads_body hbody f.not_ends
    (closes_arms (grammar (d + 1)) others (line + 1 + (blockRows body).length) endLine rest)
    (Read.breaks_breaks (⟨.newline, line + 1, false⟩ :: (allSeen (line + 1) (blockRows body) ++
      (allSeen (line + 1 + (blockRows body).length) others.rows ++ endSeen endLine rest))))
  rw [hseen]
  apply Read.leads_arms_again (leads_turn head line hbranch)
  · simp only [List.length_cons, List.length_append]
    omega
  · intro nodes hnodes
    apply (hothers (nodes :: branches) _ endLine rest).mono
    rintro _ ⟨armNodes, rfl, hbranches⟩
    exact ⟨nodes :: armNodes, by simp, nodes, armNodes, rfl, hnodes, hbranches⟩

section Compound

variable (line endLine : Nat) {after : List Seen} (hafter : Seen.quiet after)

include hafter

/-- A condition is read with its first branch and those of its arms. -/
theorem leads_condition (negated : Bool) (test : Name) {arms : Arms .conditions}
    (hbody : BodyReads (d + 1) body) (harms : ArmsRead (d + 2) arms) :
    Leads (Read.statement (grammar (d + 2)))
      (⟨.identifier (conditionWord negated), line, true⟩ :: ⟨.identifier test.text, line, true⟩ ::
        ⟨.newline, line + 1, false⟩ :: (allSeen (line + 1) (blockRows body) ++
          (allSeen (line + 1 + (blockRows body).length) arms.rows ++ endSeen endLine after)))
      after (IsReadAs line (.condition negated test body arms)) := by
  have hfirst := leads_body hbody (Fork.not_ends .conditions)
    (closes_arms (grammar (d + 1)) arms (line + 1 + (blockRows body).length) endLine after)
    (Read.breaks_breaks (⟨.newline, line + 1, false⟩ :: (allSeen (line + 1) (blockRows body) ++
      (allSeen (line + 1 + (blockRows body).length) arms.rows ++ endSeen endLine after))))
  have hbranches : ∀ first, AreReadAs (line + 1) body first →
      Leads (Read.arms (grammar (d + 2)) (Read.elsifTurn (grammar (d + 2))) [first])
        (allSeen (line + 1 + (blockRows body).length) arms.rows ++ endSeen endLine after)
        (endSeen endLine after) fun all => ∃ branches, all = branches.reverse ∧
          ∃ nodes others, branches = nodes :: others ∧ AreReadAs (line + 1) body nodes ∧
            arms.AreReadAs (line + 1 + (blockRows body).length) others := by
    intro first hnodes
    apply (harms [first] (line + 1 + (blockRows body).length) endLine after).mono
    rintro _ ⟨others, rfl, hothers⟩
    exact ⟨first :: others, by simp, first, others, rfl, hnodes, hothers⟩
  have hrule : ∀ t, Read.wordOperand (grammar (d + 2)) t (conditionWord negated) true false =
      Read.ifStatement (grammar (d + 2)) := by
    intro t
    cases negated <;> simp [Read.wordOperand, conditionWord]
  have hword : conditionWord negated ∉ ["defined?", "not"] := by cases negated <;> decide
  have hif := Read.leads_ifStatement line true (conditionWord negated)
    (Read.leads_expression_name (grammar (d + 1)) test.free true line true
      (⟨.newline, line + 1, false⟩ :: _) rfl) rfl hfirst hbranches
  apply (Read.leads_keyword_statement hrule hword hif hafter).mono
  rintro _ ⟨_, _, extent, rfl, hline, rfl, nodes, branches, rfl, hnodes, hothers⟩
  exact ⟨nodes, branches, extent, rfl, hline, hnodes, hothers⟩

/-- A choice is read with the branches of its arms. -/
theorem leads_choice (subject : Name) {arms : Arms .numbers} (harms : ArmsRead (d + 2) arms) :
    Leads (Read.statement (grammar (d + 2)))
      (⟨.identifier "case", line, true⟩ :: ⟨.identifier subject.text, line, true⟩ ::
        ⟨.newline, line + 1, false⟩ :: (allSeen (line + 1) arms.rows ++ endSeen endLine after))
      after (IsReadAs line (.choice subject arms)) := by
  have hbreaks : Read.breaks (⟨.newline, line + 1, false⟩ ::
      (allSeen (line + 1) arms.rows ++ endSeen endLine after)) =
      allSeen (line + 1) arms.rows ++ endSeen endLine after := by
    obtain ⟨word, place, inner, hopens, -⟩ := opens_arms arms (line + 1) endLine after
    rw [hopens]
    exact Read.breaks_word word place true inner
  have hbranches : Leads (Read.arms (grammar (d + 2)) (Read.whenTurn (grammar (d + 2))) [])
      (Read.breaks (⟨.newline, line + 1, false⟩ ::
        (allSeen (line + 1) arms.rows ++ endSeen endLine after)))
      (endSeen endLine after) fun all => ∃ branches, all = branches.reverse ∧
        arms.AreReadAs (line + 1) branches := by
    rw [hbreaks]
    apply (harms [] (line + 1) endLine after).mono
    rintro _ ⟨branches, rfl, hall⟩
    exact ⟨branches, List.append_nil _, hall⟩
  have hrule : ∀ t, Read.wordOperand (grammar (d + 2)) t "case" true false =
      Read.caseStatement (grammar (d + 2)) := fun t => by simp [Read.wordOperand]
  have hcase := Read.leads_caseStatement line true (by simp [Seen.next])
    (Read.leads_expression_name (grammar (d + 1)) subject.free false line true
      (⟨.newline, line + 1, false⟩ :: _) rfl) hbranches
  apply (Read.leads_keyword_statement hrule (by decide) hcase hafter).mono
  rintro _ ⟨_, branches, extent, rfl, hline, rfl, hall⟩
  exact ⟨branches, extent, rfl, hline, hall⟩

end Compound

theorem allSeen_condition (negated : Bool) (test : Name) (body : List Sketch)
    (arms : Arms .conditions) (line : Nat) (rest : List Seen) :
    allSeen line (rows (.condition negated test body arms)) ++ rest =
      ⟨.identifier (conditionWord negated), line, true⟩ :: ⟨.identifier test.text, line, true⟩ ::
        ⟨.newline, line + 1, false⟩ :: (allSeen (line + 1) (blockRows body) ++
          (allSeen (line + 1 + (blockRows body).length) arms.rows ++
            endSeen (line + 1 + (blockRows body ++ arms.rows).length)
              (⟨.newline, line + 1 + (blockRows body ++ arms.rows).length + 1, false⟩ ::
                rest))) := by
  rw [rows, allSeen, List.append_assoc, List.cons_append, allSeen_closing, closed, allSeen_append,
    List.append_assoc]
  rfl

theorem allSeen_choice (subject : Name) (arms : Arms .numbers) (line : Nat) (rest : List Seen) :
    allSeen line (rows (.choice subject arms)) ++ rest =
      ⟨.identifier "case", line, true⟩ :: ⟨.identifier subject.text, line, true⟩ ::
        ⟨.newline, line + 1, false⟩ :: (allSeen (line + 1) arms.rows ++
          endSeen (line + 1 + arms.rows.length)
            (⟨.newline, line + 1 + arms.rows.length + 1, false⟩ :: rest)) := by
  rw [rows, allSeen, List.append_assoc, List.cons_append, allSeen_closing, closed]
  rfl

/-! ### Templates -/

/-- A statement is read when its tokens lead to its last line break. -/
theorem reads_of_leads {s : Sketch} (h : ∀ line rest, ∃ last, last = line + s.rows.length ∧
    Leads (Read.statement (grammar d)) (allSeen line s.rows ++ rest)
      (⟨.newline, last, false⟩ :: rest) (IsReadAs line s)) : layout.Reads (grammar d) s := by
  refine ⟨fun line => opens_allSeen line s, fun line rest => ?_⟩
  obtain ⟨last, rfl, hleads⟩ := h line rest
  exact hleads

mutual

/-- Every statement is read, with a grammar as deep as it has rows. -/
theorem reads : ∀ (s : Sketch) {d : Nat}, s.rows.length ≤ d → layout.Reads (grammar d) s
  | .property name, 0, h => by simp [rows] at h
  | .property name, d + 1, _ =>
    reads_of_leads fun line rest => ⟨_, rfl, leads_property name line rest⟩
  | .block enclosure name params body, d, h => by
    have hheight : (rows (.block enclosure name params body)).length =
        (blockRows body).length + 2 := by simp [rows]
    obtain ⟨depth, rfl⟩ : ∃ depth, d = depth + 1 := ⟨d - 1, by omega⟩
    have hbody := bodyReads body (show (blockRows body).length ≤ depth by omega)
    refine reads_of_leads fun line rest =>
      ⟨_, ?_, leads_block hbody enclosure name params line rest⟩
    omega
  | .condition negated test body arms, d, h => by
    have hheight : (rows (.condition negated test body arms)).length =
        (blockRows body ++ arms.rows).length + 2 := by simp [rows, Nat.add_assoc]
    have hparts : (blockRows body ++ arms.rows).length =
        (blockRows body).length + arms.rows.length := List.length_append
    obtain ⟨depth, rfl⟩ : ∃ depth, d = depth + 2 := ⟨d - 2, by omega⟩
    have hbody := bodyReads body (show (blockRows body).length ≤ depth + 1 by omega)
    have harms := armsRead arms (show arms.rows.length ≤ depth + 1 by omega)
    refine reads_of_leads fun line rest =>
      ⟨line + 1 + (blockRows body ++ arms.rows).length + 1, by omega, ?_⟩
    rw [allSeen_condition]
    exact leads_condition line _ rfl negated test hbody harms
  | .choice subject arms, d, h => by
    have hheight : (rows (.choice subject arms)).length = arms.rows.length + 2 := by simp [rows]
    obtain ⟨depth, rfl⟩ : ∃ depth, d = depth + 2 := ⟨d - 2, by omega⟩
    have harms := armsRead arms (show arms.rows.length ≤ depth + 1 by omega)
    refine reads_of_leads fun line rest => ⟨line + 1 + arms.rows.length + 1, by omega, ?_⟩
    rw [allSeen_choice]
    exact leads_choice line _ rfl subject harms

theorem bodyReads : ∀ (body : List Sketch) {d : Nat}, (blockRows body).length ≤ d →
    BodyReads d body
  | [], _, _ => by simp [BodyReads]
  | s :: rest, d, h => by
    rw [blockRows, List.length_append] at h
    have hfirst := reads s (show s.rows.length ≤ d by omega)
    have hrest := bodyReads rest (show (blockRows rest).length ≤ d by omega)
    exact List.forall_mem_cons.mpr ⟨hfirst, hrest⟩

theorem armsRead : ∀ {f : Fork} (arms : Arms f) {d : Nat}, arms.rows.length ≤ d + 1 →
    ArmsRead (d + 2) arms
  | f, .done, _, _ => armsRead_done f
  | f, .otherwise body, d, h => by
    rw [Arms.rows, List.length_cons] at h
    exact armsRead_otherwise f (bodyReads body (by omega))
  | _, .arm head body others, d, h => by
    rw [Arms.rows, List.length_cons, List.length_append] at h
    exact armsRead_arm head (bodyReads body (by omega)) (armsRead others (by omega))

end

theorem allComments_lines (margin : Nat → Nat) (line : Nat) (rows : List Row) :
    Line.allComments line (lines margin line rows) = [] := by
  induction rows generalizing line with
  | nil => rfl
  | cons r rest ih => exact ih (line + 1)

/-- The template of a sketch is read back: one node for every statement in order, on the line of its
header, with its parts inside, to any depth; and there are no comments. The numbers in front of arms
must not be too long. -/
theorem read_template (margin : Nat → Nat) (body : List Sketch) (hshort : areShort body) :
    ∃ t : ViewSchema.Template, Template.read (template margin body).toList = .ok t ∧
      AreReadAs 1 body t.body ∧ t.comments = {} := by
  have hread : ∀ depth, (Line.allSeen 1 (lines margin 1 (blockRows body))).length ≤ depth →
      Leads (Read.statements (grammar depth) [] none)
        (Line.allSeen 1 (lines margin 1 (blockRows body)) ++
          [⟨.newline, (lines margin 1 (blockRows body)).length + 1, false⟩]) []
        (AreReadAs 1 body) := by
    intro depth hdepth
    rw [allSeen_lines] at hdepth ⊢
    have hrows := Nat.le_trans (length_le_allSeen 1 (blockRows body)) hdepth
    exact leads_body (bodyReads body hrows) (by simp) (Read.closes_end rfl) rfl
  obtain ⟨t, hrun, hbody, hcomments⟩ := read_lines (fits_lines margin 1 hshort)
    (nest_blockRows margin body 1 rfl) hread
  rw [text_lines] at hrun
  rw [allComments_lines] at hcomments
  exact ⟨t, hrun, hbody, hcomments⟩

/-- A collection of posts, in each of which a block in braces stands beside a condition, and a
choice between numbers. -/
def nestedPosts : List Sketch :=
  let post : Name := ⟨"post", by decide, by decide⟩
  let title : Name := ⟨"title", by decide, by decide⟩
  let kind : Name := ⟨"kind", by decide, by decide⟩
  [.block .words ⟨"posts", by decide, by decide⟩ [post] [
      .block .braces ⟨"author", by decide, by decide⟩ [] [.property ⟨"name", by decide, by decide⟩],
      .condition true kind [.block .words title [] []]
        (.arm (f := .conditions) post [.property title] (.otherwise []))],
    .choice kind (.arm (f := .numbers) ⟨true, '1', ['0'], by decide⟩ [.property title]
      (.arm (f := .numbers) ⟨false, '2', [], by decide⟩ [] .done))]

theorem read_template_nestedPosts : areShort nestedPosts ∧
    ∃ t : ViewSchema.Template,
      Template.read (template (fun _ => 2) nestedPosts).toList = .ok t ∧
        AreReadAs 1 nestedPosts t.body ∧ t.comments = {} :=
  have hshort : areShort nestedPosts := by decide
  ⟨hshort, read_template (fun _ => 2) nestedPosts hshort⟩

end ViewSchema.Sketch
