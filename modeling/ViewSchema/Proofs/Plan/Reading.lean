import ViewSchema.Proofs.Plan.Lines
import ViewSchema.Proofs.Template.Body
import ViewSchema.Proofs.Template.Conditional
import ViewSchema.Proofs.Template.Phrase

/-!
Reading the template of a plan. Every part of the plan is read as one statement of the kind that
the part asks for, on the line below its comment, with the statements of its block as its body.
-/

namespace ViewSchema

open Template
open Template.Read (Leads)

namespace Plan

mutual

/-- How deep the statements of a part are nested. -/
def depth : Plan → Nat
  | .value .. => 1
  | .object _ body | .array _ body | .conditional body => blockDepth body + 1

/-- How deep the statements of a block are nested. -/
def blockDepth : List Plan → Nat
  | [] => 0
  | p :: rest => max (depth p) (blockDepth rest)

end

/-- The builder as it stands in front of a call. -/
def builderNode (line : Nat) : Node := Read.nameAt line "json"

def IsPropertyCall (name : PropertyName) (line : Nat) (c : Call) : Prop :=
  Read.IsCall (builderNode line) name.text (some (line : Int)) Read.ArePlain c

mutual

/-- The statement that a part becomes when its template starts on a line. -/
def IsReadAs (line : Nat) : Plan → Node → Prop
  | .value name _, n => ∃ c, n = .call c ∧ IsPropertyCall name (line + 1) c
  | .object name body, n => ∃ c params nodes extent, n = .block (.call c) params nodes extent ∧
      IsPropertyCall name (line + 1) c ∧ params.isEmpty = true ∧ AreReadAs (line + 2) body nodes
  | .array name body, n => ∃ c params nodes extent, n = .block (.call c) params nodes extent ∧
      IsPropertyCall name (line + 1) c ∧ params.isEmpty = false ∧ AreReadAs (line + 2) body nodes
  | .conditional body, n => ∃ keyword condition nodes extent,
      n = .conditional keyword condition [nodes] extent ∧
      extent.line = some ((line + 1 : Nat) : Int) ∧ AreReadAs (line + 2) body nodes

def AreReadAs (line : Nat) : List Plan → List Node → Prop
  | [], nodes => nodes = []
  | p :: rest, nodes => ∃ n others, nodes = n :: others ∧ IsReadAs line p n ∧
      AreReadAs (line + height p) rest others

end

/-- What is seen of a compound part: its opening statement, its block and its `end`. -/
theorem allSeen_compound (line indent : Nat) (said : List Char) (glyphs : List Glyph)
    (body : List Plan) :
    Line.allSeen line ([Line.comment indent said, Line.code indent glyphs] ++
        blockLines (indent + 2) body ++ [Line.code indent [.word false "end"]]) =
      Glyph.seen (line + 1) true glyphs ++ ⟨.newline, line + 2, false⟩ ::
        (Line.allSeen (line + 2) (blockLines (indent + 2) body) ++
          [⟨.identifier "end", line + 2 + blockHeight body, true⟩,
            ⟨.newline, line + 2 + blockHeight body + 1, false⟩]) := by
  have hline : line + ([Line.comment indent said, Line.code indent glyphs] ++
      blockLines (indent + 2) body).length = line + 2 + blockHeight body := by
    rw [List.length_append, length_blockLines]
    exact (Nat.add_assoc line 2 _).symm
  rw [Line.allSeen_append, Line.allSeen_append, hline]
  simp [Line.allSeen, Line.seen, Glyph.seen, Glyph.word]

theorem seen_callGlyphs (line : Nat) (name : PropertyName) (more : List Glyph) :
    Glyph.seen line true (callGlyphs name ++ more) =
      ⟨.identifier "json", line, true⟩ :: ⟨.operator ".", line, false⟩ ::
        ⟨.identifier name.text, line, false⟩ :: Glyph.seen line false more := rfl

/-- The template of a part opens with a word that closes no block. -/
theorem allSeen_lines (line indent : Nat) (p : Plan) : ∃ word inner,
    Line.allSeen line (p.lines indent) = ⟨.identifier word, line + 1, true⟩ :: inner ∧
      word ∈ ["json", "if"] ∧ inner ≠ [] := by
  cases p with
  | value name type => exact ⟨"json", _, rfl, by decide, by simp⟩
  | object name body =>
    rw [lines, allSeen_compound, seen_callGlyphs]
    exact ⟨"json", _, rfl, by decide, by simp⟩
  | array name body =>
    rw [lines, allSeen_compound, seen_callGlyphs]
    exact ⟨"json", _, rfl, by decide, by simp⟩
  | conditional body =>
    rw [lines, allSeen_compound]
    exact ⟨"if", _, rfl, by decide, by simp⟩

/-- The template of a block, in front of a word, opens with a word. -/
theorem next_blockLines (line indent : Nat) (plans : List Plan) (word : String) (place : Nat)
    (rest : List Seen) : ∃ first, Seen.next (Line.allSeen line (blockLines indent plans) ++
      ⟨.identifier word, place, true⟩ :: rest) = .identifier first := by
  cases plans with
  | nil => exact ⟨word, rfl⟩
  | cons p others =>
    obtain ⟨first, inner, hseen, -, -⟩ := allSeen_lines line indent p
    refine ⟨first, ?_⟩
    rw [blockLines, Line.allSeen_append, hseen]
    rfl

/-- The parts of a block as items that are read one behind the other. -/
def layout (indent : Nat) : Read.Layout Plan where
  height := height
  seen line p := Line.allSeen line (p.lines indent)
  IsReadAs := IsReadAs

theorem allSeen_layout (line indent : Nat) (plans : List Plan) :
    (layout indent).allSeen line plans = Line.allSeen line (blockLines indent plans) := by
  induction plans generalizing line with
  | nil => rfl
  | cons p rest ih =>
    rw [blockLines, Line.allSeen_append, length_lines, Read.Layout.allSeen, ih]
    rfl

theorem areReadAs_layout {indent : Nat} {plans : List Plan} {line : Nat} {nodes : List Node}
    (h : (layout indent).AreReadAs line plans nodes) : AreReadAs line plans nodes := by
  induction plans generalizing line nodes with
  | nil => exact h
  | cons p rest ih =>
    obtain ⟨n, others, rfl, hn, hothers⟩ := h
    exact ⟨n, others, rfl, hn, ih hothers⟩

theorem reads_of_leads {g : Grammar} {indent : Nat} {p : Plan} (h : ∀ line rest,
    Leads (Read.statement g) (Line.allSeen line (p.lines indent) ++ rest)
      (⟨.newline, line + p.height, false⟩ :: rest) (IsReadAs line p)) :
    (layout indent).Reads g p := by
  refine ⟨fun line => ?_, h⟩
  obtain ⟨word, inner, hseen, hword, hinner⟩ := allSeen_lines line indent p
  have hopeners : ["json", "if"] ⊆ Read.openers := by decide
  exact ⟨word, line + 1, true, inner, hseen, hopeners hword, hinner⟩

/-- A single value is read as a call with an argument. -/
theorem leads_value {d line indent : Nat} (name : PropertyName) (type : Scalar)
    (rest : List Seen) :
    Leads (Read.statement (grammar (d + 1)))
      (Line.allSeen line ((Plan.value name type).lines indent) ++ rest)
      (⟨.newline, line + 2, false⟩ :: rest) (IsReadAs line (.value name type)) := by
  apply (Read.leads_integer_statement name.text 1 (line + 1) rfl rfl rfl).mono
  rintro _ ⟨c, rfl, hc⟩
  refine ⟨c, rfl, hc.mono ?_⟩
  rintro _ ⟨n, rfl, hn⟩
  exact Read.arePlain_one hn.isPlain

section Compound

variable {d indent : Nat} {body : List Plan}
  (hbody : ∀ p ∈ body, (layout (indent + 2)).Reads (grammar d) p)

/-- What is seen of a block, its `end` and what follows. -/
def closedBlock (line indent : Nat) (body : List Plan) (rest : List Seen) : List Seen :=
  Line.allSeen line (blockLines indent body) ++
    ⟨.identifier "end", line + blockHeight body, true⟩ ::
      ⟨.newline, line + blockHeight body + 1, false⟩ :: rest

theorem allSeen_compound_append (line indent : Nat) (said : List Char) (glyphs : List Glyph)
    (body : List Plan) (rest : List Seen) :
    Line.allSeen line ([Line.comment indent said, Line.code indent glyphs] ++
        blockLines (indent + 2) body ++ [Line.code indent [.word false "end"]]) ++ rest =
      Glyph.seen (line + 1) true glyphs ++ ⟨.newline, line + 2, false⟩ ::
        closedBlock (line + 2) (indent + 2) body rest := by
  rw [allSeen_compound, closedBlock]
  simp

theorem length_closedBlock (line indent : Nat) (body : List Plan) (rest : List Seen) :
    rest.length + 2 ≤ (closedBlock line indent body rest).length := by
  rw [closedBlock, List.length_append, List.length_cons, List.length_cons]
  omega

/-- A block and its `end` open with a word. -/
theorem next_closedBlock (line indent : Nat) (body : List Plan) (rest : List Seen) :
    ∃ first, Seen.next (closedBlock line indent body rest) = .identifier first :=
  next_blockLines line indent body "end" (line + blockHeight body)
    (⟨.newline, line + blockHeight body + 1, false⟩ :: rest)

theorem breaks_closedBlock (line indent : Nat) (body : List Plan) (rest : List Seen) :
    Read.breaks (closedBlock line indent body rest) = closedBlock line indent body rest := by
  obtain ⟨first, hfirst⟩ := next_closedBlock line indent body rest
  apply Read.breaks_of_next
  · simp [hfirst]
  · simp [hfirst]

include hbody in
/-- The body of a compound statement, up to its `end`. -/
theorem leads_closedBlock (line : Nat) (words : List String)
    (hwords : ∀ word ∈ Read.openers, words.contains word = false) (hend : words.contains "end")
    {tokens rest : List Seen}
    (htokens : Read.breaks tokens = closedBlock (line + 2) (indent + 2) body rest) :
    Leads ((grammar (d + 1)).statements words none) tokens
      (⟨.identifier "end", line + 2 + blockHeight body, true⟩ ::
        ⟨.newline, line + 2 + blockHeight body + 1, false⟩ :: rest)
      (AreReadAs (line + 2) body) := by
  apply (Read.Layout.leads_statements hwords (Read.closes_word hend _ true _) hbody _).mono
  · exact fun _ => areReadAs_layout
  · rw [htokens, allSeen_layout]
    exact (breaks_closedBlock (line + 2) (indent + 2) body rest).symm

theorem breaks_newline (line : Nat) (spaced : Bool) (tokens : List Seen) :
    Read.breaks (⟨.newline, line, spaced⟩ :: tokens) = Read.breaks tokens := rfl

include hbody in
/-- An object is read as a call with a block. -/
theorem leads_object {line : Nat} (name : PropertyName) (rest : List Seen) :
    Leads (Read.statement (grammar (d + 1)))
      (Line.allSeen line ((Plan.object name body).lines indent) ++ rest)
      (⟨.newline, line + 2 + blockHeight body + 1, false⟩ :: rest)
      (IsReadAs line (.object name body)) := by
  obtain ⟨first, hfirst⟩ := next_closedBlock (line + 2) (indent + 2) body rest
  have hlength := length_closedBlock (line + 2) (indent + 2) body rest
  rw [lines, allSeen_compound_append, seen_callGlyphs]
  -- The block parameters are looked for behind the line break, at the first word of the body.
  have hparams : Leads (Read.blockParameters (grammar (d + 1)))
      (⟨.newline, line + 2, false⟩ :: closedBlock (line + 2) (indent + 2) body rest)
      (closedBlock (line + 2) (indent + 2) body rest) (·.isEmpty) := by
    apply Read.leads_blockParameters_none
    · rw [List.dropWhile_cons_of_pos rfl]
      exact Read.dropWhile_newline_of_next (by simp [hfirst])
    · rw [hfirst]
      rfl
  have hstatements := leads_closedBlock hbody line ["end"] (by decide)
    (by decide) (breaks_closedBlock (line + 2) (indent + 2) body rest)
  have hcall : ∀ start, Leads
      (Read.callOf (grammar (d + 1)) (some (builderNode (line + 1))) name.text
        (some ((line + 1 : Nat) : Int)) start true false)
      (⟨.identifier "do", line + 1, true⟩ :: ⟨.newline, line + 2, false⟩ ::
        closedBlock (line + 2) (indent + 2) body rest)
      (⟨.newline, line + 2 + blockHeight body + 1, false⟩ :: rest)
      (IsReadAs line (.object name body)) := by
    intro start
    apply Read.leads_callOf_bare rfl (Read.leads_atCommandArgument_do _ _)
    intro c hc
    apply (Read.leads_withBlock_do hparams hstatements).mono
    rintro _ ⟨params, nodes, extent, rfl, -, hempty, hnodes⟩
    refine ⟨c, params, nodes, extent, rfl, hc.mono ?_, hempty, hnodes⟩
    rintro _ rfl
    exact ⟨Nat.zero_le 1, by simp⟩
  apply Read.leads_call_statement keywords_json hcall _ rfl
  simp only [List.length_cons]
  omega

include hbody in
/-- An array is read as a call with an argument and a block that has a parameter. -/
theorem leads_array {line : Nat} (name : PropertyName) (rest : List Seen) :
    Leads (Read.statement (grammar (d + 1)))
      (Line.allSeen line ((Plan.array name body).lines indent) ++ rest)
      (⟨.newline, line + 2 + blockHeight body + 1, false⟩ :: rest)
      (IsReadAs line (.array name body)) := by
  have hlength := length_closedBlock (line + 2) (indent + 2) body rest
  rw [lines, allSeen_compound_append, seen_callGlyphs]
  have hstatements := leads_closedBlock hbody line ["end"] (by decide)
    (by decide) ((breaks_newline (line + 2) false _).trans
      (breaks_closedBlock (line + 2) (indent + 2) body rest))
  have hcall : ∀ start, Leads
      (Read.callOf (grammar (d + 1)) (some (builderNode (line + 1))) name.text
        (some ((line + 1 : Nat) : Int)) start true false)
      (⟨.instanceVariable "@xs", line + 1, true⟩ :: ⟨.identifier "do", line + 1, true⟩ ::
        ⟨.operator "|", line + 1, true⟩ :: ⟨.identifier "x", line + 1, false⟩ ::
        ⟨.operator "|", line + 1, false⟩ :: ⟨.newline, line + 2, false⟩ ::
        closedBlock (line + 2) (indent + 2) body rest)
      (⟨.newline, line + 2 + blockHeight body + 1, false⟩ :: rest)
      (IsReadAs line (.array name body)) := by
    intro start
    apply Read.leads_callOf_instanceVariable "@xs" (line + 1) (Seen.quiet_do _ _ _)
    intro c hc
    apply (Read.leads_withBlock_do (Read.leads_blockParameters_some (line + 1) [] _)
      hstatements).mono
    rintro _ ⟨params, nodes, extent, rfl, -, rfl, hnodes⟩
    refine ⟨c, _, nodes, extent, rfl, hc.mono ?_, rfl, hnodes⟩
    rintro _ rfl
    exact Read.arePlain_one rfl
  apply Read.leads_call_statement keywords_json hcall _ rfl
  simp only [List.length_cons]
  omega

include hbody in
/-- A conditional part is read as a conditional of one branch. -/
theorem leads_conditional {line : Nat} (rest : List Seen) :
    Leads (Read.statement (grammar (d + 1)))
      (Line.allSeen line ((Plan.conditional body).lines indent) ++ rest)
      (⟨.newline, line + 2 + blockHeight body + 1, false⟩ :: rest)
      (IsReadAs line (.conditional body)) := by
  rw [lines, allSeen_compound_append]
  have hword : keywords.contains "c" = false := by decide
  have hcondition := (Read.leads_expression_name (grammar d) hword true (line + 1) true
    (⟨.newline, line + 2, false⟩ :: closedBlock (line + 2) (indent + 2) body rest) rfl).mono
      fun _ _ => trivial
  have hfirst := leads_closedBlock hbody line ["elsif", "else", "end"]
    (by decide) (by decide) (breaks_closedBlock (line + 2) (indent + 2) body rest)
  have harms : ∀ first, AreReadAs (line + 2) body first →
      Leads (Read.arms (grammar (d + 1)) (Read.elsifTurn (grammar (d + 1))) [first])
        (⟨.identifier "end", line + 2 + blockHeight body, true⟩ ::
          ⟨.newline, line + 2 + blockHeight body + 1, false⟩ :: rest)
        (⟨.identifier "end", line + 2 + blockHeight body, true⟩ ::
          ⟨.newline, line + 2 + blockHeight body + 1, false⟩ :: rest)
        fun all => ∃ branches, all = branches.reverse ∧
          ∃ nodes, branches = [nodes] ∧ AreReadAs (line + 2) body nodes := by
    intro first hnodes
    apply Read.leads_arms_end (Read.leads_elsifTurn_finished rfl)
    apply (Read.leads_elseBranch_none rfl).mono
    rintro _ rfl
    exact ⟨[first], rfl, first, rfl, hnodes⟩
  have hrule : ∀ t, Read.wordOperand (grammar (d + 1)) t "if" true false =
      Read.ifStatement (grammar (d + 1)) := fun t => by simp [Read.wordOperand]
  rw [← (breaks_newline (line + 2) false _).trans
    (breaks_closedBlock (line + 2) (indent + 2) body rest)] at hfirst
  have hif := Read.leads_ifStatement (line + 1) true "if" hcondition rfl hfirst harms
  apply (Read.leads_keyword_statement hrule (by decide) hif rfl).mono
  rintro _ ⟨condition, _, extent, rfl, hline, -, nodes, rfl, hnodes⟩
  exact ⟨_, _, nodes, extent, rfl, hline, hnodes⟩

end Compound

theorem height_compound (line : Nat) (body : List Plan) :
    line + (blockHeight body + 3) = line + 2 + blockHeight body + 1 := by
  omega

mutual

/-- Every part is read as one statement, at any depth that is enough for it. -/
theorem leads_statement (indent : Nat) : ∀ (p : Plan) {d : Nat}, p.depth ≤ d →
    ∀ line rest, Leads (Read.statement (grammar d)) (Line.allSeen line (p.lines indent) ++ rest)
      (⟨.newline, line + p.height, false⟩ :: rest) (IsReadAs line p)
  | p, 0, hdepth => by
    cases p <;> simp only [depth] at hdepth <;> omega
  | .value name type, d + 1, _ => fun line rest => leads_value name type rest
  | .object name body, d + 1, hdepth => fun line rest => by
    have hbody := leads_statements (indent + 2) body (Nat.le_of_succ_le_succ hdepth)
    rw [height, height_compound]
    exact leads_object hbody name rest
  | .array name body, d + 1, hdepth => fun line rest => by
    have hbody := leads_statements (indent + 2) body (Nat.le_of_succ_le_succ hdepth)
    rw [height, height_compound]
    exact leads_array hbody name rest
  | .conditional body, d + 1, hdepth => fun line rest => by
    have hbody := leads_statements (indent + 2) body (Nat.le_of_succ_le_succ hdepth)
    rw [height, height_compound]
    exact leads_conditional hbody rest

theorem leads_statements (indent : Nat) : ∀ (plans : List Plan) {d : Nat}, blockDepth plans ≤ d →
    ∀ p ∈ plans, (layout indent).Reads (grammar d) p
  | [], _, _ => by simp
  | p :: others, d, hdepth => by
    have hfirst := leads_statement indent p (Nat.le_trans (Nat.le_max_left _ _) hdepth)
    have hothers := leads_statements indent others (Nat.le_trans (Nat.le_max_right _ _) hdepth)
    intro q hq
    rcases List.mem_cons.mp hq with rfl | hq
    · exact reads_of_leads hfirst
    · exact hothers q hq

end

mutual

/-- A part is not nested deeper than it has tokens. -/
theorem depth_le_length (line indent : Nat) :
    ∀ p : Plan, p.depth ≤ (Line.allSeen line (p.lines indent)).length
  | .value .. => Nat.le_add_left 1 _
  | .object _ body | .array _ body | .conditional body => by
    have hbody := blockDepth_le_length (line + 2) (indent + 2) body
    rw [lines, allSeen_compound]
    simp only [depth, List.length_append, List.length_cons]
    omega

theorem blockDepth_le_length (line indent : Nat) :
    ∀ plans : List Plan, blockDepth plans ≤ (Line.allSeen line (blockLines indent plans)).length
  | [] => Nat.le_refl 0
  | p :: rest => by
    have hfirst := depth_le_length line indent p
    have hrest := blockDepth_le_length (line + p.height) indent rest
    rw [blockLines, Line.allSeen_append, length_lines, List.length_append, blockDepth]
    omega

end

/-- The template of a plan is read: its statements are those the plan asks for, and its comments
are those of its lines. -/
theorem read_templates (plans : List Plan) : ∃ t : ViewSchema.Template,
    Template.read (templates 0 plans).toList = .ok t ∧ AreReadAs 1 plans t.body ∧
      t.comments.entries = Line.allComments 1 (blockLines 0 plans) ∧ t.comments.trailing = [] := by
  have hlength := blockDepth_le_length 1 0 plans
  -- The grammar is opened as deep as there are tokens, and no template is nested deeper.
  have hread : ∀ depth, (Line.allSeen 1 (blockLines 0 plans)).length ≤ depth →
      Leads (Read.statements (grammar depth) [] none)
        (Line.allSeen 1 (blockLines 0 plans) ++
          [⟨.newline, (blockLines 0 plans).length + 1, false⟩]) [] (AreReadAs 1 plans) := by
    intro depth hdepth
    rw [← allSeen_layout]
    exact (Read.Layout.leads_statements (by simp) (Read.closes_end rfl)
      (leads_statements 0 plans (Nat.le_trans hlength hdepth)) rfl).mono fun _ => areReadAs_layout
  have hfit := fits_blockLines 0 plans
  obtain ⟨t, hrun, hbody, hcomments⟩ := read_lines (fun l hl => (hfit l hl).1)
    (Line.nest_of_isFlat rfl fun l hl => (hfit l hl).2) hread
  rw [text_blockLines] at hrun
  exact ⟨t, hrun, hbody, congrArg Comments.entries hcomments, congrArg Comments.trailing hcomments⟩

end Plan
end ViewSchema
