import ViewSchema.Proofs.Template.Body
import ViewSchema.Proofs.Template.Operand
import ViewSchema.Proofs.Template.Phrase

/-!
Blocks whose parameters are names and keywords, with defaults or without. A default is read as an
expression, and the bar that closes the list is an operator of expressions: behind a default it is
taken for one, and the template is refused. In front of a comma a default is read as it stands.
-/

namespace ViewSchema.Template

/-- A parameter of a block as it is written, with a blank in front or without: a name or a keyword,
and a whole number that it stands for by default. -/
structure Parameter where
  gap : Bool
  name : LocalName
  keyword : Bool
  default? : Option WholeNumber

namespace Parameter

/-- The parameter behind its name. -/
def ending (keyword : Bool) : Option WholeNumber → List Char
  | none => if keyword then [':'] else []
  | some n => (if keyword then [':', ' '] else [' ', '=', ' ']) ++ n.chars

def chars (p : Parameter) : List Char :=
  (if p.gap then [' '] else []) ++ p.name.chars ++ ending p.keyword p.default?

def IsShort (p : Parameter) : Prop := ∀ n ∈ p.default?, n.IsShort

instance (p : Parameter) : Decidable p.IsShort :=
  inferInstanceAs (Decidable (∀ n ∈ p.default?, n.IsShort))

/-- Parameters with commas between them. -/
def listed : List Parameter → List Char
  | [] => []
  | [p] => p.chars
  | p :: others => p.chars ++ ',' :: listed others

/-- The last of some parameters has a default. -/
def lastHasDefault (params : List Parameter) : Bool :=
  params.getLast?.any fun p => p.default?.isSome

def glyphs (p : Parameter) : List Glyph :=
  match p.keyword, p.default? with
  | false, none => [.identifier p.gap p.name.toIdentifier]
  | false, some n =>
    .identifier p.gap p.name.toIdentifier :: .mark true "=" :: Glyph.whole true n
  | true, none => [.label p.gap p.name.toIdentifier]
  | true, some n => .label p.gap p.name.toIdentifier :: Glyph.whole true n

def listedGlyphs : List Parameter → List Glyph
  | [] => []
  | [p] => p.glyphs
  | p :: others => p.glyphs ++ .mark false "," :: listedGlyphs others

theorem text_glyphs (p : Parameter) : Glyph.text p.glyphs = p.chars := by
  obtain ⟨gap, name, keyword, default?⟩ := p
  have hname : Glyph.chars (.identifier gap name.toIdentifier) =
      (if gap then [' '] else []) ++ name.chars := rfl
  have hlabel : Glyph.chars (.label gap name.toIdentifier) =
      (if gap then [' '] else []) ++ name.chars ++ [':'] := by
    cases gap <;> simp [Glyph.chars, Glyph.label, Identifier.chars]
  have hcons : ∀ (g : Glyph) (others : List Glyph),
      Glyph.text (g :: others) = g.chars ++ Glyph.text others := fun _ _ => rfl
  have hmark : Glyph.chars (.mark true "=") = [' ', '='] := rfl
  have hnil : Glyph.text [] = [] := rfl
  cases keyword <;> cases default? with
  | none => simp [glyphs, chars, ending, hcons, hname, hlabel, hnil]
  | some n =>
    simp [glyphs, chars, ending, hcons, hname, hlabel, hmark, Glyph.text_whole]

theorem text_listedGlyphs (params : List Parameter) :
    Glyph.text (listedGlyphs params) = listed params := by
  induction params using listed.induct with
  | case1 => rfl
  | case2 p => exact text_glyphs p
  | case3 p others hothers ih =>
    have hcomma : Glyph.text (.mark false "," :: listedGlyphs others) =
        ',' :: Glyph.text (listedGlyphs others) := rfl
    rw [listedGlyphs, listed, Glyph.text_append, text_glyphs, hcomma, ih]
    · exact hothers
    · exact hothers

/-- A parameter is scanned in front of what ends it. -/
theorem allFollow_glyphs {p : Parameter} (hp : p.IsShort) {last : Option Lexeme} {spaced : Bool}
    (hlast : last.any (Lexeme.isOneOf [".", "&."]) = false) {others : List Glyph}
    {rest : List Char} (hrest : Lexer.endsValue (Glyph.text others ++ rest))
    (hothers : ∀ last, Glyph.AllFollow false last false others rest) :
    Glyph.AllFollow false last spaced (p.glyphs ++ others) rest := by
  obtain ⟨gap, name, keyword, default?⟩ := p
  have hwhole : ∀ n ∈ default?, ∀ last, Glyph.AllFollow false last false
      (Glyph.whole true n ++ others) rest := fun n hn last =>
    Glyph.allFollow_whole (hp n hn) (Lexer.endsNumber_of_endsValue hrest) hothers
  have hblank : ∀ n, (Glyph.text (Glyph.whole true n ++ others) ++ rest).head? = some ' ' := by
    intro n
    rw [Glyph.text_append, Glyph.text_whole]
    rfl
  rcases keyword with _ | _ <;> rcases default? with _ | n
  · exact ⟨Glyph.follows_identifier (Lexer.endsWord_of_endsValue hrest), hothers _⟩
  · have hequals : Lexer.endsOperator (Glyph.text (Glyph.whole true n ++ others) ++ rest) := by
      rw [Lexer.endsOperator, hblank n]
      rfl
    exact ⟨Glyph.follows_identifier rfl, Glyph.follows_mark_of_ends (by decide) hequals,
      hwhole n rfl _⟩
  · refine ⟨Glyph.follows_label hlast ?_, hothers _⟩
    obtain ⟨c, rest', hcons, hc⟩ := Lexer.exists_of_endsValue hrest
    show (Glyph.text others ++ rest).head? ≠ some ':'
    rw [hcons]
    rintro hcolon
    obtain rfl := Option.some.inj hcolon
    exact absurd hc (by decide)
  · refine ⟨Glyph.follows_label hlast ?_, hwhole n rfl _⟩
    show (Glyph.text (Glyph.whole true n ++ others) ++ rest).head? ≠ some ':'
    rw [hblank n]
    decide

/-- A parameter opens with its name, with a blank in front or without. -/
theorem exists_cons_glyphs (p : Parameter) :
    ∃ g others, p.glyphs = g :: others ∧ g.first = p.name.first := by
  obtain ⟨gap, name, keyword, default?⟩ := p
  cases keyword <;> cases default? <;> exact ⟨_, _, rfl, rfl⟩

theorem isEmpty_glyphs (p : Parameter) : p.glyphs.isEmpty = false := by
  obtain ⟨g, others, hglyphs, -⟩ := p.exists_cons_glyphs
  rw [hglyphs]
  rfl

theorem isFlat_glyphs (p : Parameter) : ∀ g ∈ p.glyphs, g.IsFlat := by
  obtain ⟨gap, name, keyword, default?⟩ := p
  have hname : (Glyph.identifier gap name.toIdentifier).IsFlat := fun _ => rfl
  have hlabel : (Glyph.label gap name.toIdentifier).IsFlat := fun _ => rfl
  have hequals : (Glyph.mark true "=").IsFlat := fun _ => rfl
  cases keyword <;> cases default? with
  | none => simp [glyphs, hname, hlabel]
  | some n => simpa [glyphs, hname, hlabel, hequals] using Glyph.isFlat_whole true n

theorem isFlat_listedGlyphs (params : List Parameter) : ∀ g ∈ listedGlyphs params, g.IsFlat := by
  induction params using listedGlyphs.induct with
  | case1 => simp [listedGlyphs]
  | case2 p => exact isFlat_glyphs p
  | case3 p others hothers ih =>
    have hcomma : (Glyph.mark false ",").IsFlat := fun _ => rfl
    rw [listedGlyphs]
    · simp only [List.mem_append, List.mem_cons]
      rintro g (hg | rfl | hg)
      · exact isFlat_glyphs p g hg
      · exact hcomma
      · exact ih g hg
    · exact hothers

/-- A list of parameters is scanned in front of its closing bar. -/
theorem allFollow_listedGlyphs {params : List Parameter} (hshort : ∀ p ∈ params, p.IsShort)
    {last : Option Lexeme} {spaced : Bool}
    (hlast : last.any (Lexeme.isOneOf [".", "&."]) = false) (rest : List Char) :
    Glyph.AllFollow false last spaced (listedGlyphs params ++ [.mark false "|"])
      ('\n' :: rest) := by
  have hbar : ∀ last spaced,
      Glyph.AllFollow false last spaced [.mark false "|"] ('\n' :: rest) := fun _ _ =>
    ⟨Glyph.follows_mark_of_ends (by decide) rfl, trivial⟩
  induction params using listedGlyphs.induct generalizing last spaced with
  | case1 => exact hbar last spaced
  | case2 p =>
    exact allFollow_glyphs (hshort p List.mem_cons_self) hlast rfl fun last => hbar last false
  | case3 p others hothers ih =>
    rw [listedGlyphs, List.append_assoc, List.cons_append]
    · exact allFollow_glyphs (hshort p List.mem_cons_self) hlast rfl fun last =>
        ⟨Glyph.follows_mark (by decide), ih (fun q hq => hshort q (List.mem_cons_of_mem _ hq)) rfl⟩
    · exact hothers

end Parameter

namespace Read

variable {F : Faults} {g : Grammar} {line : Nat} {spaced : Bool} {params : List String}
  {after final : List Seen} {P : List String → Prop}

/-- What comes next ends a parameter. -/
def closesParameter (tokens : List Seen) : Bool := (Seen.next tokens).isOneOf [",", "|"]

/-- A keyword with its default, or without one where the parameter ends. -/
theorem ends_parameterTurn_label {word : String} {before : List Seen} {Q : Prop}
    (hdefault : closesParameter before = false →
      Ends (fun _ => True) F (g.ternary false true) before after fun _ => Q)
    (hnone : closesParameter before → before = after ∧ Q) :
    Ends (fun _ => True) F (blockParameterTurn g params)
      (⟨.label word, line, spaced⟩ :: before) after
      fun turn => ∃ next, turn = .again next ∧ next = word :: params ∧ Q := by
  apply Ends.noOperator rfl
  apply (ends_advance _ before).bind
  intro t ht
  have hlexeme : t.lexeme = .label word := ht.1.1
  simp only [hlexeme]
  apply (ends_atOperator [",", "|"] before).bind
  rintro _ rfl
  cases hcloses : (Seen.next before).isOneOf [",", "|"] with
  | false =>
    simp only [Bool.not_false, if_true]
    apply (hdefault hcloses).bind
    intro _ hQ
    exact (ends_pure _ after).mono fun _ h => ⟨_, h, rfl, hQ⟩
  | true =>
    obtain ⟨rfl, hQ⟩ := hnone hcloses
    simp only [Bool.not_true, Bool.false_eq_true, if_false]
    exact (ends_pure _ before).mono fun _ h => ⟨_, h, rfl, hQ⟩

/-- The default of a parameter that is no keyword. -/
theorem ends_parameterTurn_equals {before : List Seen} {Q : Prop}
    (hdefault : Ends (fun _ => True) F (g.ternary false true) before after fun _ => Q) :
    Ends (fun _ => True) F (blockParameterTurn g params)
      (⟨.operator "=", line, spaced⟩ :: before) after
      fun turn => ∃ next, turn = .again next ∧ next = params ∧ Q := by
  apply Ends.noOperator (by simp [Seen.next, Lexeme.isOneOf])
  apply (ends_advance _ before).bind
  intro t ht
  have hlexeme : t.lexeme = .operator "=" := ht.1.1
  simp only [hlexeme]
  apply hdefault.bind
  intro _ hQ
  exact (ends_pure _ after).mono fun _ h => ⟨_, h, rfl, hQ⟩

/-- A parameter is read up to what ends it, if its default is, and the others behind it. -/
theorem ends_parameter (p : Parameter) {Q : Prop} (hafter : closesParameter after)
    (hdefault : ∀ n ∈ p.default?, Ends (fun _ => True) F (g.ternary false true)
      (Glyph.seen line false (Glyph.whole true n) ++ after) after fun _ => Q)
    (hnone : p.default? = none → Q)
    (hrest : Q → Ends (fun _ => True) F
      (repeated (blockParameterTurn g) (p.name.text :: params)) after final P) :
    Ends (fun _ => True) F (repeated (blockParameterTurn g) params)
      (Glyph.seen line spaced p.glyphs ++ after) final P := by
  obtain ⟨gap, name, keyword, default?⟩ := p
  have hopen : ∀ n, closesParameter (Glyph.seen line false (Glyph.whole true n) ++ after) =
      false := by
    intro n
    rw [Glyph.whole]
    cases n.negative <;> rfl
  rcases keyword with _ | _ <;> rcases default? with _ | n
  · apply Ends.again (leads_parameterTurn_name params after).ends (Nat.lt_succ_self _)
    rintro _ rfl
    exact hrest (hnone rfl)
  · have hshorter : after.length <
        (Glyph.seen line false (Glyph.whole true n) ++ after).length + 1 := by
      rw [List.length_append]
      omega
    apply Ends.again (leads_parameterTurn_name params _).ends (Nat.lt_succ_self _)
    rintro _ rfl
    apply Ends.again (ends_parameterTurn_equals (hdefault n rfl)) hshorter
    rintro _ ⟨rfl, hQ⟩
    exact hrest hQ
  · have hclosed : closesParameter after → after = after ∧ Q := fun _ => ⟨rfl, hnone rfl⟩
    refine Ends.again (ends_parameterTurn_label ?_ hclosed) (Nat.lt_succ_self _) ?_
    · intro hno
      exact absurd (hafter.symm.trans hno) (by decide)
    · rintro _ ⟨rfl, hQ⟩
      exact hrest hQ
  · have hshorter : after.length <
        (Glyph.seen line false (Glyph.whole true n) ++ after).length + 1 := by
      rw [List.length_append]
      omega
    apply Ends.again (ends_parameterTurn_label (fun _ => hdefault n rfl)
      (fun hcloses => by rw [hopen n] at hcloses; cases hcloses)) hshorter
    rintro _ ⟨rfl, hQ⟩
    exact hrest hQ

section List

variable {d endLine : Nat} {rest : List Seen} (names : List String) (p : Parameter)

/-- In front of a comma a parameter is read, with its default if it has one. -/
theorem ends_parameter_comma
    (hrest : Ends (fun _ => True) F (repeated (blockParameterTurn (grammar (d + 2)))
      (p.name.text :: names)) rest final P) :
    Ends (fun _ => True) F (repeated (blockParameterTurn (grammar (d + 2))) names)
      (Glyph.seen line spaced p.glyphs ++ ⟨.operator ",", line, false⟩ :: rest) final P := by
  refine ends_parameter (Q := True) p rfl (fun n _ => ?_) (fun _ => trivial) fun _ => ?_
  · exact ((ends_unary_whole n rfl).ternary rfl).mono fun _ _ => trivial
  · apply Ends.again (leads_parameterTurn_comma _ rest).ends (Nat.lt_succ_self _)
    rintro _ rfl
    exact hrest

/-- In front of the closing bar a parameter is read if it has no default. -/
theorem ends_parameter_bar (hF : p.default?.isSome → F .strayToken .newline endLine) :
    Ends (fun _ => True) F (repeated (blockParameterTurn (grammar (d + 2))) names)
      (Glyph.seen line spaced p.glyphs ++
        ⟨.operator "|", line, false⟩ :: ⟨.newline, endLine, false⟩ :: rest)
      (⟨.newline, endLine, false⟩ :: rest)
      fun found => p.default? = none ∧ found = p.name.text :: names := by
  refine ends_parameter p rfl (fun n hn => ?_) id fun hnone => ?_
  · have hsome : p.default?.isSome := by rw [Option.mem_def.mp hn]; rfl
    exact .ternary_bar (ends_unary_whole n rfl) (hF hsome)
  · apply Ends.finish
    apply Ends.onOperator (by simp [Seen.next, Lexeme.isOneOf])
    apply (ends_advance _ _).bind
    intro _ _
    exact (ends_pure _ _).mono fun _ h => ⟨_, h, hnone, rfl⟩

end List

/-- A list of parameters is read up to its closing bar, if the last one has no default. -/
theorem ends_parameters {d : Nat} (these : List Parameter) (hne : these ≠ [])
    (hF : Parameter.lastHasDefault these → F .strayToken .newline (line + 1))
    (names : List String) (rest : List Seen) :
    Ends (fun _ => True) F (repeated (blockParameterTurn (grammar (d + 2))) names)
      (Glyph.seen line spaced (Parameter.listedGlyphs these ++ [.mark false "|"]) ++
        ⟨.newline, line + 1, false⟩ :: rest)
      (⟨.newline, line + 1, false⟩ :: rest)
      fun found => Parameter.lastHasDefault these = false ∧
        found = (these.map fun p => p.name.text).reverse ++ names := by
  induction these using Parameter.listedGlyphs.induct generalizing names spaced with
  | case1 => exact absurd rfl hne
  | case2 p =>
    have hglyphs : p.glyphs.isEmpty = false := p.isEmpty_glyphs
    rw [Parameter.listedGlyphs, Glyph.seen_append, hglyphs, Bool.and_false, List.append_assoc]
    apply (ends_parameter_bar names p hF).mono
    rintro _ ⟨hnone, rfl⟩
    simp [Parameter.lastHasDefault, hnone]
  | case3 p others hothers ih =>
    have hne : others ≠ [] := fun h => hothers h
    have hlast : Parameter.lastHasDefault (p :: others) = Parameter.lastHasDefault others := by
      rw [Parameter.lastHasDefault, Parameter.lastHasDefault, List.getLast?_cons_of_ne_nil hne]
    rw [hlast] at hF ⊢
    rw [Parameter.listedGlyphs, List.append_assoc, Glyph.seen_append, p.isEmpty_glyphs,
      Bool.and_false, List.append_assoc, List.cons_append]
    · apply ends_parameter_comma
      apply (ih hne hF (p.name.text :: names)).mono
      rintro _ ⟨hnone, rfl⟩
      exact ⟨hnone, by simp⟩
    · exact hothers

/-- The parameters of a block are read up to the end of their line, if the last one has no
default. -/
theorem ends_blockParameters {d : Nat} (these : List Parameter) (hne : these ≠ [])
    (hF : Parameter.lastHasDefault these → F .strayToken .newline (line + 1))
    (rest : List Seen) :
    Ends (fun _ => True) F (blockParameters (grammar (d + 2)))
      (⟨.operator "|", line, true⟩ ::
        (Glyph.seen line false (Parameter.listedGlyphs these ++ [.mark false "|"]) ++
          ⟨.newline, line + 1, false⟩ :: rest))
      (⟨.newline, line + 1, false⟩ :: rest)
      fun found => Parameter.lastHasDefault these = false ∧
        found = these.map fun p => p.name.text := by
  apply (ends_skipNewlines _).bind
  intro _ _
  apply Ends.noOperator (by simp [Seen.next, Lexeme.isOneOf])
  apply Ends.onOperator (by simp [Seen.next, Lexeme.isOneOf])
  apply (ends_advance _ _).bind
  intro _ _
  apply (ends_parameters these hne hF [] rest).bind_pure.mono
  rintro _ ⟨_, ⟨hnone, rfl⟩, rfl⟩
  exact ⟨hnone, by simp⟩

end Read

/-! ### Blocks over a collection -/

/-- The line of a call on the builder. -/
def callLine (m : LocalName) : List Char := "json.".toList ++ m.chars ++ " 1\n".toList

/-- A call on the builder with a block over a collection: its parameters, and a body of calls. -/
def blockText (params : List Parameter) (body : List LocalName) : List Char :=
  "json.n @xs do |".toList ++ Parameter.listed params ++ "|\n".toList ++
    body.flatMap callLine ++ "end".toList

def callGlyphs (m : LocalName) : List Glyph :=
  [.word false "json", .mark false ".", .identifier false m.toIdentifier, .one]

/-- The glyphs of the line with the parameters. -/
def headerGlyphs (params : List Parameter) : List Glyph :=
  .word false "json" :: .dot :: .word false "n" :: .variableOf "xs" :: .word true "do" ::
    .mark true "|" :: (Parameter.listedGlyphs params ++ [.mark false "|"])

theorem text_callGlyphs (m : LocalName) :
    Glyph.text (callGlyphs m) ++ ['\n'] = callLine m := by
  have hword : Glyph.text (callGlyphs m) =
      "json.".toList ++ (m.chars ++ ([' ', '1'] ++ [])) := rfl
  have hend : " 1\n".toList = [' ', '1', '\n'] := rfl
  rw [hword, callLine, hend]
  simp

theorem text_headerGlyphs (params : List Parameter) :
    Glyph.text (headerGlyphs params) =
      "json.n @xs do |".toList ++ Parameter.listed params ++ ['|'] := by
  have hopening : Glyph.text (headerGlyphs params) = "json.n @xs do |".toList ++
      Glyph.text (Parameter.listedGlyphs params ++ [.mark false "|"]) := rfl
  rw [hopening, Glyph.text_append, Parameter.text_listedGlyphs, List.append_assoc]
  rfl

/-- The calls of a body, on one line each. -/
def callLayout : Read.Layout LocalName where
  height _ := 1
  seen line m := Glyph.seen line true (callGlyphs m) ++ [⟨.newline, line + 1, false⟩]
  IsReadAs line m n := ∃ c, n = .call c ∧
    Read.IsCall (Read.nameAt line "json") m.text (some (line : Int))
      (fun args => ∃ one, args = [one] ∧ Read.IsInteger 1 one) c

theorem reads_callLayout (d : Nat) (m : LocalName) : callLayout.Reads (grammar (d + 1)) m where
  opens line := ⟨"json", line, true, _, rfl, by decide, by simp⟩
  reads line rest :=
    have hquiet : Seen.quiet (⟨.newline, line + 1, false⟩ :: rest) := rfl
    Read.leads_integer_statement m.text 1 line hquiet rfl rfl

theorem allFollow_callGlyphs (m : LocalName) (last : Option Lexeme) (rest : List Char) :
    Glyph.AllFollow true last true (callGlyphs m) ('\n' :: rest) := by
  have hdot : Lexer.endsOperator (Glyph.text [.identifier false m.toIdentifier, .one] ++
      '\n' :: rest) := by
    have hfirst : m.first ∉ Lexer.lengthening := Identifier.first_not_mem (by decide)
    rw [Lexer.endsOperator, Glyph.head?_text_cons]
    simpa [Glyph.identifier] using hfirst
  exact ⟨(Glyph.fits_word false (by decide) rfl).opens (by decide) (by decide),
    Glyph.follows_mark_of_ends (by decide) hdot, Glyph.follows_identifier rfl,
    (Glyph.fits_one rest).follows (by decide), trivial⟩

theorem endsOperator_listed {params : List Parameter} (hne : params ≠ []) (rest : List Char) :
    Lexer.endsOperator (Glyph.text (Parameter.listedGlyphs params ++ [.mark false "|"]) ++ rest) =
      true := by
  have hopens : ∀ (p : Parameter) (others : List Glyph),
      Lexer.endsOperator (Glyph.text (p.glyphs ++ others) ++ rest) := by
    intro p others
    have hname : p.name.first ∉ Lexer.lengthening := Identifier.first_not_mem (by decide)
    obtain ⟨g, more, hglyphs, hfirst⟩ := p.exists_cons_glyphs
    rw [hglyphs, List.cons_append, Lexer.endsOperator, Glyph.head?_text_cons, hfirst]
    cases g.gap with
    | true => rfl
    | false => simpa using hname
  cases params with
  | nil => exact absurd rfl hne
  | cons p others =>
    cases others with
    | nil => exact hopens p _
    | cons q others =>
      rw [Parameter.listedGlyphs, List.append_assoc]
      · exact hopens p _
      · exact List.cons_ne_nil q others

theorem allFollow_headerGlyphs {params : List Parameter} (hne : params ≠ [])
    (hshort : ∀ p ∈ params, p.IsShort) (rest : List Char) :
    Glyph.AllFollow true none true (headerGlyphs params) ('\n' :: rest) :=
  ⟨(Glyph.fits_word false (by decide) rfl).opens (by decide) (by decide),
    (Glyph.fits_dot rfl).follows (by decide),
    (Glyph.fits_word false (by decide) rfl).follows (by decide),
    (Glyph.fits_variableOf (by decide) rfl).follows (by decide),
    (Glyph.fits_word true (by decide) rfl).follows (by decide),
    Glyph.follows_mark_of_ends (by decide) (endsOperator_listed hne _),
    Parameter.allFollow_listedGlyphs hshort rfl rest⟩

/-- The lines of a body are scanned up to the word that ends it. -/
theorem Scan.run_callLines {body : List LocalName} {s : Scan} {line : Nat} {seen : List Seen}
    (h : s.Amid line true true seen [])
    (hs : s.ahead = body.flatMap callLine ++ "end".toList) :
    ∃ t : Scan, s.run = t.run ∧ t.ahead = "end".toList ∧
      t.Amid (line + body.length) true true (seen ++ callLayout.allSeen line body) [] := by
  induction body generalizing s line seen with
  | nil => exact ⟨s, rfl, hs, by simpa [Read.Layout.allSeen] using h⟩
  | cons m others ih =>
    have hahead : s.ahead = Glyph.text (callGlyphs m) ++
        '\n' :: (others.flatMap callLine ++ "end".toList) := by
      rw [hs, List.flatMap_cons, ← text_callGlyphs, List.append_assoc, List.append_assoc]
      rfl
    obtain ⟨t, hrun, htahead, ht⟩ := run_follows h (allFollow_callGlyphs m _ _) rfl hahead
    have hlast : Seen.last? (seen ++ Glyph.seen line true (callGlyphs m)) =
        some (.integer (Numeral.ofDigits ['1'])) := by
      simp [Seen.last?, callGlyphs, Glyph.seen, Glyph.one, Glyph.digits]
    have hrest : opensWithDot false (others.flatMap callLine ++ "end".toList) = false := by
      cases others <;> rfl
    obtain ⟨u, hrunu, huahead, hu⟩ := run_lineEnd ht hlast (by simp) rfl htahead hrest
    obtain ⟨v, hrunv, hvahead, hv⟩ := ih hu huahead
    refine ⟨v, hrun.trans (hrunu.trans hrunv), hvahead, ?_⟩
    have hlines : line + (m :: others).length = line + 1 + others.length := by
      rw [List.length_cons]
      omega
    rw [hlines]
    simpa [Read.Layout.allSeen, callLayout] using hv

/-- The tokens of a block over a collection. -/
def blockSeen (params : List Parameter) (body : List LocalName) : List Seen :=
  Glyph.seen 1 true (headerGlyphs params) ++ [⟨.newline, 2, false⟩] ++
    callLayout.allSeen 2 body ++ [⟨.identifier "end", 2 + body.length, true⟩]

theorem Scan.run_blockText {params : List Parameter} (hne : params ≠ [])
    (hshort : ∀ p ∈ params, p.IsShort) (body : List LocalName) :
    ∃ s : Scan, (Scan.start (blockText params body)).run = s.run ∧ s.ahead = [] ∧
      s.Amid (2 + body.length) false false (blockSeen params body) [] := by
  have htext : (Scan.start (blockText params body)).ahead =
      Glyph.text (headerGlyphs params) ++ '\n' :: (body.flatMap callLine ++ "end".toList) := by
    have hbar : "|\n".toList = ['|', '\n'] := rfl
    show blockText params body = _
    unfold blockText
    rw [text_headerGlyphs, hbar]
    simp only [List.append_assoc, List.cons_append, List.nil_append]
  have hnested : Glyph.allNested [] (headerGlyphs params) = .ok [] := by
    have hopening : headerGlyphs params = ([.word false "json", .dot, .word false "n",
        .variableOf "xs", .word true "do", .mark true "|"] : List Glyph) ++
          (Parameter.listedGlyphs params ++ [.mark false "|"]) := rfl
    rw [hopening, Glyph.allNested_flat (by simp [Glyph.nested, Glyph.word, Glyph.dot, Glyph.sign,
      Glyph.variableOf, Glyph.mark, Scan.nested]),
      Glyph.allNested_flat (Parameter.isFlat_listedGlyphs params)]
    rfl
  obtain ⟨s, hrun, hahead, hs⟩ := run_follows (amid_start (blockText params body))
    (allFollow_headerGlyphs hne hshort _) hnested htext
  have hlast : Seen.last? (Glyph.seen 1 true (headerGlyphs params)) = some (.operator "|") := by
    have hbehind : headerGlyphs params = (.word false "json" :: .dot :: .word false "n" ::
        .variableOf "xs" :: .word true "do" :: .mark true "|" ::
          Parameter.listedGlyphs params) ++ [.mark false "|"] := rfl
    rw [hbehind, Glyph.seen_append]
    exact Seen.last?_concat _ _
  have hrest : opensWithDot false (body.flatMap callLine ++ "end".toList) = false := by
    cases body <;> rfl
  obtain ⟨t, hrunt, htahead, ht⟩ := run_lineEnd hs hlast (by simp) rfl hahead hrest
  obtain ⟨u, hrunu, huahead, hu⟩ := run_callLines ht htahead
  have hend : Glyph.AllFollow true (Seen.last? (Glyph.seen 1 true (headerGlyphs params) ++
      [⟨.newline, 1 + 1, false⟩] ++ callLayout.allSeen (1 + 1) body)) true
        [.word false "end"] [] :=
    ⟨(Glyph.fits_word false (by decide) rfl).opens (by decide) (by decide), trivial⟩
  obtain ⟨v, hrunv, hvahead, hv⟩ := run_follows hu hend rfl
    (huahead.trans (List.append_nil _).symm)
  exact ⟨v, hrun.trans (hrunt.trans (hrunu.trans hrunv)), hvahead, hv⟩

/-- A block over a collection, by its parameters and its body of calls. -/
def IsBlockOver (params : List Parameter) (body : List LocalName) (n : Node) : Prop :=
  ∃ c, Read.IsCall (Read.nameAt 1 "json") "n" (some 1) (· = [Read.nameAt 1 "@xs"]) c ∧
    Read.IsBlock c (· = params.map fun p => p.name.text) (callLayout.AreReadAs 2 body) n

section Block

variable {F : Read.Faults} {params : List Parameter} {body : List LocalName}

theorem Read.ends_block_statement {d : Nat} (hne : params ≠ [])
    (hF : Parameter.lastHasDefault params → F .strayToken .newline 2) {after : List Seen}
    (hafter : Seen.quiet after) :
    Ends (fun _ => True) F (statement (grammar (d + 2))) (blockSeen params body ++ after) after
      fun n => Parameter.lastHasDefault params = false ∧ IsBlockOver params body n := by
  obtain ⟨rest, hrest⟩ : ∃ rest, rest = callLayout.allSeen 2 body ++
    ⟨.identifier "end", 2 + body.length, true⟩ :: after := ⟨_, rfl⟩
  have hseen : blockSeen params body ++ after =
      ⟨.identifier "json", 1, true⟩ :: ⟨.operator ".", 1, false⟩ :: ⟨.identifier "n", 1, false⟩ ::
        ⟨.instanceVariable "@xs", 1, true⟩ :: ⟨.identifier "do", 1, true⟩ ::
          ⟨.operator "|", 1, true⟩ ::
            (Glyph.seen 1 false (Parameter.listedGlyphs params ++ [.mark false "|"]) ++
              ⟨.newline, 2, false⟩ :: rest) := by
    rw [blockSeen, hrest]
    simp [headerGlyphs, Glyph.seen, Glyph.word, Glyph.dot, Glyph.sign, Glyph.variableOf, Glyph.mark]
  have hquiet : Seen.quiet (⟨.identifier "do", 1, true⟩ :: ⟨.operator "|", 1, true⟩ ::
      (Glyph.seen 1 false (Parameter.listedGlyphs params ++ [.mark false "|"]) ++
        ⟨.newline, 2, false⟩ :: rest)) := Seen.quiet_do _ _ _
  have hbody : Ends (fun _ => True) F ((grammar (d + 2)).statements ["end"] none)
      (⟨.newline, 2, false⟩ :: rest) (⟨.identifier "end", 2 + body.length, true⟩ :: after)
      (callLayout.AreReadAs 2 body) :=
    (Layout.leads_statements (by decide) (closes_word (by decide) _ _ _)
      (fun m _ => reads_callLayout d m) (hrest ▸ rfl)).ends
  rw [hseen]
  apply ends_call_statement keywords_json _ _ hafter
  · intro start
    apply ends_callOf_instanceVariable "@xs" 1 hquiet
    intro c hc
    apply (ends_withBlock_do (ends_blockParameters params hne hF rest) hbody).mono
    rintro n ⟨found, nodes, extent, rfl, hextent, ⟨hlast, rfl⟩, hnodes⟩
    exact ⟨hlast, c, hc, _, nodes, extent, rfl, hextent, rfl, hnodes⟩
  · simp [hrest]
    omega

end Block

/-- A block over a collection is read with its parameters in order and all the calls of its body,
unless the last parameter has a default: then the bar behind it is taken for an operator, and the
text is refused where the line ends. -/
theorem read_blockText {params : List Parameter} (hne : params ≠ [])
    (hshort : ∀ p ∈ params, p.IsShort) (body : List LocalName) :
    (Parameter.lastHasDefault params = false →
      ∃ (t : ViewSchema.Template) (n : Node), read (blockText params body) = .ok t ∧
        t.body = [n] ∧ IsBlockOver params body n) ∧
    (Parameter.lastHasDefault params →
      read (blockText params body) = .error (.grammar .strayToken .newline 2)) := by
  obtain ⟨s, hrun, hahead, hs⟩ := Scan.run_blockText hne hshort body
  have hread := read_of_amid hrun hs hahead (T := fun _ => True) (fun _ _ => trivial)
    (F := fun fault found line => Parameter.lastHasDefault params ∧ fault = .strayToken ∧
      found = .newline ∧ line = 2)
    (P := fun nodes => ∃ n, nodes = [n] ∧ Parameter.lastHasDefault params = false ∧
      IsBlockOver params body n) fun depth hdepth => ?_
  · rcases hread with ⟨t, ht, n, hbody, hlast, hn⟩ | ⟨fault, found, line, herror, hlast, hfault⟩
    · refine ⟨fun _ => ⟨t, n, ht, hbody, hn⟩, fun hdefault => ?_⟩
      rw [hlast] at hdefault
      cases hdefault
    · obtain ⟨rfl, rfl, rfl⟩ := hfault
      refine ⟨fun hnone => ?_, fun _ => herror⟩
      rw [hlast] at hnone
      cases hnone
  · have hcount : 2 ≤ (blockSeen params body).length := by
      simp only [blockSeen, headerGlyphs, Glyph.seen, List.length_append, List.length_cons]
      omega
    obtain ⟨d, rfl⟩ := Nat.exists_eq_add_of_le' (Nat.le_trans hcount hdepth)
    exact Read.ends_statements_one (Read.ends_block_statement hne (fun h => ⟨h, rfl, rfl, rfl⟩) rfl)
      (List.cons_ne_nil _ _)

/-- The parameter `p`, with a blank in front or without, and with a default or without. -/
def parameterP (gap : Bool) (default? : Option WholeNumber) : Parameter :=
  ⟨gap, ⟨⟨'p', [], Eq.refl true, Eq.refl true⟩, Eq.refl false⟩, false, default?⟩

/-- The keyword `k` with the default -1. -/
def keywordK : Parameter :=
  ⟨false, ⟨⟨'k', [], Eq.refl true, Eq.refl true⟩, Eq.refl false⟩, true,
    some ⟨true, '1', [], Eq.refl true, Eq.refl true⟩⟩

def nameM : LocalName := ⟨⟨'m', [], Eq.refl true, Eq.refl true⟩, Eq.refl false⟩

theorem read_blockText_defaultFirst :
    ∃ (t : ViewSchema.Template) (n : Node),
      read "json.n @xs do |k: -1, p|\njson.m 1\nend".toList = .ok t ∧ t.body = [n] ∧
        IsBlockOver [keywordK, parameterP true none] [nameM] n :=
  (read_blockText (List.cons_ne_nil keywordK [parameterP true none]) (by decide) [nameM]).1 rfl

/-- A block whose only parameter has a default is not read. -/
theorem exists_blockText_refused :
    ∃ params body, params ≠ [] ∧ (∀ p ∈ params, p.IsShort) ∧
      blockText params body = "json.n @xs do |p = 1|\njson.m 1\nend".toList ∧
      ∀ t, read (blockText params body) ≠ .ok t := by
  let p := parameterP false (some ⟨false, '1', [], Eq.refl true, Eq.refl true⟩)
  have hrefused : (read (blockText [p] [nameM])).toBool = false := by decide +kernel
  refine ⟨[p], [nameM], List.cons_ne_nil _ _, by decide, rfl, ?_⟩
  intro t ht
  rw [ht] at hrefused
  cases hrefused

end ViewSchema.Template
