import ViewSchema.Proofs.Sketch.Template
import ViewSchema.Proofs.Template.Glyph

/-!
The template of a sketch as lines that are scanned as they stand: every row is a line of glyphs, and
the braces of blocks nest.
-/

namespace ViewSchema.Sketch

open Text Template
open Template.Scan (endsStatements opensWithDot)

/-- Further parameters, each behind a comma. -/
def listedGlyphs : List Name → List Glyph
  | [] => []
  | p :: rest => .comma :: .word true p.text :: listedGlyphs rest

/-- The parameters of a block between bars, if it has any. -/
def parameterGlyphs : List Name → List Glyph
  | [] => []
  | p :: rest => .bar true :: .word false p.text :: (listedGlyphs rest ++ [.bar false])

def Enclosure.collectionGlyphs : Enclosure → List Name → List Glyph
  | .words, _ :: _ => [.variableOf "xs"]
  | _, _ => []

def Enclosure.openGlyph : Enclosure → Glyph
  | .words => .word true "do"
  | .braces => .openBrace

def Enclosure.closeGlyph : Enclosure → Glyph
  | .words => .word false "end"
  | .braces => .closeBrace

def Fork.headGlyphs : {f : Fork} → f.Head → List Glyph
  | .conditions, test => [.word true (Name.text test)]
  | .numbers, n =>
    if Number.negative n then [.minus, .digits false (Number.first n) (Number.more n)]
    else [.digits true (Number.first n) (Number.more n)]

def Row.glyphs : Row → List Glyph
  | .property name => Glyph.call name.text ++ [.one]
  | .opening enclosure name params =>
    Glyph.call name.text ++
      (enclosure.collectionGlyphs params ++ enclosure.openGlyph :: parameterGlyphs params)
  | .condition negated test => [.word false (conditionWord negated), .word true test.text]
  | .choice subject => [.word false "case", .word true subject.text]
  | .arm (f := f) head => .word false f.word :: Fork.headGlyphs head
  | .otherwise => [.word false "else"]
  | .closing enclosure => [enclosure.closeGlyph]

/-- The lines of rows from a line on. -/
def lines (margin : Nat → Nat) (line : Nat) : List Row → List Line
  | [] => []
  | r :: rest => .code (margin line) r.glyphs :: lines margin (line + 1) rest

/-! ### What is written -/

theorem text_append (glyphs others : List Glyph) :
    Glyph.text (glyphs ++ others) = Glyph.text glyphs ++ Glyph.text others := by
  simp [Glyph.text]

theorem text_word (gap : Bool) (name : Name) :
    Glyph.text [.word gap name.text] = (if gap then [' '] else []) ++ name.text.toList := by
  rw [Glyph.text_cons_word gap name.small]
  exact List.append_nil _

theorem text_listedGlyphs (params : List Name) :
    Glyph.text (listedGlyphs params) = (listed params).toList := by
  induction params with
  | nil => rfl
  | cons p rest ih =>
    have hcomma : Glyph.text (listedGlyphs (p :: rest)) =
        ',' :: Glyph.text (.word true p.text :: listedGlyphs rest) := rfl
    have hsign : ", ".toList = [',', ' '] := rfl
    rw [hcomma, Glyph.text_cons_word true p.small, ih, listed, String.toList_append,
      String.toList_append, hsign]
    rfl

theorem text_parameterGlyphs (params : List Name) :
    Glyph.text (parameterGlyphs params) = (parameters params).toList := by
  cases params with
  | nil => rfl
  | cons p rest =>
    have hbar : Glyph.text (parameterGlyphs (p :: rest)) =
        " |".toList ++ Glyph.text (.word false p.text :: (listedGlyphs rest ++ [.bar false])) := rfl
    have hclose : Glyph.text [.bar false] = "|".toList := rfl
    rw [hbar, Glyph.text_cons_word false p.small, text_append, text_listedGlyphs, hclose,
      parameters]
    simp

theorem text_headGlyphs {f : Fork} (head : f.Head) :
    Glyph.text (Fork.headGlyphs head) = ' ' :: (Fork.headText head).toList := by
  cases f with
  | conditions => exact text_word true head
  | numbers =>
    obtain ⟨negative, first, more, hdigits⟩ := (head : Number)
    cases negative <;>
      simp [Fork.headGlyphs, Fork.headText, Number.text, Glyph.text, Glyph.chars, Glyph.digits,
        Glyph.minus, Glyph.sign]

/-- A row is what is written on its line. -/
theorem text_glyphs (r : Row) : Glyph.text r.glyphs = r.text.toList := by
  have hblank : " ".toList = [' '] := rfl
  cases r with
  | property name =>
    have hone : Glyph.text [.one] = " 1".toList := rfl
    rw [Row.glyphs, Glyph.text_call name.small, hone, Row.text]
    simp
  | opening enclosure name params =>
    have hcollection : Glyph.text (enclosure.collectionGlyphs params) =
        (enclosure.collection params).toList := by
      have hvariable : Glyph.text [.variableOf "xs"] = " @xs".toList := rfl
      cases enclosure with
      | braces => rfl
      | words =>
        cases params with
        | nil => rfl
        | cons p rest => exact hvariable
    have hopener : Glyph.text (enclosure.openGlyph :: parameterGlyphs params) =
        enclosure.opener.toList ++ Glyph.text (parameterGlyphs params) := by
      cases enclosure <;> rfl
    rw [Row.glyphs, Glyph.text_call name.small, text_append, hcollection, hopener,
      text_parameterGlyphs, Row.text]
    simp
  | condition negated test =>
    have hword : isSmallName (conditionWord negated).toList := by cases negated <;> decide
    rw [Row.glyphs, Glyph.text_cons_word false hword, text_word, Row.text, String.toList_append,
      String.toList_append, hblank]
    simp
  | choice subject =>
    have hcase : "case ".toList = "case".toList ++ [' '] := rfl
    rw [Row.glyphs, Glyph.text_cons_word false (by decide), text_word, Row.text,
      String.toList_append, hcase]
    simp
  | @arm f head =>
    have hword : isSmallName f.word.toList := by cases f <;> decide
    rw [Row.glyphs, Glyph.text_cons_word false hword, text_headGlyphs, Row.text,
      String.toList_append, String.toList_append, hblank]
    simp
  | otherwise => rfl
  | closing enclosure => cases enclosure <;> rfl

theorem text_lines (margin : Nat → Nat) (line : Nat) (rows : List Row) :
    Line.text (lines margin line rows) = (printed margin line rows).toList := by
  induction rows generalizing line with
  | nil => rfl
  | cons r rest ih =>
    rw [lines, Line.text_cons, Line.chars, text_glyphs, ih, printed]
    simp

/-! ### What is scanned -/

theorem fits_word (gap : Bool) (name : Name) {rest : List Char} (h : Lexer.endsWord rest) :
    (Glyph.word gap name.text).Fits rest :=
  Glyph.fits_word gap name.small h

theorem allFit_listedGlyphs (params : List Name) (rest : List Char) :
    Glyph.AllFit (listedGlyphs params ++ [.bar false]) ('\n' :: rest) := by
  induction params with
  | nil => exact ⟨Glyph.fits_bar false rfl, trivial⟩
  | cons p others ih =>
    refine ⟨Glyph.fits_comma _, fits_word true p ?_, ih⟩
    cases others <;> rfl

theorem allFit_parameterGlyphs (params : List Name) (rest : List Char) :
    Glyph.AllFit (parameterGlyphs params) ('\n' :: rest) := by
  cases params with
  | nil => trivial
  | cons p others =>
    refine ⟨Glyph.fits_bar true ?_, fits_word false p ?_, allFit_listedGlyphs others rest⟩
    · have hplain := Glyph.isPlain_head p.small
      rw [Glyph.text_cons_word false p.small, Glyph.cons_of_isSmallName p.small]
      simp only [Bool.false_eq_true, if_false, List.nil_append, List.cons_append, List.head?_cons,
        Option.any_some, hplain, Bool.true_or]
    · cases others <;> rfl

theorem allFit_headGlyphs {f : Fork} {head : f.Head} (h : (Row.arm head).isShort)
    (rest : List Char) : Glyph.AllFit (Fork.headGlyphs head) ('\n' :: rest) := by
  cases f with
  | conditions => exact ⟨fits_word true head rfl, trivial⟩
  | numbers =>
    obtain ⟨negative, first, more, hdigits⟩ := (head : Number)
    have hshort : (first :: more).length ≤ Numeral.maxDigits := of_decide_eq_true h
    cases negative with
    | false => exact ⟨Glyph.fits_digits true hdigits hshort rest, trivial⟩
    | true =>
      have hfirst := List.all_eq_true.mp hdigits first List.mem_cons_self
      exact ⟨Glyph.fits_minus (by simpa [Glyph.text, Glyph.chars, Glyph.digits] using hfirst),
        Glyph.fits_digits false hdigits hshort rest, trivial⟩

theorem allFit_glyphs {r : Row} (h : r.isShort) (rest : List Char) :
    Glyph.AllFit r.glyphs ('\n' :: rest) := by
  cases r with
  | property name => exact Glyph.allFit_call name.small ⟨Glyph.fits_one rest, trivial⟩ rfl
  | opening enclosure name params =>
    have hparams := allFit_parameterGlyphs params rest
    have hdo : (Glyph.word true "do").Fits (Glyph.text (parameterGlyphs params) ++ '\n' :: rest) :=
      Glyph.fits_word true (by decide) (by cases params <;> rfl)
    apply Glyph.allFit_call name.small
    · cases enclosure with
      | braces => exact ⟨Glyph.fits_openBrace _, hparams⟩
      | words =>
        cases params with
        | nil => exact ⟨hdo, hparams⟩
        | cons p others => exact ⟨Glyph.fits_variableOf (by decide) rfl, hdo, hparams⟩
    · cases enclosure <;> cases params <;> rfl
  | condition negated test =>
    have hword : isSmallName (conditionWord negated).toList := by cases negated <;> decide
    exact ⟨Glyph.fits_word false hword rfl, fits_word true test rfl, trivial⟩
  | choice subject =>
    exact ⟨Glyph.fits_word false (by decide) rfl, fits_word true subject rfl, trivial⟩
  | @arm f head =>
    have hword : isSmallName f.word.toList := by cases f <;> decide
    refine ⟨Glyph.fits_word false hword ?_, allFit_headGlyphs h rest⟩
    rw [text_headGlyphs]
    rfl
  | otherwise => exact ⟨Glyph.fits_word false (by decide) rfl, trivial⟩
  | closing enclosure =>
    cases enclosure with
    | words => exact ⟨Glyph.fits_word false (by decide) rfl, trivial⟩
    | braces => exact ⟨Glyph.fits_closeBrace _, trivial⟩

/-- The words and operators behind which a statement goes on are no names, but for keywords. -/
theorem Name.not_continues (name : Name) : (Lexeme.identifier name.text).continues = false := by
  have hall : ∀ w ∈ continuations, keywords.contains w = true ∨ isSmallName w.toList = false := by
    decide
  simp only [Lexeme.continues, Bool.eq_false_iff]
  intro hmem
  rcases hall name.text (List.contains_iff_mem.mp hmem) with hkeyword | hsmall
  · rw [name.free] at hkeyword
    cases hkeyword
  · rw [name.small] at hsmall
    cases hsmall

/-- A statement can end behind a row. -/
theorem exists_final (r : Row) : ∃ final, r.glyphs.getLast? = some final ∧
    final.lexeme ≠ .newline ∧ final.lexeme.continues = false := by
  have hword : ∀ (name : Name), (Glyph.word true name.text).lexeme ≠ .newline ∧
      (Glyph.word true name.text).lexeme.continues = false :=
    fun name => ⟨by simp [Glyph.word], name.not_continues⟩
  cases r with
  | property name => exact ⟨.one, rfl, by decide, rfl⟩
  | opening enclosure name params =>
    cases params with
    | nil =>
      cases enclosure with
      | words => exact ⟨.word true "do", rfl, by decide, by decide⟩
      | braces => exact ⟨.openBrace, rfl, by decide, by decide⟩
    | cons p others =>
      refine ⟨.bar false, ?_, by decide, by decide⟩
      rw [Row.glyphs, parameterGlyphs]
      simp [List.getLast?_append, List.getLast?_cons]
  | condition negated test => exact ⟨.word true test.text, rfl, hword test⟩
  | choice subject => exact ⟨.word true subject.text, rfl, hword subject⟩
  | @arm f head =>
    cases f with
    | conditions => exact ⟨.word true (Name.text head), rfl, hword head⟩
    | numbers =>
      obtain ⟨negative, first, more, hdigits⟩ := (head : Number)
      cases negative
      · exact ⟨.digits true first more, rfl, by simp [Glyph.digits], rfl⟩
      · exact ⟨.digits false first more, rfl, by simp [Glyph.digits], rfl⟩
  | otherwise => exact ⟨.word false "else", rfl, by decide, by decide⟩
  | closing enclosure =>
    cases enclosure with
    | words => exact ⟨.word false "end", rfl, by decide, by decide⟩
    | braces => exact ⟨.closeBrace, rfl, by decide, by decide⟩

theorem opensWithDot_glyphs (r : Row) (rest : List Char) :
    opensWithDot false (Glyph.text r.glyphs ++ rest) = false := by
  cases r with
  | condition negated test => cases negated <;> rfl
  | @arm f head => cases f <;> rfl
  | closing enclosure => cases enclosure <;> rfl
  | _ => rfl

theorem fits_row {r : Row} (h : r.isShort) (indent : Nat) : (Line.code indent r.glyphs).Fits :=
  ⟨allFit_glyphs h, exists_final r, opensWithDot_glyphs r⟩

theorem fits_lines (margin : Nat → Nat) (line : Nat) {rows : List Row} (h : rows.all Row.isShort) :
    ∀ l ∈ lines margin line rows, l.Fits := by
  induction rows generalizing line with
  | nil => simp [lines]
  | cons r rest ih =>
    rw [List.all_cons, Bool.and_eq_true] at h
    rw [lines, List.forall_mem_cons]
    exact ⟨fits_row h.1 (margin line), ih (line + 1) h.2⟩

/-! ### Braces -/

theorem allNested_append {before between after : List Char} {glyphs others : List Glyph}
    (hglyphs : Glyph.allNested before glyphs = .ok between)
    (hothers : Glyph.allNested between others = .ok after) :
    Glyph.allNested before (glyphs ++ others) = .ok after := by
  induction glyphs generalizing before with
  | nil =>
    obtain rfl : before = between := Except.ok.inj hglyphs
    exact hothers
  | cons g rest ih =>
    obtain ⟨inner, hinner, hrest⟩ := Glyph.allNested_cons_ok hglyphs
    rw [List.cons_append, Glyph.allNested, hinner]
    exact ih hrest

theorem allNested_listedGlyphs (brackets : List Char) (params : List Name) :
    Glyph.allNested brackets (listedGlyphs params) = .ok brackets := by
  induction params with
  | nil => rfl
  | cons p rest ih => exact ih

theorem allNested_parameterGlyphs (brackets : List Char) (params : List Name) :
    Glyph.allNested brackets (parameterGlyphs params) = .ok brackets := by
  cases params with
  | nil => rfl
  | cons p rest => exact allNested_append (allNested_listedGlyphs brackets rest) rfl

/-- The brackets that are open inside a block. -/
def Enclosure.inside : Enclosure → List Char → List Char
  | .words, brackets => brackets
  | .braces, brackets => '\x7b' :: brackets

theorem allNested_opening (brackets : List Char) (enclosure : Enclosure) (name : Name)
    (params : List Name) :
    Glyph.allNested brackets (Row.opening enclosure name params).glyphs =
      .ok (enclosure.inside brackets) := by
  have hcollection : Glyph.allNested brackets (enclosure.collectionGlyphs params) =
      .ok brackets := by
    cases enclosure <;> cases params <;> rfl
  have hopens : Glyph.allNested brackets (enclosure.openGlyph :: parameterGlyphs params) =
      .ok (enclosure.inside brackets) := by
    cases enclosure <;> exact allNested_parameterGlyphs _ params
  exact allNested_append rfl (allNested_append hcollection hopens)

theorem allNested_closing (brackets : List Char) (enclosure : Enclosure) :
    Glyph.allNested (enclosure.inside brackets) (Row.closing enclosure).glyphs =
      .ok brackets := by
  cases enclosure <;> rfl

theorem allNested_arm (brackets : List Char) {f : Fork} (head : f.Head) :
    Glyph.allNested brackets (Row.arm head).glyphs = .ok brackets := by
  cases f with
  | conditions => rfl
  | numbers =>
    obtain ⟨negative, first, more, hdigits⟩ := (head : Number)
    cases negative <;> rfl

theorem length_lines (margin : Nat → Nat) (line : Nat) (rows : List Row) :
    (lines margin line rows).length = rows.length := by
  induction rows generalizing line with
  | nil => rfl
  | cons r rest ih => rw [lines, List.length_cons, List.length_cons, ih]

theorem lines_append (margin : Nat → Nat) (line : Nat) (these others : List Row) :
    lines margin line (these ++ others) =
      lines margin line these ++ lines margin (line + these.length) others := by
  induction these generalizing line with
  | nil => rfl
  | cons r rest ih =>
    have hline : line + (r :: rest).length = line + 1 + rest.length := by
      rw [List.length_cons]
      omega
    rw [List.cons_append, lines, lines, ih, List.cons_append, hline]

section Nest

variable (margin : Nat → Nat)

/-- Rows nest when those of their parts do. -/
theorem nest_append (line : Nat) {these others : List Row} {before between after : List Char}
    (hthese : ∀ line, Line.Nest before (lines margin line these) between)
    (hothers : ∀ line, Line.Nest between (lines margin line others) after) :
    Line.Nest before (lines margin line (these ++ others)) after := by
  rw [lines_append]
  exact Line.nest_append (hthese line) (hothers _)

theorem nest_cons (line : Nat) {r : Row} {rest : List Row} {before between after : List Char}
    (hr : Glyph.allNested before r.glyphs = .ok between) (hends : endsStatements between)
    (hrest : ∀ line, Line.Nest between (lines margin line rest) after) :
    Line.Nest before (lines margin line (r :: rest)) after :=
  ⟨between, hr, hends, hrest (line + 1)⟩

theorem nest_closing (line : Nat) (enclosure : Enclosure) {brackets : List Char}
    (hends : endsStatements brackets) :
    Line.Nest (enclosure.inside brackets) (lines margin line [.closing enclosure]) brackets :=
  nest_cons margin line (allNested_closing brackets enclosure) hends fun _ => rfl

mutual

/-- A statement closes the braces that it opens. -/
theorem nest_rows : ∀ (s : Sketch) (line : Nat) {brackets : List Char}, endsStatements brackets →
    Line.Nest brackets (lines margin line s.rows) brackets
  | .property name, line, _, hends => nest_cons margin line rfl hends fun _ => rfl
  | .block enclosure name params body, line, brackets, hends => by
    have hinside : endsStatements (enclosure.inside brackets) = true := by
      cases enclosure with
      | words => exact hends
      | braces => rfl
    rw [rows]
    exact nest_cons margin line (allNested_opening brackets enclosure name params) hinside
      fun line => nest_append margin line (fun line => nest_blockRows body line hinside)
        fun line => nest_closing margin line enclosure hends
  | .condition negated test body arms, line, brackets, hends => by
    rw [rows]
    exact nest_cons margin line rfl hends fun line =>
      nest_append margin line
        (fun line => nest_append margin line (fun line => nest_blockRows body line hends)
          fun line => nest_arms arms line hends)
        fun line => nest_closing margin line .words hends
  | .choice subject arms, line, brackets, hends => by
    rw [rows]
    exact nest_cons margin line rfl hends fun line =>
      nest_append margin line (fun line => nest_arms arms line hends)
        fun line => nest_closing margin line .words hends

theorem nest_blockRows : ∀ (body : List Sketch) (line : Nat) {brackets : List Char},
    endsStatements brackets → Line.Nest brackets (lines margin line (blockRows body)) brackets
  | [], _, _, _ => rfl
  | s :: rest, line, _, hends =>
    nest_append margin line (fun line => nest_rows s line hends)
      fun line => nest_blockRows rest line hends

theorem nest_arms : ∀ {f : Fork} (arms : Arms f) (line : Nat) {brackets : List Char},
    endsStatements brackets → Line.Nest brackets (lines margin line arms.rows) brackets
  | _, .done, _, _, _ => rfl
  | _, .otherwise body, line, _, hends =>
    nest_cons margin line rfl hends fun line => nest_blockRows body line hends
  | _, .arm head body others, line, brackets, hends =>
    nest_cons margin line (allNested_arm brackets head) hends fun line =>
      nest_append margin line (fun line => nest_blockRows body line hends)
        fun line => nest_arms others line hends

end

end Nest

end ViewSchema.Sketch
