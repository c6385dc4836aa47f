import ViewSchema.Proofs.Template.Rules
import ViewSchema.Proofs.Template.Run

/-!
Reading any text comes to an end: a template after all of its tokens, a fault with a line, or the
refusal of a whole number of too many digits.
-/

namespace ViewSchema.Template

open Text

namespace Lexer

/-- A digit and what follows it open a whole number of more digits than a numeral may have. -/
structure LongInteger (first : Char) (rest : List Char) : Prop where
  digit : isAsciiDigit first
  noPlaces : places (rest.dropWhile isDigitOrUnderscore) = []
  noExponent : exponent (rest.dropWhile isDigitOrUnderscore) = []
  long : Numeral.maxDigits <
    ((first :: rest.takeWhile isDigitOrUnderscore).filter (· != '_')).length

theorem longInteger_of_number {first : Char} {rest : List Char} {lines : Nat}
    (hdigit : isAsciiDigit first) (h : number first rest = .error (none, lines)) :
    LongInteger first rest := by
  unfold number at h
  extract_lets whole behind fraction behindPlaces power point more digits at h
  split at h
  · rename_i hwhole
    obtain ⟨hfraction, hpower⟩ := Bool.and_eq_true_iff.mp hwhole
    have hbehind : behindPlaces = behind := if_pos hfraction
    split at h
    · rename_i hlong
      refine ⟨hdigit, List.isEmpty_iff.mp hfraction, ?_, hlong⟩
      have hnone : exponent behindPlaces = [] := List.isEmpty_iff.mp hpower
      rwa [hbehind] at hnone
    · cases h
  · cases h

theorem number_of_longInteger {first : Char} {rest : List Char} (h : LongInteger first rest) :
    number first rest = .error (none, 0) := by
  unfold number
  simp only [h.noPlaces, h.noExponent, List.isEmpty_nil, if_true, Bool.and_self]
  rw [if_pos h.long]

/-- A token is found, or the text is at fault. -/
def Blames (x : Found) : Prop := ∀ lines, x ≠ .error (none, lines)

theorem blames_word (afterDot : Bool) (first : Char) (rest : List Char) :
    Blames (word afterDot first rest) := by
  intro lines h
  unfold word at h
  extract_lets letters mark tail written more at h
  split at h
  · cases h
  · split at h <;> cases h

theorem blames_instanceVariable (rest : List Char) : Blames (instanceVariable rest) := by
  intro lines h
  unfold instanceVariable at h
  extract_lets sign name written at h
  split at h <;> cases h

theorem blames_globalVariable (rest : List Char) : Blames (globalVariable rest) := by
  intro lines h
  unfold globalVariable at h
  extract_lets word name at h
  split at h <;> cases h

theorem blames_quotedToken (make : String → Lexeme) (extra : Nat) (quote : Char)
    (rest : List Char) : Blames (quotedToken make extra quote rest) := by
  intro lines h
  unfold quotedToken at h
  split at h <;> cases h

theorem blames_symbol (rest : List Char) : Blames (symbol rest) := by
  intro lines h
  unfold symbol at h
  split at h
  · cases h
  split at h
  · exact blames_quotedToken _ _ _ _ _ h
  · extract_lets signs name mark written at h
    split at h <;> cases h

theorem blames_percentLiteral (rest : List Char) : Blames (percentLiteral rest) := by
  intro lines h
  unfold percentLiteral at h
  split at h
  · cases h
  extract_lets opening at h
  split at h
  · cases h
  extract_lets more breaks listed at h
  split at h <;> cases h

theorem blames_regexp (rest : List Char) : Blames (regexp rest) := by
  intro lines h
  unfold regexp at h
  split at h <;> cases h

theorem blames_operator (first : Char) (rest : List Char) : Blames (operator first rest) := by
  intro lines h
  unfold operator at h
  split at h <;> cases h

theorem blames_angle (last : Option Lexeme) (spaced : Bool) (rest : List Char) :
    Blames (angle last spaced rest) := by
  intro lines h
  unfold angle at h
  split at h
  · split at h
    · cases h
    · exact blames_operator _ _ _ h
  · exact blames_operator _ _ _ h

/-- Only the digits of a whole number are refused without a fault. -/
theorem longInteger_of_token {last : Option Lexeme} {spaced : Bool} {first : Char}
    {rest : List Char} {lines : Nat} (h : token last spaced first rest = .error (none, lines)) :
    LongInteger first rest := by
  unfold token at h
  revert h
  refine of_ite_eq (fun hdigit h => longInteger_of_number hdigit h) fun _ h => ?_
  exfalso
  revert h
  refine of_ite_eq (fun _ => blames_word _ _ _ _) fun _ => ?_
  refine of_ite_eq (fun _ => blames_instanceVariable _ _) fun _ => ?_
  refine of_ite_eq (fun _ => blames_globalVariable _ _) fun _ => ?_
  refine of_ite_eq (fun _ => blames_quotedToken _ _ _ _ _) fun _ => ?_
  refine of_ite_eq (fun _ => blames_symbol _ _) fun _ => ?_
  refine of_ite_eq (fun _ => blames_percentLiteral _ _) fun _ => ?_
  refine of_ite_eq (fun _ => blames_regexp _ _) fun _ => ?_
  refine of_ite_eq (fun _ h => by cases h) fun _ => ?_
  exact of_ite_eq (fun _ => blames_angle _ _ _ _) fun _ => blames_operator _ _ _

theorem token_of_longInteger {last : Option Lexeme} {spaced : Bool} {first : Char}
    {rest : List Char} (h : LongInteger first rest) :
    token last spaced first rest = .error (none, 0) := by
  rw [token, if_pos h.digit, number_of_longInteger h]

end Lexer

namespace Scan

/-- A whole number of too many digits comes next. -/
def AtLongInteger (s : Scan) : Prop :=
  ∃ first rest, s.ahead = first :: rest ∧ Lexer.LongInteger first rest

/-- A step that fails names a line, but in front of such a number. -/
theorem Fails.line_or_long {s : Scan} {fault : Fault} (h : s.Fails fault) :
    (∃ line, fault.line? = some line) ∨ (fault = .longInteger ∧ s.AtLongInteger) := by
  obtain ⟨first, rest, hs, hnext⟩ := h
  rw [next_eq] at hnext
  cases hkind : s.kind first rest <;> rw [hkind] at hnext <;> dsimp only at hnext
  case blank => cases hnext
  case continuation => cases hnext
  case lineBreak =>
    rw [lineBreak_eq, heredocTexts_eq] at hnext
    split at hnext
    · cases hnext
      exact .inl ⟨_, rfl⟩
    · cases hnext
  case comment => cases hnext
  case blockComment =>
    split at hnext
    · cases hnext
    · cases hnext
      exact .inl ⟨_, rfl⟩
  case endMark => cases hnext
  case token =>
    simp only [token] at hnext
    split at hnext
    · rename_i hfound
      cases hnext
      exact .inr ⟨rfl, first, rest, hs, Lexer.longInteger_of_token hfound⟩
    · cases hnext
      exact .inl ⟨_, rfl⟩
    · split at hnext
      · cases hnext
        exact .inl ⟨_, rfl⟩
      · cases hnext

theorem AtLongInteger.fails {s : Scan} (h : s.AtLongInteger) : s.Fails .longInteger := by
  obtain ⟨first, rest, hs, hlong⟩ := h
  have hopening : first ∉ Glyph.specialOpenings := by
    have hnone : Glyph.specialOpenings.all (!isAsciiDigit ·) = true := by decide +kernel
    intro hmem
    have hdigit := List.all_eq_true.mp hnone first hmem
    rw [hlong.digit] at hdigit
    cases hdigit
  have hmark : Glyph.opensEndMark (first :: rest) = false := by
    apply Glyph.opensEndMark_of_ne
    rintro rfl
    exact absurd hlong.digit (by decide)
  refine ⟨first, rest, hs, ?_⟩
  rw [next_of_opening s rest hopening hmark hs]
  simp only [token, Lexer.token_of_longInteger hlong]
  rfl

end Scan

/-- A text is scanned, or refused at some line or for a whole number that is too long. -/
theorem scan_outcome (text : List Char) :
    (∃ r, scan text = .ok r ∧ r.eof.lexeme = .endOfText ∧
        ∀ t ∈ r.tokens, t.start ≤ t.stop ∧ t.stop ≤ text.length) ∨
      (∃ fault line, scan text = .error fault ∧ fault.line? = some line) ∨
      (scan text = .error .longInteger ∧
        ∃ s, (Scan.start text).Reaches s ∧ s.AtLongInteger) := by
  rcases Scan.exists_end (Scan.start text) with ⟨s, hreach, hends⟩ | ⟨s, fault, hreach, hfails⟩
  · have hrun : scan text = s.finish := by
      rw [scan, hreach.run_eq, Scan.run_of_ends hends]
      rfl
    rw [hrun, Scan.finish_eq]
    split
    · exact .inr (.inl ⟨_, _, rfl, rfl⟩)
    · refine .inl ⟨_, rfl, rfl, fun t ht => ?_⟩
      obtain ⟨hsplit, hposition⟩ := hreach.split
      have hlength : s.position ≤ text.length := by
        rw [← hsplit, List.length_append, List.length_reverse, hposition]
        exact Nat.le_add_right _ _
      rcases List.mem_cons.mp (List.mem_reverse.mp ht) with rfl | hmem
      · exact ⟨Nat.le_refl _, hlength⟩
      · obtain ⟨hstart, hstop⟩ := hreach.spans t hmem
        exact ⟨Nat.le_of_lt hstart, Nat.le_trans hstop hlength⟩
  · have hrun : scan text = .error fault := by
      rw [scan, hreach.run_eq, Scan.run_of_fails hfails]
      rfl
    rcases hfails.line_or_long with ⟨line, hline⟩ | ⟨rfl, hlong⟩
    · exact .inr (.inl ⟨fault, line, hrun, hline⟩)
    · exact .inr (.inr ⟨hrun, s, hreach, hlong⟩)

theorem Scanning.template_eq (r : Scanning) (text : List Char) :
    r.template text = Read.statements (grammar (r.tokens.length + 1)) [] none
      { text, eof := r.eof } { tokens := r.tokens } >>= fun found =>
        match found.2.tokens with
        | [] =>
          .ok { body := found.1, comments := { entries := r.comments, trailing := r.trailing } }
        | t :: _ => .error (.grammar .strayToken t.lexeme t.line) := rfl

/-- The tokens of a text are all taken and make sound nodes, or there is a fault of grammar. -/
theorem template_outcome (text : List Char) {r : Scanning} (heof : r.eof.lexeme = .endOfText) :
    (∃ body c,
        Read.statements (grammar (r.tokens.length + 1)) [] none { text, eof := r.eof }
          { tokens := r.tokens } = .ok (body, c) ∧
        c.tokens = [] ∧ Node.AllSound body ∧
        r.template text =
          .ok { body, comments := { entries := r.comments, trailing := r.trailing } }) ∨
      ∃ fault found line, r.template text = .error (.grammar fault found line) := by
  have htemplate := r.template_eq text
  have hleft : Cursor.left { tokens := r.tokens } ≤ r.tokens.length + 1 := Nat.le_succ _
  rcases Read.reads_statements (works_grammar _) [] none hleft { text, eof := r.eof } heof with
    ⟨body, c, hrun, hbody, -⟩ | ⟨fault, found, line, hrun⟩
  · rw [hrun] at htemplate
    dsimp only [bind, Except.bind] at htemplate
    cases htokens : c.tokens with
    | nil =>
      rw [htokens] at htemplate
      exact .inl ⟨body, c, hrun, htokens, hbody, htemplate⟩
    | cons t rest =>
      rw [htokens] at htemplate
      exact .inr ⟨_, _, _, htemplate⟩
  · rw [hrun] at htemplate
    exact .inr ⟨fault, found, line, htemplate⟩

theorem read_of_scan {text : List Char} {r : Scanning} (h : scan text = .ok r) :
    read text = r.template text := by
  rw [read, h]
  rfl

theorem read_of_scan_error {text : List Char} {fault : Fault} (h : scan text = .error fault) :
    read text = .error fault := by
  rw [read, h]
  rfl

/-- Reading any text ends: with a template, all of whose tokens have been taken and all of whose
nodes are sound; with a fault that carries a line; or with the refusal of a whole number of too
many digits that scanning came to. -/
theorem read_outcome (text : List Char) :
    (∃ r body c, scan text = .ok r ∧
        (∀ t ∈ r.tokens, t.start ≤ t.stop ∧ t.stop ≤ text.length) ∧
        Read.statements (grammar (r.tokens.length + 1)) [] none { text, eof := r.eof }
          { tokens := r.tokens } = .ok (body, c) ∧
        c.tokens = [] ∧ Node.AllSound body ∧
        read text =
          .ok { body, comments := { entries := r.comments, trailing := r.trailing } }) ∨
      (∃ fault line, read text = .error fault ∧ fault.line? = some line) ∨
      (read text = .error .longInteger ∧
        ∃ s, (Scan.start text).Reaches s ∧ s.AtLongInteger) := by
  rcases scan_outcome text with
    ⟨r, hscan, heof, hspans⟩ | ⟨fault, line, hscan, hline⟩ | ⟨hscan, hlong⟩
  · rcases template_outcome text heof with
      ⟨body, c, hrun, htokens, hbody, htemplate⟩ | ⟨fault, found, line, htemplate⟩
    · rw [← read_of_scan hscan] at htemplate
      exact .inl ⟨r, body, c, hscan, hspans, hrun, htokens, hbody, htemplate⟩
    · rw [← read_of_scan hscan] at htemplate
      exact .inr (.inl ⟨_, line, htemplate, rfl⟩)
  · exact .inr (.inl ⟨fault, line, read_of_scan_error hscan, hline⟩)
  · exact .inr (.inr ⟨read_of_scan_error hscan, hlong⟩)

/-- The refusal without a line comes from such a number only, and from each that scanning comes
to. -/
theorem read_eq_longInteger_iff (text : List Char) :
    read text = .error .longInteger ↔
      ∃ s, (Scan.start text).Reaches s ∧ s.AtLongInteger := by
  constructor
  · intro hread
    rcases scan_outcome text with ⟨r, hscan, heof, -⟩ | ⟨fault, line, hscan, hline⟩ | ⟨-, hlong⟩
    · rw [read_of_scan hscan] at hread
      rcases template_outcome text heof with
        ⟨body, c, -, -, -, htemplate⟩ | ⟨fault, found, line, htemplate⟩
      · rw [htemplate] at hread
        cases hread
      · rw [htemplate] at hread
        cases hread
    · rw [read_of_scan_error hscan] at hread
      cases hread
      cases hline
    · exact hlong
  · rintro ⟨s, hreach, hlong⟩
    apply read_of_scan_error
    rw [scan, hreach.run_eq, Scan.run_of_fails hlong.fails]
    rfl

end ViewSchema.Template
