import ViewSchema.Proofs.Template.Follow
import ViewSchema.Proofs.Template.Glyph

/-!
Words, whole numbers and quoted texts as they are written, and the glyphs that they make: names,
labels, variables and symbols, digits, and static texts. Each glyph is read as its token behind the
lexemes and in front of the characters that it may stand between.
-/

namespace ViewSchema.Template

open Text

/-- A word: letters, digits and underscores, of which the first is no digit. -/
structure Identifier where
  first : Char
  more : List Char
  opens : (isLetter first || first == '_') = true
  goesOn : more.all isWordChar

namespace Identifier

def chars (w : Identifier) : List Char := w.first :: w.more

def text (w : Identifier) : String := String.ofList w.chars

theorem first_ne {w : Identifier} {c : Char} (hc : (isLetter c || c == '_') = false) :
    w.first ≠ c := by
  intro h
  have hopens := w.opens
  rw [h, hc] at hopens
  cases hopens

theorem not_mem_chars {w : Identifier} {c : Char} (hletter : (isLetter c || c == '_') = false)
    (hword : isWordChar c = false) : c ∉ w.chars := by
  intro hmem
  rcases List.mem_cons.mp hmem with hfirst | hmore
  · exact first_ne hletter hfirst.symm
  · have hgoesOn := List.all_eq_true.mp w.goesOn c hmore
    rw [hword] at hgoesOn
    cases hgoesOn

theorem first_not_mem {w : Identifier} {chars : List Char}
    (h : (chars.any fun c => isLetter c || c == '_') = false) : w.first ∉ chars :=
  fun hmem => first_ne (Bool.eq_false_iff.mpr (List.any_eq_false.mp h _ hmem)) rfl

end Identifier

/-- A word that opens with no capital. -/
structure LocalName extends Identifier where
  small : isCapital first = false

/-- A whole number: digits, with underscores between them or without, behind a minus sign or not. -/
structure WholeNumber where
  negative : Bool
  first : Char
  more : List Char
  opens : isAsciiDigit first
  goesOn : more.all Lexer.isDigitOrUnderscore

namespace WholeNumber

def digits (n : WholeNumber) : List Char := (n.first :: n.more).filter (· != '_')

theorem first_not_mem (n : WholeNumber) {chars : List Char} (h : chars.any isAsciiDigit = false) :
    n.first ∉ chars :=
  fun hmem => List.any_eq_false.mp h _ hmem n.opens

/-- The value without the sign. -/
def magnitude (n : WholeNumber) : Nat := Numeral.ofDigits n.digits

/-- The number has no more digits than a whole number may have. -/
def IsShort (n : WholeNumber) : Prop := n.digits.length ≤ Numeral.maxDigits

instance (n : WholeNumber) : Decidable n.IsShort := inferInstanceAs (Decidable (_ ≤ _))

def chars (n : WholeNumber) : List Char :=
  (if n.negative then ['-'] else []) ++ n.first :: n.more

end WholeNumber

/-- A text is static inside some quotes as it stands: it has no quote, no backslash, no line break
and no interpolation. -/
def isStatic (quote : Char) : List Char → Bool
  | [] => true
  | c :: rest => c != quote && c != '\\' && c != '\n' &&
      !(c == '#' && rest.head? == some '\x7b') && isStatic quote rest

/-- A static text between double or single quotes. -/
structure QuotedText where
  double : Bool
  said : List Char
  static : isStatic (if double then doubleQuote else apostrophe) said

theorem not_mem_of_isStatic {quote : Char} {said : List Char} (h : isStatic quote said) :
    '\n' ∉ said := by
  induction said with
  | nil => simp
  | cons c rest ih =>
    simp only [isStatic, Bool.and_eq_true, bne_iff_ne] at h
    obtain ⟨⟨⟨-, hbreak⟩, -⟩, hrest⟩ := h
    exact List.not_mem_cons_of_ne_of_not_mem (Ne.symm hbreak) (ih hrest)

namespace QuotedText

def quote (q : QuotedText) : Char := if q.double then doubleQuote else apostrophe

theorem quote_mem (q : QuotedText) : q.quote ∈ Lexer.quotes := by
  unfold quote
  split <;> decide

theorem quote_not_mem (q : QuotedText) {chars : List Char}
    (h : chars.any Lexer.quotes.contains = false) : q.quote ∉ chars :=
  fun hmem => List.any_eq_false.mp h _ hmem (List.contains_iff_mem.mpr q.quote_mem)

def chars (q : QuotedText) : List Char := q.quote :: (q.said ++ [q.quote])

def text (q : QuotedText) : String := String.ofList q.said

end QuotedText

namespace Lexer

/-- A static text is kept as it is, up to its closing quote. -/
theorem quotation_of_isStatic {quote : Char} (hquote : quote ∈ quotes) {said : List Char}
    (h : isStatic quote said) (rest : List Char) (q : Quotation) :
    quotation quote .plain q (said ++ quote :: rest) =
      .ok { q with value := said.reverse ++ q.value, length := q.length + said.length + 1 } := by
  induction said generalizing q with
  | nil =>
    rw [List.nil_append, quotation]
    · simp
    · rintro d others rfl
      exact absurd rfl (ne_of_mem_quotes hquote (by decide : '\\' ∉ quotes))
    · rintro others rfl
      exact absurd rfl (ne_of_mem_quotes hquote (by decide : '#' ∉ quotes))
  | cons c others ih =>
    simp only [isStatic, Bool.and_eq_true, bne_iff_ne, Bool.not_eq_true'] at h
    obtain ⟨⟨⟨⟨hclosing, hescape⟩, hbreak⟩, hcode⟩, hothers⟩ := h
    have hplain : c = '#' → (others ++ quote :: rest).head? ≠ some '\x7b' := by
      rintro rfl
      cases others with
      | nil => simpa using ne_of_mem_quotes hquote (by decide : '\x7b' ∉ quotes)
      | cons d others => simpa using hcode
    have hpasses := passes_plain (q := q) hescape hplain (beq_eq_false_iff_ne.mpr hclosing)
    have hlines : lineCount c = 0 := by simp [lineCount, hbreak]
    have hlength : q.length + 1 + others.length = q.length + (others.length + 1) := by omega
    have hreads := hpasses.reads
    rw [List.cons_append, List.nil_append] at hreads
    rw [List.cons_append, hreads, ih hothers, hlines]
    simp [Quotation.keep, hlength]

theorem token_quoted (last : Option Lexeme) (spaced : Bool) (q : QuotedText) (rest : List Char) :
    token last spaced q.quote (q.said ++ [q.quote] ++ rest) =
      .ok { lexeme := .text q.text, more := (q.said ++ [q.quote]).length } := by
  have hreads := quotation_of_isStatic q.quote_mem q.static rest {}
  have htext : quotedToken .text 0 q.quote (q.said ++ [q.quote] ++ rest) =
      .ok { lexeme := .text q.text, more := (q.said ++ [q.quote]).length } := by
    rw [List.append_assoc, List.singleton_append, quotedToken, hreads]
    simp [QuotedText.text]
  rw [← htext]
  unfold QuotedText.quote
  cases q.double <;> rfl

/-- A colon right behind a word makes a label, unless a dot stands in front of the word. -/
theorem token_label {last : Option Lexeme} (spaced : Bool) (w : Identifier)
    (hlast : last.any (Lexeme.isOneOf [".", "&."]) = false) {rest : List Char}
    (hrest : rest.head? ≠ some ':') :
    token last spaced w.first (w.more ++ [':'] ++ rest) =
      .ok { lexeme := .label w.text, more := (w.more ++ [':']).length } := by
  have hdigit : isAsciiDigit w.first = false := by
    rcases Bool.or_eq_true_iff.mp w.opens with hletter | hunderscore
    · exact isAsciiDigit_of_isLetter hletter
    · rw [beq_iff_eq.mp hunderscore]
      decide
  have hend : ((':' :: rest).head?.all fun c => !isWordChar c) = true := by
    have hcolon : isWordChar ':' = false := by decide
    simp [hcolon]
  obtain ⟨htake, hdrop⟩ := takeWhile_isWordChar w.goesOn hend
  have hcolon : colonNext (':' :: rest) = true := by
    cases rest with
    | nil => rfl
    | cons c rest =>
      have hc : c ≠ ':' := by simpa using hrest
      unfold colonNext
      split <;> simp_all
  have hmark : wordMark (':' :: rest) = [] := rfl
  rw [List.append_assoc, List.singleton_append]
  simp only [token, hdigit, w.opens, Bool.false_eq_true, if_false, if_true, word, htake, hdrop,
    hmark, hcolon, hlast, List.append_nil, List.length_nil, List.drop_zero, Nat.add_zero,
    Bool.not_false, Bool.and_self, List.length_append, List.length_singleton]
  rfl

/-- A colon in front of a word makes a symbol of it, behind an operator that closes nothing. -/
theorem token_symbol (spaced : Bool) {op : String} (hop : op ∉ [")", "]", "\x7d"])
    (w : Identifier) (rest : List Char) :
    token (some (.operator op)) spaced ':' (w.chars ++ ' ' :: rest) =
      .ok { lexeme := .symbol w.text, more := w.chars.length } := by
  have hallowed : symbolAllowed (some (.operator op)) spaced (w.chars ++ ' ' :: rest) = true := by
    have hopens : (isLetter w.first || w.first == '_' || w.first == doubleQuote ||
        w.first == '@') = true := by
      rw [w.opens, Bool.true_or, Bool.true_or]
    have hother : [")", "]", "\x7d"].contains op = false := by simpa using hop
    simp only [symbolAllowed, Identifier.chars, List.cons_append, List.head?_cons, hopens, hother,
      Bool.not_false, Bool.or_true, Bool.and_self]
  have hquote : (w.first == doubleQuote) = false :=
    beq_eq_false_iff_ne.mpr (Identifier.first_ne (by decide))
  have hsign : (w.first == '@') = false :=
    beq_eq_false_iff_ne.mpr (Identifier.first_ne (by decide))
  have hsigns : ((w.chars ++ ' ' :: rest).take 2).takeWhile (· == '@') = [] := by
    simp [Identifier.chars, List.take_succ_cons, hsign]
  have hend : ((' ' :: rest).head?.all fun c => !isWordChar c) = true := rfl
  have hname : identifier (w.chars ++ ' ' :: rest) = w.chars :=
    identifier_append w.opens w.goesOn hend
  have hmark : (((w.chars ++ ' ' :: rest).drop w.chars.length).take 1).filter
      (fun c => c == '?' || c == '!' || c == '=') = [] := by
    rw [List.drop_left]
    rfl
  have hsymbol : symbol (w.chars ++ ' ' :: rest) =
      .ok { lexeme := .symbol w.text, more := w.chars.length } := by
    have hcons : w.chars ++ ' ' :: rest = w.first :: (w.more ++ ' ' :: rest) := rfl
    rw [hcons, symbol, ← hcons]
    simp only [hquote, Bool.false_eq_true, if_false, hsigns, List.length_nil, List.drop_zero, hname,
      Nat.zero_add, hmark, List.nil_append, List.append_nil]
    rfl
  have htoken : token (some (.operator op)) spaced ':' (w.chars ++ ' ' :: rest) =
      if symbolAllowed (some (.operator op)) spaced (w.chars ++ ' ' :: rest) then
        symbol (w.chars ++ ' ' :: rest)
      else operator ':' (w.chars ++ ' ' :: rest) := rfl
  rw [htoken, if_pos hallowed, hsymbol]

/-- In front of a blank a colon is an operator. -/
theorem token_colon (last : Option Lexeme) (spaced : Bool) (rest : List Char) :
    token last spaced ':' (' ' :: rest) = .ok { lexeme := .operator ":", more := 0 } := by
  have hallowed : symbolAllowed last spaced (' ' :: rest) = false := rfl
  have htoken : token last spaced ':' (' ' :: rest) =
      if symbolAllowed last spaced (' ' :: rest) then symbol (' ' :: rest)
      else operator ':' (' ' :: rest) := rfl
  rw [htoken, hallowed]
  rfl

/-- Characters behind which a name, a number or a quoted text has ended. -/
def closers : List Char := [' ', '\n', ',', ')', '|', '\x7d']

/-- What comes next ends a name or a number. -/
def endsValue (rest : List Char) : Bool := rest.head?.any fun c => closers.contains c

theorem exists_of_endsValue {rest : List Char} (h : endsValue rest) :
    ∃ c others, rest = c :: others ∧ c ∈ closers := by
  cases rest with
  | nil => cases h
  | cons c others => exact ⟨c, others, rfl, by simpa [endsValue] using h⟩

theorem endsWord_of_endsValue {rest : List Char} (h : endsValue rest) : endsWord rest = true := by
  obtain ⟨c, others, rfl, hc⟩ := exists_of_endsValue h
  have hall : (closers.all fun c => !isWordChar c && c != '?' && c != '!' && c != ':') = true := by
    decide
  exact List.all_eq_true.mp hall c hc

theorem endsNumber_of_endsValue {rest : List Char} (h : endsValue rest) :
    endsNumber rest = true := by
  obtain ⟨c, others, rfl, hc⟩ := exists_of_endsValue h
  have hall : (closers.all fun c =>
      !isDigitOrUnderscore c && c != '.' && c != 'e' && c != 'E') = true := by decide
  exact List.all_eq_true.mp hall c hc

end Lexer

namespace Glyph

def identifier (gap : Bool) (w : Identifier) : Glyph := ⟨gap, w.first, w.more, .identifier w.text⟩

def label (gap : Bool) (w : Identifier) : Glyph := ⟨gap, w.first, w.more ++ [':'], .label w.text⟩

def instanceVariable (gap : Bool) (w : Identifier) : Glyph :=
  ⟨gap, '@', w.chars, .instanceVariable (String.ofList ('@' :: w.chars))⟩

def symbol (gap : Bool) (w : Identifier) : Glyph := ⟨gap, ':', w.chars, .symbol w.text⟩

def quoted (gap : Bool) (q : QuotedText) : Glyph :=
  ⟨gap, q.quote, q.said ++ [q.quote], .text q.text⟩

/-- The digits of a whole number. -/
def wholeDigits (gap : Bool) (n : WholeNumber) : Glyph :=
  ⟨gap, n.first, n.more, .integer n.magnitude⟩

/-- An operator. -/
def mark (gap : Bool) (op : String) : Glyph :=
  ⟨gap, op.toList.headD ' ', op.toList.tail, .operator op⟩

/-- A whole number: its sign, if it has one, and its digits. -/
def whole (gap : Bool) (n : WholeNumber) : List Glyph :=
  if n.negative then [mark gap "-", wholeDigits false n] else [wholeDigits gap n]

theorem head?_text_cons (g : Glyph) (others : List Glyph) (rest : List Char) :
    (text (g :: others) ++ rest).head? = some (if g.gap then ' ' else g.first) := by
  cases hgap : g.gap <;> simp [text, chars, hgap]

theorem text_whole (gap : Bool) (n : WholeNumber) :
    text (whole gap n) = (if gap then [' '] else []) ++ n.chars := by
  unfold whole WholeNumber.chars
  cases n.negative <;> cases gap <;> simp [text, chars, mark, wholeDigits]

section Follows

variable {last : Option Lexeme} {spaced gap : Bool} {rest : List Char} {w : Identifier}

theorem follows_identifier {w : LocalName} (hrest : Lexer.endsWord rest) :
    (identifier gap w.toIdentifier).Follows false last spaced rest where
  opening := Identifier.first_not_mem (by decide)
  noMark hs := by cases hs
  unbroken hmem := Identifier.not_mem_chars (by decide) (by decide) (List.mem_cons_of_mem _ hmem)
  token := Lexer.token_identifier last spaced w.opens w.small w.goesOn hrest

theorem follows_label (hlast : last.any (Lexeme.isOneOf [".", "&."]) = false)
    (hrest : rest.head? ≠ some ':') : (label gap w).Follows false last spaced rest where
  opening := Identifier.first_not_mem (by decide)
  noMark hs := by cases hs
  unbroken := by
    intro hmem
    rcases List.mem_append.mp hmem with hmem | hmem
    · exact Identifier.not_mem_chars (by decide) (by decide) (List.mem_cons_of_mem _ hmem)
    · cases List.mem_singleton.mp hmem
  token := Lexer.token_label spaced w hlast hrest

theorem follows_instanceVariable (hrest : Lexer.endsWord rest) :
    (instanceVariable gap w).Follows false last spaced rest where
  opening := (by decide : '@' ∉ blankOpenings)
  noMark hs := by cases hs
  unbroken := Identifier.not_mem_chars (by decide) (by decide)
  token := Lexer.token_variable last spaced w.opens w.goesOn (Lexer.isWordChar_of_endsWord hrest)

theorem follows_symbol {op : String} (hop : op ∉ [")", "]", "\x7d"]) :
    (symbol gap w).Follows false (some (.operator op)) spaced (' ' :: rest) where
  opening := (by decide : ':' ∉ blankOpenings)
  noMark hs := by cases hs
  unbroken := Identifier.not_mem_chars (by decide) (by decide)
  token := Lexer.token_symbol spaced hop w rest

theorem follows_quoted {q : QuotedText} : (quoted gap q).Follows false last spaced rest where
  opening := q.quote_not_mem (by decide)
  noMark hs := by cases hs
  unbroken hmem := by
    rcases List.mem_append.mp hmem with hmem | hmem
    · exact not_mem_of_isStatic q.static hmem
    · exact Lexer.ne_of_mem_quotes q.quote_mem (by decide) (List.mem_singleton.mp hmem).symm
  token := Lexer.token_quoted last spaced q rest

theorem follows_wholeDigits {n : WholeNumber} (hn : n.IsShort) (hrest : Lexer.endsNumber rest) :
    (wholeDigits gap n).Follows false last spaced rest where
  opening := n.first_not_mem (by decide)
  noMark hs := by cases hs
  unbroken := by
    intro hmem
    have hbreak := List.all_eq_true.mp n.goesOn _ hmem
    cases hbreak
  token := Lexer.token_number n.goesOn hrest last spaced n.opens hn

/-- A mark follows what its operator is read behind. -/
theorem follows_of_token {op : String} (hfirst : op.toList.headD ' ' ∉ blankOpenings)
    (hmore : '\n' ∉ op.toList.tail)
    (htoken : Lexer.token last spaced (op.toList.headD ' ') (op.toList.tail ++ rest) =
      .ok { lexeme := .operator op, more := op.toList.tail.length }) :
    (mark gap op).Follows false last spaced rest :=
  ⟨hfirst, nofun, hmore, htoken⟩

/-- An operator that nothing behind it can lengthen. -/
theorem follows_mark {op : String} (hop : op ∈ [",", "(", ")", "\x7b", "\x7d", "=>"]) :
    (mark gap op).Follows false last spaced rest := by
  simp only [List.mem_cons, List.not_mem_nil, or_false] at hop
  rcases hop with rfl | rfl | rfl | rfl | rfl | rfl <;>
    exact follows_of_token (by decide) (by decide) (Lexer.token_of_operator (by decide) rfl)

/-- An operator in front of nothing that lengthens it. -/
theorem follows_mark_of_ends {op : String} (hop : op ∈ [".", "|", "=", "-", "**"])
    (hrest : Lexer.endsOperator rest) : (mark gap op).Follows false last spaced rest := by
  have htoken := Lexer.token_operator last spaced op hop hrest
  simp only [List.mem_cons, List.not_mem_nil, or_false] at hop
  rcases hop with rfl | rfl | rfl | rfl | rfl <;>
    exact follows_of_token (by decide) (by decide) htoken

theorem follows_colon : (mark gap ":").Follows false last spaced (' ' :: rest) :=
  follows_of_token (by decide) (by decide) (Lexer.token_colon last spaced rest)

theorem allFollow_whole {n : WholeNumber} (hn : n.IsShort) {others : List Glyph}
    (hrest : Lexer.endsNumber (text others ++ rest))
    (hothers : ∀ last, AllFollow false last false others rest) :
    AllFollow false last spaced (whole gap n ++ others) rest := by
  have hdigits : ∀ (last : Option Lexeme) (spaced gap : Bool),
      AllFollow false last spaced (wholeDigits gap n :: others) rest := fun _ _ _ =>
    ⟨follows_wholeDigits hn hrest, hothers _⟩
  unfold whole
  cases n.negative with
  | false => exact hdigits last spaced gap
  | true =>
    have hend : Lexer.endsOperator (text (wholeDigits false n :: others) ++ rest) := by
      have hfirst : n.first ∉ Lexer.lengthening := n.first_not_mem (by decide)
      rw [Lexer.endsOperator, head?_text_cons]
      simpa [wholeDigits] using hfirst
    exact ⟨follows_mark_of_ends (by decide) hend, hdigits _ _ _⟩

end Follows

end Glyph

end ViewSchema.Template
