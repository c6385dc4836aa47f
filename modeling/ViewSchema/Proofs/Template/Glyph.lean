import ViewSchema.Proofs.Template.Lexer
import ViewSchema.Proofs.Template.Scan

/-!
The glyphs of plainly written templates, with what may follow each of them, and those of a call on
the builder.
-/

namespace ViewSchema.Template.Glyph

open Text

/-- A word. -/
def word (gap : Bool) (w : String) : Glyph :=
  ⟨gap, w.toList.headD ' ', w.toList.tail, .identifier w⟩

/-- The digits of a whole number. -/
def digits (gap : Bool) (first : Char) (more : List Char) : Glyph :=
  ⟨gap, first, more, .integer (Numeral.ofDigits (first :: more))⟩

def one : Glyph := digits true '1' []

/-- The instance variable of a word. -/
def variableOf (w : String) : Glyph := ⟨true, '@', w.toList, .instanceVariable ("@" ++ w)⟩

/-- An operator of one character. -/
def sign (gap : Bool) (c : Char) : Glyph := ⟨gap, c, [], .operator (String.ofList [c])⟩

def dot : Glyph := sign false '.'

def bar (gap : Bool) : Glyph := sign gap '|'

def comma : Glyph := sign false ','

def minus : Glyph := sign true '-'

def openBrace : Glyph := sign true '\x7b'

def closeBrace : Glyph := sign false '\x7d'

theorem cons_of_isSmallName {w : String} (h : isSmallName w.toList) :
    w.toList = w.toList.headD ' ' :: w.toList.tail := by
  cases hletters : w.toList with
  | nil =>
    rw [hletters] at h
    cases h
  | cons first letters => rfl

theorem chars_word (gap : Bool) {w : String} (h : isSmallName w.toList) :
    (word gap w).chars = (if gap then [' '] else []) ++ w.toList := by
  rw [chars, word, ← cons_of_isSmallName h]

theorem not_mem_specialOpenings {c : Char} (h : isPlain c) : c ∉ specialOpenings := by
  intro hmem
  simp only [specialOpenings, List.mem_cons, List.not_mem_nil, or_false] at hmem
  rcases hmem with rfl | rfl | rfl | rfl | rfl | rfl | rfl <;> cases h

theorem isPlain_head {w : String} (h : isSmallName w.toList) :
    isPlain (w.toList.headD ' ') = true := by
  have hall := all_isPlain_of_isSmallName h
  rw [cons_of_isSmallName h, List.all_cons, Bool.and_eq_true] at hall
  exact hall.1

/-- The mark that ends a template has capitals, which no small name has. -/
theorem opensEndMark_word {w rest : List Char} (h : isSmallName w) (hrest : Lexer.endsWord rest) :
    opensEndMark (w ++ rest) = false := by
  have hall := all_isPlain_of_isSmallName h
  have hwordEnd : rest.head?.all fun c => !isWordChar c := by
    cases rest with
    | nil => rfl
    | cons c rest => simp_all [Lexer.endsWord]
  rw [Bool.eq_false_iff]
  intro hmark
  obtain ⟨tail, htail⟩ := List.isPrefixOf_iff_prefix.mp hmark
  have hword := (Lexer.takeWhile_isWordChar (all_isWordChar hall) hwordEnd).1
  rw [← htail, List.takeWhile_append_of_pos (List.all_eq_true.mp (by decide))] at hword
  have hcapital : 'E' ∈ w := by
    rw [← hword]
    exact List.mem_append_left _ (by decide)
  exact absurd (List.all_eq_true.mp hall _ hcapital) (by decide)

theorem fits_word (gap : Bool) {w : String} {rest : List Char} (h : isSmallName w.toList)
    (hrest : Lexer.endsWord rest) : (word gap w).Fits rest where
  opening := not_mem_specialOpenings (isPlain_head h)
  noMark := by
    have hmark := opensEndMark_word h hrest
    rw [cons_of_isSmallName h] at hmark
    exact hmark
  token last spaced := by
    have hcons := cons_of_isSmallName h
    have hname : isSmallName (w.toList.headD ' ' :: w.toList.tail) := hcons ▸ h
    have htoken := Lexer.token_word last spaced hname hrest
    rw [← hcons, String.ofList_toList] at htoken
    exact htoken

theorem fits_digits (gap : Bool) {first : Char} {more : List Char}
    (hdigits : (first :: more).all isAsciiDigit)
    (hshort : (first :: more).length ≤ Numeral.maxDigits) (rest : List Char) :
    (digits gap first more).Fits ('\n' :: rest) := by
  have hfirst := List.all_eq_true.mp hdigits first List.mem_cons_self
  have hplain : isPlain first = true := by simp [isPlain, hfirst]
  refine ⟨not_mem_specialOpenings hplain, opensEndMark_of_ne ?_ _, fun last spaced =>
    Lexer.token_digits hdigits last spaced hshort rest⟩
  show first ≠ '_'
  rintro rfl
  exact absurd hfirst (by decide)

theorem fits_one (rest : List Char) : one.Fits ('\n' :: rest) :=
  fits_digits true (by decide) (by decide) rest

theorem fits_variableOf {w : String} {rest : List Char} (h : isPlainName w.toList)
    (hrest : Lexer.endsWord rest) : (variableOf w).Fits rest where
  opening := (by decide : '@' ∉ specialOpenings)
  noMark := opensEndMark_of_ne (by decide : '@' ≠ '_') _
  token last spaced := by
    have htoken := Lexer.token_instanceVariable last spaced h hrest
    have hname : String.ofList ('@' :: w.toList) = "@" ++ w := by
      rw [← String.toList_inj]
      simp
    rw [hname] at htoken
    exact htoken

/-- A sign fits where its operator is read. -/
theorem fits_sign (gap : Bool) {c : Char} {rest : List Char} (hopening : c ∉ specialOpenings)
    (hmark : c ≠ '_') (h : ∀ last spaced, Lexer.token last spaced c rest =
      .ok { lexeme := .operator (String.ofList [c]), more := 0 }) : (sign gap c).Fits rest :=
  ⟨hopening, opensEndMark_of_ne hmark _, h⟩

theorem fits_dot {rest : List Char} (h : rest.head?.any isPlain) : dot.Fits rest :=
  fits_sign false (by decide) (by decide) fun last spaced =>
    Lexer.token_operator last spaced "." (by decide) (Lexer.endsOperator_of_isPlain h)

theorem fits_bar (gap : Bool) {rest : List Char}
    (h : rest.head?.any fun c => isPlain c || c == '\n') : (bar gap).Fits rest := by
  have hend : Lexer.endsOperator rest := by
    cases rest with
    | nil => rfl
    | cons c rest =>
      have hfirst : (isPlain c || c == '\n') = true := by simpa using h
      rcases Bool.or_eq_true_iff.mp hfirst with hc | hc
      · exact Lexer.endsOperator_of_isPlain (by simpa using hc)
      · obtain rfl := beq_iff_eq.mp hc
        rfl
  exact fits_sign gap (by decide) (by decide) fun last spaced =>
    Lexer.token_operator last spaced "|" (by decide) hend

theorem fits_minus {rest : List Char} (h : rest.head?.any isAsciiDigit) : minus.Fits rest := by
  have hplain : rest.head?.any isPlain := by
    cases rest with
    | nil => cases h
    | cons c rest => simp_all [isPlain]
  exact fits_sign true (by decide) (by decide) fun last spaced =>
    Lexer.token_operator last spaced "-" (by decide) (Lexer.endsOperator_of_isPlain hplain)

theorem fits_comma (rest : List Char) : comma.Fits rest :=
  fits_sign false (by decide) (by decide) fun last spaced => Lexer.token_comma last spaced rest

theorem fits_openBrace (rest : List Char) : openBrace.Fits rest :=
  fits_sign true (by decide) (by decide) fun last spaced =>
    Lexer.token_brace last spaced (by decide) rest

theorem fits_closeBrace (rest : List Char) : closeBrace.Fits rest :=
  fits_sign false (by decide) (by decide) fun last spaced =>
    Lexer.token_brace last spaced (by decide) rest

/-- The glyphs of a call on the builder, up to the name of its method. -/
def call (method : String) : List Glyph := [word false "json", dot, word false method]

theorem text_cons_word (gap : Bool) {w : String} (h : isSmallName w.toList) (others : List Glyph) :
    text (word gap w :: others) = (if gap then [' '] else []) ++ w.toList ++ text others := by
  rw [text, List.flatMap_cons, chars_word gap h]
  rfl

theorem text_call {method : String} (h : isSmallName method.toList) (more : List Glyph) :
    text (call method ++ more) = ("json." ++ method).toList ++ text more := by
  have hjson : "json.".toList = "json".toList ++ ['.'] := rfl
  have hdot : text (dot :: word false method :: more) =
      '.' :: text (word false method :: more) := rfl
  have hcall : call method ++ more = word false "json" :: dot :: word false method :: more := rfl
  rw [hcall, text_cons_word false (by decide), hdot, text_cons_word false h, String.toList_append,
    hjson]
  simp

theorem allFit_call {method : String} (h : isSmallName method.toList) {more : List Glyph}
    {rest : List Char} (hmore : AllFit more rest) (hword : Lexer.endsWord (text more ++ rest)) :
    AllFit (call method ++ more) rest := by
  have hplain : (text (word false method :: more) ++ rest).head?.any isPlain := by
    have hhead := isPlain_head h
    rw [text_cons_word false h, cons_of_isSmallName h]
    exact hhead
  exact ⟨fits_word false (by decide) rfl, fits_dot hplain, fits_word false h hword, hmore⟩

end ViewSchema.Template.Glyph
