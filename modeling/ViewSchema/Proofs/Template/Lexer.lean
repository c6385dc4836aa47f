import ViewSchema.Template.Lexer

/-!
Single tokens of plainly written templates: words, the dot of a call, the bars and commas of block
parameters, brackets, whole numbers and instance variables, each with what may follow it.
-/

namespace ViewSchema

namespace Text

def isSmall (c : Char) : Bool := 'a' ≤ c && c ≤ 'z'

def isPlain (c : Char) : Bool := isSmall c || isAsciiDigit c || c == '_'

/-- A name of small ASCII letters, digits and underscores that opens with a letter. -/
def isPlainName : List Char → Bool
  | [] => false
  | first :: rest => isSmall first && rest.all isPlain

/-- A name of small ASCII letters, digits and underscores that does not open with a digit. -/
def isSmallName : List Char → Bool
  | [] => false
  | first :: rest => (isSmall first || first == '_') && rest.all isPlain

theorem isSmallName_of_isPlainName {name : List Char} (h : isPlainName name) :
    isSmallName name = true := by
  cases name with
  | nil => cases h
  | cons first rest =>
    simp only [isPlainName, Bool.and_eq_true] at h
    simp [isSmallName, h]

theorem toNat_of_isSmall {c : Char} (h : isSmall c) : 97 ≤ c.toNat ∧ c.toNat ≤ 122 := by
  simp only [isSmall, Bool.and_eq_true, decide_eq_true_eq] at h
  exact h

theorem isLetter_of_isSmall {c : Char} (h : isSmall c) : isLetter c = true := by
  have hrange := toNat_of_isSmall h
  have hascii : c.toNat < 0x80 := by omega
  simp only [isSmall] at h
  simp [isLetter, isAsciiLetter, hascii, h]

theorem isAsciiDigit_of_isSmall {c : Char} (h : isSmall c) : isAsciiDigit c = false := by
  have hrange := toNat_of_isSmall h
  have hhigh : ¬c ≤ '9' := by
    intro hle
    have hle : c.toNat ≤ 57 := hle
    omega
  simp [isAsciiDigit, hhigh]

theorem isCapital_of_isSmall {c : Char} (h : isSmall c) : isCapital c = false := by
  have hrange := toNat_of_isSmall h
  have hascii : c.toNat < 0x80 := by omega
  have hhigh : ¬c ≤ 'Z' := by
    intro hle
    have hle : c.toNat ≤ 90 := hle
    omega
  simp [isCapital, hascii, hhigh]

theorem isWordChar_of_isPlain {c : Char} (h : isPlain c) : isWordChar c = true := by
  simp only [isPlain, Bool.or_eq_true] at h
  rcases h with (hsmall | hdigit) | hunderscore
  · have hrange := toNat_of_isSmall hsmall
    have hascii : c.toNat < 0x80 := by omega
    simp only [isSmall] at hsmall
    simp [isWordChar, isAlphanumeric, isAsciiLetter, hascii, hsmall]
  · have hascii : c.toNat < 0x80 := by
      simp only [isAsciiDigit, Bool.and_eq_true, decide_eq_true_eq] at hdigit
      have hle : c.toNat ≤ 57 := hdigit.2
      omega
    simp [isWordChar, isAlphanumeric, hascii, hdigit]
  · simp [isWordChar, hunderscore]

theorem isPlain_of_isSmall {c : Char} (h : isSmall c) : isPlain c = true := by
  simp [isPlain, h]

theorem all_isPlain_of_isSmallName {name : List Char} (h : isSmallName name) :
    name.all isPlain = true := by
  cases name with
  | nil => rfl
  | cons first rest =>
    simp only [isSmallName, Bool.and_eq_true, Bool.or_eq_true, beq_iff_eq] at h
    rw [List.all_cons, h.2, Bool.and_true]
    rcases h.1 with hsmall | rfl
    · exact isPlain_of_isSmall hsmall
    · rfl

/-- A name opens like a word, neither with a digit nor with a capital. -/
theorem opens_of_isSmallName {first : Char} {rest : List Char} (h : isSmallName (first :: rest)) :
    isAsciiDigit first = false ∧ (isLetter first || first == '_') = true ∧
      isCapital first = false := by
  simp only [isSmallName, Bool.and_eq_true, Bool.or_eq_true, beq_iff_eq] at h
  rcases h.1 with hsmall | rfl
  · exact ⟨isAsciiDigit_of_isSmall hsmall, by rw [isLetter_of_isSmall hsmall, Bool.true_or],
      isCapital_of_isSmall hsmall⟩
  · decide

theorem all_isWordChar {letters : List Char} (h : letters.all isPlain) :
    letters.all isWordChar = true :=
  List.all_eq_true.mpr fun c hc => isWordChar_of_isPlain (List.all_eq_true.mp h c hc)

/-! ### Letters of any script -/

theorem isAsciiDigit_of_isLetter {c : Char} (h : isLetter c) : isAsciiDigit c = false := by
  rw [Bool.eq_false_iff]
  intro hdigit
  simp only [isAsciiDigit, Bool.and_eq_true, decide_eq_true_eq] at hdigit
  have hrange : 48 ≤ c.toNat ∧ c.toNat ≤ 57 := hdigit
  have hascii : c.toNat < 0x80 := by omega
  simp only [isLetter, if_pos hascii, isAsciiLetter, Bool.or_eq_true, Bool.and_eq_true,
    decide_eq_true_eq] at h
  have hletter : 97 ≤ c.toNat ∧ c.toNat ≤ 122 ∨ 65 ≤ c.toNat ∧ c.toNat ≤ 90 := h
  omega

theorem isWordChar_of_isLetter {c : Char} (h : isLetter c) : isWordChar c = true := by
  unfold isLetter at h
  unfold isWordChar isAlphanumeric
  split at h <;> simp_all

/-- No letter is a digit of any script: the tables have nothing in common. -/
theorem isDecimal_of_isLetter {c : Char} (h : isLetter c) : isDecimal c = false := by
  have hapart : (letterRanges.all fun r => decimalRanges.all fun d =>
      decide (r.2 < d.1) || decide (d.2 < r.1)) = true := by decide +kernel
  rw [Bool.eq_false_iff]
  intro hdecimal
  unfold isDecimal decimalValue? at hdecimal
  unfold isLetter at h
  split at h
  · rename_i hascii
    have hdigit := isAsciiDigit_of_isLetter (c := c) (by rw [isLetter, if_pos hascii, h])
    simp [hascii, hdigit] at hdecimal
  · rename_i hascii
    simp only [if_neg hascii, Option.isSome_map, List.find?_isSome] at hdecimal
    obtain ⟨d, hd, hind⟩ := hdecimal
    obtain ⟨r, hr, hinr⟩ := List.any_eq_true.mp h
    have hrd := List.all_eq_true.mp (List.all_eq_true.mp hapart r hr) d hd
    simp only [Bool.and_eq_true, Bool.or_eq_true, decide_eq_true_eq] at hind hinr hrd
    omega

/-- A letter or an underscore may open an identifier. -/
theorem isWordStart_of_opens {c : Char} (h : (isLetter c || c == '_') = true) :
    isWordStart c = true := by
  rcases Bool.or_eq_true_iff.mp h with hletter | hunderscore
  · simp [isWordStart, isWordChar_of_isLetter hletter, isDecimal_of_isLetter hletter]
  · obtain rfl := beq_iff_eq.mp hunderscore
    decide

end Text

namespace Template.Lexer

open Text

theorem takeWhile_isWordChar {letters rest : List Char} (hletters : letters.all isWordChar)
    (hrest : rest.head?.all fun c => !isWordChar c) :
    (letters ++ rest).takeWhile isWordChar = letters ∧
      (letters ++ rest).dropWhile isWordChar = rest := by
  have hall := List.all_eq_true.mp hletters
  rw [List.takeWhile_append_of_pos hall, List.dropWhile_append_of_pos hall]
  cases rest with
  | nil => simp
  | cons c rest =>
    have hc : isWordChar c = false := by simpa using hrest
    simp [hc]

/-- What may follow a word for it to be an identifier as it stands. -/
def endsWord (rest : List Char) : Bool :=
  rest.head?.all fun c => !isWordChar c && c != '?' && c != '!' && c != ':'

theorem isWordChar_of_endsWord {rest : List Char} (h : endsWord rest) :
    (rest.head?.all fun c => !isWordChar c) = true := by
  cases rest with
  | nil => rfl
  | cons c rest => simp_all [endsWord]

/-- A word that opens with a letter or an underscore but with no capital is an identifier. -/
theorem token_identifier (last : Option Lexeme) (spaced : Bool) {first : Char}
    {letters rest : List Char} (hopens : (isLetter first || first == '_') = true)
    (hcapital : isCapital first = false) (hletters : letters.all isWordChar)
    (hrest : endsWord rest) :
    token last spaced first (letters ++ rest) =
      .ok { lexeme := .identifier (String.ofList (first :: letters)), more := letters.length } := by
  have hdigit : isAsciiDigit first = false := by
    rcases Bool.or_eq_true_iff.mp hopens with hletter | hunderscore
    · exact isAsciiDigit_of_isLetter hletter
    · obtain rfl := beq_iff_eq.mp hunderscore
      decide
  obtain ⟨htake, hdrop⟩ := takeWhile_isWordChar hletters (isWordChar_of_endsWord hrest)
  have hmark : wordMark rest = [] := by
    cases rest with
    | nil => rfl
    | cons c rest => simp_all [endsWord, wordMark]
  have hcolon : colonNext rest = false := by
    cases rest with
    | nil => rfl
    | cons c rest =>
      have hc : c ≠ ':' := by simp_all [endsWord]
      unfold colonNext
      split <;> simp_all
  simp only [token, hdigit, hopens, Bool.false_eq_true, if_false, if_true, word,
    htake, hdrop, hmark, hcolon, hcapital, Bool.false_and, List.append_nil, List.length_nil,
    List.drop_zero, Nat.add_zero]

theorem token_word (last : Option Lexeme) (spaced : Bool) {first : Char}
    {letters rest : List Char} (hname : isSmallName (first :: letters)) (hrest : endsWord rest) :
    token last spaced first (letters ++ rest) =
      .ok { lexeme := .identifier (String.ofList (first :: letters)), more := letters.length } := by
  obtain ⟨-, hopens, hcapital⟩ := opens_of_isSmallName hname
  simp only [isSmallName, Bool.and_eq_true] at hname
  exact token_identifier last spaced hopens hcapital (all_isWordChar hname.2) hrest

/-- The identifier that a word opens with is the word. -/
theorem identifier_append {first : Char} {letters rest : List Char}
    (hopens : (isLetter first || first == '_') = true) (hletters : letters.all isWordChar)
    (hrest : rest.head?.all fun c => !isWordChar c) :
    identifier (first :: (letters ++ rest)) = first :: letters := by
  rw [identifier, if_pos (isWordStart_of_opens hopens), (takeWhile_isWordChar hletters hrest).1]

/-- An instance variable named with a word. -/
theorem token_variable (last : Option Lexeme) (spaced : Bool) {first : Char}
    {letters rest : List Char} (hopens : (isLetter first || first == '_') = true)
    (hletters : letters.all isWordChar) (hrest : rest.head?.all fun c => !isWordChar c) :
    token last spaced '@' (first :: letters ++ rest) =
      .ok { lexeme := .instanceVariable (String.ofList ('@' :: first :: letters))
            more := (first :: letters).length } := by
  have hsign : (first == '@') = false := by
    rw [beq_eq_false_iff_ne]
    rintro rfl
    cases hopens
  have hfound : instanceVariable (first :: letters ++ rest) =
      .ok { lexeme := .instanceVariable (String.ofList ('@' :: first :: letters))
            more := (first :: letters).length } := by
    simp [instanceVariable, hsign, identifier_append hopens hletters hrest]
  rw [← hfound]
  rfl

theorem token_instanceVariable (last : Option Lexeme) (spaced : Bool) {name rest : List Char}
    (hname : isPlainName name) (hrest : endsWord rest) :
    token last spaced '@' (name ++ rest) =
      .ok { lexeme := .instanceVariable (String.ofList ('@' :: name)), more := name.length } := by
  cases name with
  | nil => cases hname
  | cons first letters =>
    simp only [isPlainName, Bool.and_eq_true] at hname
    exact token_variable last spaced (by rw [isLetter_of_isSmall hname.1, Bool.true_or])
      (all_isWordChar hname.2) (isWordChar_of_endsWord hrest)

/-- What may follow a whole number. -/
def endsNumber (rest : List Char) : Bool :=
  rest.head?.all fun c => !isDigitOrUnderscore c && c != '.' && c != 'e' && c != 'E'

section Number

variable {first : Char} {more rest : List Char} (hmore : more.all isDigitOrUnderscore)
  (hrest : endsNumber rest)

include hmore hrest

theorem takeWhile_isDigitOrUnderscore :
    (more ++ rest).takeWhile isDigitOrUnderscore = more ∧
      (more ++ rest).dropWhile isDigitOrUnderscore = rest := by
  have hall := List.all_eq_true.mp hmore
  rw [List.takeWhile_append_of_pos hall, List.dropWhile_append_of_pos hall]
  cases rest with
  | nil => simp
  | cons c rest =>
    have hc : isDigitOrUnderscore c = false := by simp_all [endsNumber]
    simp [hc]

/-- A whole number, with underscores between its digits or without. -/
theorem token_number (last : Option Lexeme) (spaced : Bool) (hfirst : isAsciiDigit first)
    (hshort : ((first :: more).filter (· != '_')).length ≤ Numeral.maxDigits) :
    token last spaced first (more ++ rest) =
      .ok { lexeme := .integer (Numeral.ofDigits ((first :: more).filter (· != '_')))
            more := more.length } := by
  obtain ⟨htake, hdrop⟩ := takeWhile_isDigitOrUnderscore hmore hrest
  have hplaces : places rest = [] := by
    unfold places
    split
    · simp [endsNumber] at hrest
    · rfl
  have hexponent : exponent rest = [] := by
    cases rest with
    | nil => rfl
    | cons c rest =>
      have hc : (c == 'e') = false ∧ (c == 'E') = false := by simp_all [endsNumber]
      simp [exponent, hc]
  have hnumber : number first (more ++ rest) =
      .ok { lexeme := .integer (Numeral.ofDigits ((first :: more).filter (· != '_')))
            more := more.length } := by
    simp only [number, htake, hdrop, hplaces, hexponent, List.isEmpty_nil, if_true, Bool.and_self,
      if_neg (Nat.not_lt.mpr hshort)]
    simp
  rw [token, if_pos hfirst]
  exact hnumber

end Number

section Digits

variable {first : Char} {more : List Char} (hdigits : (first :: more).all isAsciiDigit)

include hdigits

theorem all_isDigitOrUnderscore : more.all isDigitOrUnderscore = true := by
  rw [List.all_eq_true]
  intro c hc
  rw [isDigitOrUnderscore, List.all_eq_true.mp hdigits c (List.mem_cons_of_mem _ hc), Bool.true_or]

theorem takeWhile_digits (rest : List Char) :
    (more ++ '\n' :: rest).takeWhile isDigitOrUnderscore = more ∧
      (more ++ '\n' :: rest).dropWhile isDigitOrUnderscore = '\n' :: rest :=
  takeWhile_isDigitOrUnderscore (all_isDigitOrUnderscore hdigits) rfl

theorem filter_digits : (first :: more).filter (· != '_') = first :: more := by
  rw [List.filter_eq_self]
  intro c hc
  rw [bne_iff_ne]
  rintro rfl
  exact absurd (List.all_eq_true.mp hdigits '_' hc) (by decide)

/-- A whole number at the end of a line. -/
theorem token_digits (last : Option Lexeme) (spaced : Bool)
    (hshort : (first :: more).length ≤ Numeral.maxDigits) (rest : List Char) :
    token last spaced first (more ++ '\n' :: rest) =
      .ok { lexeme := .integer (Numeral.ofDigits (first :: more)), more := more.length } := by
  have hfilter := filter_digits hdigits
  have hend : endsNumber ('\n' :: rest) = true := rfl
  have hnumber := token_number (all_isDigitOrUnderscore hdigits) hend last spaced
    (List.all_eq_true.mp hdigits first List.mem_cons_self)
  rw [hfilter] at hnumber
  exact hnumber hshort

end Digits

theorem token_of_operator {last : Option Lexeme} {spaced : Bool} {first : Char} {rest : List Char}
    (hfirst : first ∈ ['.', '|', ',', '-', '=', '*', '(', ')', '\x7b', '\x7d']) {op : String}
    (hop : operator? (first :: rest) = some op) :
    token last spaced first rest =
      .ok { lexeme := .operator op, more := op.toList.length - 1 } := by
  have hoperator : operator first rest =
      .ok { lexeme := .operator op, more := op.toList.length - 1 } := by
    rw [operator, hop]
  rw [← hoperator]
  simp only [List.mem_cons, List.not_mem_nil, or_false] at hfirst
  rcases hfirst with rfl | rfl | rfl | rfl | rfl | rfl | rfl | rfl | rfl | rfl <;> rfl

/-- Characters that may lengthen an operator of those below. -/
def lengthening : List Char := ['.', '|', '=', '~', '>']

/-- What may follow an operator for it to be one as it stands. -/
def endsOperator (rest : List Char) : Bool := rest.head?.all fun c => !lengthening.contains c

theorem token_operator (last : Option Lexeme) (spaced : Bool) (op : String)
    (hop : op ∈ [".", "|", "=", "-", "**"]) {rest : List Char} (hrest : endsOperator rest) :
    token last spaced (op.toList.headD ' ') (op.toList.tail ++ rest) =
      .ok { lexeme := .operator op, more := op.toList.tail.length } := by
  have hfound : operator? (op.toList ++ rest) = some op := by
    simp only [List.mem_cons, List.not_mem_nil, or_false] at hop
    cases rest with
    | nil => rcases hop with rfl | rfl | rfl | rfl | rfl <;> rfl
    | cons c rest =>
      have hne : ∀ d ∈ lengthening, (d == c) = false := by
        intro d hd
        rw [beq_eq_false_iff_ne]
        rintro rfl
        simp_all [endsOperator]
      have hdot := hne '.' (by decide)
      have hbar := hne '|' (by decide)
      have hequals := hne '=' (by decide)
      have htilde := hne '~' (by decide)
      have hangle := hne '>' (by decide)
      rcases hop with rfl | rfl | rfl | rfl | rfl <;>
        simp [operator?, operators, List.find?, List.isPrefixOf, hdot, hbar, hequals, htilde,
          hangle]
  simp only [List.mem_cons, List.not_mem_nil, or_false] at hop
  rcases hop with rfl | rfl | rfl | rfl | rfl <;>
    exact token_of_operator (by decide) hfound

theorem endsOperator_of_isPlain {rest : List Char} (h : rest.head?.any isPlain) :
    endsOperator rest = true := by
  cases rest with
  | nil => rfl
  | cons c rest =>
    have hplain : isPlain c = true := by simpa using h
    have hother : (lengthening.all fun d => !isPlain d) = true := by decide
    have hmem : c ∉ lengthening := fun hc => by
      simpa [hplain] using List.all_eq_true.mp hother c hc
    simpa [endsOperator] using hmem

theorem token_comma (last : Option Lexeme) (spaced : Bool) (rest : List Char) :
    token last spaced ',' rest = .ok { lexeme := .operator ",", more := 0 } :=
  token_of_operator (by decide) rfl

theorem token_brace (last : Option Lexeme) (spaced : Bool) {brace : Char}
    (h : brace ∈ ['\x7b', '\x7d']) (rest : List Char) :
    token last spaced brace rest =
      .ok { lexeme := .operator (String.ofList [brace]), more := 0 } := by
  simp only [List.mem_cons, List.not_mem_nil, or_false] at h
  rcases h with rfl | rfl
  · exact token_of_operator (by decide) rfl
  · exact token_of_operator (by decide) rfl

end Template.Lexer
end ViewSchema
