import ViewSchema.Proofs.Template.Quotation
import ViewSchema.Proofs.Text.Cut

/-!
How far a token reaches into a text, and how many line breaks it takes with it. A token never
reaches beyond the text that it is read from, and does not end with one of the characters that keep
tokens apart. Its line count is the number of line breaks in it, less those that the count leaves
out: the ones in texts nested in an interpolation, and the ones in a regular expression, which can
only stand behind a backslash there.
-/

namespace ViewSchema.Template

open Text

/-- The characters that keep tokens apart. -/
def gaps : List Char := [' ', '\t', '\r', '\n']

/-- A character that passes a test which every gap fails is no gap. -/
theorem not_mem_gaps (test : Char → Bool) (htest : gaps.any test = false) {c : Char}
    (hc : test c = true) : c ∉ gaps :=
  fun hgap => List.any_eq_false.mp htest c hgap hc

theorem ne_break_of_not_mem_gaps {c : Char} (h : c ∉ gaps) : c ≠ '\n' := by
  rintro rfl
  exact h (by decide)

/-- The first characters of a text are there and hold no gap. -/
structure Clear (count : Nat) (text : List Char) : Prop where
  within : count ≤ text.length
  noGap : ∀ c ∈ text.take count, c ∉ gaps

namespace Clear

theorem zero (text : List Char) : Clear 0 text := ⟨Nat.zero_le _, by simp⟩

theorem ofPiece {piece text : List Char} (h : piece <+: text) (hpiece : ∀ c ∈ piece, c ∉ gaps) :
    Clear piece.length text :=
  ⟨h.length_le, by rwa [← List.prefix_iff_eq_take.mp h]⟩

theorem takeWhile {test : Char → Bool} (htest : gaps.any test = false) (text : List Char) :
    Clear (text.takeWhile test).length text :=
  ofPiece (List.takeWhile_prefix test) fun c hc =>
    not_mem_gaps test htest (List.all_eq_true.mp List.all_takeWhile c hc)

theorem add {first second : Nat} {text : List Char} (hfirst : Clear first text)
    (hsecond : Clear second (text.drop first)) : Clear (first + second) text := by
  have hwithin := hsecond.within
  rw [List.length_drop] at hwithin
  refine ⟨by have := hfirst.within; omega, ?_⟩
  rw [List.take_add]
  exact List.forall_mem_append.mpr ⟨hfirst.noGap, hsecond.noGap⟩

theorem cons {count : Nat} {c : Char} {text : List Char} (hc : c ∉ gaps) (h : Clear count text) :
    Clear (count + 1) (c :: text) := by
  refine ⟨Nat.succ_le_succ h.within, ?_⟩
  rw [List.take_succ_cons]
  exact List.forall_mem_cons.mpr ⟨hc, h.noGap⟩

theorem count_eq_zero {count : Nat} {text : List Char} (h : Clear count text) :
    (text.take count).count '\n' = 0 :=
  List.count_eq_zero.mpr fun hbreak => h.noGap _ hbreak (by decide)

end Clear

theorem drop_length_takeWhile (test : Char → Bool) (text : List Char) :
    text.drop (text.takeWhile test).length = text.dropWhile test := by
  have hsplit : text.takeWhile test ++ text.dropWhile test = text := List.takeWhile_append_dropWhile
  calc text.drop (text.takeWhile test).length
      = (text.takeWhile test ++ text.dropWhile test).drop (text.takeWhile test).length := by
        rw [hsplit]
    _ = text.dropWhile test := List.drop_left

/-- A token without a gap in it. -/
structure Scanned.Flat (found : Scanned) (rest : List Char) : Prop where
  clear : Clear found.more rest
  lines : found.lines = 0
  lexeme : found.lexeme ≠ .newline

namespace Lexer

theorem clear_identifier (text : List Char) : Clear (identifier text).length text := by
  unfold identifier
  split
  · rename_i c rest
    split
    · rename_i hstart
      exact .cons (not_mem_gaps isWordStart (by decide) hstart) (.takeWhile (by decide) rest)
    · exact .zero _
  · exact .zero _

theorem clear_places (text : List Char) :
    places text = [] ∨ Clear ((places text).length + 1) text := by
  unfold places
  split
  · rename_i d rest
    split
    · rename_i hdigit
      exact .inr (.cons (by decide)
        (.cons (not_mem_gaps isAsciiDigit (by decide) hdigit) (.takeWhile (by decide) rest)))
    · exact .inl rfl
  · exact .inl rfl

theorem clear_exponentDigits (text : List Char) : Clear (exponentDigits text).length text := by
  unfold exponentDigits
  split
  · dsimp only
    split
    · exact .zero _
    · exact .cons (by decide) (.takeWhile (by decide) _)
  · dsimp only
    split
    · exact .zero _
    · exact .cons (by decide) (.takeWhile (by decide) _)
  · exact .takeWhile (by decide) _

theorem clear_exponent (text : List Char) : Clear (exponent text).length text := by
  unfold exponent
  split
  · rename_i mark rest
    split
    · rename_i hmark
      dsimp only
      split
      · exact .zero _
      · have hgap := not_mem_gaps (fun c => c == 'e' || c == 'E') (by decide) hmark
        exact .cons hgap (clear_exponentDigits rest)
    · exact .zero _
  · exact .zero _

/-- The places of a number with their point, then its exponent. -/
theorem clear_decimal (text : List Char) :
    let fraction := places text
    let point := if fraction.isEmpty then 0 else 1
    let rest := if fraction.isEmpty then text else text.drop (fraction.length + 1)
    Clear (point + fraction.length + (exponent rest).length) text := by
  intro fraction point rest
  rcases clear_places text with hnone | hplaces
  · have hfraction : fraction = [] := hnone
    simpa [point, rest, hfraction] using clear_exponent text
  · cases hfraction : fraction.isEmpty with
    | true =>
      simpa [point, rest, List.isEmpty_iff.mp hfraction] using clear_exponent text
    | false =>
      have hpoint : point + fraction.length = fraction.length + 1 := by
        simp only [point, hfraction, Bool.false_eq_true, if_false]
        omega
      have hrest : rest = text.drop (fraction.length + 1) := by simp [rest, hfraction]
      rw [hpoint, hrest]
      exact hplaces.add (clear_exponent _)

theorem flat_number {first : Char} {rest : List Char} {found : Scanned}
    (h : number first rest = .ok found) : found.Flat rest := by
  have hwhole : Clear (rest.takeWhile isDigitOrUnderscore).length rest :=
    .takeWhile (by decide) rest
  have hdecimal := clear_decimal (rest.dropWhile isDigitOrUnderscore)
  rw [← drop_length_takeWhile] at hdecimal
  have hall := hwhole.add hdecimal
  rw [drop_length_takeWhile] at hall
  unfold number at h
  extract_lets whole behind fraction behindPlaces power point more digits at h
  have hmore : (rest.takeWhile isDigitOrUnderscore).length +
      (point + fraction.length + power.length) = more := by
    simp only [more, whole, List.length_cons]
    omega
  have hclear : Clear more rest := hmore ▸ hall
  clear_value point more digits
  split at h
  · split at h
    · cases h
    · cases h
      exact ⟨hclear, rfl, Lexeme.noConfusion⟩
  · cases h
    exact ⟨hclear, rfl, Lexeme.noConfusion⟩

theorem clear_wordMark (text : List Char) : Clear (wordMark text).length text := by
  unfold wordMark
  split
  · rename_i mark rest
    split
    · rename_i hmark
      have hgap := not_mem_gaps (fun c => c == '?' || c == '!') (by decide) hmark
      have hflat : Clear 1 (mark :: rest) := .cons hgap (.zero rest)
      split
      · exact hflat
      · exact .zero _
      · exact .zero _
      · exact hflat
    · exact .zero _
  · exact .zero _

theorem clear_colonNext {text : List Char} (h : colonNext text) : Clear 1 text := by
  unfold colonNext at h
  split at h
  · cases h
  · exact .cons (by decide) (.zero _)
  · cases h

theorem flat_word {afterDot : Bool} {first : Char} {rest : List Char} {found : Scanned}
    (h : word afterDot first rest = .ok found) : found.Flat rest := by
  have hletters : Clear (rest.takeWhile isWordChar).length rest := .takeWhile (by decide) rest
  have hmark := clear_wordMark (rest.dropWhile isWordChar)
  unfold word at h
  extract_lets letters mark tail written more at h
  have hclear : Clear more rest := hletters.add (by rwa [drop_length_takeWhile])
  have htail : tail = rest.drop more := by
    simp only [tail, more, letters, ← drop_length_takeWhile, List.drop_drop]
  clear_value more tail written
  split at h
  · rename_i hlabel
    cases h
    have hcolon : colonNext tail := (Bool.and_eq_true_iff.mp hlabel).1
    exact ⟨hclear.add (htail ▸ clear_colonNext hcolon), rfl, Lexeme.noConfusion⟩
  · split at h
    · cases h
      exact ⟨hclear, rfl, Lexeme.noConfusion⟩
    · cases h
      exact ⟨hclear, rfl, Lexeme.noConfusion⟩

theorem clear_head {test : Char → Bool} (htest : gaps.any test = false) (text : List Char) :
    Clear ((text.take 1).filter test).length text := by
  cases text with
  | nil => exact .zero _
  | cons c rest =>
    cases hc : test c with
    | false => simpa [hc] using Clear.zero (c :: rest)
    | true => simpa [hc] using Clear.cons (not_mem_gaps test htest hc) (.zero rest)

theorem flat_instanceVariable {rest : List Char} {found : Scanned}
    (h : instanceVariable rest = .ok found) : found.Flat rest := by
  unfold instanceVariable at h
  extract_lets sign name written at h
  have hsign : Clear sign.length rest := by
    cases rest with
    | nil => exact .zero _
    | cons c rest =>
      by_cases hc : c = '@'
      · simpa [sign, hc] using Clear.cons (by decide) (.zero rest)
      · simpa [sign, hc] using Clear.zero (c :: rest)
  have hname : Clear name.length (rest.drop sign.length) := clear_identifier _
  split at h
  · cases h
  · cases h
    exact ⟨by simpa [written] using hsign.add hname, rfl, Lexeme.noConfusion⟩

theorem flat_globalVariable {rest : List Char} {found : Scanned}
    (h : globalVariable rest = .ok found) : found.Flat rest := by
  unfold globalVariable at h
  extract_lets word name at h
  have hname : Clear name.length rest := by
    simp only [name]
    split
    · exact clear_head (by decide) rest
    · exact clear_identifier rest
  clear_value name
  split at h
  · cases h
  · cases h
    exact ⟨hname, rfl, Lexeme.noConfusion⟩

/-- The line breaks of a token, as it is written, that the line count leaves out. -/
def uncounted : List Char → Nat
  | '/' :: rest => rest.count '\n'
  | ':' :: c :: rest => if c == doubleQuote then nestedBreaks doubleQuote .plain rest else 0
  | c :: rest => if quotes.contains c then nestedBreaks c .plain rest else 0
  | [] => 0

theorem uncounted_le (first : Char) (rest : List Char) :
    uncounted (first :: rest) ≤ rest.count '\n' := by
  unfold uncounted
  split
  · rename_i h
    cases h
    exact Nat.le_refl _
  · rename_i c others h
    cases h
    split
    · exact Nat.le_trans (nestedBreaks_le _ _ others) List.count_le_count_cons
    · exact Nat.zero_le _
  · rename_i h
    cases h
    split
    · exact nestedBreaks_le _ _ _
    · exact Nat.zero_le _
  · exact Nat.zero_le _

/-- What a token takes of the text behind its first character. -/
structure Extent (first : Char) (rest : List Char) (found : Scanned) : Prop where
  within : found.more ≤ rest.length
  lines : found.lines + uncounted (first :: rest.take found.more) =
    (rest.take found.more).count '\n'
  lexeme : found.lexeme ≠ .newline
  last : ∀ c ∈ (rest.take found.more).getLast?, c ∉ gaps

theorem Extent.of_flat {first : Char} {rest : List Char} {found : Scanned}
    (h : found.Flat rest) : Extent first rest found := by
  refine ⟨h.clear.within, ?_, h.lexeme, fun c hc => h.clear.noGap c (List.mem_of_getLast? hc)⟩
  have hle := uncounted_le first (rest.take found.more)
  rw [h.clear.count_eq_zero] at hle ⊢
  rw [h.lines]
  omega

theorem not_mem_gaps_of_quotes : ∀ quote ∈ quotes, quote ∉ gaps := fun _ hquote =>
  not_mem_gaps quotes.contains (by decide) (List.contains_iff_mem.mpr hquote)

/-- A quoted text ends with its quote. -/
theorem Quoted.last {quote : Char} {inside : Inside} {q done : Quotation} {text used : List Char}
    (hquote : quote ∈ quotes) (h : Quoted quote inside q text done used) :
    ∀ c ∈ used.getLast?, c ∉ gaps := by
  obtain ⟨front, rfl⟩ := h.closes
  simpa using not_mem_gaps_of_quotes quote hquote

theorem extent_quotedToken {make : String → Lexeme} {quote : Char} {rest : List Char}
    {found : Scanned} (hquote : quote ∈ quotes) (hmake : ∀ value, make value ≠ .newline)
    (h : quotedToken make 0 quote rest = .ok found) : Extent quote rest found := by
  unfold quotedToken at h
  split at h
  · cases h
  · rename_i done hdone
    obtain ⟨used, hused⟩ := exists_quoted hquote hdone
    obtain ⟨tail, rfl⟩ := hused.split
    cases h
    have hlength : done.length = used.length := by simpa using hused.length
    refine ⟨by simp [hlength], ?_, hmake _, by simpa [hlength] using hused.last hquote⟩
    have huncounted : uncounted (quote :: used) = nestedBreaks quote .plain used := by
      have hslash : quote ≠ '/' := ne_of_mem_quotes hquote (by decide)
      have hcolon : quote ≠ ':' := ne_of_mem_quotes hquote (by decide)
      have hcontains : quotes.contains quote = true := List.contains_iff_mem.mpr hquote
      unfold uncounted
      split <;> simp_all
    have hlines := hused.lines
    simp only [hlength, Nat.zero_add, List.take_left, huncounted]
    simpa using hlines

theorem clear_signs (text : List Char) :
    Clear ((text.take 2).takeWhile (· == '@')).length text := by
  refine .ofPiece ((List.takeWhile_prefix _).trans (List.take_prefix 2 _)) fun c hc => ?_
  exact not_mem_gaps (· == '@') (by decide) (List.all_eq_true.mp List.all_takeWhile c hc)

theorem extent_symbol {rest : List Char} {found : Scanned} (h : symbol rest = .ok found) :
    Extent ':' rest found := by
  unfold symbol at h
  split at h
  · cases h
  · rename_i first tail
    split at h
    · rename_i hquote
      obtain rfl : first = doubleQuote := by simpa using hquote
      unfold quotedToken at h
      split at h
      · cases h
      · rename_i done hdone
        obtain ⟨used, hused⟩ := exists_quoted (by decide) hdone
        obtain ⟨behind, rfl⟩ := hused.split
        cases h
        have hlength : done.length = used.length := by simpa using hused.length
        have htake : (doubleQuote :: (used ++ behind)).take (1 + done.length) =
            doubleQuote :: used := by
          rw [hlength, Nat.add_comm, List.take_succ_cons, List.take_left]
        refine ⟨by simp [hlength]; omega, ?_, Lexeme.noConfusion, ?_⟩
        rotate_left
        · rw [htake, List.getLast?_cons_of_ne_nil hused.ne_nil]
          exact hused.last (by decide)
        have hlines := hused.lines
        have hcount : (doubleQuote :: used).count '\n' = used.count '\n' :=
          List.count_cons_of_ne (by decide)
        simp only [htake, uncounted, beq_self_eq_true, if_true, hcount]
        simpa using hlines
    · extract_lets signs name mark written at h
      have hsigns : Clear signs.length (first :: tail) := clear_signs _
      have hname : Clear name.length ((first :: tail).drop signs.length) := clear_identifier _
      have hmark : Clear mark.length ((first :: tail).drop (signs.length + name.length)) :=
        clear_head (by decide) _
      have hwritten : Clear written.length (first :: tail) := by
        simpa [written, Nat.add_assoc] using (hsigns.add hname).add hmark
      clear_value written
      split at h
      · cases h
      · cases h
        exact .of_flat ⟨hwritten, rfl, Lexeme.noConfusion⟩

/-- Behind the percent sign of a literal that may stand come a letter or none, and a delimiter that
is no gap. -/
theorem percentKind_of_allowed {last : Option Lexeme} {spaced : Bool} {rest : List Char}
    (h : percentAllowed last spaced rest) :
    ∃ kind opener, percentKind rest = (kind, some opener) ∧ opener ∉ gaps ∧
      Clear (if kind.isSome then 2 else 1) rest := by
  unfold percentAllowed at h
  extract_lets operand at h
  split at h
  · cases h
  · rename_i kind opener hkind
    have hopener : opener ∉ gaps := by
      intro hgap
      have hblanks : gaps.all (fun gap => isAlphanumeric gap || isBlank gap) = true := by decide
      simp [List.all_eq_true.mp hblanks opener hgap] at h
    refine ⟨kind, opener, hkind, hopener, ?_⟩
    unfold percentKind at hkind
    split at hkind
    · cases hkind
    · rename_i c tail
      split at hkind
      · rename_i hletter
        obtain ⟨rfl, htail⟩ := Prod.mk.inj hkind
        obtain ⟨others, rfl⟩ := List.head?_eq_some_iff.mp htail
        have hkind := not_mem_gaps percentKinds.contains (by decide) hletter
        exact .cons hkind (.cons hopener (.zero others))
      · obtain ⟨rfl, hc⟩ := Prod.mk.inj hkind
        obtain rfl : c = opener := Option.some.inj hc
        exact .cons hopener (.zero tail)

theorem closer_not_mem_gaps {opener : Char} (h : opener ∉ gaps) : closer opener ∉ gaps := by
  unfold closer
  repeat' split
  · decide
  · decide
  · decide
  · decide
  · exact h

theorem extent_percentLiteral {last : Option Lexeme} {spaced : Bool} {rest : List Char}
    {found : Scanned} (hallowed : percentAllowed last spaced rest)
    (h : percentLiteral rest = .ok found) : Extent '%' rest found := by
  obtain ⟨kind, opener, hkind, hopener, hopening⟩ := percentKind_of_allowed hallowed
  unfold percentLiteral at h
  rw [hkind] at h
  dsimp -zeta only at h
  extract_lets opening at h
  cases hcut : cutAt? [closer opener] (rest.drop opening) with
  | none =>
    rw [hcut] at h
    cases h
  | some pair =>
    obtain ⟨body, tail⟩ := pair
    rw [hcut] at h
    dsimp -zeta only at h
    extract_lets more lines listed at h
    have hdrop := eq_append_of_cutAt? hcut
    have hlength : (rest.drop opening).length = body.length + (tail.length + 1) := by
      rw [hdrop]
      simp
    have htake : rest.take more = rest.take opening ++ (body ++ [closer opener]) := by
      have hmore : more = opening + (body ++ [closer opener]).length := by
        simp only [more, List.length_append, List.length_singleton]
        omega
      rw [hmore, List.take_add, hdrop, ← List.append_assoc, List.take_left]
    have hcloser := closer_not_mem_gaps hopener
    have hcount : (rest.take more).count '\n' = lines := by
      have hbreak : closer opener ≠ '\n' := ne_break_of_not_mem_gaps hcloser
      rw [htake, List.count_append, List.count_append, hopening.count_eq_zero, count_singleton]
      simp [lines, lineCount, hbreak]
    have hextent : ∀ lexeme dynamic, lexeme ≠ .newline →
        Extent '%' rest { lexeme, more, lines, dynamic } := by
      intro lexeme dynamic hlexeme
      refine ⟨?_, ?_, hlexeme, by simpa [htake] using hcloser⟩
      · rw [List.length_drop] at hlength
        simp only [more]
        omega
      · simpa [uncounted, quotes, doubleQuote, apostrophe, graveAccent] using hcount.symm
    split at h <;> cases h <;> exact hextent _ _ Lexeme.noConfusion

theorem regexpLength_le {text : List Char} {length : Nat} (h : regexpLength text = some length) :
    length ≤ text.length := by
  fun_induction regexpLength text generalizing length with
  | case1 => cases h
  | case2 => cases h
  | case3 c rest ih =>
    obtain ⟨inner, hinner, rfl⟩ := Option.map_eq_some_iff.mp h
    have := ih hinner
    simp only [List.length_cons]
    omega
  | case4 c rest =>
    cases h
    simp
  | case5 => cases h
  | case6 c rest _ _ _ _ ih =>
    obtain ⟨inner, hinner, rfl⟩ := Option.map_eq_some_iff.mp h
    have := ih hinner
    simp only [List.length_cons]
    omega

/-- A regular expression ends with its slash. -/
theorem getLast?_regexp {text : List Char} {length : Nat} (h : regexpLength text = some length) :
    (text.take length).getLast? = some '/' := by
  fun_induction regexpLength text generalizing length with
  | case1 => cases h
  | case2 => cases h
  | case3 c rest ih =>
    obtain ⟨inner, hinner, rfl⟩ := Option.map_eq_some_iff.mp h
    simp [List.getLast?_cons, ih hinner]
  | case4 c rest _ _ hslash =>
    cases h
    simpa using hslash
  | case5 => cases h
  | case6 c rest _ _ _ _ ih =>
    obtain ⟨inner, hinner, rfl⟩ := Option.map_eq_some_iff.mp h
    simp [List.getLast?_cons, ih hinner]

theorem extent_regexp {rest : List Char} {found : Scanned} (h : regexp rest = .ok found) :
    Extent '/' rest found := by
  unfold regexp at h
  split at h
  · cases h
  · rename_i length hlength
    extract_lets more at h
    have hflags := (List.takeWhile_prefix isRegexpFlag (l := rest.drop length)).length_le
    have hwithin : more ≤ rest.length := by
      have := regexpLength_le hlength
      rw [List.length_drop] at hflags
      simp only [more]
      omega
    have hlast : ∀ c ∈ (rest.take more).getLast?, c ∉ gaps := by
      have hflagsClear : Clear _ (rest.drop length) :=
        .takeWhile (by decide : gaps.any isRegexpFlag = false) _
      rw [List.take_add, List.getLast?_append]
      intro c hc
      rcases Option.or_eq_some_iff.mp hc with hflag | ⟨-, hslash⟩
      · exact hflagsClear.noGap c (List.mem_of_getLast? hflag)
      · rw [getLast?_regexp hlength] at hslash
        cases hslash
        decide
    cases h
    exact ⟨hwithin, by simp [uncounted], Lexeme.noConfusion, hlast⟩

theorem flat_character {last : Option Lexeme} {rest : List Char}
    (h : characterAllowed last rest) : Clear 1 rest := by
  unfold characterAllowed at h
  have hnext := (Bool.and_eq_true_iff.mp h).2
  have hblank : ∀ c, (!isBlank c) = true → c ∉ gaps := fun _ =>
    not_mem_gaps (!isBlank ·) (by decide)
  split at hnext
  · cases hnext
  · exact .cons (hblank _ hnext) (.zero _)
  · exact .cons (hblank _ (Bool.and_eq_true_iff.mp hnext).1) (.zero _)

theorem clear_heredocWord (text : List Char) : Clear (heredocWord text).length text := by
  unfold heredocWord
  split
  · rename_i c rest
    split
    · rename_i hstart
      have hgap := not_mem_gaps (fun c => isAsciiLetter c || c == '_') (by decide) hstart
      exact .cons hgap (.takeWhile (by decide) rest)
    · exact .zero _
  · exact .zero _

theorem clear_heredoc {rest : List Char} {signed : Bool} {mark : List Char} {more : Nat}
    (h : heredoc? rest = some (signed, mark, more)) : Clear more rest := by
  unfold heredoc? at h
  split at h
  · rename_i rest
    extract_lets sign tail quote mark closing at h
    split at h
    · cases h
    · rename_i hclosed
      obtain ⟨-, rfl, rfl⟩ := by simpa only [Option.some.injEq, Prod.mk.injEq] using h
      have hsign : Clear sign.length rest := clear_head (by decide) rest
      have hquote : Clear quote.length tail := clear_head (by decide) tail
      have hmark : Clear mark.length (tail.drop quote.length) := clear_heredocWord _
      have hclosing : Clear closing.length (tail.drop (quote.length + mark.length)) := by
        refine clear_head (List.any_eq_false.mpr fun gap hgap hheld => ?_) _
        have hmem := List.contains_iff_mem.mp hheld
        exact not_mem_gaps (fun c => c == doubleQuote || c == apostrophe) (by decide)
          (List.mem_filter.mp hmem).2 hgap
      have hsame : closing.length = quote.length := by
        simp only [Bool.or_eq_true, not_or, bne_iff_ne, ne_eq, Decidable.not_not] at hclosed
        exact hclosed.2
      have hall := (hquote.add hmark).add hclosing
      have hwhole := Clear.cons (c := '<') (by decide) (hsign.add hall)
      have hlength : 1 + sign.length + 2 * quote.length + mark.length =
          sign.length + (quote.length + mark.length + closing.length) + 1 := by omega
      rwa [hlength]
  · cases h

theorem isPrefix_operator? {text : List Char} {op : String} (h : operator? text = some op) :
    op.toList <+: text := by
  have hfits := List.find?_some h
  exact List.isPrefixOf_iff_prefix.mp hfits

theorem flat_operator {first : Char} {rest : List Char} {found : Scanned}
    (h : operator first rest = .ok found) : found.Flat rest := by
  unfold operator at h
  split at h
  · rename_i op hop
    cases h
    have hprefix := isPrefix_operator? hop
    have hmem : op ∈ operators := List.mem_of_find?_eq_some hop
    have hclear : ∀ op ∈ operators,
        op.toList ≠ [] ∧ op.toList.tail.any gaps.contains = false := by decide
    obtain ⟨hne, hnone⟩ := hclear op hmem
    have hgap : ∀ c ∈ op.toList.tail, c ∉ gaps := fun c hc hmem =>
      List.any_eq_false.mp hnone c hc (List.contains_iff_mem.mpr hmem)
    obtain ⟨c, others, hcons⟩ := List.exists_cons_of_ne_nil hne
    rw [hcons] at hprefix hgap
    refine ⟨?_, rfl, Lexeme.noConfusion⟩
    rw [hcons]
    exact .ofPiece (List.cons_prefix_cons.mp hprefix).2 hgap
  · cases h

theorem flat_angle {last : Option Lexeme} {spaced : Bool} {rest : List Char} {found : Scanned}
    (h : angle last spaced rest = .ok found) : found.Flat rest := by
  unfold angle at h
  split at h
  · rename_i hheredoc
    split at h
    · cases h
      exact ⟨clear_heredoc hheredoc, rfl, Lexeme.noConfusion⟩
    · exact flat_operator h
  · exact flat_operator h

/-- The value of a choice is that of one of its branches. -/
theorem of_ite_eq {α : Type} {goal test : Prop} [Decidable test] {yes no value : α}
    (hyes : test → yes = value → goal) (hno : ¬test → no = value → goal)
    (h : (if test then yes else no) = value) : goal := by
  by_cases htest : test
  · exact hyes htest ((if_pos htest).symm.trans h)
  · exact hno htest ((if_neg htest).symm.trans h)

/-- Every token lies within its text, and its line count falls short of its line breaks by the
uncounted ones. -/
theorem token_extent {last : Option Lexeme} {spaced : Bool} {first : Char} {rest : List Char}
    {found : Scanned} (h : token last spaced first rest = .ok found) :
    Extent first rest found := by
  unfold token at h
  revert h
  refine of_ite_eq (fun _ h => .of_flat (flat_number h)) (fun _ => ?_)
  refine of_ite_eq (fun _ h => .of_flat (flat_word h)) (fun _ => ?_)
  refine of_ite_eq (fun _ h => .of_flat (flat_instanceVariable h)) (fun _ => ?_)
  refine of_ite_eq (fun _ h => .of_flat (flat_globalVariable h)) (fun _ => ?_)
  refine of_ite_eq (fun hquote h => ?_) (fun _ => ?_)
  · refine extent_quotedToken ?_ (fun _ => Lexeme.noConfusion) h
    simpa [quotes, or_assoc] using hquote
  refine of_ite_eq (fun hcolon h => ?_) (fun _ => ?_)
  · obtain rfl : first = ':' := by simpa using (Bool.and_eq_true_iff.mp hcolon).1
    exact extent_symbol h
  refine of_ite_eq (fun hpercent h => ?_) (fun _ => ?_)
  · obtain ⟨hfirst, hallowed⟩ := Bool.and_eq_true_iff.mp hpercent
    obtain rfl : first = '%' := by simpa using hfirst
    exact extent_percentLiteral hallowed h
  refine of_ite_eq (fun hslash h => ?_) (fun _ => ?_)
  · obtain rfl : first = '/' := by simpa using (Bool.and_eq_true_iff.mp hslash).1
    exact extent_regexp h
  refine of_ite_eq (fun hmark h => ?_) (fun _ => ?_)
  · cases h
    exact .of_flat
      ⟨flat_character (Bool.and_eq_true_iff.mp hmark).2, rfl, Lexeme.noConfusion⟩
  refine of_ite_eq (fun hangle h => ?_) (fun _ h => .of_flat (flat_operator h))
  obtain rfl : first = '<' := by simpa using hangle
  exact .of_flat (flat_angle h)

end Lexer
end ViewSchema.Template
