import ViewSchema.Proofs.Template.Extent

/-!
What a token sees of the text that it is read from. Most tokens see a line break as the end of the
text. A quoted text, a percent literal and a regular expression can go over line breaks, but see
nothing beyond the first line break behind them. So a token does not change when the text behind
the line break that follows it does.
-/

namespace ViewSchema.Template.Lexer

open Text

section Break

variable (r x : List Char)

theorem takeWhile_break (test : Char → Bool) (htest : test '\n' = false) :
    (r ++ '\n' :: x).takeWhile test = r.takeWhile test := by
  induction r with
  | nil => simp [htest]
  | cons c r ih => simp [List.takeWhile_cons, ih]

theorem dropWhile_break (test : Char → Bool) (htest : test '\n' = false) :
    (r ++ '\n' :: x).dropWhile test = r.dropWhile test ++ '\n' :: x := by
  induction r with
  | nil => simp [htest]
  | cons c r ih =>
    simp only [List.cons_append, List.dropWhile_cons, ih]
    split <;> rfl

theorem drop_break {count : Nat} (h : count ≤ r.length) :
    (r ++ '\n' :: x).drop count = r.drop count ++ '\n' :: x :=
  List.drop_append_of_le_length h

theorem head_break (test : Char → Bool) (htest : test '\n' = false) :
    ((r ++ '\n' :: x).take 1).filter test = (r.take 1).filter test := by
  cases r with
  | nil => simp [htest]
  | cons c r => rfl

theorem isPrefixOf_break {mark : List Char} (hmark : '\n' ∉ mark) :
    mark.isPrefixOf (r ++ '\n' :: x) = mark.isPrefixOf r := by
  induction mark generalizing r with
  | nil => rfl
  | cons c mark ih =>
    obtain ⟨hc, hrest⟩ := not_or.mp (mt List.mem_cons.mpr hmark)
    cases r with
    | nil => simp [List.isPrefixOf, Ne.symm hc]
    | cons d r => simp [List.isPrefixOf, ih r hrest]

theorem identifier_break : identifier (r ++ '\n' :: x) = identifier r := by
  cases r with
  | nil =>
    have hstart : isWordStart '\n' = false := by decide
    simp [identifier, hstart]
  | cons c r =>
    have hletter : isWordChar '\n' = false := by decide
    simp [identifier, takeWhile_break r x _ hletter]

theorem places_break : places (r ++ '\n' :: x) = places r := by
  have hdigits : isDigitOrUnderscore '\n' = false := by decide
  match r with
  | [] => rfl
  | [c] =>
    by_cases hc : c = '.'
    · subst hc
      rfl
    · simp [places, hc]
  | c :: d :: r =>
    by_cases hc : c = '.'
    · subst hc
      simp [places, takeWhile_break r x _ hdigits]
    · simp [places, hc]

theorem exponentDigits_break : exponentDigits (r ++ '\n' :: x) = exponentDigits r := by
  have hdigits : isAsciiDigit '\n' = false := by decide
  cases r with
  | nil => simp [exponentDigits, hdigits]
  | cons c r =>
    by_cases hplus : c = '+'
    · subst hplus
      simp [exponentDigits, takeWhile_break r x _ hdigits]
    by_cases hminus : c = '-'
    · subst hminus
      simp [exponentDigits, takeWhile_break r x _ hdigits]
    · have htake := takeWhile_break (c :: r) x _ hdigits
      simpa [exponentDigits, hplus, hminus] using htake

theorem exponent_break : exponent (r ++ '\n' :: x) = exponent r := by
  cases r with
  | nil => rfl
  | cons c r => simp [exponent, exponentDigits_break]

theorem number_break (first : Char) : number first (r ++ '\n' :: x) = number first r := by
  have hdigits : isDigitOrUnderscore '\n' = false := by decide
  have hpower : ∀ t : List Char,
      exponent (if (places t).isEmpty then t ++ '\n' :: x
        else (t ++ '\n' :: x).drop ((places t).length + 1)) =
      exponent (if (places t).isEmpty then t else t.drop ((places t).length + 1)) := by
    intro t
    rcases clear_places t with hnone | hplaces
    · simp [hnone, exponent_break]
    · split
      · exact exponent_break t x
      · rw [drop_break t x hplaces.within, exponent_break]
  simp only [number, takeWhile_break r x _ hdigits, dropWhile_break r x _ hdigits, places_break,
    hpower]

theorem wordMark_break : wordMark (r ++ '\n' :: x) = wordMark r := by
  match r with
  | [] => rfl
  | [c] => simp [wordMark]
  | [c, d] =>
    by_cases hd : d = '='
    · subst hd
      simp [wordMark]
    by_cases hcolon : d = ':'
    · subst hcolon
      simp [wordMark]
    · simp [wordMark, hd, hcolon]
  | c :: d :: e :: r =>
    by_cases hd : d = '='
    · subst hd
      by_cases he : e = '='
      · subst he
        simp [wordMark]
      · simp [wordMark, he]
    by_cases hcolon : d = ':'
    · subst hcolon
      simp [wordMark]
    · simp [wordMark, hd, hcolon]

theorem colonNext_break : colonNext (r ++ '\n' :: x) = colonNext r := by
  match r with
  | [] => rfl
  | [c] =>
    by_cases hc : c = ':'
    · subst hc
      rfl
    · simp [colonNext, hc]
  | c :: d :: r =>
    by_cases hc : c = ':'
    · subst hc
      by_cases hd : d = ':'
      · subst hd
        rfl
      · simp [colonNext, hd]
    · simp [colonNext, hc]

theorem word_break (afterDot : Bool) (first : Char) :
    word afterDot first (r ++ '\n' :: x) = word afterDot first r := by
  have hword : isWordChar '\n' = false := by decide
  have hmark := clear_wordMark (r.dropWhile isWordChar)
  simp only [word, takeWhile_break r x _ hword, dropWhile_break r x _ hword, wordMark_break,
    drop_break _ x hmark.within, colonNext_break]

theorem instanceVariable_break : instanceVariable (r ++ '\n' :: x) = instanceVariable r := by
  cases r with
  | nil => rfl
  | cons c r =>
    have hcons := identifier_break (c :: r) x
    rw [List.cons_append] at hcons
    by_cases hc : c = '@'
    · simp [instanceVariable, hc, identifier_break]
    · simp [instanceVariable, hc, hcons]

theorem globalVariable_break : globalVariable (r ++ '\n' :: x) = globalVariable r := by
  have hblank : (!isBlank '\n') = false := by decide
  simp only [globalVariable, identifier_break, head_break r x (!isBlank ·) hblank]

theorem symbolAllowed_break (last : Option Lexeme) (spaced : Bool) :
    symbolAllowed last spaced (r ++ '\n' :: x) = symbolAllowed last spaced r := by
  cases r with
  | nil => rfl
  | cons c r => rfl

theorem percentAllowed_break (last : Option Lexeme) (spaced : Bool) :
    percentAllowed last spaced (r ++ '\n' :: x) = percentAllowed last spaced r := by
  have hblank : isBlank '\n' = true := by decide
  match r with
  | [] =>
    have hkind : percentKind ('\n' :: x) = (none, some '\n') := rfl
    have hnone : percentKind [] = (none, none) := rfl
    simp [percentAllowed, hkind, hnone, hblank]
  | [c] =>
    cases hc : percentKinds.contains c with
    | true =>
      have hkind : percentKind (c :: '\n' :: x) = (some c, some '\n') := if_pos hc
      have hnone : percentKind [c] = (some c, none) := if_pos hc
      simp [percentAllowed, hkind, hnone, hblank]
    | false =>
      have hnot : ¬percentKinds.contains c = true := Bool.eq_false_iff.mp hc
      have hkind : percentKind (c :: '\n' :: x) = (none, some c) := if_neg hnot
      have hsame : percentKind [c] = (none, some c) := if_neg hnot
      rw [percentAllowed, percentAllowed, List.cons_append, List.nil_append, hkind, hsame]
  | c :: d :: r => rfl

theorem regexpAllowed_break (last : Option Lexeme) (spaced : Bool) :
    regexpAllowed last spaced (r ++ '\n' :: x) = regexpAllowed last spaced r := by
  cases r with
  | nil => rfl
  | cons c r => rfl

theorem characterAllowed_break (last : Option Lexeme) :
    characterAllowed last (r ++ '\n' :: x) = characterAllowed last r := by
  have hblank : isBlank '\n' = true := by decide
  have hword : isWordChar '\n' = false := by decide
  match r with
  | [] => cases x <;> simp [characterAllowed, hblank]
  | [c] => simp [characterAllowed, hword]
  | c :: d :: r => rfl

theorem heredocWord_break : heredocWord (r ++ '\n' :: x) = heredocWord r := by
  cases r with
  | nil => rfl
  | cons c r =>
    have htake := takeWhile_break r x (fun d => isAsciiLetter d || isAsciiDigit d || d == '_')
      (by decide)
    simp only [List.cons_append, heredocWord, htake]

theorem operator?_break (first : Char) :
    operator? (first :: (r ++ '\n' :: x)) = operator? (first :: r) := by
  have hbreak : ∀ op ∈ operators, '\n' ∉ op.toList := by decide
  have hprefix : ∀ op ∈ operators,
      op.toList.isPrefixOf (first :: (r ++ '\n' :: x)) = op.toList.isPrefixOf (first :: r) :=
    fun op hop => isPrefixOf_break (first :: r) x (hbreak op hop)
  unfold operator?
  generalize operators = ops at hprefix
  induction ops with
  | nil => rfl
  | cons op ops ih =>
    obtain ⟨hop, hops⟩ := List.forall_mem_cons.mp hprefix
    rw [List.find?_cons, List.find?_cons, hop, ih hops]

theorem operator_break (first : Char) : operator first (r ++ '\n' :: x) = operator first r := by
  rw [operator, operator, operator?_break]

/-- What may open the quoted mark of a heredoc. -/
def markQuote (text : List Char) : List Char :=
  (text.take 1).filter fun c => c == doubleQuote || c == apostrophe

theorem break_not_mem_markQuote (text : List Char) : (markQuote text).contains '\n' = false := by
  refine Bool.eq_false_iff.mpr fun hmem => ?_
  have hquote := (List.mem_filter.mp (List.contains_iff_mem.mp hmem)).2
  revert hquote
  decide

theorem heredoc?_break : heredoc? (r ++ '\n' :: x) = heredoc? r := by
  cases r with
  | nil => rfl
  | cons c r =>
    by_cases hc : c = '<'
    · subst hc
      have hsign := head_break r x (fun c => c == '~' || c == '-') (by decide)
      have hsignWithin : ((r.take 1).filter fun c => c == '~' || c == '-').length ≤ r.length :=
        (clear_head (by decide) r).within
      have hquote : ∀ tail, markQuote (tail ++ '\n' :: x) = markQuote tail :=
        fun tail => head_break tail x _ (by decide)
      have hquoteClear : ∀ tail, Clear (markQuote tail).length tail :=
        fun tail => clear_head (by decide) tail
      have hmarkClear : ∀ tail, Clear (heredocWord tail).length tail := clear_heredocWord
      have hclosing : ∀ tail rest : List Char,
          ((rest ++ '\n' :: x).take 1).filter (markQuote tail).contains =
            (rest.take 1).filter (markQuote tail).contains :=
        fun tail rest => head_break rest x _ (break_not_mem_markQuote tail)
      unfold markQuote at *
      simp only [List.cons_append, heredoc?, hsign, drop_break r x hsignWithin, hquote,
        drop_break _ x (hquoteClear _).within, heredocWord_break,
        drop_break _ x ((hquoteClear _).add (hmarkClear _)).within, hclosing]
    · simp [heredoc?, hc]

theorem angle_break (last : Option Lexeme) (spaced : Bool) :
    angle last spaced (r ++ '\n' :: x) = angle last spaced r := by
  rw [angle, angle, heredoc?_break, operator_break]

theorem signs_break :
    ((r ++ '\n' :: x).take 2).takeWhile (· == '@') = (r.take 2).takeWhile (· == '@') := by
  match r with
  | [] => rfl
  | [c] => by_cases hc : c = '@' <;> simp [hc]
  | c :: d :: r => rfl

/-- A symbol that is not quoted ends with its line. -/
theorem symbol_break (h : r.head? ≠ some doubleQuote) : symbol (r ++ '\n' :: x) = symbol r := by
  cases r with
  | nil => rfl
  | cons c r =>
    have hc : (c == doubleQuote) = false := by simpa using h
    have hsigns := signs_break (c :: r) x
    have hsignsClear := clear_signs (c :: r)
    have hname := fun tail => identifier_break tail x
    have hnameClear := clear_identifier ((c :: r).drop
      (((c :: r).take 2).takeWhile (· == '@')).length)
    have hmark : ∀ tail : List Char, ((tail ++ '\n' :: x).take 1).filter
        (fun c => c == '?' || c == '!' || c == '=') =
          (tail.take 1).filter fun c => c == '?' || c == '!' || c == '=' :=
      fun tail => head_break tail x _ (by decide)
    rw [List.cons_append] at hsigns
    simp only [List.cons_append, symbol, hc, Bool.false_eq_true, if_false, hsigns]
    simp only [← List.cons_append, drop_break _ x hsignsClear.within, hname,
      drop_break _ x (hsignsClear.add hnameClear).within, hmark]

end Break

section Tail

variable {r x : List Char} {found : Scanned}

theorem quotation_append {quote : Char} (hquote : quote ∈ quotes) {done : Quotation}
    (h : quotation quote .plain {} (r ++ x) = .ok done) (hlength : done.length ≤ r.length)
    (y : List Char) : quotation quote .plain {} (r ++ y) = .ok done := by
  obtain ⟨used, hused⟩ := exists_quoted hquote h
  have hfits : used.length ≤ r.length := by
    have := hused.length
    simp only [Nat.zero_add] at this
    omega
  obtain ⟨rest, rfl⟩ :=
    List.prefix_of_prefix_length_le hused.split (List.prefix_append r x) hfits
  rw [List.append_assoc]
  exact hused.rest (rest ++ y)

theorem quotedToken_append {make : String → Lexeme} {extra : Nat} {quote : Char}
    (hquote : quote ∈ quotes) (h : quotedToken make extra quote (r ++ x) = .ok found)
    (hmore : found.more ≤ extra + r.length) (y : List Char) :
    quotedToken make extra quote (r ++ y) = .ok found := by
  unfold quotedToken at h ⊢
  split at h
  · cases h
  · rename_i done hdone
    cases h
    rw [quotation_append hquote hdone (by simpa using hmore) y]

theorem symbol_append (h : symbol (r ++ '\n' :: x) = .ok found) (hmore : found.more ≤ r.length)
    (y : List Char) : symbol (r ++ '\n' :: y) = .ok found := by
  by_cases hquoted : r.head? = some doubleQuote
  · obtain ⟨tail, rfl⟩ := List.head?_eq_some_iff.mp hquoted
    rw [List.length_cons, Nat.add_comm] at hmore
    exact quotedToken_append (by decide) h hmore _
  · rw [symbol_break _ _ hquoted] at h ⊢
    exact h

/-- The opening of a percent literal does not depend on what follows it. -/
theorem percentKind_append (h : 2 ≤ r.length) (y : List Char) :
    percentKind (r ++ y) = percentKind (r ++ x) := by
  match r, h with
  | c :: d :: r, _ => rfl

theorem percentLiteral_append (h : percentLiteral (r ++ x) = .ok found)
    (hmore : found.more ≤ r.length) (y : List Char) : percentLiteral (r ++ y) = .ok found := by
  -- A literal has an opening and a closing delimiter.
  have htwo : 2 ≤ found.more := by
    unfold percentLiteral at h
    split at h
    · cases h
    · dsimp only at h
      split at h
      · cases h
      · split at h <;> cases h <;> dsimp only <;> split <;> omega
  unfold percentLiteral at h ⊢
  rw [percentKind_append (x := x) (Nat.le_trans htwo hmore) y]
  generalize percentKind (r ++ x) = delimiters at h ⊢
  obtain ⟨kind, _ | opener⟩ := delimiters
  · cases h
  dsimp only at h ⊢
  generalize (if kind.isSome then 2 else 1) = opening at h ⊢
  cases hcut : cutAt? [closer opener] ((r ++ x).drop opening) with
  | none =>
    rw [hcut] at h
    cases h
  | some pair =>
    obtain ⟨body, tail⟩ := pair
    rw [hcut] at h
    dsimp only at h
    have hwithin : opening + body.length + 1 ≤ r.length := by
      split at h <;> cases h <;> exact hmore
    have hdrop : ∀ tail, (r ++ tail).drop opening = r.drop opening ++ tail := fun tail =>
      List.drop_append_of_le_length (by omega)
    rw [hdrop] at hcut
    have hcloses : body.length + [closer opener].length ≤ (r.drop opening).length := by
      simp only [List.length_drop, List.length_singleton]
      omega
    obtain ⟨rest, -, hfront⟩ := cutAt?_front hcut hcloses
    have htake : ∀ tail, (r ++ tail).take (opening + body.length + 1) =
        r.take (opening + body.length + 1) := fun tail => List.take_append_of_le_length hwithin
    rw [hdrop, hfront]
    rw [htake x, ← htake y] at h
    exact h

theorem regexpLength_cons {c : Char} (hc : c ≠ '\\') (text : List Char) :
    regexpLength (c :: text) =
      if c == '/' then some 1
      else if c == '\n' then none
      else (regexpLength text).map (· + 1) := by
  rw [regexpLength]
  · exact fun h => absurd h hc
  · exact fun _ _ h => absurd h hc

theorem regexpLength_pos {text : List Char} {length : Nat} (h : regexpLength text = some length) :
    0 < length := by
  unfold regexpLength at h
  split at h
  · cases h
  · cases h
  · obtain ⟨inner, -, rfl⟩ := Option.map_eq_some_iff.mp h
    exact Nat.succ_pos _
  · split at h
    · cases h
      exact Nat.one_pos
    split at h
    · cases h
    · obtain ⟨inner, -, rfl⟩ := Option.map_eq_some_iff.mp h
      exact Nat.succ_pos _

theorem regexpLength_append {r : List Char} {length : Nat}
    (h : regexpLength (r ++ x) = some length) (hlength : length ≤ r.length) (y : List Char) :
    regexpLength (r ++ y) = some length := by
  have hpos := regexpLength_pos h
  match r with
  | [] => exact absurd hlength (Nat.not_le.mpr hpos)
  | c :: r =>
    by_cases hc : c = '\\'
    · subst hc
      -- A backslash goes with the character behind it, which has to be one of the front.
      cases r with
      | nil =>
        cases x with
        | nil => cases h
        | cons c x =>
          obtain ⟨inner, hinner, rfl⟩ := Option.map_eq_some_iff.mp h
          simp at hlength
      | cons d r =>
        obtain ⟨inner, hinner, rfl⟩ := Option.map_eq_some_iff.mp h
        have hrest := regexpLength_append hinner (by simpa using hlength) y
        simp [regexpLength, hrest]
    · rw [List.cons_append, regexpLength_cons hc] at h ⊢
      split
      · rwa [if_pos ‹_›] at h
      rw [if_neg ‹_›] at h
      split
      · rwa [if_pos ‹_›] at h
      rw [if_neg ‹_›] at h
      obtain ⟨inner, hinner, rfl⟩ := Option.map_eq_some_iff.mp h
      rw [regexpLength_append hinner (by simpa using hlength) y]
      rfl

theorem regexp_append (h : regexp (r ++ '\n' :: x) = .ok found) (hmore : found.more ≤ r.length)
    (y : List Char) : regexp (r ++ '\n' :: y) = .ok found := by
  unfold regexp at h ⊢
  cases hlength : regexpLength (r ++ '\n' :: x) with
  | none =>
    rw [hlength] at h
    cases h
  | some length =>
    rw [hlength] at h
    dsimp -zeta only at h
    extract_lets more at h
    have hwithin : more ≤ r.length := by
      cases h
      exact hmore
    have hclosed : length ≤ r.length := Nat.le_trans (Nat.le_add_right _ _) hwithin
    have hflag : isRegexpFlag '\n' = false := by decide
    have hflags : ∀ tail, ((r ++ '\n' :: tail).drop length).takeWhile isRegexpFlag =
        (r.drop length).takeWhile isRegexpFlag := by
      intro tail
      rw [drop_break r tail hclosed, takeWhile_break _ _ _ hflag]
    rw [regexpLength_append hlength hclosed]
    simp only [more, hflags] at h hwithin
    simp only [hflags]
    rw [List.take_append_of_le_length hwithin] at h ⊢
    exact h

/-- Two choices by the same test find the same token when both their branches do. -/
theorem ite_found {test : Prop} [Decidable test] {yes no yes' no' : Found}
    (hyes : test → yes = .ok found → yes' = .ok found)
    (hno : ¬test → no = .ok found → no' = .ok found) (h : (if test then yes else no) = .ok found) :
    (if test then yes' else no') = .ok found := by
  by_cases htest : test
  · rw [if_pos htest] at h ⊢
    exact hyes htest h
  · rw [if_neg htest] at h ⊢
    exact hno htest h

/-- A token that ends in front of a line break, or further on, does not see what follows it. -/
theorem token_append {last : Option Lexeme} {spaced : Bool} {first : Char}
    (h : token last spaced first (r ++ '\n' :: x) = .ok found) (hmore : found.more ≤ r.length)
    (y : List Char) : token last spaced first (r ++ '\n' :: y) = .ok found := by
  simp only [token, number_break, word_break, instanceVariable_break, globalVariable_break,
    symbolAllowed_break, percentAllowed_break, regexpAllowed_break, characterAllowed_break,
    angle_break, operator_break] at h ⊢
  refine ite_found (fun _ => id) (fun _ => ?_) h
  refine ite_found (fun _ => id) (fun _ => ?_)
  refine ite_found (fun _ => id) (fun _ => ?_)
  refine ite_found (fun _ => id) (fun _ => ?_)
  refine ite_found (fun hquote h => ?_) (fun _ => ?_)
  · refine quotedToken_append ?_ h (by simpa using hmore) _
    simpa [quotes, or_assoc] using hquote
  refine ite_found (fun _ h => symbol_append h hmore y) (fun _ => ?_)
  refine ite_found (fun _ h => percentLiteral_append h hmore _) (fun _ => ?_)
  refine ite_found (fun _ h => regexp_append h hmore y) (fun _ => ?_)
  refine ite_found (fun _ h => ?_) (fun _ => id)
  cases h
  rw [List.take_append_of_le_length hmore, List.take_append_of_le_length hmore]

end Tail

end ViewSchema.Template.Lexer
