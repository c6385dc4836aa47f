import ViewSchema.Template.Lexer

/-!
Reading a quoted text. What it takes is some first characters of the text, and what follows them
has no part in it. Its line count leaves out the line breaks in texts nested in interpolations.
-/

namespace ViewSchema.Template.Lexer

open Text

/-- The line breaks of a quoted text, from some place in it up to its closing quote, that lie in
texts nested in interpolations. -/
def nestedBreaks (quote : Char) : Inside → List Char → Nat
  | _, [] => 0
  | .plain, '\\' :: _ :: rest => nestedBreaks quote .plain rest
  | .plain, '#' :: '\x7b' :: rest =>
    if quote == apostrophe then nestedBreaks quote .plain rest
    else nestedBreaks quote (.code 1) rest
  | .plain, c :: rest => if c == quote then 0 else nestedBreaks quote .plain rest
  | .code braces, c :: rest =>
    if c == doubleQuote || c == apostrophe then nestedBreaks quote (.nested c braces) rest
    else if c == '\x7b' then nestedBreaks quote (.code (braces + 1)) rest
    else if c == '\x7d' then
      if braces ≤ 1 then nestedBreaks quote .plain rest
      else nestedBreaks quote (.code (braces - 1)) rest
    else nestedBreaks quote (.code braces) rest
  | .nested inner braces, '\\' :: c :: rest =>
    lineCount c + nestedBreaks quote (.nested inner braces) rest
  | .nested inner braces, c :: rest =>
    lineCount c +
      if c == inner then nestedBreaks quote (.code braces) rest
      else nestedBreaks quote (.nested inner braces) rest

/-- What quotes a text. -/
def quotes : List Char := [doubleQuote, apostrophe, graveAccent]

theorem ne_of_mem_quotes {c d : Char} (h : c ∈ quotes) (hd : d ∉ quotes) : c ≠ d := by
  rintro rfl
  exact hd h

/-- Reading a quoted text from some place in it has used up some characters, and what follows them
does not matter. -/
structure Quoted (quote : Char) (inside : Inside) (q : Quotation) (text : List Char)
    (done : Quotation) (used : List Char) : Prop where
  split : used <+: text
  ne_nil : used ≠ []
  closes : [quote] <:+ used
  length : done.length = q.length + used.length
  lines : done.lines + nestedBreaks quote inside used = q.lines + used.count '\n'
  rest : ∀ tail, quotation quote inside q (used ++ tail) = .ok done

/-- Reading a quoted text goes past some characters in it. -/
structure Passes (quote : Char) (piece : List Char) (inside : Inside) (q : Quotation)
    (inside' : Inside) (q' : Quotation) (rest : List Char) : Prop where
  reads : quotation quote inside q (piece ++ rest) = quotation quote inside' q' rest
  length : q'.length = q.length + piece.length
  lines : q'.lines + nestedBreaks quote inside (piece ++ rest) =
    q.lines + piece.count '\n' + nestedBreaks quote inside' rest

theorem count_singleton (c : Char) : [c].count '\n' = lineCount c := by
  simp [lineCount, List.count_cons]

theorem count_escape (c : Char) : ['\\', c].count '\n' = lineCount c := by
  rw [← count_singleton c]
  rfl

variable {quote : Char} {inside inside' : Inside} {q q' done : Quotation}
  {piece rest used : List Char}

theorem Quoted.behind (piece : List Char) (h : Quoted quote inside' q' rest done used)
    (hpasses : ∀ tail, Passes quote piece inside q inside' q' (used ++ tail)) :
    Quoted quote inside q (piece ++ rest) done (piece ++ used) := by
  have hstep := hpasses []
  rw [List.append_nil] at hstep
  refine ⟨(List.prefix_append_right_inj piece).mpr h.split, ?_, ?_, ?_, ?_, ?_⟩
  · exact List.append_ne_nil_of_right_ne_nil _ h.ne_nil
  · exact h.closes.trans (List.suffix_append piece used)
  · rw [h.length, hstep.length, List.length_append, Nat.add_assoc]
  · have hinner := h.lines
    have houter := hstep.lines
    rw [List.count_append]
    omega
  · intro tail
    rw [List.append_assoc, (hpasses tail).reads]
    exact h.rest tail

theorem passes_escape (c : Char) (rest : List Char) :
    Passes quote ['\\', c] .plain q .plain
      { q with value := escaped quote c :: q.value, length := q.length + 2
               lines := q.lines + lineCount c } rest where
  reads := by simp only [List.cons_append, List.nil_append, quotation]
  length := rfl
  lines := by
    rw [count_escape]
    simp only [List.cons_append, List.nil_append, nestedBreaks]

theorem passes_plain {c : Char} (hescape : c ≠ '\\') (hcode : c = '#' → rest.head? ≠ some '\x7b')
    (hquote : (c == quote) = false) :
    Passes quote [c] .plain q .plain (q.keep c (lineCount c)) rest where
  reads := by
    simp only [List.cons_append, List.nil_append]
    rw [quotation]
    · simp [hquote]
    · rintro d others rfl
      exact absurd rfl hescape
    · rintro others rfl rfl
      exact absurd rfl (hcode rfl)
  length := rfl
  lines := by
    rw [count_singleton]
    simp only [List.cons_append, List.nil_append]
    rw [nestedBreaks]
    · simp [hquote, Quotation.keep]
    · rintro d others rfl
      exact absurd rfl hescape
    · rintro others rfl rfl
      exact absurd rfl (hcode rfl)

/-- An interpolation opens, unless nothing is interpolated between the quotes. -/
theorem passes_opening (rest : List Char) :
    Passes quote ['#', '\x7b'] .plain q (if quote == apostrophe then .plain else .code 1)
      { (q.keep '#' 0).keep '\x7b' 0 with dynamic := quote != apostrophe || q.dynamic } rest where
  reads := by
    simp only [List.cons_append, List.nil_append, quotation]
    cases hquote : quote == apostrophe <;> simp [bne, hquote, Quotation.keep]
  length := rfl
  lines := by
    simp only [List.cons_append, List.nil_append, nestedBreaks]
    cases quote == apostrophe <;> rfl

/-- Where a character of an interpolation leads. -/
def afterCode (c : Char) (braces : Nat) : Inside :=
  if c == doubleQuote || c == apostrophe then .nested c braces
  else if c == '\x7b' then .code (braces + 1)
  else if c == '\x7d' then if braces ≤ 1 then .plain else .code (braces - 1)
  else .code braces

theorem passes_code (c : Char) (braces : Nat) (rest : List Char) :
    Passes quote [c] (.code braces) q (afterCode c braces) (q.keep c (lineCount c)) rest where
  reads := by
    -- What nests or ends an interpolation is no line break.
    have hsign : ∀ sign : Char, sign ≠ '\n' → (c == sign) = true → lineCount c = 0 := by
      intro sign hbreak hc
      rw [beq_iff_eq.mp hc]
      simp [lineCount, hbreak]
    simp only [List.cons_append, List.nil_append, quotation, afterCode]
    split
    · rename_i hinner
      rcases Bool.or_eq_true_iff.mp hinner with hc | hc
      · rw [hsign doubleQuote (by decide) hc]
      · rw [hsign apostrophe (by decide) hc]
    · split
      · rw [hsign '\x7b' (by decide) ‹_›]
      · split
        · rw [hsign '\x7d' (by decide) ‹_›]
          split <;> rfl
        · rfl
  length := rfl
  lines := by
    have hnested : nestedBreaks quote (.code braces) (c :: rest) =
        nestedBreaks quote (afterCode c braces) rest := by
      simp only [nestedBreaks, afterCode]
      repeat' split
      all_goals rfl
    rw [count_singleton]
    exact congrArg (q.lines + lineCount c + ·) hnested

theorem passes_nested_escape (inner : Char) (braces : Nat) (c : Char) (rest : List Char) :
    Passes quote ['\\', c] (.nested inner braces) q (.nested inner braces)
      ((q.keep '\\' 0).keep c 0) rest where
  reads := by simp only [List.cons_append, List.nil_append, quotation]
  length := rfl
  lines := by
    rw [count_escape]
    simp only [List.cons_append, List.nil_append, nestedBreaks, Quotation.keep]
    omega

/-- A character of a nested text, which may be its closing quote. -/
theorem passes_nested {inner : Char} {braces : Nat} {c : Char} (hescape : c ≠ '\\')
    (rest : List Char) :
    Passes quote [c] (.nested inner braces) q
      (if c == inner then .code braces else .nested inner braces) (q.keep c 0) rest where
  reads := by
    simp only [List.cons_append, List.nil_append]
    rw [quotation]
    · split <;> rfl
    · rintro d others rfl
      exact absurd rfl hescape
  length := rfl
  lines := by
    simp only [List.cons_append, List.nil_append]
    rw [count_singleton, nestedBreaks]
    · simp only [Quotation.keep]
      split <;> omega
    · rintro d others rfl
      exact absurd rfl hescape

/-- The closing quote. -/
theorem quoted_closing (hquote : quote ∈ quotes) (rest : List Char) :
    Quoted quote .plain q (quote :: rest) { q with length := q.length + 1 } [quote] := by
  have hslash : quote ≠ '\\' := ne_of_mem_quotes hquote (by decide)
  have hhash : quote ≠ '#' := ne_of_mem_quotes hquote (by decide)
  have hbreak : quote ≠ '\n' := ne_of_mem_quotes hquote (by decide)
  refine ⟨List.prefix_append [quote] rest, by simp, List.suffix_rfl, rfl, ?_, fun tail => ?_⟩
  · rw [count_singleton]
    simp [nestedBreaks, lineCount, hbreak]
  · simp [quotation, hslash, hhash]

theorem Quoted.head?_append (h : Quoted quote inside q rest done used) (tail : List Char) :
    (used ++ tail).head? = rest.head? := by
  obtain ⟨c, others, rfl⟩ := List.exists_cons_of_ne_nil h.ne_nil
  obtain ⟨behind, rfl⟩ := h.split
  rfl

/-- Reading a quoted text that closes meets the closing quote or goes past one or two characters,
which the character behind them decides and nothing else that follows. -/
theorem exists_passes {text : List Char} (h : quotation quote inside q text = .ok done) :
    (inside = .plain ∧ ∃ rest, text = quote :: rest) ∨
      ∃ piece rest inside' q', text = piece ++ rest ∧ piece ≠ [] ∧
        ∀ others, others.head? = rest.head? → Passes quote piece inside q inside' q' others := by
  rcases text with _ | ⟨c, rest⟩
  · cases inside <;> cases h
  cases inside with
  | code braces =>
    exact .inr ⟨[c], rest, _, _, rfl, by simp, fun others _ => passes_code c braces others⟩
  | nested inner braces =>
    by_cases hslash : c = '\\'
    · subst hslash
      rcases rest with _ | ⟨d, rest⟩
      · simp only [quotation] at h
        split at h <;> cases h
      · exact .inr ⟨['\\', d], rest, _, _, rfl, by simp,
          fun others _ => passes_nested_escape inner braces d others⟩
    · exact .inr ⟨[c], rest, _, _, rfl, by simp, fun others _ => passes_nested hslash others⟩
  | plain =>
    by_cases hclosing : c = quote
    · exact .inl ⟨rfl, rest, hclosing ▸ rfl⟩
    right
    by_cases hslash : c = '\\'
    · subst hslash
      rcases rest with _ | ⟨d, rest⟩
      · simp [quotation, hclosing] at h
      · exact ⟨['\\', d], rest, _, _, rfl, by simp, fun others _ => passes_escape d others⟩
    by_cases hcode : c = '#' ∧ rest.head? = some '\x7b'
    · obtain ⟨rfl, hbrace⟩ := hcode
      obtain ⟨code, rfl⟩ := List.head?_eq_some_iff.mp hbrace
      exact ⟨['#', '\x7b'], code, _, _, rfl, by simp, fun others _ => passes_opening others⟩
    · have hmove : ∀ others : List Char, others.head? = rest.head? →
          Passes quote [c] .plain q .plain (q.keep c (lineCount c)) others := by
        intro others hothers
        exact passes_plain hslash (hothers ▸ not_and.mp hcode) (by simpa using hclosing)
      exact ⟨[c], rest, _, _, rfl, by simp, hmove⟩

/-- A quoted text that closes. The induction is on the length of what is left to read. -/
theorem exists_quoted (hquote : quote ∈ quotes) {text : List Char}
    (h : quotation quote inside q text = .ok done) :
    ∃ used, Quoted quote inside q text done used := by
  induction hn : text.length using Nat.strongRecOn generalizing inside q text with
  | ind n ih => ?_
  subst hn
  obtain ⟨rfl, rest, rfl⟩ | ⟨piece, rest, inside', q', rfl, hpiece, hpasses⟩ := exists_passes h
  · have hdone := (quoted_closing (q := q) hquote rest).rest rest
    obtain rfl : { q with length := q.length + 1 } = done := Except.ok.inj (hdone.symm.trans h)
    exact ⟨_, quoted_closing hquote rest⟩
  · have hshorter : rest.length < (piece ++ rest).length := by
      simpa using List.length_pos_iff.mpr hpiece
    have hreads := (hpasses rest rfl).reads
    obtain ⟨used, hused⟩ := ih _ hshorter (hreads.symm.trans h) rfl
    exact ⟨_, hused.behind piece fun tail => hpasses _ (hused.head?_append tail)⟩

theorem nestedBreaks_le (quote : Char) (inside : Inside) (text : List Char) :
    nestedBreaks quote inside text ≤ text.count '\n' := by
  have hcons : ∀ (c : Char) (rest : List Char),
      (c :: rest).count '\n' = lineCount c + rest.count '\n' := by
    intro c rest
    rw [← count_singleton c, ← List.count_append]
    rfl
  fun_induction nestedBreaks quote inside text with
  | case1 => exact Nat.zero_le _
  | case13 =>
    rw [hcons]
    split <;> omega
  | _ =>
    simp only [hcons]
    omega

end ViewSchema.Template.Lexer
