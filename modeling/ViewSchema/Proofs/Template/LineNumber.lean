import Mathlib.Algebra.GroupWithZero.Nat
import ViewSchema.Proofs.Template.Run

/-!
The lines that scanning gives to tokens and comments, against the line breaks of the text. A line
falls short of its place in the text by the line breaks that the tokens up to there leave out. Only
the token of a line break can lie beyond its place, by one line, when the text of a heredoc ends
the file without a line break.
-/

namespace ViewSchema.Template

open Text (trim)

/-- A token as it is written. -/
def Token.written (text : List Char) (t : Token) : List Char :=
  (text.drop t.start).take (t.stop - t.start)

/-- The line breaks in front of an offset. -/
def breaksBefore (text : List Char) (offset : Nat) : Nat := (text.take offset).count '\n'

/-- The line breaks in front of an offset that the line count leaves out. -/
def uncountedBefore (text : List Char) (tokens : List Token) (offset : Nat) : Nat :=
  ((tokens.filter (·.stop ≤ offset)).map fun t => Lexer.uncounted (t.written text)).sum

/-- The line of a token is that of its end. -/
def Token.LineFits (text : List Char) (tokens : List Token) (t : Token) : Prop :=
  t.line + uncountedBefore text tokens t.stop =
    1 + breaksBefore text t.stop +
      if t.lexeme = .newline ∧ Scan.endsLine (text.take t.stop) = false then 1 else 0

/-- A comment is the one that scanning comes to in a state, and its line is that of its opening
sign. -/
structure CommentFits (text : List Char) (tokens : List Token) (comment : Nat × String)
    (s : Scan) : Prop where
  reached : (Scan.start text).Reaches s
  opening : s.ahead.head? = some '#'
  said : comment.2 = String.ofList (trim (s.ahead.takeWhile (· != '\n')))
  line : comment.1 + uncountedBefore text tokens s.position = 1 + breaksBefore text s.position

theorem uncountedBefore_cons_of_lt {text : List Char} {tokens : List Token} {t : Token}
    {offset : Nat} (h : offset < t.stop) :
    uncountedBefore text (t :: tokens) offset = uncountedBefore text tokens offset := by
  simp [uncountedBefore, h]

theorem uncountedBefore_cons_of_le {text : List Char} {tokens : List Token} {t : Token}
    {offset : Nat} (h : t.stop ≤ offset) :
    uncountedBefore text (t :: tokens) offset =
      Lexer.uncounted (t.written text) + uncountedBefore text tokens offset := by
  simp [uncountedBefore, h]

/-- Behind all tokens nothing is left out any more. -/
theorem uncountedBefore_of_stops {text : List Char} {tokens : List Token} {offset later : Nat}
    (h : ∀ t ∈ tokens, t.stop ≤ offset) (hlater : offset ≤ later) :
    uncountedBefore text tokens later = uncountedBefore text tokens offset := by
  have hall : ∀ {bound : Nat}, offset ≤ bound → tokens.filter (·.stop ≤ bound) = tokens := by
    intro bound hbound
    refine List.filter_eq_self.mpr fun t ht => ?_
    exact decide_eq_true (Nat.le_trans (h t ht) hbound)
  simp only [uncountedBefore, hall hlater, hall (Nat.le_refl offset)]

theorem uncountedBefore_reverse (text : List Char) (tokens : List Token) (offset : Nat) :
    uncountedBefore text tokens.reverse offset = uncountedBefore text tokens offset := by
  simp [uncountedBefore, List.filter_reverse]

theorem Lexer.uncounted_of_length_le_one {written : List Char} (h : written.length ≤ 1) :
    uncounted written = 0 := by
  match written, h with
  | [], _ => rfl
  | [c], _ => exact Nat.le_zero.mp (uncounted_le c [])

namespace Scan

/-- What scanning has found fits the text so far. -/
structure Numbered (text : List Char) (s : Scan) : Prop where
  reached : (start text).Reaches s
  stops : ∀ t ∈ s.tokens, t.stop ≤ s.position
  line : s.ahead ≠ [] →
    s.line + uncountedBefore text s.tokens s.position = 1 + breaksBefore text s.position
  tokens : ∀ t ∈ s.tokens, t.LineFits text s.tokens
  comments : ∀ c ∈ s.comments, ∃ t, t.position ≤ s.position ∧ CommentFits text s.tokens c t

theorem numbered_start (text : List Char) : (start text).Numbered text where
  reached := .refl
  stops := by simp [start]
  line _ := by simp [start, uncountedBefore, breaksBefore]
  tokens := by simp [start]
  comments := by simp [start]

theorem breaksBefore_of_takes {text : List Char} {s t : Scan} {piece : List Char}
    (hs : (start text).Reaches s) (ht : (start text).Reaches t) (h : s.Takes t piece) :
    breaksBefore text t.position = breaksBefore text s.position + piece.count '\n' := by
  rw [breaksBefore, breaksBefore, hs.take_position, ht.take_position, h.before]
  simp

/-- A step that makes no token counts its line breaks. -/
theorem Numbered.quiet {text : List Char} {s t : Scan} {piece : List Char}
    (h : s.Numbered text) (hstep : s.Step t) (hpiece : piece ≠ []) (htakes : s.Takes t piece)
    (hline : t.ahead ≠ [] → t.line = s.line + piece.count '\n') (htokens : t.tokens = s.tokens)
    (hcomments : ∀ c ∈ t.comments, c ∈ s.comments ∨ CommentFits text s.tokens c s) :
    t.Numbered text := by
  have hreached := h.reached.tail hstep
  have hposition : s.position ≤ t.position := by
    rw [htakes.position]
    exact Nat.le_add_right _ _
  refine ⟨hreached, ?_, fun hmore => ?_, ?_, ?_⟩
  · rw [htokens]
    exact fun u hu => Nat.le_trans (h.stops u hu) hposition
  · have hahead : s.ahead ≠ [] := by
      rw [htakes.ahead]
      exact List.append_ne_nil_of_left_ne_nil hpiece _
    have hbefore := h.line hahead
    have hafter := hline hmore
    rw [htokens, uncountedBefore_of_stops h.stops hposition,
      breaksBefore_of_takes h.reached hreached htakes]
    omega
  · rw [htokens]
    exact h.tokens
  · rw [htokens]
    intro c hc
    rcases hcomments c hc with hold | hnew
    · obtain ⟨u, hu, hfits⟩ := h.comments c hold
      exact ⟨u, Nat.le_trans hu hposition, hfits⟩
    · exact ⟨s, hposition, hnew⟩

/-- A step that makes a token, which ends where the step does. -/
theorem Numbered.withToken {text : List Char} {s t : Scan} {u : Token} (h : s.Numbered text)
    (hstep : s.Step t) (hposition : s.position < t.position) (htokens : t.tokens = u :: s.tokens)
    (hstop : u.stop = t.position) (hcomments : t.comments = s.comments)
    (hline : t.ahead ≠ [] → t.line + uncountedBefore text t.tokens t.position =
      1 + breaksBefore text t.position) (hfits : u.LineFits text t.tokens) : t.Numbered text := by
  -- What is left out in front of an earlier offset stays the same.
  have hearlier : ∀ offset ≤ s.position,
      uncountedBefore text t.tokens offset = uncountedBefore text s.tokens offset := by
    intro offset hoffset
    rw [htokens]
    exact uncountedBefore_cons_of_lt (by omega)
  refine ⟨h.reached.tail hstep, ?_, hline, ?_, ?_⟩
  · rw [htokens]
    intro v hv
    rcases List.mem_cons.mp hv with rfl | hv
    · exact Nat.le_of_eq hstop
    · exact Nat.le_trans (h.stops v hv) (Nat.le_of_lt hposition)
  · intro v hv
    rw [htokens] at hv
    rcases List.mem_cons.mp hv with rfl | hv
    · exact hfits
    · rw [Token.LineFits, hearlier _ (h.stops v hv)]
      exact h.tokens v hv
  · rw [hcomments]
    intro c hc
    obtain ⟨v, hv, hat⟩ := h.comments c hc
    refine ⟨v, by omega, hat.reached, hat.opening, hat.said, ?_⟩
    rw [hearlier _ hv]
    exact hat.line

theorem Numbered.blank {text : List Char} {s : Scan} {c : Char} {rest : List Char}
    (h : s.Numbered text) (hs : s.ahead = c :: rest) (hc : c ≠ '\n')
    (hstep : s.Step { s.consume 1 with spaced := true }) :
    Numbered text { s.consume 1 with spaced := true } := by
  have hlength : 1 ≤ s.ahead.length := by simp [hs]
  have htakes := takes_consume s hlength
  rw [hs] at htakes
  refine h.quiet hstep (List.cons_ne_nil c []) ⟨htakes.ahead, htakes.before, htakes.position⟩
    (fun _ => ?_) rfl fun _ hc => .inl hc
  rw [List.count_singleton, beq_false_of_ne hc]
  rfl

theorem Numbered.continuation {text : List Char} {s : Scan} {rest : List Char}
    (h : s.Numbered text) (hs : s.ahead = '\\' :: '\n' :: rest)
    (hstep : s.Step { s.consume 2 with line := s.line + 1, spaced := true }) :
    Numbered text { s.consume 2 with line := s.line + 1, spaced := true } := by
  have hlength : 2 ≤ s.ahead.length := by simp [hs]
  have htakes := takes_consume s hlength
  rw [hs] at htakes
  exact h.quiet hstep (List.cons_ne_nil '\\' ['\n'])
    ⟨htakes.ahead, htakes.before, htakes.position⟩ (fun _ => rfl) rfl fun _ hc => .inl hc

theorem count_line (text : List Char) : (text.takeWhile (· != '\n')).count '\n' = 0 := by
  refine List.count_eq_zero.mpr fun hmem => ?_
  simpa using List.all_eq_true.mp List.all_takeWhile _ hmem

theorem Numbered.comment {text : List Char} {s : Scan} {rest : List Char} (h : s.Numbered text)
    (hs : s.ahead = '#' :: rest) (hstep : s.Step s.comment) : s.comment.Numbered text := by
  have hne : s.ahead ≠ [] := by simp [hs]
  refine h.quiet hstep (by simp [hs]) (takes_comment s) (fun _ => ?_) rfl ?_
  · rw [count_line]
    rfl
  · intro c hc
    rcases List.mem_cons.mp hc with rfl | hc
    · exact .inr ⟨h.reached, by simp [hs], rfl, h.line hne⟩
    · exact .inl (List.mem_filter.mp hc).1

theorem Numbered.blockComment {text : List Char} {s t : Scan} (h : s.Numbered text)
    (ht : s.blockComment? = some t) (hstep : s.Step t) : t.Numbered text := by
  obtain ⟨found, -, htakes, heq⟩ := takes_blockComment ht
  have hmark : "\n=end".toList.count '\n' = 1 := by decide
  refine h.quiet hstep (by simp) htakes (fun _ => ?_) ?_ ?_
  · rw [List.count_append, List.count_append, count_line, hmark, heq]
    exact Nat.add_assoc _ _ _
  · rw [heq]
  · rw [heq]
    exact fun _ hc => .inl hc

/-- What is left out does not change with the token of a line break. -/
theorem uncounted_withToken {text : List Char} {tokens : List Token} {u : Token} {offset : Nat}
    (hstops : ∀ t ∈ tokens, t.stop ≤ offset) (hoffset : offset ≤ u.stop)
    (hwritten : u.stop - u.start ≤ 1) :
    uncountedBefore text (u :: tokens) u.stop = uncountedBefore text tokens offset := by
  have hlength : (u.written text).length ≤ 1 := by
    rw [Token.written, List.length_take]
    omega
  rw [uncountedBefore_cons_of_le (Nat.le_refl _), Lexer.uncounted_of_length_le_one hlength,
    uncountedBefore_of_stops hstops hoffset, Nat.zero_add]

section LineBreak

variable {text : List Char} {s : Scan} {rest : List Char} {count : Nat} (h : s.Numbered text)
  (hs : s.ahead = '\n' :: rest) (hcount : heredocLines s.heredocs (textLines rest) = .ok count)
  (hstep : s.Step (s.afterBreak.afterTexts count).withBreak)

include hs hcount

/-- The texts behind a line break end with a line, when more follows. -/
theorem endsLine_taken_of_more
    (hmore : (s.afterBreak.afterTexts count).withBreak.ahead ≠ []) :
    endsLine (rest.take (lengthOfLines rest count)) := by
  refine Decidable.byContradiction fun hends => ?_
  have hall : rest.take (lengthOfLines rest count) = rest :=
    ((count_of_lines (heredocLines_le hcount)).2 hends).2
  have hahead := (takes_lineBreak hs count).ahead
  rw [hs, hall] at hahead
  exact hmore (List.append_right_eq_self.mp hahead.symm)

/-- The line breaks of the texts behind a line break are as many as their lines, when more
follows. -/
theorem count_taken_of_more (hmore : (s.afterBreak.afterTexts count).withBreak.ahead ≠ []) :
    (rest.take (lengthOfLines rest count)).count '\n' = count :=
  (count_of_lines (heredocLines_le hcount)).1 (endsLine_taken_of_more hs hcount hmore)

include h hstep

/-- A line break that ends no statement leaves the tokens as they are. -/
theorem Numbered.lineBreak_quiet
    (hcan : ¬ (s.afterBreak.afterTexts count).canEndStatement) :
    Numbered text (s.afterBreak.afterTexts count).withBreak := by
  let v := s.afterBreak.afterTexts count
  have hline : v.line = s.line + 1 + count := rfl
  have hsame : v.withBreak = v := if_neg hcan
  have htokens : v.withBreak.tokens = s.tokens := by
    rw [hsame]
    rfl
  have hcomments : v.withBreak.comments = s.comments := by
    rw [hsame]
    rfl
  refine h.quiet hstep (List.cons_ne_nil _ _) (takes_lineBreak hs count) (fun hmore => ?_) htokens
    ?_
  · rw [List.count_cons_self, count_taken_of_more hs hcount hmore, hsame, hline]
    omega
  · rw [hcomments]
    exact fun _ hc => .inl hc

/-- A line break that ends a statement is a token of its own. -/
theorem Numbered.lineBreak_token (hcan : (s.afterBreak.afterTexts count).canEndStatement) :
    Numbered text (s.afterBreak.afterTexts count).withBreak := by
  have hreached : (start text).Reaches (s.afterBreak.afterTexts count).withBreak :=
    h.reached.tail hstep
  have htakes := takes_lineBreak hs count
  have hcounted := count_taken_of_more hs hcount
  obtain ⟨hended, hunended⟩ := count_of_lines (heredocLines_le hcount)
  generalize htaken : rest.take (lengthOfLines rest count) = taken at *
  let v := s.afterBreak.afterTexts count
  let u : Token :=
    { lexeme := .newline, line := v.line, start := v.position - 1, stop := v.position }
  have hwith : v.withBreak = { v with tokens := u :: v.tokens } := if_pos hcan
  have hposition : v.position = s.position + (taken.length + 1) := by
    have := htakes.position
    rwa [hwith] at this
  have htokens : v.withBreak.tokens = u :: s.tokens := by
    rw [hwith]
    rfl
  have hcomments : v.withBreak.comments = s.comments := by
    rw [hwith]
    rfl
  have hstop : v.withBreak.position = u.stop := by rw [hwith]
  have hwithLine : v.withBreak.line = u.line := by rw [hwith]
  have hulined : u.line = s.line + 1 + count := rfl
  have hstart := h.line (by simp [hs])
  have huncounted : uncountedBefore text (u :: s.tokens) u.stop =
      uncountedBefore text s.tokens s.position :=
    uncounted_withToken h.stops (by simp only [u]; omega) (by simp only [u]; omega)
  have hbreaks := breaksBefore_of_takes h.reached hreached htakes
  rw [hstop, List.count_cons_self] at hbreaks
  have hends : endsLine (text.take u.stop) = endsLine taken := by
    have htake := hreached.take_position
    rw [htakes.before, hstop] at htake
    rw [htake]
    simpa using endsLine_append s.before.reverse taken
  refine h.withToken hstep ?_ htokens hstop.symm hcomments (fun hmore => ?_) ?_
  · rw [htakes.position]
    exact Nat.lt_add_of_pos_right (Nat.succ_pos _)
  · rw [htokens, hstop, hwithLine, huncounted, hbreaks, hcounted hmore]
    omega
  · rw [Token.LineFits, htokens, huncounted, hbreaks, hends]
    cases hcase : endsLine taken with
    | true =>
      have hsame := hended hcase
      rw [if_neg (by simp)]
      omega
    | false =>
      have hless := (hunended (by simp [hcase])).1
      rw [if_pos (by simp [u])]
      omega

theorem Numbered.lineBreak : Numbered text (s.afterBreak.afterTexts count).withBreak := by
  by_cases hcan : (s.afterBreak.afterTexts count).canEndStatement
  · exact h.lineBreak_token hs hcount hstep hcan
  · exact h.lineBreak_quiet hs hcount hstep hcan

end LineBreak

/-- A token is written as the characters that scanning takes for it. -/
theorem Reaches.written_eq {text : List Char} {s : Scan} {first : Char} {rest : List Char}
    {u : Token} {more : Nat} (h : (start text).Reaches s) (hs : s.ahead = first :: rest)
    (hstart : u.start = s.position) (hstop : u.stop = s.position + more + 1) :
    u.written text = first :: rest.take more := by
  have hlength : u.stop - u.start = more + 1 := by omega
  rw [Token.written, hlength, hstart, h.drop_position, hs, List.take_succ_cons]

theorem Numbered.token {text : List Char} {s : Scan} {first : Char} {rest : List Char}
    {found : Scanned} {brackets : List Char} (h : s.Numbered text) (hs : s.ahead = first :: rest)
    (hfirst : first ≠ '\n') (hfound : Lexer.token s.last s.spaced first rest = .ok found)
    (hstep : s.Step (s.afterToken found brackets)) :
    Numbered text (s.afterToken found brackets) := by
  have hreached : (start text).Reaches (s.afterToken found brackets) := h.reached.tail hstep
  have htakes := takes_afterToken hs hfound brackets
  have hbreaks := breaksBefore_of_takes h.reached hreached htakes
  rw [List.count_cons_of_ne hfirst] at hbreaks
  have hstart := h.line (by simp [hs])
  let u : Token :=
    { lexeme := found.lexeme
      line := s.line + found.lines
      start := s.position
      stop := s.position + found.more + 1
      spaced := s.spaced
      dynamic := found.dynamic }
  have htokens : (s.afterToken found brackets).tokens = u :: s.tokens := rfl
  have hstop : (s.afterToken found brackets).position = u.stop := rfl
  have hwritten : u.written text = first :: rest.take found.more :=
    h.reached.written_eq hs rfl rfl
  have huncounted : uncountedBefore text (u :: s.tokens) u.stop =
      Lexer.uncounted (first :: rest.take found.more) +
        uncountedBefore text s.tokens s.position := by
    have hposition : s.position ≤ u.stop := Nat.le_succ_of_le (Nat.le_add_right _ _)
    rw [uncountedBefore_cons_of_le (Nat.le_refl _), hwritten,
      uncountedBefore_of_stops h.stops hposition]
  have hline : u.line + uncountedBefore text (u :: s.tokens) u.stop =
      1 + breaksBefore text u.stop := by
    have hextent := (Lexer.token_extent hfound).lines
    have hfound : u.line = s.line + found.lines := rfl
    rw [huncounted, ← hstop, hbreaks]
    omega
  refine h.withToken hstep ?_ htokens rfl rfl (fun _ => hline) ?_
  · rw [htakes.position]
    exact Nat.lt_add_of_pos_right (Nat.succ_pos _)
  · have hlexeme : u.lexeme ≠ .newline := (Lexer.token_extent hfound).lexeme
    rw [Token.LineFits, htokens, hline, if_neg fun hboth => hlexeme hboth.1, Nat.add_zero]

/-- Every step keeps lines and line breaks together. -/
theorem Numbered.step {text : List Char} {s t : Scan} (h : s.Numbered text) (hstep : s.Step t) :
    t.Numbered text := by
  cases hstep.move with
  | blank hs hc hgap => exact h.blank hs hc hstep
  | continuation hs => exact h.continuation hs hstep
  | lineBreak hs count hcount => exact h.lineBreak hs hcount hstep
  | comment hs => exact h.comment hs hstep
  | blockComment hstart ht => exact h.blockComment ht hstep
  | token hs hfirst found hfound brackets hbrackets =>
    exact h.token hs (ne_break_of_not_mem_gaps hfirst) hfound hstep

theorem numbered_of_reaches {text : List Char} {s : Scan} (h : (start text).Reaches s) :
    s.Numbered text := by
  induction h with
  | refl => exact numbered_start text
  | tail _ hstep ih => exact ih.step hstep

/-- The line break at the end adds nothing to what is left out. -/
theorem uncountedBefore_scanning (text : List Char) (s : Scan) (offset : Nat) :
    uncountedBefore text s.scanning.tokens offset = uncountedBefore text s.tokens offset := by
  have hwritten : s.endBreak.written text = [] := by simp [Token.written, endBreak]
  rw [scanning, uncountedBefore_reverse]
  by_cases hstop : s.endBreak.stop ≤ offset
  · rw [uncountedBefore_cons_of_le hstop, hwritten, Lexer.uncounted, Nat.zero_add]
  · exact uncountedBefore_cons_of_lt (Nat.lt_of_not_le hstop)

end Scan

/-- The line of every token, but for the line break at the end, and of every comment. -/
theorem scan_lineNumbers {text : List Char} {r : Scanning} (h : scan text = .ok r) :
    (∀ t ∈ r.tokens.dropLast, t.LineFits text r.tokens) ∧
      ∀ c ∈ r.comments, ∃ s, CommentFits text r.tokens c s := by
  obtain ⟨s, hreached, -, -, rfl⟩ := scan_eq_ok h
  have hnumbered := Scan.numbered_of_reaches hreached
  constructor
  · intro t ht
    have hmem : t ∈ s.tokens := by simpa [Scan.scanning] using ht
    rw [Token.LineFits, Scan.uncountedBefore_scanning]
    exact hnumbered.tokens t hmem
  · intro c hc
    have hmem : c ∈ s.comments := List.mem_reverse.mp hc
    obtain ⟨t, -, hfits⟩ := hnumbered.comments c hmem
    refine ⟨t, hfits.reached, hfits.opening, hfits.said, ?_⟩
    rw [Scan.uncountedBefore_scanning]
    exact hfits.line

/-- A text nested in an interpolation holds a line break, and a comment follows further down. -/
def nestedBreak : List Char :=
  "json.a \"#\x7bx \"\n\"\x7d\"\njson.b 1 # one\n".toList

theorem scan_lineNumbers_nestedBreak :
    ∃ r, scan nestedBreak = .ok r ∧ r.comments.map Prod.fst = [2] ∧
      (∀ t ∈ r.tokens.dropLast, t.LineFits nestedBreak r.tokens) ∧
        ∀ c ∈ r.comments, ∃ s, CommentFits nestedBreak r.tokens c s := by
  have hcomments : (scan nestedBreak).toOption.map (·.comments.map Prod.fst) = some [2] := by
    decide +kernel
  cases h : scan nestedBreak with
  | error fault =>
    rw [h] at hcomments
    cases hcomments
  | ok r =>
    rw [h] at hcomments
    exact ⟨r, rfl, Option.some.inj hcomments, scan_lineNumbers h⟩

/-- The text holds a token whose line is not that of its end. -/
theorem exists_line_ne_nestedBreak :
    ∃ r, scan nestedBreak = .ok r ∧
      ∃ t ∈ r.tokens.dropLast, t.line ≠ 1 + breaksBefore nestedBreak t.stop := by
  have hlines : (scan nestedBreak).toOption.map (fun r =>
      r.tokens.dropLast.all fun t => t.line == 1 + breaksBefore nestedBreak t.stop) =
        some false := by
    decide +kernel
  cases h : scan nestedBreak with
  | error fault =>
    rw [h] at hlines
    cases hlines
  | ok r =>
    rw [h] at hlines
    obtain ⟨t, ht, hline⟩ := List.all_eq_false.mp (Option.some.inj hlines)
    exact ⟨r, rfl, t, ht, by simpa using hline⟩

end ViewSchema.Template
