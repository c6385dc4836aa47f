import ViewSchema.Proofs.Template.Extent
import ViewSchema.Proofs.Template.HeredocLines

/-!
Scanning as a sequence of steps. What a step does is decided by a few characters and the place on
the line. Every step takes a piece of the text that is not empty, so a state that scanning reaches
splits the text in two. Scanning ends well where the text or the template ends, and fails where a
step fails.
-/

namespace ViewSchema.Template.Scan

open Text (cutAt? eq_append_of_cutAt?)

/-- What a step of scanning reads. -/
inductive Kind where
  | blank
  | continuation
  | lineBreak
  | comment
  | blockComment
  | endMark
  | token
  deriving DecidableEq

def kind (s : Scan) (first : Char) (rest : List Char) : Kind :=
  if first == ' ' || first == '\t' || first == '\r' then .blank
  else if first == '\\' && rest.head? == some '\n' then .continuation
  else if first == '\n' then .lineBreak
  else if first == '#' then .comment
  else if s.atLineStart && "=begin".toList.isPrefixOf s.ahead then .blockComment
  else if s.atLineStart && "__END__".toList.isPrefixOf s.ahead then .endMark
  else .token

theorem next_eq (s : Scan) (first : Char) (rest : List Char) :
    s.next first rest =
      match s.kind first rest with
      | .blank => .ok (some { s.consume 1 with spaced := true })
      | .continuation => .ok (some { s.consume 2 with line := s.line + 1, spaced := true })
      | .lineBreak => s.lineBreak.map some
      | .comment => .ok (some s.comment)
      | .blockComment =>
        match s.blockComment? with
        | some t => .ok (some t)
        | none => .error (.scan .endlessComment s.line)
      | .endMark => .ok none
      | .token => (s.token first rest).map some := by
  unfold next kind
  split
  · rfl
  split
  · rfl
  split
  · rfl
  split
  · rfl
  split
  · rfl
  split
  · rfl
  · rfl

/-- Scanning behind a line break, on the next line. -/
def afterBreak (s : Scan) : Scan := { s.consume 1 with line := s.line + 1, spaced := true }

/-- The token of a line break, if a statement can end there. -/
def withBreak (s : Scan) : Scan :=
  if s.canEndStatement then
    { s with
      tokens := { lexeme := .newline, line := s.line, start := s.position - 1
                  stop := s.position } :: s.tokens }
  else s

/-- The state behind some lines of heredoc texts. -/
def afterTexts (s : Scan) (count : Nat) : Scan :=
  { s.consume (lengthOfLines s.ahead count) with line := s.line + count, heredocs := [] }

/-- The state behind a token. -/
def afterToken (s : Scan) (found : Scanned) (brackets : List Char) : Scan :=
  { s.consume (found.more + 1) with
    line := s.line + found.lines
    spaced := false
    tokens :=
      { lexeme := found.lexeme
        line := s.line + found.lines
        start := s.position
        stop := s.position + found.more + 1
        spaced := s.spaced
        dynamic := found.dynamic } :: s.tokens
    brackets
    heredocs := s.heredocs ++ found.heredoc.toList }

/-- The open brackets behind a token. -/
def bracketsAfter (s : Scan) : Lexeme → Except ScanFault (List Char)
  | .operator op => nested s.brackets op
  | _ => .ok s.brackets

theorem token_eq (s : Scan) (first : Char) (rest : List Char) :
    s.token first rest =
      match Lexer.token s.last s.spaced first rest with
      | .error (none, _) => .error .longInteger
      | .error (some fault, lines) => .error (.scan fault (s.line + lines))
      | .ok found =>
        match s.bracketsAfter found.lexeme with
        | .error fault => .error (.scan fault s.line)
        | .ok brackets => .ok (s.afterToken found brackets) := by
  unfold token
  cases Lexer.token s.last s.spaced first rest with
  | error error =>
    obtain ⟨_ | fault, lines⟩ := error <;> rfl
  | ok found =>
    obtain ⟨lexeme, more, lines, dynamic, heredoc⟩ := found
    cases lexeme <;> rfl

theorem heredocTexts_eq (s : Scan) :
    s.heredocTexts =
      match heredocLines s.heredocs (textLines s.ahead) with
      | .error (mark, count) => .error (.scan (.endlessHeredoc mark) (s.line + count))
      | .ok count => .ok (s.afterTexts count) := by
  unfold heredocTexts
  split
  · rename_i hnone
    rw [List.isEmpty_iff.mp hnone, heredocLines]
    simp [afterTexts, consume, ← List.isEmpty_iff.mp hnone]
  · rfl

/-- The token of a line break is all that comes with it. -/
theorem withBreak_eq (s : Scan) : s.withBreak = { s with tokens := s.withBreak.tokens } := by
  unfold withBreak
  split <;> rfl

theorem ahead_withBreak (s : Scan) : s.withBreak.ahead = s.ahead := by rw [withBreak_eq]

theorem before_withBreak (s : Scan) : s.withBreak.before = s.before := by rw [withBreak_eq]

theorem lineBreak_eq (s : Scan) : s.lineBreak = s.afterBreak.heredocTexts.map withBreak := by
  have hbind : s.lineBreak = s.afterBreak.heredocTexts >>= fun t =>
      if t.canEndStatement then
        return { t with
          tokens := { lexeme := .newline, line := t.line, start := t.position - 1
                      stop := t.position } :: t.tokens }
      else return t := rfl
  rw [hbind]
  cases s.afterBreak.heredocTexts with
  | error fault => rfl
  | ok t => exact (apply_ite Except.ok _ _ _).symm

theorem canEndStatement_withBreak (s : Scan) : s.withBreak.canEndStatement = false := by
  unfold withBreak
  split
  · simp [canEndStatement, Scan.last]
  · rename_i hcan
    exact Bool.eq_false_iff.mpr hcan

theorem lineBreak_of_lines {s : Scan} {count : Nat}
    (h : heredocLines s.heredocs (textLines (s.ahead.drop 1)) = .ok count) :
    s.lineBreak = .ok (s.afterBreak.afterTexts count).withBreak := by
  have hsame : heredocLines s.afterBreak.heredocs (textLines s.afterBreak.ahead) = .ok count := h
  rw [lineBreak_eq, heredocTexts_eq, hsame]
  rfl

/-- What one step does. -/
inductive Move (s : Scan) : Scan → Prop
  | blank {c : Char} {rest : List Char} (hs : s.ahead = c :: rest) (hc : c ≠ '\n')
      (hgap : c ∈ gaps) : Move s { s.consume 1 with spaced := true }
  | continuation {rest : List Char} (hs : s.ahead = '\\' :: '\n' :: rest) :
      Move s { s.consume 2 with line := s.line + 1, spaced := true }
  | lineBreak {rest : List Char} (hs : s.ahead = '\n' :: rest) (count : Nat)
      (hcount : heredocLines s.heredocs (textLines rest) = .ok count) :
      Move s (s.afterBreak.afterTexts count).withBreak
  | comment {rest : List Char} (hs : s.ahead = '#' :: rest) : Move s s.comment
  | blockComment {t : Scan} (hstart : s.atLineStart) (ht : s.blockComment? = some t) : Move s t
  | token {first : Char} {rest : List Char} (hs : s.ahead = first :: rest)
      (hfirst : first ∉ gaps) (found : Scanned)
      (hfound : Lexer.token s.last s.spaced first rest = .ok found) (brackets : List Char)
      (hbrackets : s.bracketsAfter found.lexeme = .ok brackets) :
      Move s (s.afterToken found brackets)

/-- A step from one state to another. -/
def Step (s t : Scan) : Prop :=
  ∃ first rest, s.ahead = first :: rest ∧ s.next first rest = .ok (some t)

theorem map_some_eq_ok {ε α : Type} {x : Except ε α} {a : α}
    (h : x.map some = .ok (some a)) : x = .ok a := by
  cases x with
  | error e => cases h
  | ok b =>
    cases h
    rfl

theorem kind_spec (s : Scan) (first : Char) (rest : List Char) :
    match s.kind first rest with
    | .blank => first ≠ '\n' ∧ first ∈ gaps
    | .endMark | .token => first ∉ gaps
    | .continuation => first = '\\' ∧ rest.head? = some '\n'
    | .lineBreak => first = '\n'
    | .comment => first = '#'
    | .blockComment => first ≠ '\n' ∧ s.atLineStart ∧ "=begin".toList.isPrefixOf s.ahead := by
  generalize hkind : s.kind first rest = found
  unfold kind at hkind
  split at hkind
  · rename_i hblank
    subst hkind
    simp only [Bool.or_eq_true, beq_iff_eq] at hblank
    rcases hblank with (rfl | rfl) | rfl <;> exact ⟨by decide, by decide⟩
  rename_i hblank
  split at hkind
  · rename_i h
    subst hkind
    simpa using h
  split at hkind
  · rename_i h
    subst hkind
    exact eq_of_beq h
  rename_i hbreak
  have hne : first ≠ '\n' := by simpa using hbreak
  have hgap : first ∉ gaps := by
    simp only [Bool.or_eq_true, beq_iff_eq, not_or] at hblank
    simp [gaps, hblank, hne]
  split at hkind
  · rename_i h
    subst hkind
    exact eq_of_beq h
  split at hkind
  · rename_i h
    subst hkind
    exact ⟨hne, Bool.and_eq_true_iff.mp h⟩
  split at hkind <;> subst hkind <;> exact hgap

theorem token_eq_ok {s t : Scan} {first : Char} {rest : List Char}
    (h : s.token first rest = .ok t) :
    ∃ found brackets, Lexer.token s.last s.spaced first rest = .ok found ∧
      s.bracketsAfter found.lexeme = .ok brackets ∧ t = s.afterToken found brackets := by
  rw [token_eq] at h
  split at h
  · cases h
  · cases h
  · rename_i found hfound
    split at h
    · cases h
    · rename_i brackets hbrackets
      cases h
      exact ⟨found, brackets, hfound, hbrackets, rfl⟩

theorem lineBreak_eq_ok {s t : Scan} (h : s.lineBreak = .ok t) :
    ∃ count, heredocLines s.heredocs (textLines (s.ahead.drop 1)) = .ok count ∧
      t = (s.afterBreak.afterTexts count).withBreak := by
  rw [lineBreak_eq, heredocTexts_eq] at h
  cases hcount : heredocLines s.heredocs (textLines (s.ahead.drop 1)) with
  | error missing =>
    have hsame : heredocLines s.afterBreak.heredocs (textLines s.afterBreak.ahead) =
      .error missing := hcount
    rw [hsame] at h
    cases h
  | ok count =>
    have hsame : heredocLines s.afterBreak.heredocs (textLines s.afterBreak.ahead) =
      .ok count := hcount
    rw [hsame] at h
    cases h
    exact ⟨count, rfl, rfl⟩

theorem step_of_lineBreak {s t : Scan} {rest : List Char} (hs : s.ahead = '\n' :: rest)
    (ht : s.lineBreak = .ok t) : s.Step t := by
  refine ⟨_, _, hs, ?_⟩
  rw [next_eq]
  change s.lineBreak.map some = _
  rw [ht]
  rfl

theorem lineBreak_of_step {s t : Scan} {rest : List Char} (hs : s.ahead = '\n' :: rest)
    (h : s.Step t) : s.lineBreak = .ok t := by
  obtain ⟨first, others, hs', hnext⟩ := h
  obtain ⟨rfl, rfl⟩ := List.cons.inj (hs.symm.trans hs')
  rw [next_eq] at hnext
  exact map_some_eq_ok hnext

theorem Step.move {s t : Scan} (h : s.Step t) : s.Move t := by
  obtain ⟨first, rest, hs, hnext⟩ := h
  have hspec := s.kind_spec first rest
  rw [next_eq] at hnext
  cases hkind : s.kind first rest <;> rw [hkind] at hnext hspec
  case blank =>
    cases hnext
    exact .blank hs hspec.1 hspec.2
  case continuation =>
    cases hnext
    obtain ⟨rfl, hhead⟩ := hspec
    obtain ⟨others, rfl⟩ := List.head?_eq_some_iff.mp hhead
    exact .continuation hs
  case lineBreak =>
    obtain rfl : first = '\n' := hspec
    obtain ⟨count, hcount, rfl⟩ := lineBreak_eq_ok (map_some_eq_ok hnext)
    rw [hs] at hcount
    exact .lineBreak hs count hcount
  case comment =>
    cases hnext
    obtain rfl : first = '#' := hspec
    exact .comment hs
  case blockComment =>
    cases ht : s.blockComment? with
    | none =>
      rw [ht] at hnext
      cases hnext
    | some u =>
      rw [ht] at hnext
      cases hnext
      exact .blockComment hspec.2.1 ht
  case endMark => cases hnext
  case token =>
    obtain ⟨found, brackets, hfound, hbrackets, rfl⟩ := token_eq_ok (map_some_eq_ok hnext)
    exact .token hs hspec found hfound brackets hbrackets

/-- From one state to another scanning takes a piece of the text. -/
structure Takes (s t : Scan) (piece : List Char) : Prop where
  ahead : s.ahead = piece ++ t.ahead
  before : t.before = piece.reverse ++ s.before
  position : t.position = s.position + piece.length

theorem Takes.refl (s : Scan) : s.Takes s [] := ⟨rfl, rfl, rfl⟩

theorem Takes.trans {s t u : Scan} {first second : List Char} (h : s.Takes t first)
    (h' : t.Takes u second) : s.Takes u (first ++ second) where
  ahead := by rw [h.ahead, h'.ahead, List.append_assoc]
  before := by rw [h'.before, h.before, List.reverse_append, List.append_assoc]
  position := by rw [h'.position, h.position, List.length_append, Nat.add_assoc]

theorem takes_consume (s : Scan) {count : Nat} (h : count ≤ s.ahead.length) :
    s.Takes (s.consume count) (s.ahead.take count) where
  ahead := (List.take_append_drop count s.ahead).symm
  before := rfl
  position := by rw [List.length_take, Nat.min_eq_left h]; rfl

/-- A block comment goes up to the end of the line that its closing mark is on. -/
theorem takes_blockComment {s t : Scan} (h : s.blockComment? = some t) :
    ∃ found : List Char × List Char, cutAt? "\n=end".toList s.ahead = some found ∧
      s.Takes t (found.1 ++ "\n=end".toList ++ found.2.takeWhile (· != '\n')) ∧
      t = { s with
        before := t.before, ahead := t.ahead, position := t.position
        line := s.line + found.1.count '\n' + 1 } := by
  obtain ⟨found, hfound, rfl⟩ := Option.map_eq_some_iff.mp h
  refine ⟨found, hfound, ?_, rfl⟩
  have hpiece : found.1 ++ "\n=end".toList ++ found.2.takeWhile (· != '\n') <+: s.ahead := by
    rw [eq_append_of_cutAt? hfound, ← List.append_assoc, List.prefix_append_right_inj]
    exact List.takeWhile_prefix _
  have hlength : found.1.length + 5 + (found.2.takeWhile (· != '\n')).length =
      (found.1 ++ "\n=end".toList ++ found.2.takeWhile (· != '\n')).length := by
    simp only [List.length_append]
    rfl
  have htakes := takes_consume s hpiece.length_le
  rw [← List.prefix_iff_eq_take.mp hpiece, ← hlength] at htakes
  exact ⟨htakes.ahead, htakes.before, htakes.position⟩

theorem takes_afterTexts (s : Scan) (count : Nat) :
    s.Takes (s.afterTexts count) (s.ahead.take (lengthOfLines s.ahead count)) :=
  have h := takes_consume s (lengthOfLines_le s.ahead count)
  ⟨h.ahead, h.before, h.position⟩

theorem takes_withBreak (s : Scan) : s.Takes s.withBreak [] := by
  unfold withBreak
  split <;> exact ⟨rfl, rfl, rfl⟩

theorem takes_lineBreak {s : Scan} {rest : List Char} (hs : s.ahead = '\n' :: rest) (count : Nat) :
    s.Takes (s.afterBreak.afterTexts count).withBreak
      ('\n' :: rest.take (lengthOfLines rest count)) := by
  have hbreak : s.Takes s.afterBreak ['\n'] := by
    have hlength : 1 ≤ s.ahead.length := by simp [hs]
    have h := takes_consume s hlength
    rw [hs] at h
    exact ⟨h.ahead, h.before, h.position⟩
  have hrest : s.afterBreak.ahead = rest := by simp [afterBreak, hs]
  have htexts := takes_afterTexts s.afterBreak count
  rw [hrest] at htexts
  simpa using (hbreak.trans htexts).trans (takes_withBreak _)

theorem takes_comment (s : Scan) : s.Takes s.comment (s.ahead.takeWhile (· != '\n')) := by
  have hprefix := List.takeWhile_prefix (· != '\n') (l := s.ahead)
  have h := takes_consume s hprefix.length_le
  rw [← List.prefix_iff_eq_take.mp hprefix] at h
  exact ⟨h.ahead, h.before, h.position⟩

theorem takes_afterToken {s : Scan} {first : Char} {rest : List Char} {found : Scanned}
    (hs : s.ahead = first :: rest) (hfound : Lexer.token s.last s.spaced first rest = .ok found)
    (brackets : List Char) :
    s.Takes (s.afterToken found brackets) (first :: rest.take found.more) := by
  have hwithin := (Lexer.token_extent hfound).within
  have hlength : found.more + 1 ≤ s.ahead.length := by
    rw [hs]
    exact Nat.succ_le_succ hwithin
  have h := takes_consume s hlength
  rw [hs] at h
  exact ⟨h.ahead, h.before, h.position⟩

/-- A step takes a piece of the text that is not empty. -/
theorem Move.takes {s t : Scan} (h : s.Move t) : ∃ piece, piece ≠ [] ∧ s.Takes t piece := by
  cases h with
  | @blank c rest hs hc hgap =>
    have hlength : 1 ≤ s.ahead.length := by simp [hs]
    have h := takes_consume s hlength
    exact ⟨_, by simp [hs], h.ahead, h.before, h.position⟩
  | @continuation rest hs =>
    have hlength : 2 ≤ s.ahead.length := by simp [hs]
    have h := takes_consume s hlength
    exact ⟨_, by simp [hs], h.ahead, h.before, h.position⟩
  | lineBreak hs count hcount => exact ⟨_, List.cons_ne_nil _ _, takes_lineBreak hs count⟩
  | comment hs => exact ⟨_, by simp [hs], takes_comment s⟩
  | blockComment hstart ht =>
    obtain ⟨found, -, htakes, -⟩ := takes_blockComment ht
    exact ⟨_, by simp, htakes⟩
  | token hs hfirst found hfound brackets hbrackets =>
    exact ⟨_, List.cons_ne_nil _ _, takes_afterToken hs hfound brackets⟩

/-- A step makes at most one token. It lies in the piece that the step takes, and ends it. -/
theorem Move.tokens {s t : Scan} (h : s.Move t) :
    t.tokens = s.tokens ∨
      ∃ u : Token, t.tokens = u :: s.tokens ∧ s.position ≤ u.start ∧ u.start < u.stop ∧
        u.stop = t.position := by
  cases h with
  | blank hs hc hgap => exact .inl rfl
  | continuation hs => exact .inl rfl
  | @lineBreak rest hs count hcount =>
    have hposition := (takes_lineBreak hs count).position
    rw [List.length_cons] at hposition
    generalize hv : s.afterBreak.afterTexts count = v at hposition ⊢
    have htokens : v.tokens = s.tokens := hv ▸ rfl
    unfold withBreak at hposition ⊢
    split
    · rename_i hcan
      rw [if_pos hcan] at hposition
      dsimp only at hposition ⊢
      have hstart : s.position ≤ v.position - 1 := by omega
      have hspan : v.position - 1 < v.position := by omega
      exact .inr ⟨_, by rw [htokens], hstart, hspan, rfl⟩
    · exact .inl htokens
  | comment hs => exact .inl rfl
  | blockComment hstart ht =>
    obtain ⟨found, -, -, heq⟩ := takes_blockComment ht
    rw [heq]
    exact .inl rfl
  | token hs hfirst found hfound brackets hbrackets =>
    exact .inr ⟨_, rfl, Nat.le_refl _, Nat.lt_succ_of_le (Nat.le_add_right _ _),
      Nat.add_assoc _ _ _⟩

/-- A step does not go back a line, and leaves comments only on the line that it is on. -/
theorem Move.lines {s t : Scan} (h : s.Move t) :
    s.line ≤ t.line ∧ (∀ c ∈ t.comments, c ∈ s.comments ∨ c.1 = s.line) ∧
      ∀ l ∈ t.trailing, l ∈ s.trailing ∨ l = s.line := by
  have hsame : ∀ {u : Scan}, s.line ≤ u.line → u.comments = s.comments → u.trailing = s.trailing →
      s.line ≤ u.line ∧ (∀ c ∈ u.comments, c ∈ s.comments ∨ c.1 = s.line) ∧
        ∀ l ∈ u.trailing, l ∈ s.trailing ∨ l = s.line := by
    intro u hline hcomments htrailing
    rw [hcomments, htrailing]
    exact ⟨hline, fun _ => .inl, fun _ => .inl⟩
  cases h with
  | blank hs hc hgap => exact hsame (Nat.le_refl _) rfl rfl
  | continuation hs => exact hsame (Nat.le_succ _) rfl rfl
  | lineBreak hs count hcount =>
    rw [withBreak_eq]
    exact hsame (Nat.le_trans (Nat.le_succ _) (Nat.le_add_right _ _)) rfl rfl
  | comment hs =>
    refine ⟨Nat.le_refl _, fun c hc => ?_, fun l hl => ?_⟩
    · rcases List.mem_cons.mp hc with rfl | hc
      · exact .inr rfl
      · exact .inl (List.mem_filter.mp hc).1
    · rw [Scan.comment] at hl
      dsimp only at hl
      split at hl
      · exact (List.mem_cons.mp hl).symm
      · exact .inl hl
  | blockComment hstart ht =>
    obtain ⟨found, -, -, heq⟩ := takes_blockComment ht
    rw [heq]
    exact hsame (Nat.le_trans (Nat.le_add_right _ _) (Nat.le_succ _)) rfl rfl
  | token hs hfirst found hfound brackets hbrackets =>
    exact hsame (Nat.le_add_right _ _) rfl rfl

theorem run_of_next {s t : Scan} {first : Char} {rest : List Char} (hs : s.ahead = first :: rest)
    (h : s.next first rest = .ok (some t)) : s.run = t.run := by
  rw [run]
  split
  · rename_i hnil
    rw [hnil] at hs
    cases hs
  · rename_i hcons
    obtain ⟨rfl, rfl⟩ := List.cons.inj (hs.symm.trans hcons)
    split
    · rename_i herror
      rw [h] at herror
      cases herror
    · rename_i hnone
      rw [h] at hnone
      cases hnone
    · rename_i hsome
      rw [h] at hsome
      cases hsome
      rfl

end ViewSchema.Template.Scan
