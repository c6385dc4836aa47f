import ViewSchema.Proofs.Template.Brackets
import ViewSchema.Proofs.Template.LineNumber
import ViewSchema.Proofs.Template.Spelling

/-!
The tokens of a text cover it. Their spans lie in the text one behind the other, and what stands in
a span is the token as it is written. A token knows whether a gap stands in front of it. Brackets
are balanced, and no line break is a token where the innermost open bracket is round or square.
-/

namespace ViewSchema.Template

/-- An offset at the start of the text or behind a gap. -/
def FollowsGap (text : List Char) (offset : Nat) : Prop :=
  offset = 0 ∨ ∃ gap ∈ gaps, text[offset - 1]? = some gap

/-- The token covers its span. -/
structure Token.Covers (text : List Char) (t : Token) : Prop where
  nonempty : t.start < t.stop
  written : t.lexeme.IsWritten (t.written text)
  spaced : t.spaced = true ↔ FollowsGap text t.start

/-- A line break or the end of the text. -/
def Token.IsMark (t : Token) : Prop := t.lexeme = .newline ∨ t.lexeme = .endOfText

/-- Behind these brackets a statement can end. -/
def MayBreak (brackets : List Char) : Prop := ¬Innermost '(' brackets ∧ ¬Innermost '[' brackets

/-- All tokens, with the end of the text. -/
def Scanning.stream (r : Scanning) : List Token := r.tokens ++ [r.eof]

/-- The tokens cover the text. -/
structure Scanning.Covers (text : List Char) (r : Scanning) : Prop where
  ends : ∃ front nl, r.stream = front ++ [nl, r.eof] ∧ nl.lexeme = .newline ∧
    r.eof.lexeme = .endOfText ∧ ∀ t ∈ front, t.lexeme ≠ .endOfText
  within : ∀ t ∈ r.stream, t.start ≤ t.stop ∧ t.stop ≤ text.length
  ordered : r.stream.Pairwise fun t u => t.stop ≤ u.start
  tokens : ∀ t ∈ r.stream, ¬t.IsMark → t.Covers text
  balanced : Balanced (bracketsOf r.stream)
  breaks : ∀ front nl behind, r.stream = front ++ nl :: behind → nl.lexeme = .newline →
    MayBreak (bracketsOf front)

theorem LeavesOpen.mayBreak {sequence stack : List Char} (h : LeavesOpen sequence stack)
    (hnested : !stack.head?.any fun c => c == '(' || c == '[') : MayBreak sequence := by
  constructor
  · intro hround
    rw [h.head_of_innermost (by decide) hround] at hnested
    exact absurd hnested (by decide)
  · intro hsquare
    rw [h.head_of_innermost (by decide) hsquare] at hnested
    exact absurd hnested (by decide)

namespace Scan

theorem Reaches.followsGap_iff {text : List Char} {s : Scan} (h : (start text).Reaches s) :
    FollowsGap text s.position ↔ ∀ c ∈ s.before.head?, c ∈ gaps := by
  obtain ⟨hsplit, hposition⟩ := h.split
  cases hbefore : s.before with
  | nil => simp [FollowsGap, hposition, hbefore]
  | cons c front =>
    rw [hbefore] at hsplit hposition
    have hlast : text[front.length]? = some c := by simp [← hsplit]
    simp [FollowsGap, hposition, hlast]

/-- Behind a piece of the text, its last character decides. -/
theorem Takes.followsGap_iff {text : List Char} {s t : Scan} {front : List Char} {c : Char}
    (h : s.Takes t (front ++ [c])) (ht : (start text).Reaches t) :
    FollowsGap text t.position ↔ c ∈ gaps := by
  rw [ht.followsGap_iff, h.before]
  simp

/-- What scanning has found covers the text so far. -/
structure Covered (text : List Char) (s : Scan) : Prop where
  reached : (start text).Reaches s
  ordered : s.tokens.Pairwise fun later earlier => earlier.stop ≤ later.start
  tokens : ∀ t ∈ s.tokens, t.lexeme ≠ .newline → t.Covers text
  spaced : ∀ c ∈ s.ahead.head?, c ≠ '\n' → (s.spaced = true ↔ FollowsGap text s.position)
  brackets : LeavesOpen (bracketsOf s.tokens.reverse) s.brackets
  breaks : ∀ later nl earlier, s.tokens = later ++ nl :: earlier → nl.lexeme = .newline →
    MayBreak (bracketsOf earlier.reverse)

theorem covered_start (text : List Char) : (start text).Covered text where
  reached := .refl
  ordered := .nil
  tokens := by simp [start]
  spaced := by simp [start, FollowsGap]
  brackets := .none .nil
  breaks := by simp [start]

/-- A step that makes no token and has no part in the brackets. -/
theorem Covered.quiet {text : List Char} {s t : Scan} (h : s.Covered text) (hstep : s.Step t)
    (htokens : t.tokens = s.tokens) (hbrackets : t.brackets = s.brackets)
    (hspaced : ∀ c ∈ t.ahead.head?, c ≠ '\n' →
      (t.spaced = true ↔ FollowsGap text t.position)) : t.Covered text where
  reached := h.reached.tail hstep
  ordered := htokens ▸ h.ordered
  tokens := htokens ▸ h.tokens
  spaced := hspaced
  brackets := by
    rw [htokens, hbrackets]
    exact h.brackets
  breaks := htokens ▸ h.breaks

theorem bracketsOf_concat (tokens : List Token) (u : Token) :
    bracketsOf (tokens ++ [u]) = bracketsOf tokens ++ u.lexeme.bracket?.toList := by
  cases hbracket : u.lexeme.bracket? <;> simp [bracketsOf, hbracket]

/-- A step that makes a token, behind all that scanning has taken so far. -/
theorem Covered.withToken {text : List Char} {s t : Scan} {u : Token} (h : s.Covered text)
    (hstep : s.Step t) (htokens : t.tokens = u :: s.tokens) (hstart : s.position ≤ u.start)
    (hcovers : u.lexeme ≠ .newline → u.Covers text)
    (hspaced : ∀ c ∈ t.ahead.head?, c ≠ '\n' → (t.spaced = true ↔ FollowsGap text t.position))
    (hbrackets : LeavesOpen (bracketsOf s.tokens.reverse ++ u.lexeme.bracket?.toList) t.brackets)
    (hbreak : u.lexeme = .newline → MayBreak (bracketsOf s.tokens.reverse)) :
    t.Covered text := by
  refine ⟨h.reached.tail hstep, ?_, ?_, hspaced, ?_, ?_⟩
  · rw [htokens]
    refine .cons (fun earlier hearlier => ?_) h.ordered
    exact Nat.le_trans (h.reached.spans earlier hearlier).2 hstart
  · rw [htokens]
    exact List.forall_mem_cons.mpr ⟨hcovers, h.tokens⟩
  · rw [htokens, List.reverse_cons, bracketsOf_concat]
    exact hbrackets
  · intro later nl earlier hsplit hnl
    rw [htokens] at hsplit
    cases later with
    | nil =>
      obtain ⟨rfl, rfl⟩ := List.cons.inj hsplit
      exact hbreak hnl
    | cons first later => exact h.breaks later nl earlier (List.cons.inj hsplit).2 hnl

theorem Covered.blank {text : List Char} {s : Scan} {c : Char} {rest : List Char}
    (h : s.Covered text) (hs : s.ahead = c :: rest) (hgap : c ∈ gaps)
    (hstep : s.Step { s.consume 1 with spaced := true }) :
    Covered text { s.consume 1 with spaced := true } := by
  have htakes : s.Takes { s.consume 1 with spaced := true } ([] ++ [c]) := by
    have hlength : 1 ≤ s.ahead.length := by simp [hs]
    have htakes := takes_consume s hlength
    rw [hs] at htakes
    exact ⟨htakes.ahead, htakes.before, htakes.position⟩
  refine h.quiet hstep rfl rfl fun _ _ _ => ?_
  exact iff_of_true rfl ((htakes.followsGap_iff (h.reached.tail hstep)).mpr hgap)

theorem Covered.continuation {text : List Char} {s : Scan} {rest : List Char}
    (h : s.Covered text) (hs : s.ahead = '\\' :: '\n' :: rest)
    (hstep : s.Step { s.consume 2 with line := s.line + 1, spaced := true }) :
    Covered text { s.consume 2 with line := s.line + 1, spaced := true } := by
  have htakes : s.Takes { s.consume 2 with line := s.line + 1, spaced := true }
      (['\\'] ++ ['\n']) := by
    have hlength : 2 ≤ s.ahead.length := by simp [hs]
    have htakes := takes_consume s hlength
    rw [hs] at htakes
    exact ⟨htakes.ahead, htakes.before, htakes.position⟩
  refine h.quiet hstep rfl rfl fun _ _ _ => ?_
  exact iff_of_true rfl ((htakes.followsGap_iff (h.reached.tail hstep)).mpr (by decide))

/-- A comment goes up to the end of its line, where a gap follows. -/
theorem head?_dropLine (text : List Char) :
    ∀ c ∈ (text.dropWhile (· != '\n')).head?, c = '\n' := by
  intro c hc
  have hfails := List.head?_dropWhile_not (· != '\n') text
  rw [Option.mem_def.mp hc] at hfails
  simpa using hfails

theorem Covered.comment {text : List Char} {s : Scan} (h : s.Covered text)
    (hstep : s.Step s.comment) : s.comment.Covered text := by
  refine h.quiet hstep rfl rfl fun c hc hbreak => ?_
  have hahead : s.comment.ahead = s.ahead.dropWhile (· != '\n') :=
    drop_length_takeWhile (· != '\n') s.ahead
  rw [hahead] at hc
  exact absurd (head?_dropLine _ c hc) hbreak

theorem Covered.blockComment {text : List Char} {s t : Scan} (h : s.Covered text)
    (ht : s.blockComment? = some t) (hstep : s.Step t) : t.Covered text := by
  obtain ⟨found, hfound, htakes, heq⟩ := takes_blockComment ht
  have htokens : t.tokens = s.tokens := by rw [heq]
  have hbrackets : t.brackets = s.brackets := by rw [heq]
  refine h.quiet hstep htokens hbrackets fun c hc hbreak => ?_
  have hahead : t.ahead = found.2.dropWhile (· != '\n') := by
    have hsplit := (Text.eq_append_of_cutAt? hfound).symm.trans htakes.ahead
    rw [List.append_assoc, List.append_assoc, List.append_cancel_left_eq,
      List.append_cancel_left_eq] at hsplit
    have hline := List.takeWhile_append_dropWhile (p := (· != '\n')) (l := found.2)
    exact (List.append_cancel_left (hline.trans hsplit)).symm
  rw [hahead] at hc
  exact absurd (head?_dropLine _ c hc) hbreak

/-- A statement ends only where no round or square bracket is the innermost open one. -/
theorem Covered.mayBreak {text : List Char} {s t : Scan} (h : s.Covered text)
    (hbrackets : t.brackets = s.brackets) (hcan : t.canEndStatement) :
    MayBreak (bracketsOf s.tokens.reverse) := by
  have hnested := (Bool.and_eq_true_iff.mp (Bool.and_eq_true_iff.mp hcan).1).1
  rw [hbrackets] at hnested
  exact h.brackets.mayBreak hnested

section LineBreak

variable {text : List Char} {s : Scan} {rest : List Char} {count : Nat} (h : s.Covered text)
  (hs : s.ahead = '\n' :: rest) (hcount : heredocLines s.heredocs (textLines rest) = .ok count)
  (hstep : s.Step (s.afterBreak.afterTexts count).withBreak)

include h hs hcount hstep

/-- What follows the texts behind a line break, if anything does, follows a line break. -/
theorem Covered.followsGap_lineBreak
    (hmore : (s.afterBreak.afterTexts count).withBreak.ahead ≠ []) :
    FollowsGap text (s.afterBreak.afterTexts count).withBreak.position := by
  have hends := endsLine_taken_of_more hs hcount hmore
  rw [← endsLine_append []] at hends
  obtain ⟨front, hfront⟩ := exists_of_endsLine hends (by simp)
  have htakes := takes_lineBreak hs count
  rw [show '\n' :: rest.take (lengthOfLines rest count) = front ++ ['\n'] from hfront] at htakes
  exact (htakes.followsGap_iff (h.reached.tail hstep)).mpr (by decide)

theorem Covered.lineBreak : Covered text (s.afterBreak.afterTexts count).withBreak := by
  let v := s.afterBreak.afterTexts count
  have hposition : v.withBreak.position = s.position + ((rest.take _).length + 1) :=
    (takes_lineBreak hs count).position
  have hspaced : ∀ c ∈ v.withBreak.ahead.head?, c ≠ '\n' →
      (v.withBreak.spaced = true ↔ FollowsGap text v.withBreak.position) := by
    intro c hc _
    have hmore : v.withBreak.ahead ≠ [] := by
      intro hnil
      rw [hnil] at hc
      cases hc
    have htrue : v.withBreak.spaced = true := by rw [withBreak_eq]; rfl
    exact iff_of_true htrue (h.followsGap_lineBreak hs hcount hstep hmore)
  have hbrackets : v.withBreak.brackets = s.brackets := by rw [withBreak_eq]; rfl
  by_cases hcan : v.canEndStatement
  · have hwith : v.withBreak = { v with tokens := v.withBreak.tokens } := withBreak_eq v
    let u : Token :=
      { lexeme := .newline, line := v.line, start := v.position - 1, stop := v.position }
    have htokens : v.withBreak.tokens = u :: s.tokens := by
      rw [withBreak, if_pos hcan]
      rfl
    refine h.withToken hstep htokens ?_ (fun hother => absurd rfl hother) hspaced ?_
      fun _ => h.mayBreak (t := v) rfl hcan
    · rw [hwith] at hposition
      change s.position ≤ v.position - 1
      dsimp only at hposition
      omega
    · rw [hbrackets]
      simpa [u, Lexeme.bracket?] using h.brackets
  · have hsame : v.withBreak = v := if_neg hcan
    exact h.quiet hstep (by rw [hsame]; rfl) hbrackets hspaced

end LineBreak

/-- A token does not end with a gap. -/
theorem last_not_mem_gaps {last : Option Lexeme} {spaced : Bool} {first : Char} {rest : List Char}
    {found : Scanned} (hfirst : first ∉ gaps)
    (hfound : Lexer.token last spaced first rest = .ok found) :
    ∀ c ∈ (first :: rest.take found.more).getLast?, c ∉ gaps := by
  intro c hc
  rw [List.getLast?_cons] at hc
  cases hmore : (rest.take found.more).getLast? with
  | none =>
    rw [hmore] at hc
    cases hc
    exact hfirst
  | some d =>
    rw [hmore] at hc
    cases hc
    exact (Lexer.token_extent hfound).last _ hmore

theorem Covered.token {text : List Char} {s : Scan} {first : Char} {rest : List Char}
    {found : Scanned} {brackets : List Char} (h : s.Covered text) (hs : s.ahead = first :: rest)
    (hfirst : first ∉ gaps) (hfound : Lexer.token s.last s.spaced first rest = .ok found)
    (hbrackets : s.bracketsAfter found.lexeme = .ok brackets)
    (hstep : s.Step (s.afterToken found brackets)) :
    Covered text (s.afterToken found brackets) := by
  have hreached : (start text).Reaches (s.afterToken found brackets) := h.reached.tail hstep
  let u : Token :=
    { lexeme := found.lexeme
      line := s.line + found.lines
      start := s.position
      stop := s.position + found.more + 1
      spaced := s.spaced
      dynamic := found.dynamic }
  have hlexeme : u.lexeme ≠ .newline := (Lexer.token_extent hfound).lexeme
  have hcovers : u.Covers text :=
    { nonempty := Nat.lt_succ_of_le (Nat.le_add_right _ _)
      written := by
        rw [h.reached.written_eq hs rfl rfl]
        exact Lexer.token_written hfound
      spaced := h.spaced first (by simp [hs]) (ne_break_of_not_mem_gaps hfirst) }
  refine h.withToken (u := u) hstep rfl (Nat.le_refl _) (fun _ => hcovers) (fun _ _ _ => ?_)
    (leavesOpen_bracketsAfter h.brackets hbrackets) fun hbreak => absurd hbreak hlexeme
  have hne : first :: rest.take found.more ≠ [] := List.cons_ne_nil _ _
  have htakes := takes_afterToken hs hfound brackets
  rw [← List.dropLast_concat_getLast hne] at htakes
  -- What follows a token right away is not spaced.
  refine iff_of_false Bool.false_ne_true fun hgap => ?_
  exact last_not_mem_gaps hfirst hfound _ (List.getLast?_eq_some_getLast hne)
    ((htakes.followsGap_iff hreached).mp hgap)

/-- Every step keeps the text covered. -/
theorem Covered.step {text : List Char} {s t : Scan} (h : s.Covered text) (hstep : s.Step t) :
    t.Covered text := by
  cases hstep.move with
  | blank hs hc hgap => exact h.blank hs hgap hstep
  | continuation hs => exact h.continuation hs hstep
  | lineBreak hs count hcount => exact h.lineBreak hs hcount hstep
  | comment hs => exact h.comment hstep
  | blockComment hstart ht => exact h.blockComment ht hstep
  | token hs hfirst found hfound brackets hbrackets =>
    exact h.token hs hfirst hfound hbrackets hstep

theorem covered_of_reaches {text : List Char} {s : Scan} (h : (start text).Reaches s) :
    s.Covered text := by
  induction h with
  | refl => exact covered_start text
  | tail _ hstep ih => exact ih.step hstep

theorem stream_scanning (s : Scan) :
    s.scanning.stream = s.tokens.reverse ++ [s.endBreak, s.scanning.eof] := by
  simp [Scanning.stream, scanning]

theorem Reaches.position_le {text : List Char} {s : Scan} (h : (start text).Reaches s) :
    s.position ≤ text.length := by
  obtain ⟨hsplit, hposition⟩ := h.split
  rw [← hsplit, hposition, List.length_append, List.length_reverse]
  exact Nat.le_add_right _ _

theorem Covered.mayBreak_of_closed {text : List Char} {s : Scan} (h : s.Covered text)
    (hclosed : s.brackets = []) : MayBreak (bracketsOf s.tokens.reverse) :=
  h.brackets.mayBreak (by simp [hclosed])

theorem Covered.breaks_stream {text : List Char} {s : Scan} (h : s.Covered text)
    (hclosed : s.brackets = []) {front behind : List Token} {nl : Token}
    (hsplit : s.scanning.stream = front ++ nl :: behind) (hnl : nl.lexeme = .newline) :
    MayBreak (bracketsOf front) := by
  rw [stream_scanning] at hsplit
  rcases List.append_eq_append_iff.mp hsplit with ⟨marks, rfl, hmarks⟩ | ⟨tokens, hfront, htokens⟩
  · cases marks with
    | nil =>
      rw [List.append_nil]
      exact h.mayBreak_of_closed hclosed
    | cons mark marks =>
      have hmem : nl ∈ [s.scanning.eof] := by
        rw [(List.cons.inj hmarks).2]
        simp
      rw [List.mem_singleton.mp hmem] at hnl
      cases hnl
  · cases tokens with
    | nil =>
      rw [List.append_nil] at hfront
      rw [← hfront]
      exact h.mayBreak_of_closed hclosed
    | cons first later =>
      obtain ⟨rfl, -⟩ := List.cons.inj htokens
      have hbreaks := h.breaks later.reverse nl front.reverse
        (by rw [← List.reverse_reverse s.tokens, hfront]; simp) hnl
      rwa [List.reverse_reverse] at hbreaks

theorem Covered.scanning {text : List Char} {s : Scan} (h : s.Covered text)
    (hclosed : s.brackets = []) : s.scanning.Covers text where
  ends := by
    refine ⟨_, _, s.stream_scanning, rfl, rfl, fun t ht hend => ?_⟩
    have hother : t.lexeme ≠ .newline := by simp [hend]
    have hwritten := (h.tokens t (List.mem_reverse.mp ht) hother).written
    rw [hend] at hwritten
    exact hwritten
  within := by
    have hposition := h.reached.position_le
    rw [stream_scanning]
    intro t ht
    rcases List.mem_append.mp ht with ht | ht
    · have hspan := h.reached.spans t (List.mem_reverse.mp ht)
      omega
    · have hmark : t = s.endBreak ∨ t = s.scanning.eof := by simpa using ht
      rcases hmark with rfl | rfl <;> exact ⟨Nat.le_refl _, hposition⟩
  ordered := by
    rw [stream_scanning, List.pairwise_append, List.pairwise_reverse]
    refine ⟨h.ordered, by simp [Scan.scanning, endBreak], fun t ht mark hmark => ?_⟩
    have hspan := h.reached.spans t (List.mem_reverse.mp ht)
    have hmark : mark = s.endBreak ∨ mark = s.scanning.eof := by simpa using hmark
    rcases hmark with rfl | rfl <;> exact hspan.2
  tokens := by
    rw [stream_scanning]
    intro t ht hother
    rcases List.mem_append.mp ht with ht | ht
    · exact h.tokens t (List.mem_reverse.mp ht) fun hbreak => hother (.inl hbreak)
    · have hmark : t = s.endBreak ∨ t = s.scanning.eof := by simpa using ht
      rcases hmark with rfl | rfl
      · exact absurd (.inl rfl) hother
      · exact absurd (.inr rfl) hother
  balanced := by
    have hopen := h.brackets
    rw [hclosed] at hopen
    have hsame : bracketsOf s.scanning.stream = bracketsOf s.tokens.reverse := by
      rw [stream_scanning]
      simp [bracketsOf, endBreak, Scan.scanning, Lexeme.bracket?]
    rw [hsame]
    exact hopen.balanced
  breaks := fun _ _ _ hsplit hnl => h.breaks_stream hclosed hsplit hnl

end Scan

/-- The tokens of every text cover it. -/
theorem scan_covers {text : List Char} {r : Scanning} (h : scan text = .ok r) : r.Covers text := by
  obtain ⟨s, hreached, -, hclosed, rfl⟩ := scan_eq_ok h
  exact (Scan.covered_of_reaches hreached).scanning hclosed

/-- A call over two lines, with a label, symbols, a block and a comment. -/
def brokenCall : List Char :=
  "json.array!(@posts,\n  as: :post) \x7b |p| json.id p[:id] \x7d # all\n".toList

theorem scan_covers_brokenCall :
    ∃ r, scan brokenCall = .ok r ∧
      bracketsOf r.stream = ['(', ')', '\x7b', '[', ']', '\x7d'] ∧ r.Covers brokenCall := by
  have hbrackets : (scan brokenCall).toOption.map (bracketsOf ·.stream) =
      some ['(', ')', '\x7b', '[', ']', '\x7d'] := by
    decide +kernel
  cases h : scan brokenCall with
  | error fault =>
    rw [h] at hbrackets
    cases hbrackets
  | ok r =>
    rw [h] at hbrackets
    exact ⟨r, rfl, Option.some.inj hbrackets, scan_covers h⟩

end ViewSchema.Template
