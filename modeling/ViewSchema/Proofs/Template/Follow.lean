import ViewSchema.Proofs.Template.Ends
import ViewSchema.Template.Grammar

/-!
Scanning glyphs whose tokens are decided by what comes before them on their line, too: a colon
opens a symbol behind a blank or an operator, a word with a colon is no label behind a dot, and
some marks have a meaning at the start of a line only. No glyph here is dynamic, so that all tokens
of the text are static.
-/

namespace ViewSchema.Template

def Token.IsStatic (t : Token) : Prop := t.dynamic = false

/-- The lexeme that comes last. -/
def Seen.last? (seen : List Seen) : Option Lexeme := seen.getLast?.map Seen.lexeme

@[simp]
theorem Seen.last?_concat (seen : List Seen) (t : Seen) : last? (seen ++ [t]) = some t.lexeme := by
  simp [last?]

namespace Glyph

/-- Characters that begin something other than a token wherever they stand. -/
def blankOpenings : List Char := [' ', '\t', '\r', '\n', '\\', '#']

/-- Behind a lexeme, with or without white space between, and in front of some text the glyph is
read as its token. The flag says that it may stand at the start of a line. -/
structure Follows (start : Bool) (last : Option Lexeme) (spaced : Bool) (g : Glyph)
    (rest : List Char) : Prop where
  opening : g.first ∉ blankOpenings
  noMark : start → g.first ∉ ['=', '_']
  unbroken : '\n' ∉ g.more
  token : Lexer.token last spaced g.first (g.more ++ rest) =
    .ok { lexeme := g.lexeme, more := g.more.length }

section Fits

variable {g : Glyph} {rest : List Char} {last : Option Lexeme} {spaced : Bool}

/-- What is read as its token anywhere is so inside a line. -/
theorem Fits.follows (h : g.Fits rest) (hmore : '\n' ∉ g.more) :
    g.Follows false last spaced rest where
  opening hmem := h.opening ((by decide : blankOpenings ⊆ specialOpenings) hmem)
  noMark hs := by cases hs
  unbroken := hmore
  token := h.token last spaced

theorem Fits.opens (h : g.Fits rest) (hfirst : g.first ∉ ['=', '_']) (hmore : '\n' ∉ g.more) :
    g.Follows true last spaced rest :=
  { h.follows hmore with noMark := fun _ => hfirst }

end Fits

/-- Each glyph follows the one before it, in front of the others and some text. -/
def AllFollow : Bool → Option Lexeme → Bool → List Glyph → List Char → Prop
  | _, _, _, [], _ => True
  | start, last, spaced, g :: others, rest =>
    g.Follows start last (spaced || g.gap) (text others ++ rest) ∧
      AllFollow false (some g.lexeme) false others rest

theorem text_append (these others : List Glyph) :
    text (these ++ others) = text these ++ text others := List.flatMap_append

theorem seen_append (line : Nat) (spaced : Bool) (these others : List Glyph) :
    seen line spaced (these ++ others) =
      seen line spaced these ++ seen line (spaced && these.isEmpty) others := by
  induction these generalizing spaced with
  | nil => simp [seen]
  | cons g rest ih => simp [seen, ih false]

theorem length_seen (line : Nat) (spaced : Bool) (glyphs : List Glyph) :
    (seen line spaced glyphs).length = glyphs.length := by
  induction glyphs generalizing spaced with
  | nil => rfl
  | cons g rest ih => simp [seen, ih false]

/-- Glyphs without brackets leave the brackets open that are. -/
theorem allNested_flat {glyphs : List Glyph}
    (h : ∀ g ∈ glyphs, ∀ brackets, g.nested brackets = .ok brackets) (brackets : List Char)
    (others : List Glyph) :
    allNested brackets (glyphs ++ others) = allNested brackets others := by
  induction glyphs with
  | nil => rfl
  | cons g rest ih =>
    rw [List.cons_append, allNested, h g List.mem_cons_self brackets]
    exact ih fun g hg => h g (List.mem_cons_of_mem _ hg)

end Glyph

namespace Scan

/-- Scanning stands on a line behind some tokens, all of them static, and inside some brackets, in
a text without comments. -/
structure Amid (s : Scan) (line : Nat) (start spaced : Bool) (seen : List Seen)
    (brackets : List Char) : Prop where
  view : s.view = ⟨line, spaced, seen.reverse, [], [], brackets, []⟩
  start : s.atLineStart → start
  static : ∀ t ∈ s.tokens, t.IsStatic

theorem amid_start (text : List Char) : (Scan.start text).Amid 1 true true [] [] :=
  ⟨rfl, fun _ => rfl, by simp [Scan.start]⟩

variable {s : Scan} {line : Nat} {start spaced : Bool} {seen : List Seen}
  {brackets after rest : List Char}

theorem Amid.last_eq (h : s.Amid line start spaced seen brackets) : s.last = Seen.last? seen := by
  have htokens : s.view.tokens = seen.reverse := congrArg View.tokens h.view
  rw [Scan.last_eq, htokens, List.head?_reverse]
  rfl

theorem run_gap (h : s.Amid line start spaced seen brackets) (hs : s.ahead = ' ' :: rest) :
    ∃ t : Scan, s.run = t.run ∧ t.ahead = rest ∧ t.Amid line start true seen brackets := by
  refine ⟨{ s.consume 1 with spaced := true }, run_of_next hs rfl, by simp [hs], ?_, ?_, h.static⟩
  · have hview : ({ s.consume 1 with spaced := true } : Scan).view =
        { s.view with spaced := true } := rfl
    rw [hview, h.view]
  · simp [atLineStart, consume, hs]

theorem next_of_follows {g : Glyph} {last : Option Lexeme} (hg : g.Follows start last spaced rest)
    (hstart : s.atLineStart → start) (hs : s.ahead = g.first :: (g.more ++ rest)) :
    s.next g.first (g.more ++ rest) = (s.token g.first (g.more ++ rest)).map some := by
  have hne : ∀ c ∈ Glyph.blankOpenings, (g.first == c) = false := by
    intro c hc
    rw [beq_eq_false_iff_ne]
    rintro rfl
    exact hg.opening hc
  have hmark : s.atLineStart → ∀ c ∈ ['=', '_'], (c == g.first) = false := by
    intro hs c hc
    rw [beq_eq_false_iff_ne]
    rintro rfl
    exact hg.noMark (hstart hs) hc
  have hbegin : "=begin".toList = ['=', 'b', 'e', 'g', 'i', 'n'] := rfl
  have hend : "__END__".toList = ['_', '_', 'E', 'N', 'D', '_', '_'] := rfl
  have hblock : (s.atLineStart && "=begin".toList.isPrefixOf s.ahead) = false := by
    cases hs' : s.atLineStart with
    | false => rfl
    | true => rw [hs, hbegin, List.isPrefixOf, hmark hs' '=' (by decide)]; rfl
  have hover : (s.atLineStart && "__END__".toList.isPrefixOf s.ahead) = false := by
    cases hs' : s.atLineStart with
    | false => rfl
    | true => rw [hs, hend, List.isPrefixOf, hmark hs' '_' (by decide)]; rfl
  unfold next
  rw [hne ' ' (by decide), hne '\t' (by decide), hne '\r' (by decide), hne '\n' (by decide),
    hne '\\' (by decide), hne '#' (by decide), hblock, hover]
  simp only [Bool.or_false, Bool.false_and, Bool.false_eq_true, if_false]

/-- Behind a glyph scanning stands inside its line. -/
theorem atLineStart_consume {g : Glyph} (hopening : g.first ∉ Glyph.blankOpenings)
    (hunbroken : '\n' ∉ g.more) (hs : s.ahead = g.first :: (g.more ++ rest)) :
    (s.consume (g.more.length + 1)).atLineStart = false := by
  have htaken : s.ahead.take (g.more.length + 1) = g.first :: g.more := by simp [hs]
  have hne : ∀ c ∈ g.first :: g.more, c ≠ '\n' := by
    rintro c hc rfl
    rcases List.mem_cons.mp hc with hfirst | hmore
    · exact hopening (hfirst ▸ by decide)
    · exact hunbroken hmore
  have hlast := hne _ (List.getLast_mem (List.cons_ne_nil g.first g.more))
  rw [atLineStart, consume, htaken, List.head?_append, List.head?_reverse,
    List.getLast?_eq_some_getLast (List.cons_ne_nil _ _)]
  simpa using hlast

theorem run_follow {g : Glyph} (h : s.Amid line start spaced seen brackets)
    (hg : g.Follows start (Seen.last? seen) spaced rest) (hnested : g.nested brackets = .ok after)
    (hs : s.ahead = g.first :: (g.more ++ rest)) :
    ∃ t : Scan, s.run = t.run ∧ t.ahead = rest ∧
      t.Amid line false false (seen ++ [⟨g.lexeme, line, spaced⟩]) after := by
  have hline : s.line = line := congrArg View.line h.view
  have hspaced : s.spaced = spaced := congrArg View.spaced h.view
  have hopen : s.brackets = brackets := congrArg View.brackets h.view
  have htokens : s.tokens.map Token.seen = seen.reverse := congrArg View.tokens h.view
  have hheredocs : s.heredocs = [] := congrArg View.heredocs h.view
  have hbrackets : s.bracketsAfter g.lexeme = .ok after := by
    rw [← hnested, ← hopen]
    unfold bracketsAfter Glyph.nested
    cases g.lexeme <;> rfl
  have htoken : s.token g.first (g.more ++ rest) =
      .ok (s.afterToken { lexeme := g.lexeme, more := g.more.length } after) := by
    rw [token_eq, h.last_eq, hspaced, hg.token]
    simp only [hbrackets]
  refine ⟨_, run_of_next hs (by rw [next_of_follows hg h.start hs, htoken]; rfl), ?_, ?_, ?_, ?_⟩
  · show (s.consume (g.more.length + 1)).ahead = rest
    simp [hs]
  · have hcomments : s.comments = [] := congrArg View.comments h.view
    have htrailing : s.trailing = [] := congrArg View.trailing h.view
    simp [afterToken, view, consume, Token.seen, hline, hspaced, htokens, hheredocs, hcomments,
      htrailing]
  · intro hstart
    have hinside := atLineStart_consume hg.opening hg.unbroken hs
    exact absurd hstart (by rw [Bool.not_eq_true]; exact hinside)
  · intro t ht
    rcases List.mem_cons.mp ht with rfl | ht
    · rfl
    · exact h.static t ht

theorem run_follows {glyphs : List Glyph} (h : s.Amid line start spaced seen brackets)
    (hall : Glyph.AllFollow start (Seen.last? seen) spaced glyphs rest)
    (hnested : Glyph.allNested brackets glyphs = .ok after)
    (hs : s.ahead = Glyph.text glyphs ++ rest) :
    ∃ t : Scan, s.run = t.run ∧ t.ahead = rest ∧
      t.Amid line (start && glyphs.isEmpty) (spaced && glyphs.isEmpty)
        (seen ++ Glyph.seen line spaced glyphs) after := by
  induction glyphs generalizing s start spaced seen brackets with
  | nil =>
    obtain rfl : brackets = after := Except.ok.inj hnested
    exact ⟨s, rfl, hs, by simpa [Glyph.seen] using h⟩
  | cons g others ih =>
    obtain ⟨hg, hothers⟩ := hall
    obtain ⟨between, hbetween, hbehind⟩ := Glyph.allNested_cons_ok hnested
    have hgap : ∃ u : Scan, s.run = u.run ∧
        u.ahead = g.first :: (g.more ++ (Glyph.text others ++ rest)) ∧
        u.Amid line start (spaced || g.gap) seen brackets := by
      cases hgap : g.gap with
      | false => exact ⟨s, rfl, by simpa [Glyph.text, Glyph.chars, hgap] using hs, by simpa using h⟩
      | true =>
        have hblank : s.ahead = ' ' :: g.first :: (g.more ++ (Glyph.text others ++ rest)) := by
          simpa [Glyph.text, Glyph.chars, hgap] using hs
        obtain ⟨u, hrun, hahead, hu⟩ := run_gap h hblank
        exact ⟨u, hrun, hahead, by simpa using hu⟩
    obtain ⟨u, hrun, hahead, hu⟩ := hgap
    obtain ⟨v, hrunv, haheadv, hv⟩ := run_follow hu hg hbetween hahead
    have hlast := Seen.last?_concat seen ⟨g.lexeme, line, spaced || g.gap⟩
    obtain ⟨t, hrunt, haheadt, ht⟩ := ih hv (hlast ▸ hothers) hbehind haheadv
    refine ⟨t, hrun.trans (hrunv.trans hrunt), haheadt, ?_⟩
    simpa [Glyph.seen] using ht

/-- The end of a line of code, which ends a statement. -/
theorem run_lineEnd {latest : Lexeme} (h : s.Amid line start spaced seen [])
    (hlast : Seen.last? seen = some latest) (hnewline : latest ≠ .newline)
    (hcontinues : latest.continues = false) (hs : s.ahead = '\n' :: rest)
    (hrest : opensWithDot false rest = false) :
    ∃ t : Scan, s.run = t.run ∧ t.ahead = rest ∧
      t.Amid (line + 1) true true (seen ++ [⟨.newline, line + 1, false⟩]) [] := by
  have hline : s.line = line := congrArg View.line h.view
  have hopen : s.brackets = [] := congrArg View.brackets h.view
  have hahead : s.afterBreak.ahead = rest := by simp [afterBreak, hs]
  have hend : s.afterBreak.canEndStatement = true := by
    refine canEndStatement_of_last ?_ (hahead ▸ hrest) (h.last_eq.trans hlast) hnewline hcontinues
    show endsStatements s.brackets = true
    rw [hopen]
    rfl
  refine ⟨_, run_lineBreak hs (congrArg View.heredocs h.view), ?_, ?_, fun _ => rfl, ?_⟩
  · rw [ahead_withBreak, hahead]
  · have hafter : s.afterBreak.view = { s.view with line := s.line + 1, spaced := true } := rfl
    have hbroken : s.afterBreak.line = line + 1 := congrArg (· + 1) hline
    rw [view_withBreak, hend, hbroken, hafter, h.view, hline]
    simp
  · intro t ht
    rw [withBreak, if_pos hend] at ht
    rcases List.mem_cons.mp ht with rfl | ht
    · rfl
    · exact h.static t ht

end Scan

/-- A text that has been scanned up to its end, outside of all brackets, has been scanned. -/
theorem scan_of_amid {text : List Char} {s : Scan} {line : Nat} {start spaced : Bool}
    {seen : List Seen} (hrun : (Scan.start text).run = s.run)
    (h : s.Amid line start spaced seen []) (hs : s.ahead = []) :
    ∃ found : Scanning, scan text = .ok found ∧
      Read.Stands Token.IsStatic (seen ++ [⟨.newline, line, false⟩])
        { text, eof := found.eof } { tokens := found.tokens } := by
  have hdone : s.run = .ok s := by
    rw [Scan.run]
    split
    · rfl
    · rename_i hcons
      rw [hs] at hcons
      cases hcons
  have hopen : s.brackets = [] := congrArg Scan.View.brackets h.view
  have hline : s.line = line := congrArg Scan.View.line h.view
  have htokens : s.tokens.map Token.seen = seen.reverse := congrArg Scan.View.tokens h.view
  unfold scan
  rw [hrun, hdone]
  change ∃ found, Scan.finish s = .ok found ∧ _
  unfold Scan.finish
  rw [hopen]
  refine ⟨_, rfl, ⟨rfl, rfl⟩, ?_, ?_⟩
  · simp [htokens, Token.seen, hline]
  · intro t ht
    rcases List.mem_cons.mp (List.mem_reverse.mp ht) with rfl | ht
    · rfl
    · exact h.static t ht

/-- A text is read, or refused, as its statements are, at any depth that is as large as the number
of tokens. -/
theorem read_of_amid {text : List Char} {s : Scan} {line : Nat} {start spaced : Bool}
    {seen : List Seen} (hrun : (Scan.start text).run = s.run)
    (h : s.Amid line start spaced seen []) (hs : s.ahead = []) {T : Token → Prop}
    (hT : ∀ t : Token, t.IsStatic → T t) {F : Read.Faults} {P : List Node → Prop}
    (hstatements : ∀ depth, seen.length ≤ depth →
      Read.Ends T F (Read.statements (grammar depth) [] none)
        (seen ++ [⟨.newline, line, false⟩]) [] P) :
    (∃ t : ViewSchema.Template, read text = .ok t ∧ P t.body) ∨
      ∃ fault found line, read text = .error (.grammar fault found line) ∧ F fault found line := by
  obtain ⟨scanned, hscan, hstands⟩ := scan_of_amid hrun h hs
  have hdepth : seen.length ≤ scanned.tokens.length + 1 := by
    have hlength := congrArg List.length hstands.seen
    simp only [List.length_map, List.length_append, List.length_singleton] at hlength
    omega
  have hread : read text = scanned.template text := by
    unfold read
    rw [hscan]
    rfl
  rw [hread]
  rcases hstatements _ hdepth _ _ (hstands.mono hT) with
    ⟨body, c, hbody, hc, hP⟩ | ⟨fault, found, line, hfault, hF⟩
  · have hdone : c.tokens = [] := List.map_eq_nil_iff.mp hc.seen
    refine .inl ⟨{
      body
      comments := { entries := scanned.comments, trailing := scanned.trailing } }, ?_, hP⟩
    simp only [Scanning.template, hbody, bind, Except.bind, hdone]
    rfl
  · refine .inr ⟨fault, found, line, ?_, hF⟩
    simp only [Scanning.template, hfault, bind, Except.bind]

/-- A text of one line is read, or refused, as its statements are. -/
theorem read_of_allFollow {glyphs : List Glyph} (hall : Glyph.AllFollow true none true glyphs [])
    (hnested : Glyph.allNested [] glyphs = .ok []) {F : Read.Faults} {P : List Node → Prop}
    (hstatements : ∀ depth, glyphs.length ≤ depth →
      Read.Ends Token.IsStatic F (Read.statements (grammar depth) [] none)
        (Glyph.seen 1 true glyphs ++ [⟨.newline, 1, false⟩]) [] P) :
    (∃ t : ViewSchema.Template, read (Glyph.text glyphs) = .ok t ∧ P t.body) ∨
      ∃ fault found line, read (Glyph.text glyphs) = .error (.grammar fault found line) ∧
        F fault found line := by
  obtain ⟨s, hrun, hahead, hs⟩ := Scan.run_follows (Scan.amid_start (Glyph.text glyphs)) hall
    hnested (List.append_nil _).symm
  refine read_of_amid hrun hs hahead (fun _ h => h) fun depth hdepth => hstatements depth ?_
  rwa [List.nil_append, Glyph.length_seen] at hdepth

end ViewSchema.Template
