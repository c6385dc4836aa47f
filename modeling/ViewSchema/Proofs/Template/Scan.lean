import ViewSchema.Proofs.Template.Step

/-!
Scanning a text line by line. A line holds a comment, or code that is written as glyphs, each of
which is one token of its own. Scanning such lines one after another gives their tokens in order,
with a line break behind each line of code, and their comments by line. Braces may stay open from
line to line, as long as all are closed at the end.
-/

namespace ViewSchema.Template

open Text (isBlank)

/-- What reading goes by in a token. -/
structure Seen where
  lexeme : Lexeme
  line : Nat
  spaced : Bool
  deriving DecidableEq

def Token.seen (t : Token) : Seen := ⟨t.lexeme, t.line, t.spaced⟩

/-- A token as it is written, with or without a blank in front. -/
structure Glyph where
  gap : Bool
  first : Char
  more : List Char
  lexeme : Lexeme

namespace Glyph

def chars (g : Glyph) : List Char := (if g.gap then [' '] else []) ++ g.first :: g.more

/-- Characters that begin something other than a token, or may do so at the start of a line. -/
def specialOpenings : List Char := [' ', '\t', '\r', '\n', '\\', '#', '=']

/-- A text opens with the mark that ends a template. -/
def opensEndMark (text : List Char) : Bool := "__END__".toList.isPrefixOf text

theorem opensEndMark_of_ne {first : Char} (h : first ≠ '_') (rest : List Char) :
    opensEndMark (first :: rest) = false := by
  have hmark : "__END__".toList = ['_', '_', 'E', 'N', 'D', '_', '_'] := rfl
  have hne : ('_' == first) = false := by simpa using h.symm
  rw [opensEndMark, hmark, List.isPrefixOf, hne, Bool.false_and]

/-- The glyph is read as its token in front of some text. -/
structure Fits (g : Glyph) (rest : List Char) : Prop where
  opening : g.first ∉ specialOpenings
  noMark : opensEndMark (g.first :: (g.more ++ rest)) = false
  token : ∀ last spaced, Lexer.token last spaced g.first (g.more ++ rest) =
    .ok { lexeme := g.lexeme, more := g.more.length }

/-- The brackets that are open behind a glyph, by those open in front of it. -/
def nested (brackets : List Char) (g : Glyph) : Except ScanFault (List Char) :=
  match g.lexeme with
  | .operator op => Scan.nested brackets op
  | _ => .ok brackets

/-- The brackets that are open behind some glyphs, by those open in front of them. -/
def allNested (brackets : List Char) : List Glyph → Except ScanFault (List Char)
  | [] => .ok brackets
  | g :: others => g.nested brackets >>= (allNested · others)

theorem allNested_cons_ok {brackets after : List Char} {g : Glyph} {others : List Glyph}
    (h : allNested brackets (g :: others) = .ok after) :
    ∃ between, g.nested brackets = .ok between ∧ allNested between others = .ok after := by
  rw [allNested] at h
  cases hg : g.nested brackets with
  | error fault =>
    rw [hg] at h
    cases h
  | ok between =>
    rw [hg] at h
    exact ⟨between, rfl, h⟩

def text (glyphs : List Glyph) : List Char := glyphs.flatMap chars

/-- Each glyph fits in front of the others and some text. -/
def AllFit : List Glyph → List Char → Prop
  | [], _ => True
  | g :: others, rest => g.Fits (text others ++ rest) ∧ AllFit others rest

def seen (line : Nat) (spaced : Bool) : List Glyph → List Seen
  | [] => []
  | g :: others => ⟨g.lexeme, line, spaced || g.gap⟩ :: seen line false others

end Glyph

namespace Scan

/-- What stays the same or changes in a known way while a line is read. -/
structure View where
  line : Nat
  spaced : Bool
  tokens : List Seen
  comments : List (Nat × String)
  trailing : List Nat
  brackets : List Char
  heredocs : List String

def view (s : Scan) : View :=
  { line := s.line, spaced := s.spaced, tokens := s.tokens.map Token.seen, comments := s.comments
    trailing := s.trailing, brackets := s.brackets, heredocs := s.heredocs }

theorem run_blank {s : Scan} {rest : List Char} (hs : s.ahead = ' ' :: rest) :
    ∃ t : Scan, s.run = t.run ∧ t.ahead = rest ∧ t.before = ' ' :: s.before ∧
      t.view = { s.view with spaced := true } := by
  refine ⟨{ s.consume 1 with spaced := true }, run_of_next hs rfl, ?_, ?_, rfl⟩
  · simp [hs]
  · simp [consume, hs]

theorem next_of_opening (s : Scan) {first : Char} (rest : List Char)
    (hfirst : first ∉ Glyph.specialOpenings) (hmark : Glyph.opensEndMark (first :: rest) = false)
    (hs : s.ahead = first :: rest) :
    s.next first rest = (s.token first rest).map some := by
  have hne : ∀ c ∈ Glyph.specialOpenings, (first == c) = false := by
    intro c hc
    rw [beq_eq_false_iff_ne]
    rintro rfl
    exact hfirst hc
  have hbegin : "=begin".toList = ['=', 'b', 'e', 'g', 'i', 'n'] := rfl
  have hblock : "=begin".toList.isPrefixOf s.ahead = false := by
    rw [hs, hbegin, List.isPrefixOf, BEq.comm, hne '=' (by decide), Bool.false_and]
  have hend : "__END__".toList.isPrefixOf s.ahead = false := by
    rw [hs]
    exact hmark
  unfold next
  rw [hne ' ' (by decide), hne '\t' (by decide), hne '\r' (by decide), hne '\n' (by decide),
    hne '\\' (by decide), hne '#' (by decide), hblock, hend]
  simp only [Bool.or_false, Bool.false_and, Bool.and_false, Bool.false_eq_true, if_false]

/-- A glyph without its gap is read in one step. -/
theorem run_glyph {s : Scan} {g : Glyph} {rest after : List Char} (hfits : g.Fits rest)
    (hnested : g.nested s.brackets = .ok after) (hs : s.ahead = g.first :: (g.more ++ rest)) :
    ∃ t : Scan, s.run = t.run ∧ t.ahead = rest ∧
      t.view = { s.view with
        spaced := false
        tokens := ⟨g.lexeme, s.line, s.spaced⟩ :: s.view.tokens
        brackets := after } := by
  have htoken : ∃ t : Scan, s.token g.first (g.more ++ rest) = .ok t ∧ t.ahead = rest ∧
      t.view = { s.view with
        spaced := false
        tokens := ⟨g.lexeme, s.line, s.spaced⟩ :: s.view.tokens
        brackets := after } := by
    have hdrop : (s.consume (g.more.length + 1)).ahead = rest := by simp [hs]
    have hbrackets : s.bracketsAfter g.lexeme = .ok after := by
      rw [← hnested]
      unfold bracketsAfter Glyph.nested
      cases g.lexeme <;> rfl
    rw [token_eq, hfits.token]
    simp only [hbrackets]
    exact ⟨_, rfl, hdrop, by simp [afterToken, view, Token.seen, consume]⟩
  obtain ⟨t, ht, hahead, hview⟩ := htoken
  refine ⟨t, run_of_next hs ?_, hahead, hview⟩
  rw [s.next_of_opening (g.more ++ rest) hfits.opening hfits.noMark hs, ht]
  rfl

theorem run_glyphs {glyphs : List Glyph} {s : Scan} {rest after : List Char}
    (hfit : Glyph.AllFit glyphs rest) (hnested : Glyph.allNested s.brackets glyphs = .ok after)
    (hs : s.ahead = Glyph.text glyphs ++ rest) :
    ∃ t : Scan, s.run = t.run ∧ t.ahead = rest ∧
      t.view = { s.view with
        spaced := s.spaced && glyphs.isEmpty
        tokens := (Glyph.seen s.line s.spaced glyphs).reverse ++ s.view.tokens
        brackets := after } := by
  induction glyphs generalizing s with
  | nil =>
    obtain rfl : s.brackets = after := Except.ok.inj hnested
    exact ⟨s, rfl, hs, by simp [view, Glyph.seen]⟩
  | cons g others ih =>
    obtain ⟨hg, hothers⟩ := hfit
    obtain ⟨between, hbetween, hbehind⟩ := Glyph.allNested_cons_ok hnested
    have hgap : ∃ u : Scan, s.run = u.run ∧
        u.ahead = g.first :: (g.more ++ (Glyph.text others ++ rest)) ∧
        u.view = { s.view with spaced := s.spaced || g.gap } := by
      cases hgap : g.gap with
      | false =>
        refine ⟨s, rfl, ?_, by simp [view]⟩
        simpa [Glyph.text, Glyph.chars, hgap] using hs
      | true =>
        have hblank : s.ahead = ' ' :: g.first :: (g.more ++ (Glyph.text others ++ rest)) := by
          simpa [Glyph.text, Glyph.chars, hgap] using hs
        obtain ⟨u, hrun, hahead, -, hview⟩ := run_blank hblank
        exact ⟨u, hrun, hahead, by simp [hview]⟩
    obtain ⟨u, hrun, hahead, hview⟩ := hgap
    have hbracketsu : u.brackets = s.brackets := congrArg View.brackets hview
    obtain ⟨v, hrunv, haheadv, hviewv⟩ := run_glyph hg (hbracketsu ▸ hbetween) hahead
    have hbracketsv : v.brackets = between := congrArg View.brackets hviewv
    obtain ⟨t, hrunt, haheadt, hviewt⟩ := ih hothers (hbracketsv ▸ hbehind) haheadv
    have hline : u.line = s.line := congrArg View.line hview
    have hspaced : u.spaced = (s.spaced || g.gap) := congrArg View.spaced hview
    have hlinev : v.line = s.line := (congrArg View.line hviewv).trans hline
    have hspacedv : v.spaced = false := congrArg View.spaced hviewv
    refine ⟨t, hrun.trans (hrunv.trans hrunt), haheadt, ?_⟩
    rw [hviewt, hviewv, hview, hline, hspaced, hlinev, hspacedv]
    simp [Glyph.seen]

/-- Only blanks have been read of the current line. -/
def AtMargin (s : Scan) : Prop := (s.before.takeWhile (· != '\n')).all isBlank

theorem run_indent (indent : Nat) {s : Scan} {rest : List Char} (hspaced : s.spaced)
    (hmargin : s.AtMargin) (hs : s.ahead = List.replicate indent ' ' ++ rest) :
    ∃ t : Scan, s.run = t.run ∧ t.ahead = rest ∧ t.AtMargin ∧ t.view = s.view := by
  induction indent generalizing s with
  | zero => exact ⟨s, rfl, hs, hmargin, rfl⟩
  | succ indent ih =>
    obtain ⟨u, hrun, hahead, hbefore, hview⟩ := run_blank hs
    have hspacedu : u.spaced = true := congrArg View.spaced hview
    have hmarginu : u.AtMargin := by
      rw [AtMargin, hbefore, List.takeWhile_cons_of_pos (by decide), List.all_cons]
      exact hmargin
    obtain ⟨t, hrunt, haheadt, hmargint, hviewt⟩ := ih hspacedu hmarginu hahead
    refine ⟨t, hrun.trans hrunt, haheadt, hmargint, ?_⟩
    rw [hviewt, hview]
    simp [view, hspaced]

end Scan

/-- Statements end with their lines inside the brackets that are open. -/
def Scan.endsStatements (brackets : List Char) : Bool :=
  !brackets.head?.any fun c => c == '(' || c == '['

/-- A line of a plainly written text, with its indentation. -/
inductive Line where
  /-- A comment, from its sign on. -/
  | comment (indent : Nat) (said : List Char)
  | code (indent : Nat) (glyphs : List Glyph)

namespace Line

def chars : Line → List Char
  | comment indent said => List.replicate indent ' ' ++ said
  | code indent glyphs => List.replicate indent ' ' ++ Glyph.text glyphs

/-- What is seen of a line: its tokens, and the line break behind them. -/
def seen (line : Nat) : Line → List Seen
  | comment .. => []
  | code _ glyphs => Glyph.seen line true glyphs ++ [⟨.newline, line + 1, false⟩]

/-- The comment on a line, under its number. -/
def comments (line : Nat) : Line → List (Nat × String)
  | comment _ said => [(line, String.ofList (Text.trim said))]
  | code .. => []

/-- A line that is read as what it says: a comment opens with its sign, a statement can end behind
the code of a line, and the code does not go on with the statement before. -/
def Fits : Line → Prop
  | comment _ said => said.head? = some '#' ∧ '\n' ∉ said
  | code _ glyphs => (∀ rest, Glyph.AllFit glyphs ('\n' :: rest)) ∧
      (∃ final, glyphs.getLast? = some final ∧ final.lexeme ≠ .newline ∧
        final.lexeme.continues = false) ∧
      ∀ rest, Scan.opensWithDot false (Glyph.text glyphs ++ rest) = false

/-- The brackets that are open behind a line, by those open in front of it. -/
def nested (brackets : List Char) : Line → Except ScanFault (List Char)
  | comment .. => .ok brackets
  | code _ glyphs => Glyph.allNested brackets glyphs

/-- The line closes what it opens. -/
def IsFlat (l : Line) : Prop := ∀ brackets, l.nested brackets = .ok brackets

/-- From the brackets that are open in front of some lines to those open behind them. A statement
can end wherever a line ends. -/
def Nest : List Char → List Line → List Char → Prop
  | before, [], after => before = after
  | before, l :: others, after => ∃ between, l.nested before = .ok between ∧
      Scan.endsStatements between ∧ Nest between others after

theorem nest_append {before between after : List Char} {lines others : List Line}
    (hlines : Nest before lines between) (hothers : Nest between others after) :
    Nest before (lines ++ others) after := by
  induction lines generalizing before with
  | nil =>
    obtain rfl : before = between := hlines
    exact hothers
  | cons l rest ih =>
    obtain ⟨inner, hinner, hends, hrest⟩ := hlines
    exact ⟨inner, hinner, hends, ih hrest⟩

theorem nest_of_isFlat {brackets : List Char} (hends : Scan.endsStatements brackets)
    {lines : List Line} (h : ∀ l ∈ lines, l.IsFlat) : Nest brackets lines brackets := by
  induction lines with
  | nil => exact rfl
  | cons l others ih =>
    exact ⟨brackets, h l List.mem_cons_self brackets, hends,
      ih fun l hl => h l (List.mem_cons_of_mem _ hl)⟩

def text (lines : List Line) : List Char := lines.flatMap fun l => l.chars ++ ['\n']

theorem text_cons (l : Line) (others : List Line) :
    text (l :: others) = l.chars ++ '\n' :: text others := by
  simp [text]

def allSeen (line : Nat) : List Line → List Seen
  | [] => []
  | l :: others => l.seen line ++ allSeen (line + 1) others

theorem allSeen_append (line : Nat) (these others : List Line) :
    allSeen line (these ++ others) =
      allSeen line these ++ allSeen (line + these.length) others := by
  induction these generalizing line with
  | nil => rfl
  | cons l rest ih =>
    have hline : line + (l :: rest).length = line + 1 + rest.length := by
      rw [List.length_cons]
      omega
    rw [List.cons_append, allSeen, allSeen, ih, List.append_assoc, hline]

def allComments (line : Nat) : List Line → List (Nat × String)
  | [] => []
  | l :: others => l.comments line ++ allComments (line + 1) others

end Line

namespace Scan

/-- Scanning stands at the start of a line, inside some brackets, after some tokens and
comments. -/
structure Between (s : Scan) (line : Nat) (brackets : List Char) (seen : List Seen)
    (comments : List (Nat × String)) : Prop where
  view : s.view = ⟨line, true, seen.reverse, comments.reverse, [], brackets, []⟩
  margin : s.AtMargin
  settled : ∀ latest ∈ seen.getLast?, latest.lexeme = .newline
  early : ∀ c ∈ comments, c.1 < line

theorem run_lineBreak {s : Scan} {rest : List Char} (hs : s.ahead = '\n' :: rest)
    (hheredocs : s.heredocs = []) : s.run = s.afterBreak.withBreak.run := by
  have htexts : s.afterBreak.heredocTexts = .ok s.afterBreak := by
    simp [heredocTexts, afterBreak, consume, hheredocs]
  apply run_of_next hs
  simp [next, lineBreak_eq, htexts, Except.map]

theorem view_withBreak (s : Scan) :
    s.withBreak.view = { s.view with
      tokens := (if s.canEndStatement then [⟨.newline, s.line, false⟩] else []) ++
        s.view.tokens } := by
  unfold withBreak
  split <;> rfl

theorem run_comment {s : Scan} {said rest : List Char} (hsaid : said.head? = some '#')
    (hline : '\n' ∉ said) (hs : s.ahead = said ++ '\n' :: rest) (hmargin : s.AtMargin)
    (hearly : ∀ c ∈ s.comments, c.1 < s.line) :
    ∃ t : Scan, s.run = t.run ∧ t.ahead = '\n' :: rest ∧
      t.view = { s.view with
        comments := (s.line, String.ofList (Text.trim said)) :: s.comments } := by
  cases said with
  | nil => cases hsaid
  | cons first more =>
    obtain rfl : first = '#' := Option.some.inj hsaid
    have htext : s.ahead.takeWhile (· != '\n') = '#' :: more := by
      rw [hs, List.takeWhile_append_of_pos]
      · simp
      · intro c hc
        rw [bne_iff_ne]
        rintro rfl
        exact hline hc
    have htrails : (s.before.takeWhile (· != '\n')).any (!isBlank ·) = false := by
      rw [List.any_eq_false]
      intro c hc
      simpa using List.all_eq_true.mp hmargin c hc
    have hput : putComment s.comments s.line (String.ofList (Text.trim ('#' :: more))) =
        (s.line, String.ofList (Text.trim ('#' :: more))) :: s.comments := by
      have hfilter : s.comments.filter (fun c => c.1 != s.line) = s.comments := by
        rw [List.filter_eq_self]
        intro c hc
        have hlt := hearly c hc
        simpa using Nat.ne_of_lt hlt
      rw [putComment, hfilter]
    have hahead : s.comment.ahead = s.ahead.drop ('#' :: more).length := by
      rw [← htext]
      rfl
    refine ⟨s.comment, run_of_next hs rfl, ?_, ?_⟩
    · rw [hahead, hs, List.drop_left]
    · simp [comment, view, consume, htext, htrails, hput]

theorem opensWithDot_indent (indent : Nat) (rest : List Char) :
    opensWithDot false (List.replicate indent ' ' ++ rest) = opensWithDot false rest := by
  induction indent with
  | zero => rfl
  | succ indent ih =>
    rw [List.replicate_succ, List.cons_append, opensWithDot]
    exact ih

theorem opensWithDot_comment {said : List Char} (hline : '\n' ∉ said) (rest : List Char) :
    opensWithDot true (said ++ '\n' :: rest) = opensWithDot false rest := by
  induction said with
  | nil => rfl
  | cons c more ih =>
    obtain ⟨hc, hmore⟩ := not_or.mp (mt List.mem_cons.mpr hline)
    have hne : (c != '\n') = true := by simpa using Ne.symm hc
    rw [List.cons_append, opensWithDot, hne]
    exact ih hmore

theorem opensWithDot_text {lines : List Line} (h : ∀ l ∈ lines, l.Fits) {rest : List Char}
    (hrest : opensWithDot false rest = false) :
    opensWithDot false (Line.text lines ++ rest) = false := by
  induction lines with
  | nil => exact hrest
  | cons l others ih =>
    have hl := h l List.mem_cons_self
    have hothers := ih fun l hl => h l (List.mem_cons_of_mem _ hl)
    rw [Line.text_cons, List.append_assoc, List.cons_append]
    cases l with
    | comment indent said =>
      obtain ⟨hsign, hline⟩ := hl
      cases said with
      | nil => cases hsign
      | cons first more =>
        obtain rfl : first = '#' := Option.some.inj hsign
        rw [Line.chars, List.append_assoc, opensWithDot_indent]
        have hopen : opensWithDot false ('#' :: (more ++ '\n' :: (Line.text others ++ rest))) =
            opensWithDot true (more ++ '\n' :: (Line.text others ++ rest)) := rfl
        rw [List.cons_append, hopen,
          opensWithDot_comment fun hmem => hline (List.mem_cons_of_mem _ hmem)]
        exact hothers
    | code indent glyphs =>
      rw [Line.chars, List.append_assoc, opensWithDot_indent]
      exact hl.2.2 _

theorem last_eq (s : Scan) : s.last = s.view.tokens.head?.map Seen.lexeme := by
  simp [last, view, List.head?_map, Function.comp_def, Token.seen]

/-- No statement ends where none has begun. -/
theorem canEndStatement_of_settled {s : Scan}
    (h : ∀ lexeme ∈ s.last, lexeme = .newline) : s.canEndStatement = false := by
  unfold canEndStatement
  cases hlast : s.last with
  | none => simp
  | some lexeme =>
    obtain rfl := h lexeme hlast
    simp

theorem canEndStatement_of_last {s : Scan} (hbrackets : endsStatements s.brackets)
    (hdot : opensWithDot false s.ahead = false) {lexeme : Lexeme} (hlast : s.last = some lexeme)
    (hnewline : lexeme ≠ .newline) (hcontinues : lexeme.continues = false) :
    s.canEndStatement = true := by
  unfold endsStatements at hbrackets
  unfold canEndStatement
  rw [hbrackets, hdot, hlast]
  cases lexeme <;> simp_all

theorem getLast?_seen (line : Nat) (spaced : Bool) (glyphs : List Glyph) :
    (Glyph.seen line spaced glyphs).getLast?.map Seen.lexeme =
      glyphs.getLast?.map Glyph.lexeme := by
  induction glyphs generalizing spaced with
  | nil => rfl
  | cons g others ih =>
    cases others with
    | nil => rfl
    | cons next rest => exact ih false

section Line

variable {s : Scan} {line : Nat} {before after : List Char} {seen : List Seen}
  {comments : List (Nat × String)} {rest : List Char}

/-- From the end of a line to the start of the next, past a line break that may end a statement. -/
theorem run_endOfLine {spaced : Bool} {ended : List Seen} (hs : s.ahead = '\n' :: rest)
    (hview : s.view = ⟨line, spaced, seen.reverse, comments.reverse, [], after, []⟩)
    (hended : (if s.afterBreak.canEndStatement then [⟨.newline, line + 1, false⟩] else []) = ended)
    (hsettled : ∀ latest ∈ (seen ++ ended).getLast?, latest.lexeme = .newline)
    (hearly : ∀ c ∈ comments, c.1 < line + 1) :
    ∃ t : Scan, s.run = t.run ∧ t.ahead = rest ∧
      t.Between (line + 1) after (seen ++ ended) comments := by
  have hline : s.line = line := congrArg View.line hview
  have hbroken : s.afterBreak.line = line + 1 := congrArg (· + 1) hline
  refine ⟨s.afterBreak.withBreak, run_lineBreak hs (congrArg View.heredocs hview), ?_, ?_, ?_,
    hsettled, hearly⟩
  · rw [ahead_withBreak]
    simp [afterBreak, hs]
  · have hafter : s.afterBreak.view = { s.view with line := s.line + 1, spaced := true } := rfl
    rw [view_withBreak, hbroken, hended, hafter, hview, hline, ← hended]
    split <;> simp
  · rw [AtMargin, before_withBreak]
    simp [afterBreak, consume, hs]

/-- A comment is read, with the line break behind it. -/
theorem run_commentLine (h : s.Between line after seen comments) {indent : Nat} {said : List Char}
    (hl : (Line.comment indent said).Fits)
    (hs : s.ahead = (Line.comment indent said).chars ++ '\n' :: rest) :
    ∃ t : Scan, s.run = t.run ∧ t.ahead = rest ∧
      t.Between (line + 1) after seen
        (comments ++ [(line, String.ofList (Text.trim said))]) := by
  obtain ⟨hsign, hbreak⟩ := hl
  rw [Line.chars, List.append_assoc] at hs
  obtain ⟨u, hrunu, haheadu, hmarginu, hviewu⟩ :=
    run_indent indent (congrArg View.spaced h.view) h.margin hs
  have hviewu := hviewu.trans h.view
  have hlineu : u.line = line := congrArg View.line hviewu
  have hcommentsu : u.comments = comments.reverse := congrArg View.comments hviewu
  have hearlyu : ∀ c ∈ u.comments, c.1 < u.line := by
    rw [hlineu, hcommentsu]
    exact fun c hc => h.early c (List.mem_reverse.mp hc)
  obtain ⟨v, hrunv, haheadv, hviewv⟩ := run_comment hsign hbreak haheadu hmarginu hearlyu
  have hviewv : v.view = ⟨line, true, seen.reverse,
      (comments ++ [(line, String.ofList (Text.trim said))]).reverse, [], after, []⟩ := by
    rw [hviewu, hlineu, hcommentsu] at hviewv
    rw [List.reverse_append]
    exact hviewv
  have htokens : v.view.tokens = seen.reverse := congrArg View.tokens hviewv
  have hend : v.afterBreak.canEndStatement = false := by
    apply canEndStatement_of_settled
    have hlast : v.afterBreak.last = v.last := rfl
    rw [hlast, last_eq, htokens, List.head?_reverse]
    intro lexeme hlexeme
    obtain ⟨latest, hlatest, rfl⟩ := Option.map_eq_some_iff.mp hlexeme
    exact h.settled latest hlatest
  have hearly : ∀ c ∈ comments ++ [(line, String.ofList (Text.trim said))], c.1 < line + 1 := by
    intro c hc
    rcases List.mem_append.mp hc with hold | hnew
    · exact Nat.lt_succ_of_lt (h.early c hold)
    · obtain rfl := List.mem_singleton.mp hnew
      exact Nat.lt_succ_self line
  have hsettled : ∀ latest ∈ (seen ++ []).getLast?, latest.lexeme = .newline := by
    rw [List.append_nil]
    exact h.settled
  obtain ⟨t, hrunt, haheadt, ht⟩ := run_endOfLine haheadv hviewv (by simp [hend]) hsettled hearly
  rw [List.append_nil] at ht
  exact ⟨t, hrunu.trans (hrunv.trans hrunt), haheadt, ht⟩

/-- A line of code is read, with the line break behind it, which ends a statement. -/
theorem run_codeLine (h : s.Between line before seen comments) {indent : Nat}
    {glyphs : List Glyph} (hl : (Line.code indent glyphs).Fits)
    (hnested : Glyph.allNested before glyphs = .ok after) (hafter : endsStatements after)
    (hs : s.ahead = (Line.code indent glyphs).chars ++ '\n' :: rest)
    (hrest : opensWithDot false rest = false) :
    ∃ t : Scan, s.run = t.run ∧ t.ahead = rest ∧
      t.Between (line + 1) after (seen ++ (Line.code indent glyphs).seen line) comments := by
  obtain ⟨hfit, ⟨final, hfinal, hnewline, hcontinues⟩, -⟩ := hl
  rw [Line.chars, List.append_assoc] at hs
  obtain ⟨u, hrunu, haheadu, -, hviewu⟩ :=
    run_indent indent (congrArg View.spaced h.view) h.margin hs
  have hviewu := hviewu.trans h.view
  have hlineu : u.line = line := congrArg View.line hviewu
  have hspacedu : u.spaced = true := congrArg View.spaced hviewu
  have hbracketsu : u.brackets = before := congrArg View.brackets hviewu
  obtain ⟨v, hrunv, haheadv, hviewv⟩ := run_glyphs (hfit rest) (hbracketsu ▸ hnested) haheadu
  rw [hviewu, hlineu, hspacedu, ← List.reverse_append] at hviewv
  have hbrackets : v.afterBreak.brackets = after := congrArg View.brackets hviewv
  have htokens : v.view.tokens = (seen ++ Glyph.seen line true glyphs).reverse :=
    congrArg View.tokens hviewv
  have hahead : v.afterBreak.ahead = rest := by simp [afterBreak, haheadv]
  have hlast : v.afterBreak.last = some final.lexeme := by
    have hsame : v.afterBreak.last = v.last := rfl
    have hseen := getLast?_seen line true glyphs
    rw [hfinal] at hseen
    obtain ⟨latest, hlatest, hlexeme⟩ := Option.map_eq_some_iff.mp hseen
    rw [hsame, last_eq, htokens, List.head?_reverse, List.getLast?_append, hlatest]
    exact congrArg some hlexeme
  have hend : v.afterBreak.canEndStatement = true :=
    canEndStatement_of_last (hbrackets ▸ hafter) (hahead ▸ hrest) hlast hnewline hcontinues
  let ended : Seen := ⟨.newline, line + 1, false⟩
  have hsettled : ∀ latest ∈ (seen ++ Glyph.seen line true glyphs ++ [ended]).getLast?,
      latest.lexeme = .newline := by simp [ended]
  obtain ⟨t, hrunt, haheadt, ht⟩ := run_endOfLine haheadv hviewv (by simp [hend, ended]) hsettled
    fun c hc => Nat.lt_succ_of_lt (h.early c hc)
  rw [List.append_assoc] at ht
  exact ⟨t, hrunu.trans (hrunv.trans hrunt), haheadt, ht⟩

/-- One line is read, with the line break behind it. -/
theorem run_line (h : s.Between line before seen comments) {l : Line} (hl : l.Fits)
    (hnested : l.nested before = .ok after) (hafter : endsStatements after)
    (hs : s.ahead = l.chars ++ '\n' :: rest) (hrest : opensWithDot false rest = false) :
    ∃ t : Scan, s.run = t.run ∧ t.ahead = rest ∧
      t.Between (line + 1) after (seen ++ l.seen line) (comments ++ l.comments line) := by
  cases l with
  | comment indent said =>
    obtain rfl : before = after := Except.ok.inj hnested
    rw [Line.seen, List.append_nil]
    exact run_commentLine h hl hs
  | code indent glyphs =>
    rw [Line.comments, List.append_nil]
    exact run_codeLine h hl hnested hafter hs hrest

end Line

theorem run_lines {lines : List Line} {s : Scan} {line : Nat} {before after : List Char}
    {seen : List Seen} {comments : List (Nat × String)} (h : s.Between line before seen comments)
    (hlines : ∀ l ∈ lines, l.Fits) (hnest : Line.Nest before lines after) {rest : List Char}
    (hs : s.ahead = Line.text lines ++ rest) (hrest : opensWithDot false rest = false) :
    ∃ t : Scan, s.run = t.run ∧ t.ahead = rest ∧
      t.Between (line + lines.length) after (seen ++ Line.allSeen line lines)
        (comments ++ Line.allComments line lines) := by
  induction lines generalizing s line before seen comments with
  | nil =>
    obtain rfl : before = after := hnest
    exact ⟨s, rfl, hs, by simpa [Line.allSeen, Line.allComments] using h⟩
  | cons l others ih =>
    obtain ⟨between, hbetween, hends, hbehind⟩ := hnest
    have hothers : ∀ l ∈ others, l.Fits := fun l hl => hlines l (List.mem_cons_of_mem _ hl)
    rw [Line.text_cons, List.append_assoc, List.cons_append] at hs
    obtain ⟨u, hrunu, haheadu, hu⟩ :=
      run_line h (hlines l List.mem_cons_self) hbetween hends hs (opensWithDot_text hothers hrest)
    obtain ⟨t, hrunt, haheadt, ht⟩ := ih hu hothers hbehind haheadu
    refine ⟨t, hrunu.trans hrunt, haheadt, ?_⟩
    have hline : line + (l :: others).length = line + 1 + others.length := by
      rw [List.length_cons]
      omega
    rw [hline, Line.allSeen, Line.allComments, ← List.append_assoc, ← List.append_assoc]
    exact ht

end Scan

theorem Scan.between_start (text : List Char) : (Scan.start text).Between 1 [] [] [] := by
  refine ⟨rfl, rfl, ?_, ?_⟩ <;> simp

/-- Scanning lines that fit gives their tokens and their comments, if all brackets are closed. -/
theorem scan_lines {lines : List Line} (h : ∀ l ∈ lines, l.Fits) (hnest : Line.Nest [] lines []) :
    ∃ s : Scanning, scan (Line.text lines) = .ok s ∧
      s.tokens.map Token.seen =
        Line.allSeen 1 lines ++ [⟨.newline, lines.length + 1, false⟩] ∧
      s.eof.lexeme = .endOfText ∧ s.eof.spaced = false ∧
      s.comments = Line.allComments 1 lines ∧ s.trailing = [] := by
  obtain ⟨t, hrun, hahead, ht⟩ := Scan.run_lines (Scan.between_start (Line.text lines)) h hnest
    (List.append_nil _).symm rfl
  have hdone : t.run = .ok t := by
    rw [Scan.run]
    split
    · rfl
    · rename_i hcons
      rw [hahead] at hcons
      cases hcons
  have hview := ht.view
  have hbrackets : t.brackets = [] := congrArg Scan.View.brackets hview
  have htokens : t.tokens.map Token.seen = (Line.allSeen 1 lines).reverse :=
    congrArg Scan.View.tokens hview
  have hline : t.line = 1 + lines.length := congrArg Scan.View.line hview
  have hcomments : t.comments = (Line.allComments 1 lines).reverse :=
    congrArg Scan.View.comments hview
  have htrailing : t.trailing = [] := congrArg Scan.View.trailing hview
  unfold scan
  rw [hrun, hdone]
  change ∃ s, Scan.finish t = .ok s ∧ _
  unfold Scan.finish
  rw [hbrackets]
  refine ⟨_, rfl, ?_, rfl, rfl, ?_, ?_⟩
  · simp [htokens, Token.seen, hline, Nat.add_comm]
  · simp [hcomments]
  · simp [htrailing]

end ViewSchema.Template
