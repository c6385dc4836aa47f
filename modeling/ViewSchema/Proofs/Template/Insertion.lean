import Mathlib.Data.List.TakeWhile
import ViewSchema.Proofs.Template.Beside
import ViewSchema.Proofs.Template.Front

/-!
Putting a line with a comment between two lines of a text. The front of the text is scanned as
before, the comment and its line break make no token, and behind them scanning takes the same steps
as before. So the text is refused when it was refused before, and else its tokens say the same as
before and no comment is lost.
-/

namespace ViewSchema.Template

/-- What a token says, without its place. -/
def Token.content (t : Token) : Lexeme × Bool × Bool := (t.lexeme, t.spaced, t.dynamic)

/-- What scanning finds without a line with a comment, and with it put in where scanning stands in a
state. -/
structure Scanning.Commented (place : Scan) (note : List Char) (r r' : Scanning) : Prop where
  content : r'.tokens.map Token.content = r.tokens.map Token.content
  /-- The tokens that came before remain where they are, and the later ones move. -/
  tokens : ∃ later, r.tokens = place.tokens.reverse ++ later ∧
    r'.tokens = place.tokens.reverse ++ later.map (Token.moved (commentLine note).length)
  eof : r'.eof = r.eof.moved (commentLine note).length
  comments : r'.comments =
    r.comments.filter (·.1 < place.line) ++ (place.line, commentSaid note) ::
      (r.comments.filter (place.line ≤ ·.1)).map fun c => (c.1 + 1, c.2)
  trailing : r'.trailing = r.trailing.map (lineAfter place.line)
  newLine : place.line ∉ r'.trailing

theorem lineAfter_ne (new line : Nat) : lineAfter new line ≠ new := by
  unfold lineAfter
  split <;> omega

namespace Scan

namespace Beside

variable {place s s' : Scan} {note : List Char}

theorem endBreak (h : Beside place note s s') :
    s'.endBreak = s.endBreak.moved (commentLine note).length := by
  rw [Scan.endBreak, Scan.endBreak, h.line, h.position]
  rfl

/-- What both scans find when they end. -/
theorem scanning (h : Beside place note s s') :
    Scanning.Commented place note s.scanning s'.scanning := by
  obtain ⟨later, hs, hs'⟩ := h.tokens
  have htokens : s.scanning.tokens = place.tokens.reverse ++ (s.endBreak :: later).reverse := by
    rw [Scan.scanning, hs, ← List.cons_append, List.reverse_append]
  have htokens' : s'.scanning.tokens = place.tokens.reverse ++
      (s.endBreak :: later).reverse.map (Token.moved (commentLine note).length) := by
    rw [Scan.scanning, hs', h.endBreak, List.map_reverse, List.map_cons, ← List.reverse_append,
      List.cons_append]
  refine ⟨?_, ⟨_, htokens, htokens'⟩, ?_, ?_, ?_, ?_⟩
  · rw [htokens, htokens', List.map_append, List.map_append, List.map_map]
    rfl
  · rw [Scan.scanning, Scan.scanning, h.endBreak]
    rfl
  · rw [Scan.scanning, Scan.scanning, h.comments]
    simp [commentsAfter]
  · rw [Scan.scanning, Scan.scanning, h.trailing, List.map_reverse]
  · rw [Scan.scanning, h.trailing, List.mem_reverse, List.mem_map]
    rintro ⟨line, -, hline⟩
    exact lineAfter_ne _ _ hline

theorem finish (h : Beside place note s s') :
    Alike (Scanning.Commented place note) s.finish s'.finish := by
  rw [finish_eq, finish_eq, h.brackets]
  cases s.brackets with
  | nil => exact .ok h.scanning
  | cons c others =>
    dsimp only
    rw [h.line]
    exact .error _

end Beside

/-- Where a line begins, no heredoc is open, a statement that can end has ended, and the line has
no comment yet. -/
structure Fresh (t : Scan) : Prop where
  heredocs : t.heredocs = []
  spaced : t.spaced = true
  ended : t.canEndStatement = false
  comments : ∀ c ∈ t.comments, c.1 < t.line
  trailing : ∀ l ∈ t.trailing, l < t.line

theorem BeginsLine.fresh {text : List Char} {t : Scan} (h : BeginsLine text t) : t.Fresh := by
  cases h with
  | opening => exact ⟨rfl, rfl, rfl, nofun, nofun⟩
  | @lineBreak s t rest hreach hs ht =>
    obtain ⟨count, -, rfl⟩ := lineBreak_eq_ok ht
    obtain ⟨hcomments, htrailing⟩ := Reaches.lines hreach
    have hended := canEndStatement_withBreak (s.afterBreak.afterTexts count)
    have hlater : s.line < (s.afterBreak.afterTexts count).line :=
      Nat.lt_of_lt_of_le (Nat.lt_succ_self _) (Nat.le_add_right _ _)
    rw [withBreak_eq] at hended ⊢
    exact ⟨rfl, rfl, hended, fun c hc => Nat.lt_of_le_of_lt (hcomments c hc) hlater,
      fun l hl => Nat.lt_of_le_of_lt (htrailing l hl) hlater⟩

/-- The state behind a line with a comment. -/
def behindComment (t : Scan) (note : List Char) : Scan :=
  { t with
    before := (commentLine note).reverse ++ t.before
    position := t.position + (commentLine note).length
    line := t.line + 1
    comments := (t.line, commentSaid note) :: t.comments }

/-- From the beginning of a line with a comment scanning goes over the comment and the line break,
which ends no statement. -/
theorem Fresh.reaches {t : Scan} (h : t.Fresh) {note : List Char} (hnote : '\n' ∉ note)
    (hline : t.before.takeWhile (· != '\n') = []) :
    (t.facing (commentLine note ++ t.ahead)).Reaches (t.behindComment note) := by
  let u : Scan :=
    { t with
      before := ('#' :: note).reverse ++ t.before
      ahead := '\n' :: t.ahead
      position := t.position + (note.length + 1)
      comments := (t.line, commentSaid note) :: t.comments }
  have hahead : commentLine note ++ t.ahead = '#' :: note ++ '\n' :: t.ahead := by
    simp [commentLine]
  have hcomment : (t.facing (commentLine note ++ t.ahead)).comment = u := by
    have htext : (note ++ '\n' :: t.ahead).takeWhile (· != '\n') = note := by
      rw [Lexer.takeWhile_break _ _ _ (by decide), List.takeWhile_eq_self_iff]
      refine fun c hc => bne_iff_ne.mpr ?_
      rintro rfl
      exact hnote hc
    have hcomments : t.comments.filter (·.1 != t.line) = t.comments := by
      refine List.filter_eq_self.mpr fun c hc => ?_
      exact bne_iff_ne.mpr (Nat.ne_of_lt (h.comments c hc))
    simp [Scan.comment, facing, consume, htext, hline, putComment, hcomments, hahead, u,
      commentSaid]
  have hbreak : u.lineBreak = .ok (t.behindComment note) := by
    have hnone : heredocLines u.heredocs (textLines (u.ahead.drop 1)) = .ok 0 := by
      have hu : u.heredocs = [] := h.heredocs
      rw [hu, heredocLines]
    have hbehind : u.afterBreak.afterTexts 0 = t.behindComment note := by
      simp [u, afterBreak, afterTexts, consume, behindComment, commentLine, h.heredocs, h.spaced,
        Nat.add_assoc]
    have hended : (t.behindComment note).canEndStatement = false := h.ended
    rw [lineBreak_of_lines hnone, hbehind, withBreak, hended]
    rfl
  have hfirst : (t.facing (commentLine note ++ t.ahead)).Step u :=
    ⟨'#', note ++ ['\n'] ++ t.ahead, rfl, by rw [next_eq, ← hcomment]; rfl⟩
  exact .head hfirst (.single (step_of_lineBreak rfl hbreak))

theorem Fresh.beside {t : Scan} (h : t.Fresh) (note : List Char)
    (hline : t.before.takeWhile (· != '\n') = []) :
    Beside t note t (t.behindComment note) := by
  have hlater : t.comments.filter (t.line ≤ ·.1) = [] := by
    refine List.filter_eq_nil_iff.mpr fun c hc => ?_
    simpa using h.comments c hc
  have hearlier : t.comments.filter (·.1 < t.line) = t.comments := by
    refine List.filter_eq_self.mpr fun c hc => ?_
    simpa using h.comments c hc
  have htrailing : t.trailing.map (lineAfter t.line) = t.trailing := by
    rw [List.map_congr_left fun l hl => lineAfter_of_lt (h.trailing l hl), List.map_id']
  exact
    { ahead := rfl
      position := rfl
      line := rfl
      spaced := rfl
      brackets := rfl
      heredocs := rfl
      lineText := by
        rw [hline]
        simp [behindComment, commentLine]
      tokens := ⟨[], rfl, rfl⟩
      comments := by
        rw [commentsAfter, hlater, hearlier]
        rfl
      trailing := htrailing.symm
      behind := Nat.le_refl _ }

/-- A comment in front of the next lines does not change whether they open with a dot. -/
theorem opensWithDot_commentLine {note : List Char} (hnote : '\n' ∉ note) (behind : List Char) :
    opensWithDot false (commentLine note ++ behind) = opensWithDot false behind := by
  have hskip : opensWithDot true (note ++ '\n' :: behind) = opensWithDot false behind := by
    induction note with
    | nil => rfl
    | cons c note ih =>
      obtain ⟨hc, hrest⟩ := not_or.mp (mt List.mem_cons.mpr hnote)
      have hbreak : (c != '\n') = true := bne_iff_ne.mpr (Ne.symm hc)
      rw [List.cons_append, opensWithDot, hbreak, ih hrest]
  rw [← hskip, commentLine, List.cons_append, List.append_assoc]
  rfl

end Scan

/-- A line with a comment between two lines of a text changes nothing but places: the text is
refused when it was refused before, and else its tokens say the same. -/
theorem scan_commentLine {front behind note : List Char} {place : Scan} (hnote : '\n' ∉ note)
    (hends : Scan.endsLine front) (hplace : Scan.BeginsLine (front ++ behind) place)
    (hposition : place.position = front.length) :
    match scan (front ++ behind) with
    | .error fault => scan (front ++ (commentLine note ++ behind)) = .error fault.nextLine
    | .ok r => ∃ r', scan (front ++ (commentLine note ++ behind)) = .ok r' ∧
        r.Commented place note r' := by
  have hreach := hplace.reaches
  have hahead : place.ahead = behind := by
    rw [← hreach.drop_position, hposition, List.drop_left]
  have hbefore : place.before.reverse = front := by
    rw [← hreach.take_position, hposition, List.take_left]
  have hline : place.before.takeWhile (· != '\n') = [] := by
    rw [← List.reverse_reverse place.before, hbefore]
    by_cases hempty : front = []
    · rw [hempty]
      rfl
    · obtain ⟨lines, rfl⟩ := Scan.exists_of_endsLine hends hempty
      rw [List.reverse_append]
      rfl
  have hdot := Scan.opensWithDot_commentLine hnote behind
  have hfacing := hplace.facing hends hdot.symm hahead
  have hbehind := hplace.fresh.reaches hnote hline
  rw [hahead] at hbehind
  have hboth := (hplace.fresh.beside note hline).run.bind fun _ _ h => h.finish
  rw [scan_of_reaches hreach, scan_of_reaches (hfacing.trans hbehind)]
  generalize place.run >>= Scan.finish = outcome at hboth ⊢
  generalize (place.behindComment note).run >>= Scan.finish = outcome' at hboth ⊢
  cases hboth with
  | error fault => rfl
  | ok h => exact ⟨_, rfl, h⟩

/-- A chain of calls over two lines. -/
def chainFront : List Char := "json.x\n".toList

def chainBehind : List Char := "  .y 1 # one\n".toList

/-- A line with a comment can stand in a chain of calls. -/
theorem scan_commentLine_chain :
    ∃ place r r', Scan.BeginsLine (chainFront ++ chainBehind) place ∧
      place.position = chainFront.length ∧ scan (chainFront ++ chainBehind) = .ok r ∧
      scan (chainFront ++ (commentLine " kept".toList ++ chainBehind)) = .ok r' ∧
      r'.comments = [(2, "# kept"), (3, "# one")] ∧ r'.trailing = [3] ∧
      r.Commented place " kept".toList r' := by
  obtain ⟨place, hplace, hposition⟩ : ∃ place, Scan.BeginsLine (chainFront ++ chainBehind) place ∧
      place.position = chainFront.length :=
    ⟨_, .lineBreak
      (.head ⟨'j', _, rfl, rfl⟩ (.head ⟨'.', _, rfl, rfl⟩ (.single ⟨'x', _, rfl, rfl⟩)))
      rfl rfl, rfl⟩
  have hnote : '\n' ∉ " kept".toList := by decide
  have hcomments : (scan (chainFront ++ (commentLine " kept".toList ++ chainBehind))).toOption.map
      (fun r => (r.comments, r.trailing)) = some ([(2, "# kept"), (3, "# one")], [3]) := by
    decide +kernel
  have hboth := scan_commentLine hnote (by decide) hplace hposition
  cases h : scan (chainFront ++ chainBehind) with
  | error fault =>
    rw [h] at hboth
    rw [hboth] at hcomments
    cases hcomments
  | ok r =>
    rw [h] at hboth
    obtain ⟨r', hr', hcommented⟩ := hboth
    rw [hr'] at hcomments
    obtain ⟨hfirst, hsecond⟩ := Prod.mk.inj (Option.some.inj hcomments)
    exact ⟨place, r, r', hplace, hposition, rfl, hr', hfirst, hsecond, hcommented⟩

end ViewSchema.Template
