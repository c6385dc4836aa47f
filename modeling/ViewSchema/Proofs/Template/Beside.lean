import Mathlib.Data.List.Basic
import ViewSchema.Proofs.Template.Run

/-!
Scanning with and without a new line that holds a comment, from behind that line on. Both scans
take the same steps, one of them one line and some characters further on, so both fail or both end.
-/

namespace ViewSchema.Template

open Text (trim)

/-- A token behind a new line of so many characters. -/
def Token.moved (length : Nat) (t : Token) : Token :=
  { t with line := t.line + 1, start := t.start + length, stop := t.stop + length }

/-- A fault behind a new line. -/
def Fault.nextLine : Fault → Fault
  | .scan fault line => .scan fault (line + 1)
  | .grammar fault found line => .grammar fault found (line + 1)
  | .longInteger => .longInteger
  | .exhausted => .exhausted

/-- The number of a line when a new line has got a number. -/
def lineAfter (new line : Nat) : Nat := if line < new then line else line + 1

/-- The comments, the latest first, with the comment of a new line. -/
def commentsAfter (new : Nat × String) (comments : List (Nat × String)) : List (Nat × String) :=
  (comments.filter (new.1 ≤ ·.1)).map (fun c => (c.1 + 1, c.2)) ++
    new :: comments.filter (·.1 < new.1)

/-- A line with a comment. -/
def commentLine (note : List Char) : List Char := '#' :: (note ++ ['\n'])

/-- What the line with a comment says. -/
def commentSaid (note : List Char) : String := String.ofList (trim ('#' :: note))

theorem lineAfter_of_le {new line : Nat} (h : new ≤ line) : lineAfter new line = line + 1 :=
  if_neg (Nat.not_lt.mpr h)

theorem lineAfter_of_lt {new line : Nat} (h : line < new) : lineAfter new line = line := if_pos h

theorem lineAfter_injective (new : Nat) : Function.Injective (lineAfter new) := by
  intro l k h
  simp only [lineAfter] at h
  split at h <;> split at h <;> omega

/-- Two outcomes with and without a new line: the same fault, or results that go together. -/
inductive Alike {α β : Type} (R : α → β → Prop) : Except Fault α → Except Fault β → Prop
  | error (fault : Fault) : Alike R (.error fault) (.error fault.nextLine)
  | ok {a : α} {b : β} (h : R a b) : Alike R (.ok a) (.ok b)

theorem Alike.map {α β γ δ : Type} {R : α → β → Prop} {Q : γ → δ → Prop} {f : α → γ} {g : β → δ}
    (hfg : ∀ a b, R a b → Q (f a) (g b)) {x : Except Fault α} {y : Except Fault β}
    (h : Alike R x y) : Alike Q (x.map f) (y.map g) := by
  cases h with
  | error fault => exact .error fault
  | ok h => exact .ok (hfg _ _ h)

theorem Alike.bind {α β γ δ : Type} {R : α → β → Prop} {Q : γ → δ → Prop}
    {f : α → Except Fault γ} {g : β → Except Fault δ} (hfg : ∀ a b, R a b → Alike Q (f a) (g b))
    {x : Except Fault α} {y : Except Fault β} (h : Alike R x y) : Alike Q (x >>= f) (y >>= g) := by
  cases h with
  | error fault => exact .error fault
  | ok h => exact hfg _ _ h

namespace Scan

theorem takeWhile_append_congr {test : Char → Bool} (piece : List Char) {x y : List Char}
    (h : x.takeWhile test = y.takeWhile test) :
    (piece ++ x).takeWhile test = (piece ++ y).takeWhile test := by
  induction piece with
  | nil => exact h
  | cons c piece ih => simp only [List.cons_append, List.takeWhile_cons, ih]

/-- A comment of a later line comes the same way before or after the new line's. -/
theorem commentsAfter_putComment {new : Nat × String} {line : Nat} (h : new.1 ≤ line)
    (comments : List (Nat × String)) (text : String) :
    commentsAfter new (putComment comments line text) =
      putComment (commentsAfter new comments) (line + 1) text := by
  have hlater : ((comments.filter (·.1 != line)).filter (new.1 ≤ ·.1)).map
      (fun c => (c.1 + 1, c.2)) =
        ((comments.filter (new.1 ≤ ·.1)).map fun c => (c.1 + 1, c.2)).filter
          (·.1 != line + 1) := by
    rw [List.filter_map, List.filter_filter, List.filter_filter]
    refine congrArg (List.map _) (List.filter_congr fun c _ => ?_)
    simp [bne, Bool.and_comm]
  have hearlier : (comments.filter (·.1 != line)).filter (·.1 < new.1) =
      (comments.filter (·.1 < new.1)).filter (·.1 != line + 1) := by
    rw [List.filter_filter, List.filter_filter]
    refine List.filter_congr fun c _ => ?_
    by_cases hc : c.1 < new.1
    · have hline : c.1 ≠ line ∧ c.1 ≠ line + 1 := by omega
      rw [bne_iff_ne.mpr hline.1, bne_iff_ne.mpr hline.2]
      simp [hc]
    · simp [hc]
  have hnew : (new.1 != line + 1) = true := by
    simp only [bne_iff_ne]
    omega
  have hkept : decide (new.1 ≤ line) = true := decide_eq_true h
  have hnot : decide (line < new.1) = false := decide_eq_false (Nat.not_lt.mpr h)
  simp only [commentsAfter, putComment, List.filter_cons, hkept, hnot, hnew, if_true,
    Bool.false_eq_true, if_false, List.map_cons, List.cons_append, List.filter_append, hlater,
    hearlier]

/-- Scanning with a new line stands beside scanning without it, both behind the new line. -/
structure Beside (place : Scan) (note : List Char) (s s' : Scan) : Prop where
  ahead : s'.ahead = s.ahead
  position : s'.position = s.position + (commentLine note).length
  line : s'.line = s.line + 1
  spaced : s'.spaced = s.spaced
  brackets : s'.brackets = s.brackets
  heredocs : s'.heredocs = s.heredocs
  lineText : s'.before.takeWhile (· != '\n') = s.before.takeWhile (· != '\n')
  tokens : ∃ later, s.tokens = later ++ place.tokens ∧
    s'.tokens = later.map (Token.moved (commentLine note).length) ++ place.tokens
  comments : s'.comments = commentsAfter (place.line, commentSaid note) s.comments
  trailing : s'.trailing = s.trailing.map (lineAfter place.line)
  behind : place.line ≤ s.line

namespace Beside

variable {place s s' : Scan} {note : List Char}

theorem last (h : Beside place note s s') : s'.last = s.last := by
  obtain ⟨later, hs, hs'⟩ := h.tokens
  rw [Scan.last, Scan.last, hs, hs']
  cases later <;> rfl

theorem line_add (h : Beside place note s s') (count : Nat) :
    s'.line + count = s.line + count + 1 := by
  rw [h.line]
  omega

theorem atLineStart (h : Beside place note s s') : s'.atLineStart = s.atLineStart := by
  have hline : ∀ before : List Char,
      before.head?.all (· == '\n') = (before.takeWhile (· != '\n')).isEmpty := by
    intro before
    cases before with
    | nil => rfl
    | cons c before => by_cases hc : c = '\n' <;> simp [hc]
  rw [Scan.atLineStart, Scan.atLineStart, hline, hline, h.lineText]

theorem kind (h : Beside place note s s') (first : Char) (rest : List Char) :
    s'.kind first rest = s.kind first rest := by
  rw [Scan.kind, Scan.kind, h.atLineStart, h.ahead]

theorem consume (h : Beside place note s s') (count : Nat) :
    Beside place note (s.consume count) (s'.consume count) :=
  { h with
    ahead := by rw [ahead_consume, ahead_consume, h.ahead]
    position := by
      change s'.position + count = s.position + count + _
      rw [h.position]
      omega
    lineText := by
      change ((s'.ahead.take count).reverse ++ s'.before).takeWhile _ =
        ((s.ahead.take count).reverse ++ s.before).takeWhile _
      rw [h.ahead]
      exact takeWhile_append_congr _ h.lineText }

/-- A token that both scans make. -/
theorem withToken (h : Beside place note s s') (u : Token) :
    Beside place note { s with tokens := u :: s.tokens }
      { s' with tokens := u.moved (commentLine note).length :: s'.tokens } :=
  { h with
    tokens := by
      obtain ⟨later, hs, hs'⟩ := h.tokens
      exact ⟨u :: later, by rw [hs]; rfl, by rw [hs']; rfl⟩ }

/-- Some lines that both scans pass. -/
theorem passLines (h : Beside place note s s') (count : Nat) :
    Beside place note { s with line := s.line + count } { s' with line := s'.line + count } :=
  { h with
    line := h.line_add count
    behind := Nat.le_trans h.behind (Nat.le_add_right _ _) }

theorem trailing_contains (h : Beside place note s s') :
    s'.trailing.contains s'.line = s.trailing.contains s.line := by
  rw [h.trailing, h.line, ← lineAfter_of_le h.behind, Bool.eq_iff_iff, List.contains_iff_mem,
    List.contains_iff_mem, List.mem_map_of_injective (lineAfter_injective _)]

theorem comment (h : Beside place note s s') : Beside place note s.comment s'.comment := by
  have htext : s'.ahead.takeWhile (· != '\n') = s.ahead.takeWhile (· != '\n') := by rw [h.ahead]
  rw [Scan.comment, Scan.comment, htext, h.lineText, h.trailing_contains]
  exact
    { h.consume _ with
      comments := by
        dsimp only
        rw [h.comments, h.line]
        exact (commentsAfter_putComment h.behind _ _).symm
      trailing := by
        dsimp only
        split
        · rw [h.trailing, h.line, List.map_cons, lineAfter_of_le h.behind]
        · exact h.trailing }

theorem blockComment (h : Beside place note s s') :
    Option.Rel (Beside place note) s.blockComment? s'.blockComment? := by
  rw [Scan.blockComment?, Scan.blockComment?, h.ahead]
  cases Text.cutAt? "\n=end".toList s.ahead with
  | none => exact .none
  | some found => exact .some ((h.consume _).passLines (found.1.count '\n' + 1))

theorem afterBreak (h : Beside place note s s') :
    Beside place note s.afterBreak s'.afterBreak :=
  { (h.consume 1).passLines 1 with spaced := rfl }

theorem afterTexts (h : Beside place note s s') (count : Nat) :
    Beside place note (s.afterTexts count) (s'.afterTexts count) := by
  rw [Scan.afterTexts, Scan.afterTexts, h.ahead]
  exact { (h.consume _).passLines count with heredocs := rfl }

theorem canEndStatement (h : Beside place note s s') :
    s'.canEndStatement = s.canEndStatement := by
  rw [Scan.canEndStatement, Scan.canEndStatement, h.brackets, h.last, h.ahead]

theorem withBreak (h : Beside place note s s') (hposition : 0 < s.position) :
    Beside place note s.withBreak s'.withBreak := by
  rw [Scan.withBreak, Scan.withBreak, h.canEndStatement]
  split
  · let u : Token :=
      { lexeme := .newline, line := s.line, start := s.position - 1, stop := s.position }
    have hmoved : u.moved (commentLine note).length =
        { lexeme := .newline, line := s'.line, start := s'.position - 1, stop := s'.position } := by
      rw [h.line, h.position, Nat.sub_add_comm hposition]
      rfl
    rw [← hmoved]
    exact h.withToken u
  · exact h

theorem heredocTexts (h : Beside place note s s') :
    Alike (fun t t' => s.position ≤ t.position ∧ Beside place note t t')
      s.heredocTexts s'.heredocTexts := by
  rw [heredocTexts_eq, heredocTexts_eq, h.heredocs, h.ahead]
  cases heredocLines s.heredocs (textLines s.ahead) with
  | error missing =>
    obtain ⟨mark, count⟩ := missing
    dsimp only
    rw [h.line_add]
    exact .error _
  | ok count => exact .ok ⟨Nat.le_add_right _ _, h.afterTexts count⟩

theorem afterToken (h : Beside place note s s') (found : Scanned) (brackets : List Char) :
    Beside place note (s.afterToken found brackets) (s'.afterToken found brackets) := by
  let u : Token :=
    { lexeme := found.lexeme
      line := s.line + found.lines
      start := s.position
      stop := s.position + found.more + 1
      spaced := s.spaced
      dynamic := found.dynamic }
  have hmoved : u.moved (commentLine note).length =
      { lexeme := found.lexeme
        line := s'.line + found.lines
        start := s'.position
        stop := s'.position + found.more + 1
        spaced := s'.spaced
        dynamic := found.dynamic } := by
    have hstop : s'.position + found.more + 1 =
        s.position + found.more + 1 + (commentLine note).length := by
      rw [h.position]
      omega
    rw [hstop, h.line_add, h.position, h.spaced]
    rfl
  rw [Scan.afterToken, Scan.afterToken, ← hmoved, h.heredocs]
  exact
    { ((h.consume (found.more + 1)).passLines found.lines).withToken u with
      spaced := rfl
      brackets := rfl
      heredocs := rfl }

theorem token (h : Beside place note s s') (first : Char) (rest : List Char) :
    Alike (Beside place note) (s.token first rest) (s'.token first rest) := by
  have hopen : ∀ lexeme, s'.bracketsAfter lexeme = s.bracketsAfter lexeme := by
    intro lexeme
    cases lexeme <;> simp only [bracketsAfter, h.brackets]
  rw [token_eq, token_eq, h.last, h.spaced]
  cases Lexer.token s.last s.spaced first rest with
  | error error =>
    obtain ⟨_ | fault, lines⟩ := error
    · exact .error _
    · dsimp only
      rw [h.line_add]
      exact .error _
  | ok found =>
    dsimp only
    rw [hopen]
    cases s.bracketsAfter found.lexeme with
    | error fault =>
      dsimp only
      rw [h.line]
      exact .error _
    | ok brackets => exact .ok (h.afterToken found brackets)

theorem lineBreak (h : Beside place note s s') :
    Alike (Beside place note) s.lineBreak s'.lineBreak := by
  rw [lineBreak_eq, lineBreak_eq]
  refine h.afterBreak.heredocTexts.map fun t t' ⟨hposition, ht⟩ => ht.withBreak ?_
  exact Nat.lt_of_lt_of_le (Nat.succ_pos s.position) hposition

/-- Both scans take the same step. -/
theorem next (h : Beside place note s s') (first : Char) (rest : List Char) :
    Alike (Option.Rel (Beside place note)) (s.next first rest) (s'.next first rest) := by
  rw [next_eq, next_eq, h.kind]
  cases s.kind first rest with
  | blank => exact .ok (.some { h.consume 1 with spaced := rfl })
  | continuation => exact .ok (.some { (h.consume 2).passLines 1 with spaced := rfl })
  | lineBreak => exact h.lineBreak.map fun _ _ => .some
  | comment => exact .ok (.some h.comment)
  | blockComment =>
    have hblock := h.blockComment
    generalize s.blockComment? = found at hblock ⊢
    generalize s'.blockComment? = found' at hblock ⊢
    cases hblock with
    | none =>
      dsimp only
      rw [h.line]
      exact .error _
    | some ht => exact .ok (.some ht)
  | endMark => exact .ok .none
  | token => exact (h.token first rest).map fun _ _ => .some

theorem step (h : Beside place note s s') {t : Scan} (hstep : s.Step t) :
    ∃ t', s'.Step t' ∧ Beside place note t t' := by
  obtain ⟨first, rest, hs, hnext⟩ := hstep
  have hboth := h.next first rest
  rw [hnext] at hboth
  generalize hnext' : s'.next first rest = outcome at hboth
  cases hboth with
  | ok hrel =>
    cases hrel with
    | some ht => exact ⟨_, ⟨first, rest, h.ahead.trans hs, hnext'⟩, ht⟩

theorem reaches (h : Beside place note s s') {t : Scan} (hreach : s.Reaches t) :
    ∃ t', s'.Reaches t' ∧ Beside place note t t' := by
  induction hreach with
  | refl => exact ⟨s', .refl, h⟩
  | tail _ hstep ih =>
    obtain ⟨u', hu', hbeside⟩ := ih
    obtain ⟨t', ht', hbeside'⟩ := hbeside.step hstep
    exact ⟨t', hu'.tail ht', hbeside'⟩

theorem ends (h : Beside place note s s') (hends : s.Ends) : s'.Ends := by
  intro first rest hs
  have hboth := h.next first rest
  rw [hends first rest (h.ahead ▸ hs)] at hboth
  generalize s'.next first rest = outcome at hboth ⊢
  cases hboth with
  | ok hrel =>
    cases hrel with
    | none => rfl

theorem fails (h : Beside place note s s') {fault : Fault} (hfails : s.Fails fault) :
    s'.Fails fault.nextLine := by
  obtain ⟨first, rest, hs, hnext⟩ := hfails
  have hboth := h.next first rest
  rw [hnext] at hboth
  refine ⟨first, rest, h.ahead.trans hs, ?_⟩
  generalize s'.next first rest = outcome at hboth ⊢
  cases hboth with
  | error => rfl

/-- Both scans take the same steps to the end. -/
theorem run (h : Beside place note s s') : Alike (Beside place note) s.run s'.run := by
  rcases exists_end s with ⟨t, hreach, hends⟩ | ⟨t, fault, hreach, hfails⟩
  · obtain ⟨t', hreach', ht⟩ := h.reaches hreach
    rw [hreach.run_eq, run_of_ends hends, Reaches.run_eq hreach', run_of_ends (ht.ends hends)]
    exact .ok ht
  · obtain ⟨t', hreach', ht⟩ := h.reaches hreach
    rw [hreach.run_eq, run_of_fails hfails, Reaches.run_eq hreach', run_of_fails (ht.fails hfails)]
    exact .error fault

end Beside

end Scan

end ViewSchema.Template
