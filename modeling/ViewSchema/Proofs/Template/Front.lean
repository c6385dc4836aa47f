import ViewSchema.Proofs.Template.LineEnd
import ViewSchema.Proofs.Template.Run

/-!
Scanning the front of a text, up to the beginning of a line. A step does not see what follows the
line break behind it. Only a line break looks further, for a line that opens with a dot. So
scanning goes through the front in the same way in front of another text, if that one opens with a
dot when the first one does.
-/

namespace ViewSchema.Template.Scan

open Text (cutAt? cutAt?_front)

/-- The same state in front of another text. -/
def facing (s : Scan) (text : List Char) : Scan := { s with ahead := text }

section Line

variable {s t : Scan} {first : Char} {r w x : List Char}

theorem consume_facing {count : Nat} (hs : s.ahead = r ++ '\n' :: x)
    (ht : (s.consume count).ahead = w ++ '\n' :: x) (y : List Char) :
    count ≤ r.length ∧
      (s.facing (r ++ '\n' :: y)).consume count = (s.consume count).facing (w ++ '\n' :: y) := by
  rw [ahead_consume, hs] at ht
  have hcount : count ≤ r.length := by
    have hlength := congrArg List.length ht
    simp only [List.length_drop, List.length_append, List.length_cons] at hlength
    omega
  rw [Lexer.drop_break _ _ hcount] at ht
  refine ⟨hcount, ?_⟩
  simp only [facing, consume, hs, List.take_append_of_le_length hcount,
    Lexer.drop_break _ _ hcount, List.append_cancel_right ht]

theorem kind_facing (hs : s.ahead = first :: (r ++ '\n' :: x)) (y : List Char) :
    (s.facing (first :: (r ++ '\n' :: y))).kind first (r ++ '\n' :: y) =
      s.kind first (r ++ '\n' :: x) := by
  have hhead : (r ++ '\n' :: y).head? = (r ++ '\n' :: x).head? := by
    cases r <;> rfl
  have hopening : ∀ mark : List Char, '\n' ∉ mark →
      mark.isPrefixOf (first :: (r ++ '\n' :: y)) = mark.isPrefixOf s.ahead := by
    intro mark hmark
    rw [hs, ← List.cons_append, ← List.cons_append, Lexer.isPrefixOf_break _ _ hmark,
      Lexer.isPrefixOf_break _ _ hmark]
  have hstart : (s.facing (first :: (r ++ '\n' :: y))).atLineStart = s.atLineStart := rfl
  rw [kind, kind, hhead, hstart, ← hopening _ (by decide), ← hopening _ (by decide)]
  rfl

theorem comment_facing (hs : s.ahead = r ++ '\n' :: x) (ht : s.comment.ahead = w ++ '\n' :: x)
    (y : List Char) :
    (s.facing (r ++ '\n' :: y)).comment = s.comment.facing (w ++ '\n' :: y) := by
  have hsame : (r ++ '\n' :: y).takeWhile (· != '\n') = s.ahead.takeWhile (· != '\n') := by
    rw [hs, Lexer.takeWhile_break _ _ _ (by decide), Lexer.takeWhile_break _ _ _ (by decide)]
  obtain ⟨-, hconsume⟩ := consume_facing hs ht y
  have hahead : (s.facing (r ++ '\n' :: y)).ahead = r ++ '\n' :: y := rfl
  rw [comment, comment, hahead, hsame, hconsume]
  rfl

theorem blockComment_facing (hs : s.ahead = r ++ '\n' :: x) (ht : s.blockComment? = some t)
    (htail : t.ahead = w ++ '\n' :: x) (y : List Char) :
    (s.facing (r ++ '\n' :: y)).blockComment? = some (t.facing (w ++ '\n' :: y)) := by
  obtain ⟨found, hfound, rfl⟩ := Option.map_eq_some_iff.mp ht
  obtain ⟨hcount, hconsume⟩ := consume_facing hs htail y
  have hmark : found.1.length + "\n=end".toList.length ≤ r.length :=
    Nat.le_trans (Nat.le_add_right _ _) hcount
  rw [hs] at hfound
  obtain ⟨rest, rfl, hfront⟩ := cutAt?_front hfound hmark
  have hbehind : found.2 = rest ++ '\n' :: x := by
    have hsame := hfront ('\n' :: x)
    rw [hfound] at hsame
    exact congrArg Prod.snd (Option.some.inj hsame)
  have hline : (rest ++ '\n' :: y).takeWhile (· != '\n') =
      found.2.takeWhile (· != '\n') := by
    rw [hbehind, Lexer.takeWhile_break _ _ _ (by decide), Lexer.takeWhile_break _ _ _ (by decide)]
  have hcut := hfront ('\n' :: y)
  refine Option.map_eq_some_iff.mpr ⟨_, hcut, ?_⟩
  dsimp only
  rw [hline, hconsume]
  rfl

theorem token_facing (hs : s.ahead = first :: (r ++ '\n' :: x))
    (h : s.token first (r ++ '\n' :: x) = .ok t) (ht : t.ahead = w ++ '\n' :: x) (y : List Char) :
    (s.facing (first :: (r ++ '\n' :: y))).token first (r ++ '\n' :: y) =
      .ok (t.facing (w ++ '\n' :: y)) := by
  obtain ⟨found, brackets, hfound, hbrackets, rfl⟩ := token_eq_ok h
  obtain ⟨hcount, hconsume⟩ := consume_facing (r := first :: r) hs ht y
  have hmore : found.more ≤ r.length := Nat.le_of_succ_le_succ hcount
  let v := s.facing (first :: (r ++ '\n' :: y))
  have hsame : Lexer.token v.last v.spaced first (r ++ '\n' :: y) = .ok found :=
    Lexer.token_append hfound hmore y
  have hopen : v.bracketsAfter found.lexeme = .ok brackets := by
    rw [← hbrackets]
    cases found.lexeme <;> rfl
  rw [token_eq, hsame]
  dsimp only
  rw [hopen]
  dsimp only
  rw [afterToken, ← List.cons_append, hconsume]
  rfl

/-- A step that is not over a line break does not see what follows the line break behind it. -/
theorem Step.facing (h : s.Step t) (hs : s.ahead = first :: (r ++ '\n' :: x))
    (hfirst : first ≠ '\n') (ht : t.ahead = w ++ '\n' :: x) (y : List Char) :
    (s.facing (first :: (r ++ '\n' :: y))).Step (t.facing (w ++ '\n' :: y)) := by
  obtain ⟨first', rest, hs', hnext⟩ := h
  obtain ⟨rfl, rfl⟩ := List.cons.inj (hs.symm.trans hs')
  have hkind := kind_facing hs y
  have hspec := s.kind_spec first (r ++ '\n' :: x)
  refine ⟨first, r ++ '\n' :: y, rfl, ?_⟩
  rw [next_eq, hkind]
  rw [next_eq] at hnext
  cases hcase : s.kind first (r ++ '\n' :: x) <;> rw [hcase] at hnext hspec
  case blank =>
    cases hnext
    obtain ⟨-, hconsume⟩ := consume_facing (r := first :: r) hs ht y
    rw [← List.cons_append, hconsume]
    rfl
  case continuation =>
    cases hnext
    obtain ⟨-, hconsume⟩ := consume_facing (r := first :: r) hs ht y
    rw [← List.cons_append, hconsume]
    rfl
  case lineBreak => exact absurd hspec hfirst
  case comment =>
    cases hnext
    exact congrArg (Except.ok ∘ some) (comment_facing (r := first :: r) hs ht y)
  case blockComment =>
    cases hblock : s.blockComment? with
    | none =>
      rw [hblock] at hnext
      cases hnext
    | some u =>
      rw [hblock] at hnext
      cases hnext
      rw [← List.cons_append, blockComment_facing (r := first :: r) hs hblock ht y]
  case endMark => cases hnext
  case token =>
    rw [token_facing hs (map_some_eq_ok hnext) ht y]
    rfl

end Line

/-- Whether the next lines open with a dot, behind some whole lines. -/
theorem opensWithDot_append {comment : Bool} {z x y : List Char} (hends : endsLine z)
    (hcomment : comment → z ≠ []) (hdot : opensWithDot false x = opensWithDot false y) :
    opensWithDot comment (z ++ x) = opensWithDot comment (z ++ y) := by
  induction z generalizing comment with
  | nil =>
    cases comment with
    | false => exact hdot
    | true => exact absurd rfl (hcomment rfl)
  | cons c z ih =>
    have hrest : endsLine z := endsLine_of_append [c] hends
    have hmore : c ≠ '\n' → z ≠ [] := by
      rintro hc rfl
      exact hc (by simpa [endsLine] using hends)
    cases comment with
    | true =>
      simp only [List.cons_append, opensWithDot]
      exact ih hrest fun h => hmore (by simpa using h)
    | false =>
      rw [List.cons_append, List.cons_append, opensWithDot, opensWithDot]
      split
      · exact ih hrest fun h => absurd h Bool.false_ne_true
      rename_i hblank
      have hbreak : c ≠ '\n' := by
        rintro rfl
        exact hblank rfl
      have hhead : (z ++ x).head? = (z ++ y).head? := by
        obtain ⟨d, others, rfl⟩ := List.exists_cons_of_ne_nil (hmore hbreak)
        rfl
      split
      · exact ih hrest fun _ => hmore hbreak
      · rw [hhead]

/-- A statement ends at a line break, or does not, whatever follows the whole lines behind it. -/
theorem withBreak_facing {s : Scan} {y : List Char}
    (hdot : opensWithDot false s.ahead = opensWithDot false y) :
    (s.facing y).withBreak = s.withBreak.facing y := by
  have hend : (s.facing y).canEndStatement = s.canEndStatement := by
    rw [canEndStatement, canEndStatement, hdot]
    rfl
  rw [withBreak, withBreak, hend]
  split <;> rfl

/-- A line break does not see what follows the whole lines behind it, but whether that opens with
a dot. -/
theorem lineBreak_facing {s t : Scan} {z w x y : List Char} (hs : s.ahead = '\n' :: (z ++ x))
    (hends : endsLine z) (h : s.lineBreak = .ok t) (ht : t.ahead = w ++ x)
    (hdot : opensWithDot false x = opensWithDot false y) :
    (s.facing ('\n' :: (z ++ y))).lineBreak = .ok (t.facing (w ++ y)) := by
  obtain ⟨count, hcount, rfl⟩ := lineBreak_eq_ok h
  rw [hs, List.drop_one, List.tail_cons] at hcount
  rw [ahead_withBreak] at ht
  obtain ⟨hended, hunended⟩ := count_of_lines (heredocLines_le hcount)
  have htakes := (takes_lineBreak hs count).ahead
  generalize htaken : (z ++ x).take (lengthOfLines (z ++ x) count) = taken at *
  rw [hs, ahead_withBreak, ht, List.cons_append, List.cons.injEq, ← List.append_assoc] at htakes
  obtain rfl := List.append_cancel_right htakes.2
  -- The texts of the heredocs end with a line: they are no longer than the whole lines.
  have hline : endsLine taken := by
    cases hcase : endsLine taken with
    | true => rfl
    | false =>
      have hall := congrArg List.length (hunended (by simp [hcase])).2
      simp only [List.length_append] at hall
      have hw : w = [] := List.length_eq_zero_iff.mp (by omega)
      rw [hw, List.append_nil, hcase] at hends
      cases hends
  obtain rfl := hended hline
  obtain ⟨hlines, hlength⟩ := textLines_front hline (w ++ x)
  have hsame : heredocLines s.heredocs (textLines (taken ++ w ++ y)) =
      .ok (taken.count '\n') := by
    rw [List.append_assoc, hlines, ← hlength] at hcount
    rw [List.append_assoc, (textLines_front hline _).1, ← hlength]
    exact heredocLines_front hcount _
  rw [lineBreak_of_lines (s := s.facing ('\n' :: (taken ++ w ++ y))) hsame]
  have htexts : (s.facing ('\n' :: (taken ++ w ++ y))).afterBreak.afterTexts (taken.count '\n') =
      (s.afterBreak.afterTexts (taken.count '\n')).facing (w ++ y) := by
    simp [afterTexts, afterBreak, facing, consume, hs, lengthOfLines_front hline]
  rw [htexts, withBreak_facing]
  rw [ht]
  exact opensWithDot_append (endsLine_of_append _ hends) (absurd · Bool.false_ne_true) hdot

/-- Scanning stands at the beginning of a line, where the text starts or right behind the step over
a line break. -/
inductive BeginsLine (text : List Char) : Scan → Prop
  | opening : BeginsLine text (start text)
  | lineBreak {s t : Scan} {rest : List Char} (hreach : (start text).Reaches s)
      (hs : s.ahead = '\n' :: rest) (ht : s.lineBreak = .ok t) : BeginsLine text t

theorem BeginsLine.reaches {text : List Char} {t : Scan} (h : BeginsLine text t) :
    (start text).Reaches t := by
  cases h with
  | opening => exact .refl
  | lineBreak hreach hs ht => exact hreach.tail (step_of_lineBreak hs ht)

section Reaches

variable {a x y : List Char}

/-- A step within some whole lines is the same whatever follows these lines, but for a dot. -/
theorem Step.before {s t : Scan} {z w : List Char} (h : s.Step t) (hends : endsLine z)
    (hdot : opensWithDot false x = opensWithDot false y) (hs : s.ahead = z ++ x)
    (ht : t.ahead = w ++ x) (hw : w ≠ [] ∨ s.ahead.head? = some '\n') :
    (s.facing (z ++ y)).Step (t.facing (w ++ y)) := by
  obtain ⟨piece, hpiece, htakes⟩ := h.move.takes
  obtain ⟨first, piece, rfl⟩ := List.exists_cons_of_ne_nil hpiece
  have hahead := htakes.ahead
  rw [hs, ht, ← List.append_assoc] at hahead
  obtain rfl := List.append_cancel_right hahead
  by_cases hfirst : first = '\n'
  · subst hfirst
    have hrest : endsLine (piece ++ w) := endsLine_of_append ['\n'] hends
    have hbreak := lineBreak_facing hs hrest (lineBreak_of_step hs h) ht hdot
    exact step_of_lineBreak rfl hbreak
  · have hne : w ≠ [] := by
      refine hw.resolve_right fun hhead => hfirst ?_
      rw [hs] at hhead
      exact Option.some.inj hhead
    obtain ⟨front, rfl⟩ := exists_of_endsLine (endsLine_of_append _ hends) hne
    have hstep := h.facing (r := piece ++ front) (by simpa using hs) hfirst (by simpa using ht) y
    simpa using hstep

/-- What is left of some whole lines are whole lines. -/
theorem Reaches.endsLine_ahead {s : Scan} {z : List Char} (h : (start (a ++ x)).Reaches s)
    (hends : endsLine a) (hs : s.ahead = z ++ x) : endsLine z := by
  have hsplit := h.split.1
  rw [hs, ← List.append_assoc] at hsplit
  exact endsLine_of_append _ (List.append_cancel_right hsplit ▸ hends)

/-- A state within some whole lines is reached whatever follows these lines, but for a dot. -/
theorem Reaches.facing {t : Scan} {w : List Char} (h : (start (a ++ x)).Reaches t)
    (hends : endsLine a) (hdot : opensWithDot false x = opensWithDot false y)
    (ht : t.ahead = w ++ x) (hw : w ≠ []) : (start (a ++ y)).Reaches (t.facing (w ++ y)) := by
  induction h generalizing w with
  | refl =>
    obtain rfl : a = w := List.append_cancel_right ht
    exact .refl
  | @tail s t hreach hstep ih =>
    obtain ⟨piece, hpiece, htakes⟩ := hstep.move.takes
    have hs : s.ahead = (piece ++ w) ++ x := by rw [htakes.ahead, ht, List.append_assoc]
    have hline := Reaches.endsLine_ahead hreach hends hs
    exact (ih hs (by simp [hw])).tail (hstep.before hline hdot hs ht (.inl hw))

/-- So is the state at the beginning of the line behind them. -/
theorem BeginsLine.facing {t : Scan} (h : BeginsLine (a ++ x) t) (hends : endsLine a)
    (hdot : opensWithDot false x = opensWithDot false y) (ht : t.ahead = x) :
    (start (a ++ y)).Reaches (t.facing y) := by
  cases h with
  | opening =>
    obtain rfl : a = [] := List.append_left_eq_self.mp ht
    exact .refl
  | @lineBreak s t rest hreach hs hbreak =>
    have hstep := step_of_lineBreak hs hbreak
    obtain ⟨piece, hpiece, htakes⟩ := hstep.move.takes
    have hahead : s.ahead = piece ++ x := by rw [htakes.ahead, ht]
    have hline := hreach.endsLine_ahead hends hahead
    have hhead : s.ahead.head? = some '\n' := by rw [hs, List.head?_cons]
    have hbefore := hreach.facing hends hdot hahead hpiece
    exact hbefore.tail (hstep.before (w := []) hline hdot hahead ht (.inr hhead))

end Reaches

end ViewSchema.Template.Scan
