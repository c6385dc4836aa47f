import ViewSchema.Proofs.Sketch.Reading
import ViewSchema.Proofs.Template.Total

/-!
Templates of sketches in which a number in front of an arm is too long. They are refused where the
first such number stands; all rows before it are scanned as they are.
-/

namespace ViewSchema

open Template

namespace Template

theorem Lexer.longInteger_digits {first : Char} {more : List Char}
    (hdigits : (first :: more).all Text.isAsciiDigit)
    (hlong : Numeral.maxDigits < (first :: more).length) (rest : List Char) :
    LongInteger first (more ++ '\n' :: rest) := by
  obtain ⟨htake, hdrop⟩ := takeWhile_digits hdigits rest
  refine ⟨List.all_eq_true.mp hdigits first List.mem_cons_self, ?_, ?_, ?_⟩
  · rw [hdrop]
    rfl
  · rw [hdrop]
    rfl
  · rw [htake, filter_digits hdigits]
    exact hlong

theorem Line.exists_nest_left {before after : List Char} {lines others : List Line}
    (h : Nest before (lines ++ others) after) : ∃ between, Nest before lines between := by
  induction lines generalizing before with
  | nil => exact ⟨before, rfl⟩
  | cons l rest ih =>
    obtain ⟨inner, hinner, hends, hrest⟩ := h
    obtain ⟨between, hbetween⟩ := ih hrest
    exact ⟨between, inner, hinner, hends, hbetween⟩

/-- A text is refused where scanning comes to a whole number that is too long. -/
theorem read_of_run_long {text : List Char} {s : Scan} (hrun : (Scan.start text).run = s.run)
    (hlong : s.AtLongInteger) : read text = .error .longInteger := by
  apply read_of_scan_error
  rw [scan, hrun, Scan.run_of_fails hlong.fails]
  rfl

end Template

namespace Sketch

/-- The first number in some rows that is too long. -/
theorem exists_long {rows : List Row} (h : rows.all Row.isShort = false) :
    ∃ before n after, rows = before ++ .arm (f := .numbers) n :: after ∧
      before.all Row.isShort ∧ Number.isShort n = false := by
  induction rows with
  | nil => cases h
  | cons r rest ih =>
    cases hr : r.isShort with
    | true =>
      rw [List.all_cons, hr, Bool.true_and] at h
      obtain ⟨before, n, after, rfl, hbefore, hn⟩ := ih h
      exact ⟨r :: before, n, after, rfl, by rw [List.all_cons, hr, hbefore]; rfl, hn⟩
    | false =>
      cases r with
      | @arm f head =>
        cases f with
        | conditions => cases hr
        | numbers => exact ⟨[], head, rest, rfl, rfl, hr⟩
      | _ => cases hr

/-- Behind the keyword of its arm, scanning comes to the number. -/
theorem run_long {n : Number} (hn : n.isShort = false) {s : Scan} {rest : List Char}
    (hs : s.ahead = Glyph.text (Row.arm (f := .numbers) n).glyphs ++ '\n' :: rest) :
    ∃ t : Scan, s.run = t.run ∧ t.AtLongInteger := by
  obtain ⟨negative, first, more, hdigits⟩ := n
  have hlong := Lexer.longInteger_digits hdigits (Nat.lt_of_not_le (of_decide_eq_false hn)) rest
  have hword : ∀ rest, (Glyph.word false "when").Fits (' ' :: rest) :=
    fun rest => Glyph.fits_word false (by decide) rfl
  cases negative with
  | true =>
    have hfirst := List.all_eq_true.mp hdigits first List.mem_cons_self
    have hahead : s.ahead = Glyph.text [.word false "when", .minus] ++
        first :: (more ++ '\n' :: rest) := by
      rw [hs]
      simp [Row.glyphs, Fork.headGlyphs, Fork.word, Glyph.text, Glyph.chars, Glyph.digits]
    have hfit : Glyph.AllFit [.word false "when", .minus] (first :: (more ++ '\n' :: rest)) :=
      ⟨hword _, Glyph.fits_minus (by simpa [Glyph.text] using hfirst), trivial⟩
    obtain ⟨t, hrun, haheadt, -⟩ := Scan.run_glyphs hfit rfl hahead
    exact ⟨t, hrun, first, _, haheadt, hlong⟩
  | false =>
    have hahead : s.ahead = Glyph.text [.word false "when"] ++
        ' ' :: first :: (more ++ '\n' :: rest) := by
      rw [hs]
      simp [Row.glyphs, Fork.headGlyphs, Fork.word, Glyph.text, Glyph.chars, Glyph.digits]
    have hfit : Glyph.AllFit [.word false "when"] (' ' :: first :: (more ++ '\n' :: rest)) :=
      ⟨hword _, trivial⟩
    obtain ⟨t, hrun, haheadt, -⟩ := Scan.run_glyphs hfit rfl hahead
    obtain ⟨u, hrunu, haheadu, -, -⟩ := Scan.run_blank haheadt
    exact ⟨u, hrun.trans hrunu, first, _, haheadu, hlong⟩

/-- The template of a sketch is refused when a number in front of an arm is too long. -/
theorem read_template_long (margin : Nat → Nat) {body : List Sketch}
    (hlong : areShort body = false) :
    Template.read (template margin body).toList = .error .longInteger := by
  obtain ⟨before, n, after, hrows, hbefore, hn⟩ := exists_long hlong
  have hnest : Line.Nest [] (lines margin 1 (blockRows body)) [] :=
    nest_blockRows margin body 1 rfl
  have htext : (template margin body).toList = Line.text (lines margin 1 before) ++
      (List.replicate (margin (1 + before.length)) ' ' ++
        (Glyph.text (Row.arm (f := .numbers) n).glyphs ++ '\n' ::
          Line.text (lines margin (1 + before.length + 1) after))) := by
    rw [template, ← text_lines, hrows, lines_append, lines]
    simp [Line.text, Line.chars]
  rw [hrows, lines_append] at hnest
  obtain ⟨brackets, hnested⟩ := Line.exists_nest_left hnest
  have hopens : Scan.opensWithDot false (List.replicate (margin (1 + before.length)) ' ' ++
      (Glyph.text (Row.arm (f := .numbers) n).glyphs ++ '\n' ::
        Line.text (lines margin (1 + before.length + 1) after))) = false := by
    rw [Scan.opensWithDot_indent]
    exact opensWithDot_glyphs _ _
  obtain ⟨s, hrun, hahead, hs⟩ := Scan.run_lines (Scan.between_start (template margin body).toList)
    (fits_lines margin 1 hbefore) hnested htext hopens
  obtain ⟨t, hrunt, haheadt, -⟩ :=
    Scan.run_indent _ (congrArg Scan.View.spaced hs.view) hs.margin hahead
  obtain ⟨u, hrunu, hlongu⟩ := run_long hn haheadt
  exact read_of_run_long (hrun.trans (hrunt.trans hrunu)) hlongu

theorem all_ones (n : Nat) : ('1' :: List.replicate n '1').all Text.isAsciiDigit := by
  have hones : ∀ c ∈ List.replicate (n + 1) '1', Text.isAsciiDigit c := by
    intro c hc
    rw [List.eq_of_mem_replicate hc]
    rfl
  exact List.all_eq_true.mpr hones

/-- A choice with an arm for one number, which has a digit more than a whole number may have. -/
def longChoice : Sketch :=
  .choice ⟨"c", by decide, by decide⟩
    (.arm (f := .numbers) ⟨false, '1', List.replicate Numeral.maxDigits '1', all_ones _⟩ [] .done)

theorem not_read_longChoice : ¬ ∃ t : ViewSchema.Template,
    Template.read (template (fun _ => 0) [longChoice]).toList = .ok t ∧
      AreReadAs 1 [longChoice] t.body := by
  have hlong : areShort [longChoice] = false := by
    simp [areShort, blockRows, longChoice, rows, Arms.rows, Row.isShort, Number.isShort]
  rintro ⟨t, hread, -⟩
  rw [read_template_long _ hlong] at hread
  cases hread

end Sketch
end ViewSchema
