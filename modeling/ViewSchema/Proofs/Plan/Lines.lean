import ViewSchema.Proofs.Plan.Template
import ViewSchema.Proofs.Template.Glyph

/-!
The template of a plan as lines that are scanned as they stand: a comment line in front of every
statement, and the tokens of the statement.
-/

namespace ViewSchema

open Text Template

theorem PropertyName.small (name : PropertyName) : isSmallName name.text.toList = true :=
  isSmallName_of_isPlainName name.plain

namespace Plan

/-- The tokens of the statement of a property, up to its name. -/
def callGlyphs (name : PropertyName) : List Glyph := Glyph.call name.text

mutual

def lines (indent : Nat) : Plan → List Line
  | .value name type =>
    [.comment indent (remark name type.word).toList, .code indent (callGlyphs name ++ [.one])]
  | .object name body =>
    [.comment indent (remark name "object").toList,
      .code indent (callGlyphs name ++ [.word true "do"])] ++
      blockLines (indent + 2) body ++ [.code indent [.word false "end"]]
  | .array name body =>
    [.comment indent (remark name "array").toList,
      .code indent (callGlyphs name ++
        [.variableOf "xs", .word true "do", .bar true, .word false "x", .bar false])] ++
      blockLines (indent + 2) body ++ [.code indent [.word false "end"]]
  | .conditional body =>
    [.comment indent "# @openapi conditional:true".toList,
      .code indent [.word false "if", .word true "c"]] ++
      blockLines (indent + 2) body ++ [.code indent [.word false "end"]]

/-- The lines of a block, part by part. -/
def blockLines (indent : Nat) : List Plan → List Line
  | [] => []
  | p :: rest => lines indent p ++ blockLines indent rest

end

mutual

def height : Plan → Nat
  | .value .. => 2
  | .object _ body | .array _ body | .conditional body => blockHeight body + 3

def blockHeight : List Plan → Nat
  | [] => 0
  | p :: rest => height p + blockHeight rest

end

mutual

theorem length_lines (indent : Nat) : ∀ p : Plan, (p.lines indent).length = p.height
  | .value .. => rfl
  | .object _ body | .array _ body | .conditional body => by
    have hbody := length_blockLines (indent + 2) body
    simp only [lines, height, List.length_append, List.length_cons, List.length_nil, hbody]
    omega

theorem length_blockLines (indent : Nat) :
    ∀ plans : List Plan, (blockLines indent plans).length = blockHeight plans
  | [] => rfl
  | p :: rest => by
    rw [blockLines, blockHeight, List.length_append, length_lines indent p,
      length_blockLines indent rest]

end

theorem text_callGlyphs (name : PropertyName) (more : List Glyph) :
    Glyph.text (callGlyphs name ++ more) = (call name).toList ++ Glyph.text more :=
  Glyph.text_call name.small more

theorem allFit_callGlyphs (name : PropertyName) {more : List Glyph} {rest : List Char}
    (hmore : Glyph.AllFit more rest) (hword : Lexer.endsWord (Glyph.text more ++ rest)) :
    Glyph.AllFit (callGlyphs name ++ more) rest :=
  Glyph.allFit_call name.small hmore hword

theorem fits_remark (indent : Nat) (name : PropertyName) {type : String}
    (htype : '\n' ∉ type.toList) : (Line.comment indent (remark name type).toList).Fits := by
  have hopening : "# @openapi ".toList = '#' :: " @openapi ".toList := rfl
  have hname : '\n' ∉ name.text.toList := by
    intro hmem
    have hall := all_isPlain_of_isSmallName name.small
    exact absurd (List.all_eq_true.mp hall _ hmem) (by decide)
  refine ⟨?_, ?_⟩
  · simp [remark, hopening]
  · have hopens : '\n' ∉ "# @openapi ".toList := by decide
    have hcolon : '\n' ∉ ":".toList := by decide
    simp only [remark, String.toList_append, List.mem_append, not_or]
    exact ⟨⟨⟨hopens, hname⟩, hcolon⟩, htype⟩

/-- The code line of a property, with tokens behind its name. -/
theorem fits_call (indent : Nat) (name : PropertyName) {more : List Glyph} (final : Glyph)
    (hmore : ∀ rest, Glyph.AllFit more ('\n' :: rest))
    (hword : ∀ rest, Lexer.endsWord (Glyph.text more ++ '\n' :: rest))
    (hfinal : more.getLast? = some final) (hnewline : final.lexeme ≠ .newline)
    (hends : final.lexeme.continues = false) :
    (Line.code indent (callGlyphs name ++ more)).Fits := by
  refine ⟨fun rest => allFit_callGlyphs name (hmore rest) (hword rest), ⟨final, ?_, hnewline,
    hends⟩, fun rest => ?_⟩
  · rw [List.getLast?_append, hfinal]
    rfl
  · have hjson : (call name).toList = 'j' :: ("son.".toList ++ name.text.toList) := by
      rw [call, String.toList_append]
      rfl
    rw [text_callGlyphs, hjson]
    rfl

theorem fits_value (indent : Nat) (name : PropertyName) :
    (Line.code indent (callGlyphs name ++ [.one])).Fits := by
  refine fits_call indent name .one ?_ ?_ rfl ?_ rfl
  · intro rest
    exact ⟨Glyph.fits_one rest, trivial⟩
  · intro rest
    rfl
  · decide

theorem fits_object (indent : Nat) (name : PropertyName) :
    (Line.code indent (callGlyphs name ++ [.word true "do"])).Fits := by
  refine fits_call indent name (.word true "do") ?_ ?_ rfl ?_ (by decide)
  · intro rest
    exact ⟨Glyph.fits_word true (by decide) rfl, trivial⟩
  · intro rest
    rfl
  · decide

theorem fits_array (indent : Nat) (name : PropertyName) :
    (Line.code indent (callGlyphs name ++
      [.variableOf "xs", .word true "do", .bar true, .word false "x", .bar false])).Fits := by
  refine fits_call indent name (.bar false) ?_ ?_ rfl ?_ (by decide)
  · intro rest
    exact ⟨Glyph.fits_variableOf (by decide) rfl, Glyph.fits_word true (by decide) rfl,
      Glyph.fits_bar true rfl, Glyph.fits_word false (by decide) rfl,
      Glyph.fits_bar false rfl, trivial⟩
  · intro rest
    rfl
  · decide

theorem fits_end (indent : Nat) : (Line.code indent [.word false "end"]).Fits := by
  refine ⟨?_, ⟨.word false "end", rfl, ?_, by decide⟩, ?_⟩
  · intro rest
    exact ⟨Glyph.fits_word false (by decide) rfl, trivial⟩
  · decide
  · intro rest
    rfl

theorem fits_if (indent : Nat) :
    (Line.code indent [.word false "if", .word true "c"]).Fits := by
  refine ⟨?_, ⟨.word true "c", rfl, ?_, by decide⟩, ?_⟩
  · intro rest
    exact ⟨Glyph.fits_word false (by decide) rfl, Glyph.fits_word true (by decide) rfl, trivial⟩
  · decide
  · intro rest
    rfl

theorem fits_marker (indent : Nat) :
    (Line.comment indent "# @openapi conditional:true".toList).Fits := by
  constructor <;> decide

mutual

/-- All lines of a plan are scanned as they stand, and none leaves a bracket open. -/
theorem fits_lines (indent : Nat) : ∀ p : Plan, ∀ l ∈ p.lines indent, l.Fits ∧ l.IsFlat
  | .value name type => by
    have htype : '\n' ∉ type.word.toList := by cases type <;> decide
    simp only [lines, List.mem_cons, List.not_mem_nil, or_false]
    rintro _ (rfl | rfl)
    · exact ⟨fits_remark indent name htype, fun _ => rfl⟩
    · exact ⟨fits_value indent name, fun _ => rfl⟩
  | .object name body => by
    have hbody := fits_blockLines (indent + 2) body
    simp only [lines, List.mem_append, List.mem_cons, List.not_mem_nil, or_false]
    rintro l (((rfl | rfl) | hl) | rfl)
    · exact ⟨fits_remark indent name (by decide), fun _ => rfl⟩
    · exact ⟨fits_object indent name, fun _ => rfl⟩
    · exact hbody l hl
    · exact ⟨fits_end indent, fun _ => rfl⟩
  | .array name body => by
    have hbody := fits_blockLines (indent + 2) body
    simp only [lines, List.mem_append, List.mem_cons, List.not_mem_nil, or_false]
    rintro l (((rfl | rfl) | hl) | rfl)
    · exact ⟨fits_remark indent name (by decide), fun _ => rfl⟩
    · exact ⟨fits_array indent name, fun _ => rfl⟩
    · exact hbody l hl
    · exact ⟨fits_end indent, fun _ => rfl⟩
  | .conditional body => by
    have hbody := fits_blockLines (indent + 2) body
    simp only [lines, List.mem_append, List.mem_cons, List.not_mem_nil, or_false]
    rintro l (((rfl | rfl) | hl) | rfl)
    · exact ⟨fits_marker indent, fun _ => rfl⟩
    · exact ⟨fits_if indent, fun _ => rfl⟩
    · exact hbody l hl
    · exact ⟨fits_end indent, fun _ => rfl⟩

theorem fits_blockLines (indent : Nat) :
    ∀ plans : List Plan, ∀ l ∈ blockLines indent plans, l.Fits ∧ l.IsFlat
  | [] => by simp [blockLines]
  | p :: rest => by
    intro l hl
    rw [blockLines, List.mem_append] at hl
    rcases hl with hp | hrest
    · exact fits_lines indent p l hp
    · exact fits_blockLines indent rest l hrest

end

theorem toList_line (indent : Nat) (s : String) :
    (line indent s).toList = List.replicate indent ' ' ++ s.toList ++ ['\n'] := by
  simp [line]

/-- A line of a template is written as its characters are. -/
theorem text_line {l : Line} {indent : Nat} {s : String}
    (h : l.chars = List.replicate indent ' ' ++ s.toList) (others : List Line) :
    Line.text (l :: others) = (line indent s).toList ++ Line.text others := by
  rw [Line.text_cons, toList_line, h]
  simp

theorem text_append (these others : List Line) :
    Line.text (these ++ others) = Line.text these ++ Line.text others := by
  simp [Line.text]

theorem chars_call (indent : Nat) (name : PropertyName) {more : List Glyph} {s : String}
    (h : Glyph.text more = s.toList) :
    (Line.code indent (callGlyphs name ++ more)).chars =
      List.replicate indent ' ' ++ (call name ++ s).toList := by
  rw [Line.chars, text_callGlyphs, h, String.toList_append]

theorem chars_end (indent : Nat) : (Line.code indent [.word false "end"]).chars =
    List.replicate indent ' ' ++ "end".toList := rfl

theorem chars_if (indent : Nat) : (Line.code indent [.word false "if", .word true "c"]).chars =
    List.replicate indent ' ' ++ "if c".toList := rfl

mutual

/-- The lines of a plan are what is written. -/
theorem text_lines (indent : Nat) :
    ∀ p : Plan, Line.text (p.lines indent) = (p.template indent).toList
  | .value name type => by
    rw [lines, template, text_line rfl, text_line (chars_call indent name (s := " 1") rfl),
      String.toList_append]
    simp [Line.text]
  | .object name body => by
    have hbody := text_blockLines (indent + 2) body
    have hdo : Glyph.text [.word true "do"] = " do".toList := rfl
    rw [lines, template, text_append, text_append, hbody, text_line rfl,
      text_line (chars_call indent name hdo), text_line (chars_end indent)]
    simp [Line.text]
  | .array name body => by
    have hbody := text_blockLines (indent + 2) body
    have hdo : Glyph.text [.variableOf "xs", .word true "do", .bar true, .word false "x",
        .bar false] = " @xs do |x|".toList := rfl
    rw [lines, template, text_append, text_append, hbody, text_line rfl,
      text_line (chars_call indent name hdo), text_line (chars_end indent)]
    simp [Line.text]
  | .conditional body => by
    have hbody := text_blockLines (indent + 2) body
    rw [lines, template, text_append, text_append, hbody, text_line rfl,
      text_line (chars_if indent), text_line (chars_end indent)]
    simp [Line.text]

theorem text_blockLines (indent : Nat) :
    ∀ plans : List Plan, Line.text (blockLines indent plans) = (templates indent plans).toList
  | [] => rfl
  | p :: rest => by
    rw [blockLines, templates, text_append, text_lines indent p, text_blockLines indent rest,
      String.toList_append]

end

end Plan
end ViewSchema
