import ViewSchema.Proofs.Template.Resting
import ViewSchema.Proofs.Template.Spelled

/-!
Values as they are written: names, instance variables, whole numbers and static texts. A value is
scanned as one or two glyphs, and read as one node wherever an argument may stand.
-/

namespace ViewSchema.Template

mutual

/-- A name, a literal or an expression without its source text. -/
def Node.unsourced : Node → Node
  | .name identifier e => .name identifier { e with source := "" }
  | .literal kind v dynamic e => .literal kind v dynamic { e with source := "" }
  | .expression parts e => .expression (unsourcedParts parts) { e with source := "" }
  | n => n

def Node.unsourcedParts : List Node → List Node
  | [] => []
  | n :: rest => n.unsourced :: unsourcedParts rest

end

namespace WholeNumber

/-- The node of a number on a line, without its source text. A minus sign makes an expression. -/
def node (n : WholeNumber) (line : Nat) : Node :=
  let extent : Extent := { line := some line, source := "" }
  let digits : Node := .literal .integer (.int n.magnitude) false extent
  if n.negative then .expression [digits] extent else digits

end WholeNumber

/-- A value as it is written. -/
inductive Written where
  | name (w : LocalName) (free : keywords.contains w.text = false)
  | instanceVariable (w : Identifier)
  | whole (n : WholeNumber)
  | text (q : QuotedText)

namespace Written

def chars : Written → List Char
  | name w _ => w.chars
  | instanceVariable w => '@' :: w.chars
  | whole n => n.chars
  | text q => q.chars

/-- A number has no more digits than a whole number may have. -/
def IsShort : Written → Prop
  | whole n => n.IsShort
  | _ => True

instance : (v : Written) → Decidable v.IsShort
  | whole n => inferInstanceAs (Decidable n.IsShort)
  | name .. | instanceVariable _ | text _ => inferInstanceAs (Decidable True)

/-- The node of a value on a line, without its source text. -/
def node (line : Nat) : Written → Node
  | name w _ => .name w.text { line := some line, source := "" }
  | instanceVariable w =>
    .name (String.ofList ('@' :: w.chars)) { line := some line, source := "" }
  | whole n => n.node line
  | text q => .literal .text (.text q.text) false { line := some line, source := "" }

def glyphs (gap : Bool) : Written → List Glyph
  | name w _ => [.identifier gap w.toIdentifier]
  | instanceVariable w => [.instanceVariable gap w]
  | whole n => Glyph.whole gap n
  | text q => [.quoted gap q]

theorem text_glyphs (gap : Bool) (v : Written) :
    Glyph.text (v.glyphs gap) = (if gap then [' '] else []) ++ v.chars := by
  cases v with
  | whole n => exact Glyph.text_whole gap n
  | _ => cases gap <;> simp [glyphs, chars, Glyph.text, Glyph.chars, Glyph.identifier,
      Glyph.instanceVariable, Glyph.quoted, Identifier.chars, QuotedText.chars]

/-- A value is scanned in front of what ends it. -/
theorem allFollow_glyphs {v : Written} (hv : v.IsShort) {last : Option Lexeme} {spaced : Bool}
    (gap : Bool) {others : List Glyph} {rest : List Char}
    (hrest : Lexer.endsValue (Glyph.text others ++ rest))
    (hothers : ∀ last, Glyph.AllFollow false last false others rest) :
    Glyph.AllFollow false last spaced (v.glyphs gap ++ others) rest := by
  cases v with
  | name w => exact ⟨Glyph.follows_identifier (Lexer.endsWord_of_endsValue hrest), hothers _⟩
  | instanceVariable w =>
    exact ⟨Glyph.follows_instanceVariable (Lexer.endsWord_of_endsValue hrest), hothers _⟩
  | whole n => exact Glyph.allFollow_whole hv (Lexer.endsNumber_of_endsValue hrest) hothers
  | text q => exact ⟨Glyph.follows_quoted, hothers _⟩

/-- No value lengthens an operator in front of it. -/
theorem endsOperator_glyphs (v : Written) (others : List Glyph) (rest : List Char) :
    Lexer.endsOperator (Glyph.text (v.glyphs false ++ others) ++ rest) = true := by
  have hword : ∀ w : Identifier, w.first ∉ Lexer.lengthening := fun w =>
    Identifier.first_not_mem (by decide)
  rw [Lexer.endsOperator, Glyph.text_append, text_glyphs]
  cases v with
  | name w => simpa [chars, Identifier.chars] using hword w.toIdentifier
  | instanceVariable w => rfl
  | whole n =>
    have hfirst : n.first ∉ Lexer.lengthening := n.first_not_mem (by decide)
    obtain ⟨negative, first, more, opens, goesOn⟩ := n
    cases negative with
    | false => simpa [chars, WholeNumber.chars] using hfirst
    | true => rfl
  | text q =>
    have hquote : q.quote ∉ Lexer.lengthening := q.quote_not_mem (by decide)
    simpa [chars, QuotedText.chars] using hquote

end Written

namespace Glyph

/-- The glyph is no bracket. -/
def IsFlat (g : Glyph) : Prop := ∀ brackets, g.nested brackets = .ok brackets

theorem isFlat_whole (gap : Bool) (n : WholeNumber) : ∀ g ∈ whole gap n, g.IsFlat := by
  unfold whole
  cases n.negative <;> simp [IsFlat, nested, mark, wholeDigits, Scan.nested]

end Glyph

theorem Written.isFlat_glyphs (gap : Bool) (v : Written) : ∀ g ∈ v.glyphs gap, g.IsFlat := by
  cases v with
  | whole n => exact Glyph.isFlat_whole gap n
  | _ => simp [glyphs, Glyph.IsFlat, Glyph.nested, Glyph.identifier, Glyph.instanceVariable,
      Glyph.quoted]

namespace Read

variable {T : Token → Prop} {F : Faults} {d line : Nat} {noDo spaced gap : Bool}
  {after : List Seen}

/-- A number is read as its digits, or as an expression of them behind a sign. -/
def IsWhole (T : Token → Prop) (n : WholeNumber) (line : Nat) (node : Node) : Prop :=
  if n.negative then ∃ inner source, IsLiteral T .integer (.int n.magnitude) line inner ∧
    node = .expression [inner] { line := some (line : Int), source }
  else IsLiteral T .integer (.int n.magnitude) line node

theorem ends_unary_whole (n : WholeNumber) (hafter : Seen.endsChain after) :
    Ends T F (unary (grammar (d + 1)) false noDo)
      (Glyph.seen line spaced (Glyph.whole gap n) ++ after) after (IsWhole T n line) := by
  have hdigits : ∀ e spaced, Ends T F (unary (grammar e) false noDo)
      (⟨.integer n.magnitude, line, spaced⟩ :: after) after
      (IsLiteral T .integer (.int n.magnitude) line) := fun e spaced =>
    .unary rfl (ends_operand_integer (grammar e) false noDo n.magnitude line spaced after) hafter
  unfold Glyph.whole IsWhole
  cases n.negative with
  | false => exact hdigits (d + 1) (spaced || gap)
  | true => exact .unary_sign line (spaced || gap) (by decide) (hdigits d false)

theorem IsLiteral.unsourced {kind : LiteralKind} {v : Value} {n : Node}
    (h : IsLiteral Token.IsStatic kind v line n) :
    n.unsourced = .literal kind v false { line := some (line : Int), source := "" } := by
  obtain ⟨t, source, ht, rfl⟩ := h
  rw [show t.dynamic = false from ht]
  rfl

theorem IsWhole.unsourced {n : WholeNumber} {node : Node} (h : IsWhole Token.IsStatic n line node) :
    node.unsourced = n.node line := by
  unfold IsWhole at h
  unfold WholeNumber.node
  split at h
  · obtain ⟨inner, source, hinner, rfl⟩ := h
    rw [Node.unsourced, Node.unsourcedParts, Node.unsourcedParts, hinner.unsourced]
    simp [*]
  · rw [h.unsourced]
    simp [*]

/-- What comes next ends an argument: another one, its value, or the end of the list. -/
def closesArgument (tokens : List Seen) : Bool :=
  (Seen.next tokens).isOneOf [",", ")", "\x7d", "=>", ":"]

theorem exists_of_closesArgument {tokens : List Seen} (h : closesArgument tokens) :
    ∃ op ∈ [",", ")", "\x7d", "=>", ":"], Seen.next tokens = .operator op := by
  unfold closesArgument at h
  cases hnext : Seen.next tokens with
  | operator op =>
    rw [hnext] at h
    exact ⟨op, List.contains_iff_mem.mp h, rfl⟩
  | _ =>
    rw [hnext] at h
    cases h

theorem rests_of_closesArgument {tokens : List Seen} (h : closesArgument tokens) :
    Seen.rests tokens = true := by
  have hall : ∀ op ∈ [",", ")", "\x7d", "=>", ":"],
      (!(Lexeme.operator op).isOneOf ("?" :: binaryOperators ++ Seen.linkingOperators)) = true := by
    decide
  obtain ⟨op, hop, hnext⟩ := exists_of_closesArgument h
  rw [Seen.rests, hnext]
  exact hall op hop

/-- A value is read as its node. -/
theorem ends_unary_written (v : Written) (hafter : closesArgument after) :
    Ends Token.IsStatic F (unary (grammar (d + 1)) false noDo)
      (Glyph.seen line spaced (v.glyphs gap) ++ after) after
      fun n => n.unsourced = v.node line := by
  have hchain := Seen.endsChain_of_rests (rests_of_closesArgument hafter)
  obtain ⟨op, hop, hnext⟩ := exists_of_closesArgument hafter
  cases v with
  | name w free =>
    have hall : ∀ op ∈ [",", ")", "\x7d", "=>", ":"],
        (Lexeme.operator op).isOneOf ["(", "\x7b"] = false := by decide
    have hopens : (Seen.next after).isOneOf ["(", "\x7b"] = false := by
      rw [hnext]
      exact hall op hop
    have hblock : (Seen.next after).isWordOf ["do"] = false := by
      rw [hnext]
      rfl
    have hoperand := ends_operand_name (T := Token.IsStatic) (F := F) (grammar (d + 1)) false noDo
      line (spaced || gap) free hopens hblock ((ends_atCommandArgument after).mono fun _ _ => rfl)
    apply (Ends.unary (opensOperand_name free line (spaced || gap) after) hoperand hchain).mono
    rintro _ rfl
    rfl
  | instanceVariable w =>
    apply (Ends.unary rfl (ends_operand_instanceVariable (grammar (d + 1)) false noDo _ line
      (spaced || gap) after) hchain).mono
    rintro _ rfl
    rfl
  | whole n => exact (ends_unary_whole n hchain).mono fun _ h => h.unsourced
  | text q =>
    have hother : ∀ more, Seen.next after ≠ .text more := by simp [hnext]
    exact (Ends.unary rfl (ends_operand_text (grammar (d + 1)) false noDo q.text line
      (spaced || gap) hother) hchain).mono fun _ h => h.unsourced

/-- No value opens with the word that denies an expression. -/
theorem isWordOf_written (v : Written) :
    (Seen.next (Glyph.seen line spaced (v.glyphs gap) ++ after)).isWordOf ["not"] = false := by
  cases v with
  | name w free =>
    have hnot : w.text ≠ "not" := ne_of_keywords free (by decide)
    simpa [Written.glyphs, Glyph.seen, Glyph.identifier, Seen.next, Lexeme.isWordOf] using hnot
  | whole n =>
    rw [Written.glyphs, Glyph.whole]
    cases n.negative <;> rfl
  | _ => rfl

theorem Ends.argument {before : List Seen} {P : Node → Prop}
    (h : Ends T F (Read.unary (grammar d) false noDo) before after P)
    (hnot : (Seen.next before).isWordOf ["not"] = false) (hafter : Seen.rests after) :
    Ends T F (Read.argument (grammar (d + 1)) noDo) before after P :=
  .noWord hnot (h.ternary hafter)

theorem ends_argument_written (v : Written) (gap : Bool) (hafter : closesArgument after) :
    Ends Token.IsStatic F (argument (grammar (d + 2)) noDo)
      (Glyph.seen line spaced (v.glyphs gap) ++ after) after
      fun n => n.unsourced = v.node line :=
  (ends_unary_written v hafter).argument (isWordOf_written v) (rests_of_closesArgument hafter)

end Read
end ViewSchema.Template
