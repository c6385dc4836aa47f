import ViewSchema.Proofs.Template.Extent

/-!
How tokens are written. Words, names and operators are written as they are valued, a label with a
colon behind it and a symbol without quotes with a colon in front. Of other tokens the value says
less than what is written, or more.
-/

namespace ViewSchema.Template

open Text

/-- A lexeme as it is written. Line breaks and the end of the text are not written. -/
def Lexeme.IsWritten (written : List Char) : Lexeme → Prop
  | .identifier word | .constant word | .instanceVariable word | .globalVariable word
  | .operator word => written = word.toList
  | .label word => written = word.toList ++ [':']
  | .symbol value => written.take 2 = [':', doubleQuote] ∨ written = ':' :: value.toList
  | .text _ | .integer _ | .decimal _ | .words _ | .symbols _ => True
  | .newline | .endOfText => False

namespace Lexer

section Prefix

variable {first second text : List Char}

theorem take_of_isPrefix (h : first <+: text) : text.take first.length = first :=
  (List.prefix_iff_eq_take.mp h).symm

/-- Two pieces stand in front when the second opens what follows the first. -/
theorem isPrefix_append (h : first <+: text) (h' : second <+: text.drop first.length) :
    first ++ second <+: text := by
  obtain ⟨tail, rfl⟩ := h
  rw [List.drop_left] at h'
  exact (List.prefix_append_right_inj first).mpr h'

theorem isPrefix_head (test : Char → Bool) (text : List Char) :
    (text.take 1).filter test <+: text := by
  cases text with
  | nil => exact List.nil_prefix
  | cons c rest => cases hc : test c <;> simp [hc]

theorem isPrefix_identifier (text : List Char) : identifier text <+: text := by
  unfold identifier
  split
  · split
    · exact List.cons_prefix_cons.mpr ⟨rfl, List.takeWhile_prefix _⟩
    · exact List.nil_prefix
  · exact List.nil_prefix

theorem isPrefix_wordMark (text : List Char) : wordMark text <+: text := by
  unfold wordMark
  split
  · rename_i mark rest
    have hmark : [mark] <+: mark :: rest := List.prefix_append [mark] rest
    split
    · split
      · exact hmark
      · exact List.nil_prefix
      · exact List.nil_prefix
      · exact hmark
    · exact List.nil_prefix
  · exact List.nil_prefix

theorem isPrefix_colon (h : colonNext text) : [':'] <+: text := by
  unfold colonNext at h
  split at h
  · cases h
  · exact List.prefix_append [':'] _
  · cases h

end Prefix

section Token

variable {first : Char} {rest : List Char} {found : Scanned}

theorem written_number (h : number first rest = .ok found) :
    found.lexeme.IsWritten (first :: rest.take found.more) := by
  unfold number at h
  extract_lets whole behind fraction behindPlaces power point more digits at h
  clear_value point more digits
  split at h
  · split at h
    · cases h
    · cases h
      trivial
  · cases h
    trivial

theorem written_word {afterDot : Bool} (h : word afterDot first rest = .ok found) :
    found.lexeme.IsWritten (first :: rest.take found.more) := by
  unfold word at h
  extract_lets letters mark tail written more at h
  have hmore : more = (letters ++ mark).length := List.length_append.symm
  have hdrop : rest.dropWhile isWordChar = rest.drop letters.length :=
    (drop_length_takeWhile isWordChar rest).symm
  have hpieces : letters ++ mark <+: rest :=
    isPrefix_append (List.takeWhile_prefix _) (hdrop ▸ isPrefix_wordMark _)
  have htake : first :: rest.take more = written.toList := by
    rw [hmore, take_of_isPrefix hpieces, String.toList_ofList]
  have htail : tail = rest.drop (letters ++ mark).length := by
    simp only [tail, hdrop, List.drop_drop, List.length_append]
  split at h
  · rename_i hlabel
    cases h
    have hcolon : [':'] <+: rest.drop (letters ++ mark).length :=
      htail ▸ isPrefix_colon (Bool.and_eq_true_iff.mp hlabel).1
    have hlength : more + 1 = (letters ++ mark ++ [':']).length := by simp [more, Nat.add_assoc]
    have hall := take_of_isPrefix (isPrefix_append hpieces hcolon)
    rw [← hlength] at hall
    simp [Lexeme.IsWritten, written, hall]
  · split at h <;> cases h <;> exact htake

theorem written_instanceVariable (h : instanceVariable rest = .ok found) :
    found.lexeme.IsWritten ('@' :: rest.take found.more) := by
  unfold instanceVariable at h
  extract_lets sign name written at h
  have hsign : sign <+: rest := by
    cases rest with
    | nil => exact List.nil_prefix
    | cons c rest =>
      by_cases hc : c = '@'
      · simp [sign, hc]
      · simp [sign, hc]
  have hwritten : written <+: rest := isPrefix_append hsign (isPrefix_identifier _)
  split at h
  · cases h
  · cases h
    simp [Lexeme.IsWritten, take_of_isPrefix hwritten]

theorem written_globalVariable (h : globalVariable rest = .ok found) :
    found.lexeme.IsWritten ('$' :: rest.take found.more) := by
  unfold globalVariable at h
  extract_lets word name at h
  have hname : name <+: rest := by
    simp only [name]
    split
    · exact isPrefix_head _ rest
    · exact isPrefix_identifier rest
  split at h
  · cases h
  · cases h
    simp [Lexeme.IsWritten, take_of_isPrefix hname]

theorem written_quotedText {quote : Char} (h : quotedToken .text 0 quote rest = .ok found)
    (written : List Char) : found.lexeme.IsWritten written := by
  unfold quotedToken at h
  split at h
  · cases h
  · cases h
    trivial

theorem written_symbol (h : symbol rest = .ok found) :
    found.lexeme.IsWritten (':' :: rest.take found.more) := by
  unfold symbol at h
  split at h
  · cases h
  · rename_i first tail
    split at h
    · rename_i hquote
      obtain rfl : first = doubleQuote := by simpa using hquote
      unfold quotedToken at h
      split at h
      · cases h
      · rename_i done _
        cases h
        exact .inl (by simp [Nat.add_comm 1])
    · extract_lets signs name mark written at h
      have hsigns : signs <+: first :: tail :=
        (List.takeWhile_prefix _).trans (List.take_prefix 2 _)
      have hmark : mark <+: (first :: tail).drop (signs ++ name).length := by
        rw [List.length_append]
        exact isPrefix_head _ _
      have hwritten : written <+: first :: tail :=
        isPrefix_append (isPrefix_append hsigns (isPrefix_identifier _)) hmark
      split at h
      · cases h
      · cases h
        exact .inr (by simp [take_of_isPrefix hwritten])

theorem written_percentLiteral (h : percentLiteral rest = .ok found) (written : List Char) :
    found.lexeme.IsWritten written := by
  unfold percentLiteral at h
  split at h
  · cases h
  · dsimp only at h
    split at h
    · cases h
    · split at h <;> cases h <;> trivial

theorem written_regexp (h : regexp rest = .ok found) (written : List Char) :
    found.lexeme.IsWritten written := by
  unfold regexp at h
  split at h
  · cases h
  · cases h
    trivial

theorem written_operator (h : operator first rest = .ok found) :
    found.lexeme.IsWritten (first :: rest.take found.more) := by
  unfold operator at h
  split at h
  · rename_i op hop
    cases h
    have hnonempty : ∀ op ∈ operators, op.toList ≠ [] := by decide
    have hpositive : 0 < op.toList.length :=
      List.length_pos_iff.mpr (hnonempty op (List.mem_of_find?_eq_some hop))
    have htake := take_of_isPrefix (isPrefix_operator? hop)
    rw [← Nat.succ_pred_eq_of_pos hpositive, List.take_succ_cons] at htake
    exact htake
  · cases h

theorem written_angle {last : Option Lexeme} {spaced : Bool}
    (h : angle last spaced rest = .ok found) :
    found.lexeme.IsWritten ('<' :: rest.take found.more) := by
  unfold angle at h
  split at h
  · split at h
    · cases h
      trivial
    · exact written_operator h
  · exact written_operator h

/-- Every token is written as its lexeme asks. -/
theorem token_written {last : Option Lexeme} {spaced : Bool}
    (h : token last spaced first rest = .ok found) :
    found.lexeme.IsWritten (first :: rest.take found.more) := by
  unfold token at h
  revert h
  refine of_ite_eq (fun _ h => written_number h) (fun _ => ?_)
  refine of_ite_eq (fun _ h => written_word h) (fun _ => ?_)
  refine of_ite_eq (fun hfirst h => ?_) (fun _ => ?_)
  · obtain rfl : first = '@' := by simpa using hfirst
    exact written_instanceVariable h
  refine of_ite_eq (fun hfirst h => ?_) (fun _ => ?_)
  · obtain rfl : first = '$' := by simpa using hfirst
    exact written_globalVariable h
  refine of_ite_eq (fun _ h => written_quotedText h _) (fun _ => ?_)
  refine of_ite_eq (fun hcolon h => ?_) (fun _ => ?_)
  · obtain rfl : first = ':' := by simpa using (Bool.and_eq_true_iff.mp hcolon).1
    exact written_symbol h
  refine of_ite_eq (fun _ h => written_percentLiteral h _) (fun _ => ?_)
  refine of_ite_eq (fun _ h => written_regexp h _) (fun _ => ?_)
  refine of_ite_eq (fun _ h => ?_) (fun _ => ?_)
  · cases h
    trivial
  refine of_ite_eq (fun hangle h => ?_) (fun _ h => written_operator h)
  obtain rfl : first = '<' := by simpa using hangle
  exact written_angle h

end Token

end Lexer
end ViewSchema.Template
