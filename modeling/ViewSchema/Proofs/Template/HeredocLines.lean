import ViewSchema.Proofs.Text.Cut
import ViewSchema.Template.Scan

/-!
The lines that the texts of heredocs take. A text is read line by line; its last line counts
without a line break too. Reading some first lines takes as many line breaks, one less when it
reaches into a last line without one.
-/

namespace ViewSchema.Template.Scan

open Text (pieces pieces_append pieces_ne_nil pieces_of_not_mem trim)

/-- A text is empty, or one line, or one line with a line break and a text behind it. -/
theorem lines_induction {motive : List Char → Prop} (nil : motive [])
    (line : ∀ line, line ≠ [] → '\n' ∉ line → motive line)
    (cons : ∀ line rest, '\n' ∉ line → motive rest → motive (line ++ '\n' :: rest))
    (text : List Char) : motive text := by
  -- The first line grows as the text is read from its end.
  have hall : motive text ∧ ∀ front, front ≠ [] → '\n' ∉ front → motive (front ++ text) := by
    induction text with
    | nil => exact ⟨nil, fun front hne hfront => by simpa using line front hne hfront⟩
    | cons c rest ih =>
      by_cases hc : c = '\n'
      · subst hc
        exact ⟨cons [] rest (by simp) ih.1, fun front _ hfront => cons front rest hfront ih.1⟩
      · have hsingle : '\n' ∉ [c] := by simpa using Ne.symm hc
        refine ⟨ih.2 [c] (by simp) hsingle, fun front _ hfront => ?_⟩
        have hboth : '\n' ∉ front ++ [c] := by simp [hfront, Ne.symm hc]
        simpa using ih.2 (front ++ [c]) (by simp) hboth
  exact hall.1

@[simp] theorem textLines_nil : textLines [] = [] := rfl

theorem textLines_line {line : List Char} (hne : line ≠ []) (h : '\n' ∉ line) :
    textLines line = [line] := by
  simp [textLines, pieces_of_not_mem h, hne]

theorem textLines_append {line : List Char} (h : '\n' ∉ line) (rest : List Char) :
    textLines (line ++ '\n' :: rest) = line :: textLines rest := by
  obtain ⟨first, others, hpieces⟩ := List.exists_cons_of_ne_nil (pieces_ne_nil (· == '\n') rest)
  simp only [textLines, pieces_append h, hpieces, List.getLast?_cons_cons]
  split <;> simp

@[simp] theorem lengthOfLines_zero (text : List Char) : lengthOfLines text 0 = 0 := by
  simp [lengthOfLines]

@[simp] theorem lengthOfLines_nil (count : Nat) : lengthOfLines [] count = 0 := by
  simp [lengthOfLines]

theorem lengthOfLines_line {line : List Char} (h : '\n' ∉ line) (count : Nat) :
    lengthOfLines line (count + 1) = line.length := by
  by_cases hne : line = []
  · simp [hne]
  · simp [lengthOfLines, textLines_line hne h]

theorem foldl_length (lines : List (List Char)) (n : Nat) :
    lines.foldl (fun n l => n + l.length + 1) n =
      n + lines.foldl (fun n l => n + l.length + 1) 0 := by
  induction lines generalizing n with
  | nil => rfl
  | cons line lines ih =>
    rw [List.foldl_cons, List.foldl_cons, ih, ih (0 + line.length + 1)]
    omega

theorem lengthOfLines_append {line : List Char} (h : '\n' ∉ line) (rest : List Char)
    (count : Nat) :
    lengthOfLines (line ++ '\n' :: rest) (count + 1) =
      line.length + 1 + lengthOfLines rest count := by
  simp only [lengthOfLines, textLines_append h, List.take_succ_cons, List.foldl_cons,
    List.length_append, List.length_cons]
  rw [foldl_length]
  omega

theorem lengthOfLines_le (text : List Char) (count : Nat) :
    lengthOfLines text count ≤ text.length := Nat.min_le_left _ _

theorem take_lengthOfLines_append {line : List Char} (h : '\n' ∉ line) (rest : List Char)
    (count : Nat) :
    (line ++ '\n' :: rest).take (lengthOfLines (line ++ '\n' :: rest) (count + 1)) =
      line ++ '\n' :: rest.take (lengthOfLines rest count) := by
  rw [lengthOfLines_append h, Nat.add_assoc, Nat.add_comm 1, List.take_length_add_append,
    List.take_succ_cons]

/-- A piece of a text is empty or ends with a line break. -/
def endsLine (piece : List Char) : Bool := piece.getLast?.all (· == '\n')

theorem endsLine_append (line piece : List Char) :
    endsLine (line ++ '\n' :: piece) = endsLine piece := by
  cases piece with
  | nil => simp [endsLine]
  | cons c rest => simp [endsLine, List.getLast?_append, List.getLast?_cons]

theorem endsLine_line {line : List Char} (hne : line ≠ []) (h : '\n' ∉ line) :
    endsLine line = false := by
  have hlast : line.getLast hne ≠ '\n' := by
    intro heq
    exact h (heq ▸ List.getLast_mem hne)
  simp [endsLine, List.getLast?_eq_some_getLast hne, hlast]

theorem exists_of_endsLine {piece : List Char} (h : endsLine piece) (hne : piece ≠ []) :
    ∃ front, piece = front ++ ['\n'] := by
  have hlast := List.getLast?_eq_some_getLast hne
  rw [endsLine, hlast, Option.all_some, beq_iff_eq] at h
  rw [h] at hlast
  exact (List.getLast?_eq_some_iff.mp hlast).imp fun _ => id

theorem endsLine_of_append (front : List Char) {piece : List Char}
    (h : endsLine (front ++ piece)) : endsLine piece := by
  rw [endsLine, List.getLast?_append] at h
  rw [endsLine]
  cases hlast : piece.getLast? with
  | none => rfl
  | some c =>
    rw [hlast] at h
    exact h

/-- The first lines of a text take as many line breaks. The one that may be missing is that of the
last line, at the end of the text. -/
theorem count_of_lines {text : List Char} {count : Nat} (h : count ≤ (textLines text).length) :
    let taken := text.take (lengthOfLines text count)
    (endsLine taken → taken.count '\n' = count) ∧
      (¬endsLine taken → taken.count '\n' + 1 = count ∧ taken = text) := by
  induction text using lines_induction generalizing count with
  | nil => simp_all [endsLine]
  | line line hne hline =>
    cases count with
    | zero => simp [endsLine]
    | succ count =>
      have hcount : count = 0 := by
        rw [textLines_line hne hline, List.length_singleton] at h
        omega
      simp [lengthOfLines_line hline, endsLine_line hne hline, List.count_eq_zero.mpr hline, hcount]
  | cons line rest hline ih =>
    cases count with
    | zero => simp [endsLine]
    | succ count =>
      rw [textLines_append hline, List.length_cons] at h
      have hrest := ih (Nat.le_of_succ_le_succ h)
      simp only [take_lengthOfLines_append hline, endsLine_append, List.count_append,
        List.count_eq_zero.mpr hline, List.count_cons_self]
      refine ⟨fun hends => ?_, fun hends => ?_⟩
      · have := hrest.1 hends
        omega
      · obtain ⟨hcount, htaken⟩ := hrest.2 hends
        exact ⟨by omega, by rw [htaken]⟩

theorem heredocLines_le {marks : List String} {lines : List (List Char)} {count : Nat}
    (h : heredocLines marks lines = .ok count) : count ≤ lines.length := by
  induction lines generalizing marks count with
  | nil =>
    cases marks with
    | nil =>
      cases h
      exact Nat.le_refl _
    | cons mark others => cases h
  | cons line lines ih =>
    cases marks with
    | nil =>
      cases h
      exact Nat.zero_le _
    | cons mark others =>
      rw [heredocLines] at h
      split at h
      · rename_i inner hinner
        cases h
        exact Nat.succ_le_succ (ih hinner)
      · cases h

/-- The lines of a text that ends with one of its lines do not depend on what follows it. -/
theorem textLines_front {front : List Char} (h : endsLine front) (tail : List Char) :
    textLines (front ++ tail) = textLines front ++ textLines tail ∧
      (textLines front).length = front.count '\n' := by
  induction front using lines_induction with
  | nil => exact ⟨rfl, rfl⟩
  | line line hne hline =>
    rw [endsLine_line hne hline] at h
    cases h
  | cons line rest hline ih =>
    rw [endsLine_append] at h
    obtain ⟨hlines, hlength⟩ := ih h
    refine ⟨?_, ?_⟩
    · rw [List.append_assoc, List.cons_append, textLines_append hline, textLines_append hline,
        hlines, List.cons_append]
    · simp [textLines_append hline, hlength, List.count_eq_zero.mpr hline]

theorem lengthOfLines_front {front : List Char} (h : endsLine front) (tail : List Char) :
    lengthOfLines (front ++ tail) (front.count '\n') = front.length := by
  induction front using lines_induction with
  | nil => exact lengthOfLines_zero tail
  | line line hne hline =>
    rw [endsLine_line hne hline] at h
    cases h
  | cons line rest hline ih =>
    rw [endsLine_append] at h
    rw [List.append_assoc, List.cons_append, List.count_append, List.count_eq_zero.mpr hline,
      List.count_cons_self, Nat.zero_add, lengthOfLines_append hline, ih h, List.length_append,
      List.length_cons, Nat.add_assoc, Nat.add_comm 1]

theorem heredocLines_front {marks : List String} {front behind : List (List Char)}
    (h : heredocLines marks (front ++ behind) = .ok front.length) (tail : List (List Char)) :
    heredocLines marks (front ++ tail) = .ok front.length := by
  induction front generalizing marks with
  | nil =>
    cases marks with
    | nil => rw [List.nil_append, heredocLines, List.length_nil]
    | cons mark others =>
      cases behind with
      | nil => cases h
      | cons line behind =>
        rw [List.nil_append, heredocLines] at h
        split at h <;> cases h
  | cons line front ih =>
    cases marks with
    | nil => cases h
    | cons mark others =>
      rw [List.cons_append, heredocLines] at h ⊢
      split at h
      · rename_i count hcount
        obtain rfl : count = front.length := by simpa using h
        rw [ih hcount]
        rfl
      · cases h

end ViewSchema.Template.Scan
