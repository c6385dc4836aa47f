import ViewSchema.Text.Blank

/-!
Cutting a text at a mark. The pieces put together around the mark give the text again, and what
follows the mark has no part in where it is found.
-/

namespace ViewSchema.Text

theorem eq_append_of_after? {mark text tail : List Char} (h : after? mark text = some tail) :
    text = mark ++ tail := by
  induction mark generalizing text with
  | nil => exact Option.some.inj h
  | cons c mark ih =>
    cases text with
    | nil => cases h
    | cons d text =>
      rw [after?] at h
      split at h
      · rename_i hsame
        rw [← eq_of_beq hsame, ih h]
        rfl
      · cases h

theorem after?_append (mark tail : List Char) : after? mark (mark ++ tail) = some tail := by
  induction mark with
  | nil => rfl
  | cons c mark ih =>
    rw [List.cons_append, after?, if_pos (beq_self_eq_true c)]
    exact ih

theorem after?_eq_none_iff {mark text : List Char} : after? mark text = none ↔ ¬mark <+: text := by
  constructor
  · rintro h ⟨tail, rfl⟩
    rw [after?_append] at h
    cases h
  · intro h
    cases htail : after? mark text with
    | none => rfl
    | some tail => exact absurd ⟨tail, (eq_append_of_after? htail).symm⟩ h

theorem eq_append_of_cutAt? {mark text : List Char} {found : List Char × List Char}
    (h : cutAt? mark text = some found) : text = found.1 ++ (mark ++ found.2) := by
  induction text generalizing found with
  | nil =>
    rw [cutAt?] at h
    split at h
    · rename_i hempty
      cases h
      rw [List.isEmpty_iff.mp hempty]
      rfl
    · cases h
  | cons c rest ih =>
    rw [cutAt?] at h
    split at h
    · rename_i tail hafter
      cases h
      simpa using eq_append_of_after? hafter
    · obtain ⟨inner, hinner, rfl⟩ := Option.map_eq_some_iff.mp h
      rw [ih hinner]
      rfl

/-- The place where a mark is found first does not depend on what follows it there. -/
theorem cutAt?_append {mark text : List Char} {found : List Char × List Char}
    (h : cutAt? mark text = some found) (tail : List Char) :
    cutAt? mark (found.1 ++ (mark ++ tail)) = some (found.1, tail) := by
  induction text generalizing found with
  | nil =>
    rw [cutAt?] at h
    split at h
    · rename_i hempty
      cases h
      rw [List.isEmpty_iff.mp hempty]
      cases tail with
      | nil => rfl
      | cons c rest => rfl
    · cases h
  | cons c rest ih =>
    rw [cutAt?] at h
    split at h
    · rename_i behind hafter
      cases h
      cases hwhole : mark ++ tail with
      | nil =>
        obtain ⟨rfl, rfl⟩ := List.append_eq_nil_iff.mp hwhole
        rfl
      | cons d others =>
        rw [List.nil_append, cutAt?, ← hwhole, after?_append]
    · rename_i hafter
      obtain ⟨inner, hinner, rfl⟩ := Option.map_eq_some_iff.mp h
      have hrest := eq_append_of_cutAt? hinner
      -- An earlier mark would end before the one that was found does.
      have hnone : after? mark (c :: (inner.1 ++ (mark ++ tail))) = none := by
        rw [after?_eq_none_iff] at hafter ⊢
        intro hprefix
        have hfront : mark <+: c :: (inner.1 ++ mark) := by
          refine List.prefix_of_prefix_length_le hprefix ?_ ?_
          · rw [← List.append_assoc, ← List.cons_append]
            exact List.prefix_append _ tail
          · simp only [List.length_cons, List.length_append]
            omega
        refine hafter (hfront.trans ?_)
        rw [hrest, ← List.append_assoc, ← List.cons_append]
        exact List.prefix_append _ inner.2
      rw [List.cons_append, cutAt?, hnone, ih hinner]
      rfl

/-- A mark that is found in the front of a text is found there whatever follows the front. -/
theorem cutAt?_front {mark front behind : List Char} {found : List Char × List Char}
    (h : cutAt? mark (front ++ behind) = some found)
    (hwithin : found.1.length + mark.length ≤ front.length) :
    ∃ rest, front = found.1 ++ (mark ++ rest) ∧
      ∀ tail, cutAt? mark (front ++ tail) = some (found.1, rest ++ tail) := by
  have hsplit := eq_append_of_cutAt? h
  have hprefix : found.1 ++ mark <+: front := by
    refine List.prefix_of_prefix_length_le ?_ (List.prefix_append front behind) (by simpa)
    rw [hsplit, ← List.append_assoc]
    exact List.prefix_append _ _
  obtain ⟨rest, rfl⟩ := hprefix
  refine ⟨rest, List.append_assoc _ _ _, fun tail => ?_⟩
  simpa using cutAt?_append h (rest ++ tail)

theorem pieces_ne_nil (test : Char → Bool) (text : List Char) : pieces test text ≠ [] := by
  cases text with
  | nil => simp [pieces]
  | cons c rest =>
    rw [pieces]
    split
    · simp
    · split <;> simp

theorem pieces_of_not_mem {mark : Char} {text : List Char} (h : mark ∉ text) :
    pieces (· == mark) text = [text] := by
  induction text with
  | nil => rfl
  | cons c text ih =>
    obtain ⟨hc, htext⟩ := not_or.mp (mt List.mem_cons.mpr h)
    simp [pieces, Ne.symm hc, ih htext]

theorem pieces_append {mark : Char} {text : List Char} (h : mark ∉ text) (rest : List Char) :
    pieces (· == mark) (text ++ mark :: rest) = text :: pieces (· == mark) rest := by
  induction text with
  | nil => simp [pieces]
  | cons c text ih =>
    obtain ⟨hc, htext⟩ := not_or.mp (mt List.mem_cons.mpr h)
    simp [pieces, Ne.symm hc, ih htext]

theorem join_cons_cons (mark text next : List Char) (others : List (List Char)) :
    join mark (text :: next :: others) = text ++ (mark ++ join mark (next :: others)) := by
  rw [join, List.append_assoc]
  simp

/-- Texts without the mark are the pieces of their join at the mark. -/
theorem pieces_join {mark : Char} {texts : List (List Char)} (hne : texts ≠ [])
    (h : ∀ text ∈ texts, mark ∉ text) : pieces (· == mark) (join [mark] texts) = texts := by
  induction texts with
  | nil => exact absurd rfl hne
  | cons text rest ih =>
    obtain ⟨htext, hrest⟩ := List.forall_mem_cons.mp h
    cases rest with
    | nil => exact pieces_of_not_mem htext
    | cons next others =>
      rw [join_cons_cons, List.singleton_append, pieces_append htext, ih (by simp) hrest]

end ViewSchema.Text
