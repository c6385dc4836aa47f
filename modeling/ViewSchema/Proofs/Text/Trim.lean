import ViewSchema.Text.Blank
import ViewSchema.Text.Letter

/-!
Blanks and word characters, and texts that trimming leaves as they are.
-/

namespace ViewSchema.Text

/-- The blanks beyond ASCII. -/
def wideBlanks : List Nat :=
  [0x85, 0xa0, 0x1680, 0x2000, 0x2001, 0x2002, 0x2003, 0x2004, 0x2005, 0x2006, 0x2007, 0x2008,
    0x2009, 0x200a, 0x2028, 0x2029, 0x202f, 0x205f, 0x3000]

/-- None of them is in the tables of letters and numbers. -/
private theorem inRanges_of_mem_wideBlanks :
    ∀ n ∈ wideBlanks, 0x80 ≤ n ∧ (inRanges letterRanges n || inRanges numberRanges n) = false := by
  decide +kernel

theorem isBlank_iff {c : Char} :
    isBlank c ↔ 9 ≤ c.toNat ∧ c.toNat ≤ 13 ∨ 28 ≤ c.toNat ∧ c.toNat ≤ 32 ∨
      c.toNat ∈ wideBlanks := by
  simp only [isBlank, wideBlanks, Bool.or_eq_true, Bool.and_eq_true, decide_eq_true_eq, beq_iff_eq,
    List.mem_cons, List.not_mem_nil, or_false]
  omega

theorem isBlank_of_isWordChar {c : Char} (h : isWordChar c) : isBlank c = false := by
  rw [Bool.eq_false_iff]
  intro hblank
  have hcode : c.toNat ≤ 32 ∨ c.toNat ∈ wideBlanks := by
    rcases isBlank_iff.mp hblank with hcontrol | hseparator | hwide
    · exact .inl (by omega)
    · exact .inl (by omega)
    · exact .inr hwide
  rcases hcode with hlow | hwide
  · have hunderscore : c ≠ '_' := by
      rintro rfl
      exact absurd hlow (by decide)
    have hascii : c.toNat < 0x80 := by omega
    simp only [isWordChar, isAlphanumeric, if_pos hascii, isAsciiLetter, isAsciiDigit,
      Bool.or_eq_true, Bool.and_eq_true, decide_eq_true_eq, beq_iff_eq, hunderscore,
      false_or] at h
    rcases h with (hsmall | hcapital) | hdigit
    · have : 97 ≤ c.toNat := hsmall.1
      omega
    · have : 65 ≤ c.toNat := hcapital.1
      omega
    · have : 48 ≤ c.toNat := hdigit.1
      omega
  · obtain ⟨hlow, hnone⟩ := inRanges_of_mem_wideBlanks c.toNat hwide
    have hunderscore : c ≠ '_' := by
      rintro rfl
      exact absurd hlow (by decide)
    have hbeyond : ¬c.toNat < 0x80 := by omega
    simp only [isWordChar, isAlphanumeric, if_neg hbeyond, hnone, Bool.or_false, beq_iff_eq] at h
    exact hunderscore h

theorem trimEnd_eq_self {test : Char → Bool} {text : List Char}
    (h : text.getLast?.all fun c => !test c) : trimEnd test text = text := by
  induction text with
  | nil => rfl
  | cons c rest ih =>
    cases rest with
    | nil =>
      have hc : test c = false := by simpa using h
      simp [trimEnd, hc]
    | cons d rest =>
      rw [List.getLast?_cons_cons] at h
      rw [trimEnd, ih h]

/-- A text without characters passing the test at either end is left as it is. -/
theorem trimBy_eq_self {test : Char → Bool} {text : List Char}
    (hfirst : text.head?.all fun c => !test c) (hlast : text.getLast?.all fun c => !test c) :
    trimBy test text = text := by
  have hstart : trimStart test text = text := by
    cases text with
    | nil => rfl
    | cons c rest =>
      have hc : test c = false := by simpa using hfirst
      simp [trimStart, hc]
  rw [trimBy, hstart]
  exact trimEnd_eq_self hlast

theorem trimBy_of_not_mem {test : Char → Bool} {text : List Char}
    (h : ∀ c ∈ text, test c = false) : trimBy test text = text := by
  apply trimBy_eq_self
  · rw [Option.all_eq_true]
    exact fun c hc => by rw [h c (List.mem_of_mem_head? hc)]; rfl
  · rw [Option.all_eq_true]
    exact fun c hc => by rw [h c (List.mem_of_getLast? hc)]; rfl

/-- Characters that pass the test at the end of a text do not count. -/
theorem trimEnd_append {test : Char → Bool} (front : List Char) {behind : List Char}
    (h : behind.all test) : trimEnd test (front ++ behind) = trimEnd test front := by
  induction front with
  | nil =>
    induction behind with
    | nil => rfl
    | cons c rest ih =>
      obtain ⟨hc, hrest⟩ := Bool.and_eq_true_iff.mp h
      have hnil : trimEnd test rest = [] := ih hrest
      simp [trimEnd, hnil, hc]
  | cons c front ih => rw [List.cons_append, trimEnd, ih, trimEnd]

theorem exists_of_trimEnd (test : Char → Bool) (text : List Char) :
    ∃ behind, text = trimEnd test text ++ behind ∧ behind.all test := by
  induction text with
  | nil => exact ⟨[], rfl, rfl⟩
  | cons c rest ih =>
    obtain ⟨behind, hrest, hbehind⟩ := ih
    rw [trimEnd]
    split
    · rename_i hnil
      rw [hnil, List.nil_append] at hrest
      split
      · rename_i hc
        exact ⟨c :: rest, rfl, by rw [hrest, List.all_cons, hc, hbehind]; rfl⟩
      · exact ⟨rest, rfl, hrest ▸ hbehind⟩
    · exact ⟨behind, by rw [List.cons_append, ← hrest], hbehind⟩

/-- What trimming leaves stands between characters that pass the test. -/
theorem exists_of_trimBy (test : Char → Bool) (text : List Char) :
    ∃ front behind, text = front ++ (trimBy test text ++ behind) ∧ front.all test ∧
      behind.all test := by
  obtain ⟨behind, hkept, hbehind⟩ := exists_of_trimEnd test (trimStart test text)
  refine ⟨text.takeWhile test, behind, ?_, List.all_takeWhile, hbehind⟩
  rw [trimBy, ← hkept]
  exact List.takeWhile_append_dropWhile.symm

theorem isPrefix_trimEnd (test : Char → Bool) (text : List Char) : trimEnd test text <+: text := by
  obtain ⟨behind, htext, -⟩ := exists_of_trimEnd test text
  exact ⟨behind, htext.symm⟩

theorem isInfix_trimBy (test : Char → Bool) (text : List Char) : trimBy test text <:+: text :=
  (isPrefix_trimEnd test _).isInfix.trans (List.dropWhile_suffix test).isInfix

/-- Trimming keeps every character that fails the test. -/
theorem mem_trimBy {test : Char → Bool} {text : List Char} {c : Char} (h : c ∈ text)
    (hc : test c = false) : c ∈ trimBy test text := by
  have hstart : c ∈ trimStart test text := by
    rw [← List.takeWhile_append_dropWhile (p := test) (l := text), List.mem_append] at h
    rcases h with hfront | hkept
    · rw [List.all_eq_true.mp List.all_takeWhile c hfront] at hc
      cases hc
    · exact hkept
  rw [trimBy]
  generalize trimStart test text = kept at hstart
  induction kept with
  | nil => cases hstart
  | cons d rest ih =>
    rw [trimEnd]
    rcases List.mem_cons.mp hstart with rfl | hrest
    · split
      · simp [hc]
      · exact List.mem_cons_self
    · have hkept := ih hrest
      split
      · rename_i hnil
        rw [hnil] at hkept
        cases hkept
      · exact List.mem_cons_of_mem _ hkept

end ViewSchema.Text
