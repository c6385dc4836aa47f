import ViewSchema.Number.Numeral
import ViewSchema.Proofs.Text.Trim

/-!
Whole numbers as they are shown are read back, unless they have too many digits.
-/

namespace ViewSchema.Numeral

open Text

theorem code_of_isAsciiDigit {c : Char} (h : isAsciiDigit c) : 48 ≤ c.toNat ∧ c.toNat ≤ 57 := by
  simp only [isAsciiDigit, Bool.and_eq_true, decide_eq_true_eq] at h
  exact h

theorem isBlank_of_isAsciiDigit {c : Char} (h : isAsciiDigit c) : isBlank c = false := by
  obtain ⟨hlow, hhigh⟩ := code_of_isAsciiDigit h
  rw [Bool.eq_false_iff]
  intro hblank
  rcases isBlank_iff.mp hblank with hcontrol | hseparator | hwide
  · omega
  · omega
  · simp only [wideBlanks, List.mem_cons, List.not_mem_nil, or_false] at hwide
    omega

theorem isMargin_of_isAsciiDigit {c : Char} (h : isAsciiDigit c) : isMargin c = false := by
  rw [isMargin, isBlank_of_isAsciiDigit h]
  rfl

theorem asciiDigit_of_isAsciiDigit {c : Char} (h : isAsciiDigit c) : asciiDigit c = c := by
  obtain ⟨hlow, hhigh⟩ := code_of_isAsciiDigit h
  have hascii : c.toNat < 0x80 := by omega
  have hcode : 0x30 + (c.toNat - 0x30) = c.toNat := by omega
  simp only [asciiDigit, decimalValue?, if_pos hascii, if_pos h, hcode]
  exact Char.ofNat_toNat c

theorem withoutUnderscores_of_not_mem {text : List Char} (h : '_' ∉ text) (afterDigit : Bool) :
    withoutUnderscores afterDigit text = some text := by
  induction text generalizing afterDigit with
  | nil => simp [withoutUnderscores]
  | cons c rest ih =>
    obtain ⟨hc, hrest⟩ := not_or.mp (mt List.mem_cons.mpr h)
    unfold withoutUnderscores
    split
    · rename_i hnil
      cases hnil
    · rename_i hsame
      exact absurd (List.cons.inj hsame).1.symm hc
    · rename_i hsame
      exact absurd (List.cons.inj hsame).1.symm hc
    · rename_i hsame
      cases hsame
      rw [ih hrest]
      rfl

/-- Digits and a sign are left as they are. -/
theorem plain?_of_digits {text : List Char} (h : ∀ c ∈ text, isAsciiDigit c ∨ c = '-') :
    plain? text = some text := by
  have hmargin : ∀ c ∈ text, isMargin c = false := by
    intro c hc
    rcases h c hc with hdigit | rfl
    · exact isMargin_of_isAsciiDigit hdigit
    · decide
  have hsame : ∀ c ∈ text, asciiDigit c = c := by
    intro c hc
    rcases h c hc with hdigit | rfl
    · exact asciiDigit_of_isAsciiDigit hdigit
    · decide
  have hunderscore : '_' ∉ text := by
    intro hmem
    rcases h '_' hmem with hdigit | hsign
    · exact absurd hdigit (by decide)
    · exact absurd hsign (by decide)
  rw [plain?, trimBy_of_not_mem hmargin, List.map_congr_left hsame, List.map_id']
  exact withoutUnderscores_of_not_mem hunderscore false

/-- The digits of a number, in front of which no sign stands. -/
theorem signed_digits {digits : List Char} (h : ∀ c ∈ digits, isAsciiDigit c) :
    signed digits = (false, digits) := by
  unfold signed
  split
  · exact absurd (h '-' List.mem_cons_self) (by decide)
  · exact absurd (h '+' List.mem_cons_self) (by decide)
  · rfl

theorem ofDigits_toDigits (n : Nat) : ofDigits (Nat.toDigits 10 n) = n := by
  have hread := @Nat.ofDigitChars_ten_toDigits n
  rw [Nat.ofDigitChars_eq_foldl] at hread
  exact hread

theorem isAsciiDigit_of_mem_toDigits {n : Nat} {c : Char} (h : c ∈ Nat.toDigits 10 n) :
    isAsciiDigit c :=
  Nat.isDigit_of_mem_toDigits (by decide) (by decide) h

/-- What the digits of a number say when they are few enough. -/
theorem readInt?_of_signed {text : List Char} {negative : Bool} {m : Nat}
    (hplain : plain? text = some text)
    (hsigned : signed text = (negative, Nat.toDigits 10 m))
    (h : (Nat.toDigits 10 m).length ≤ maxDigits) :
    readInt? text = some (if negative then -(m : Int) else m) := by
  have hall : (Nat.toDigits 10 m).all isAsciiDigit = true :=
    List.all_eq_true.mpr fun c hc => isAsciiDigit_of_mem_toDigits hc
  have hempty : (Nat.toDigits 10 m).isEmpty = false := by simp
  have hshort : ¬maxDigits < (Nat.toDigits 10 m).length := Nat.not_lt.mpr h
  rw [readInt?, hplain]
  simp only [hsigned, hall, hempty, hshort, ofDigits_toDigits, Bool.not_true, Bool.or_self,
    decide_false, Bool.false_eq_true, if_false]

theorem toList_toString_ofNat (m : Nat) :
    (toString (Int.ofNat m)).toList = Nat.toDigits 10 m := String.toList_ofList

theorem toList_toString_negSucc (m : Nat) :
    (toString (Int.negSucc m)).toList = '-' :: Nat.toDigits 10 (m + 1) := by
  change ("-" ++ String.ofList (Nat.toDigits 10 (m + 1))).toList = _
  simp

theorem digit_or_sign_of_mem_toString {n : Int} {c : Char} (h : c ∈ (toString n).toList) :
    isAsciiDigit c ∨ c = '-' := by
  cases n with
  | ofNat m =>
    rw [toList_toString_ofNat] at h
    exact .inl (isAsciiDigit_of_mem_toDigits h)
  | negSucc m =>
    rw [toList_toString_negSucc] at h
    rcases List.mem_cons.mp h with rfl | hdigit
    · exact .inr rfl
    · exact .inl (isAsciiDigit_of_mem_toDigits hdigit)

theorem toString_ne_nil (n : Int) : (toString n).toList ≠ [] := by
  cases n with
  | ofNat m =>
    rw [toList_toString_ofNat]
    simp
  | negSucc m =>
    rw [toList_toString_negSucc]
    simp

/-- A number of few enough digits is read back from its text. -/
theorem readInt?_toString {n : Int} (h : (Nat.toDigits 10 n.natAbs).length ≤ maxDigits) :
    readInt? (toString n).toList = some n := by
  have hplain : plain? (toString n).toList = some (toString n).toList :=
    plain?_of_digits fun c hc => digit_or_sign_of_mem_toString hc
  cases n with
  | ofNat m =>
    rw [toList_toString_ofNat] at hplain ⊢
    rw [readInt?_of_signed hplain (signed_digits fun c hc => isAsciiDigit_of_mem_toDigits hc) h]
    rfl
  | negSucc m =>
    rw [toList_toString_negSucc] at hplain ⊢
    rw [readInt?_of_signed hplain rfl h]
    rfl

end ViewSchema.Numeral
