import ViewSchema.Proofs.Text.Trim
import ViewSchema.Remark

/-!
Pairs as a line holds them: each behind a blank, its value bare, in double quotes or in brackets.
Whatever the values hold, the pairs of such a line are the pairs it was written for. In any other
text, a pair stands where its key and its value stand. A value that is bare, quoted or bracketed
gives what stands in it.
-/

namespace ViewSchema.Remark

open Text

/-- A text that can be the key of a pair: word characters, one at least. -/
def isKey (text : List Char) : Bool := !text.isEmpty && text.all isWordChar

/-- A value that ends at the next blank. -/
structure IsBare (text : List Char) : Prop where
  nonempty : text ≠ []
  unbroken : ∀ c ∈ text, isBlank c = false
  unquoted : text.head? ≠ some doubleQuote
  unbracketed : text.head? ≠ some '['

theorem isBare_iff {text : List Char} :
    IsBare text ↔ text ≠ [] ∧ (text.all fun c => !isBlank c) ∧ text.head? ≠ some doubleQuote ∧
      text.head? ≠ some '[' := by
  simp only [List.all_eq_true, Bool.not_eq_true']
  exact ⟨fun h => ⟨h.nonempty, h.unbroken, h.unquoted, h.unbracketed⟩,
    fun ⟨hne, hall, hquote, hbracket⟩ => ⟨hne, hall, hquote, hbracket⟩⟩

instance (text : List Char) : Decidable (IsBare text) := decidable_of_iff _ isBare_iff.symm

/-- A value as it is written behind the colon of its pair. -/
inductive IsValue : List Char → Prop where
  | bare {text : List Char} (h : IsBare text) : IsValue text
  | quoted {text : List Char} (h : doubleQuote ∉ text) :
    IsValue (doubleQuote :: (text ++ [doubleQuote]))
  | bracketed {text : List Char} (h : ']' ∉ text) : IsValue ('[' :: (text ++ [']']))

/-- The pairs in their order, each behind a blank. -/
def written : List (List Char × List Char) → List Char
  | [] => []
  | (key, raw) :: rest => ' ' :: (key ++ ':' :: (raw ++ written rest))

/-- A pair that a line can hold. -/
structure IsWritable (p : List Char × List Char) : Prop where
  key : isKey p.1
  value : IsValue p.2
  oneLine : '\n' ∉ p.2

theorem written_append (first second : List (List Char × List Char)) :
    written (first ++ second) = written first ++ written second := by
  induction first with
  | nil => rfl
  | cons p rest ih => simp [written, ih]

theorem isBlank_head_written (found : List (List Char × List Char)) :
    (written found).head?.all isBlank := by
  cases found with
  | nil => rfl
  | cons p rest => rfl

theorem takeWhile_key {key : List Char} (h : isKey key) (rest : List Char)
    (hrest : rest.head?.all fun c => !isWordChar c) :
    (key ++ rest).takeWhile isWordChar = key ∧ (key ++ rest).dropWhile isWordChar = rest := by
  simp only [isKey, Bool.and_eq_true] at h
  have hall : ∀ c ∈ key, isWordChar c = true := List.all_eq_true.mp h.2
  rw [List.takeWhile_append_of_pos hall, List.dropWhile_append_of_pos hall]
  cases rest with
  | nil => simp
  | cons c rest =>
    have hc : isWordChar c = false := by simpa using hrest
    simp [hc]

theorem isKey_cons {c : Char} {rest : List Char} :
    isKey (c :: rest) = (isWordChar c && rest.all isWordChar) := by
  simp [isKey]

/-- The keys that scanning comes to are keys. -/
theorem isKey_takeWhile {c : Char} (h : isWordChar c) (rest : List Char) :
    isKey (c :: rest.takeWhile isWordChar) := by
  rw [isKey_cons, h, Bool.true_and]
  exact List.all_takeWhile

section Value

variable {close : Char} {text rest raw tail : List Char}

theorem enclosed?_append (h : close ∉ text) (rest : List Char) :
    enclosed? close (text ++ close :: rest) = some (text ++ [close], rest) := by
  induction text with
  | nil => simp [enclosed?]
  | cons c text ih =>
    obtain ⟨hc, htext⟩ := not_or.mp (mt List.mem_cons.mpr h)
    have hne : (c == close) = false := by simpa using Ne.symm hc
    simp [enclosed?, hne, ih htext]

theorem eq_append_of_enclosed? {found : List Char × List Char}
    (h : enclosed? close text = some found) :
    ∃ inner, found.1 = inner ++ [close] ∧ close ∉ inner ∧ text = found.1 ++ found.2 := by
  induction text generalizing found with
  | nil => cases h
  | cons c text ih =>
    rw [enclosed?] at h
    split at h
    · rename_i hsame
      cases h
      exact ⟨[], by rw [eq_of_beq hsame]; rfl, by simp, rfl⟩
    · rename_i hother
      obtain ⟨behind, hbehind, rfl⟩ := Option.map_eq_some_iff.mp h
      obtain ⟨inner, hinner, hclose, htext⟩ := ih hbehind
      refine ⟨c :: inner, by rw [hinner]; rfl, ?_, by rw [htext]; rfl⟩
      rw [List.mem_cons, not_or]
      exact ⟨fun hsame => hother (by rw [hsame]; exact beq_self_eq_true c), hclose⟩

/-- A written value is read up to its end when a blank follows, or nothing. -/
theorem rawValue?_append (h : IsValue raw) (hrest : rest.head?.all isBlank) :
    rawValue? (raw ++ rest) = some (raw, rest) := by
  cases h with
  | bare h =>
    cases raw with
    | nil => exact absurd rfl h.nonempty
    | cons c more =>
      obtain ⟨hblank, hmore⟩ := List.forall_mem_cons.mp h.unbroken
      have hquote : (c == doubleQuote) = false := by simpa using h.unquoted
      have hbracket : (c == '[') = false := by simpa using h.unbracketed
      have hall : ∀ c ∈ more, (!isBlank c) = true := by simpa using hmore
      have hends : rest.takeWhile (!isBlank ·) = [] ∧ rest.dropWhile (!isBlank ·) = rest := by
        cases rest with
        | nil => exact ⟨rfl, rfl⟩
        | cons d rest =>
          have hd : isBlank d = true := by simpa using hrest
          simp [hd]
      simp only [List.cons_append, rawValue?, hblank, hquote, hbracket, Bool.false_eq_true,
        if_false, List.takeWhile_append_of_pos hall, List.dropWhile_append_of_pos hall, hends,
        List.append_nil]
  | @quoted text h =>
    have hclosed := enclosed?_append h rest
    have hblank : isBlank doubleQuote = false := by decide
    simp [rawValue?, hblank, hclosed]
  | @bracketed text h =>
    have hclosed := enclosed?_append h rest
    have hblank : isBlank '[' = false := by decide
    have hquote : ('[' == doubleQuote) = false := by decide
    simp [rawValue?, hblank, hquote, hclosed]

theorem eq_append_of_rawValue? (h : rawValue? text = some (raw, tail)) : text = raw ++ tail := by
  cases text with
  | nil => cases h
  | cons c rest =>
    rw [rawValue?] at h
    split at h
    · cases h
    · dsimp only at h
      split at h
      · rename_i value behind hclosed
        obtain ⟨rfl, rfl⟩ := Prod.mk.inj (Option.some.inj h)
        have hrest : rest = value ++ behind := by
          split at hclosed
          · obtain ⟨inner, -, -, hrest⟩ := eq_append_of_enclosed? hclosed
            exact hrest
          · split at hclosed
            · obtain ⟨inner, -, -, hrest⟩ := eq_append_of_enclosed? hclosed
              exact hrest
            · cases hclosed
        rw [hrest]
        rfl
      · obtain ⟨rfl, rfl⟩ := Prod.mk.inj (Option.some.inj h)
        rw [List.cons_append, List.takeWhile_append_dropWhile]

theorem unquoted_of_not_wrapped (htrim : Text.trim text = text)
    (h : ∀ inner, text ≠ doubleQuote :: (inner ++ [doubleQuote])) : unquoted text = text := by
  unfold unquoted
  rw [htrim]
  cases text with
  | nil => rfl
  | cons first rest =>
    have hends : (first == doubleQuote && rest.getLast? == some doubleQuote) = false := by
      rw [Bool.eq_false_iff]
      intro hboth
      simp only [Bool.and_eq_true, beq_iff_eq] at hboth
      obtain ⟨rfl, hlast⟩ := hboth
      obtain ⟨inner, rfl⟩ := List.getLast?_eq_some_iff.mp hlast
      exact h inner rfl
    simp [hends]

theorem unquoted_bare (h : IsBare text) : unquoted text = text := by
  refine unquoted_of_not_wrapped (trimBy_of_not_mem h.unbroken) ?_
  rintro inner rfl
  exact h.unquoted rfl

theorem unquoted_quoted (text : List Char) :
    unquoted (doubleQuote :: (text ++ [doubleQuote])) = text := by
  have htrim : Text.trim (doubleQuote :: (text ++ [doubleQuote])) =
      doubleQuote :: (text ++ [doubleQuote]) := by
    refine trimBy_eq_self rfl ?_
    rw [← List.cons_append, List.getLast?_concat]
    rfl
  unfold unquoted
  rw [htrim]
  simp

theorem unquoted_bracketed (text : List Char) :
    unquoted ('[' :: (text ++ [']'])) = '[' :: (text ++ [']']) := by
  refine unquoted_of_not_wrapped (trimBy_eq_self rfl ?_) fun inner h => ?_
  · rw [← List.cons_append, List.getLast?_concat]
    rfl
  · exact absurd (List.cons.inj h).1 (by decide)

end Value

theorem pairs_of_not_word {c : Char} (h : isWordChar c = false) (rest : List Char) :
    pairs (c :: rest) = pairs rest := by
  rw [pairs, if_neg (by simp [h])]

theorem pairs_of_blank {text : List Char} (h : text.all isBlank) : pairs text = [] := by
  induction text with
  | nil => rw [pairs]
  | cons c rest ih =>
    obtain ⟨hc, hrest⟩ := Bool.and_eq_true_iff.mp h
    have hword : isWordChar c = false := by
      rw [Bool.eq_false_iff]
      intro hword
      rw [isBlank_of_isWordChar hword] at hc
      cases hc
    rw [pairs_of_not_word hword, ih hrest]

/-- A run of word characters without a colon behind it is passed over. -/
theorem pairs_word {word tail : List Char} (hword : isKey word)
    (htail : tail.head?.all fun c => !isWordChar c) (hcolon : tail.head? ≠ some ':') :
    pairs (word ++ tail) = pairs tail := by
  cases word with
  | nil => cases hword
  | cons first letters =>
    have hdrop := (takeWhile_key hword tail htail).2
    rw [isKey_cons, Bool.and_eq_true] at hword
    rw [List.cons_append, List.dropWhile_cons_of_pos hword.1] at hdrop
    rw [List.cons_append, pairs, if_pos hword.1]
    dsimp only
    split
    · rename_i value hvalue
      rw [← hdrop, hvalue] at hcolon
      exact absurd rfl hcolon
    · rw [hdrop]

/-- A key with its colon gives a pair, if a value follows. -/
theorem pairs_colon {key : List Char} (hkey : isKey key) (value : List Char) :
    pairs (key ++ ':' :: value) =
      match rawValue? value with
      | some (raw, tail) => (key, raw) :: pairs tail
      | none => pairs value := by
  cases key with
  | nil => cases hkey
  | cons first letters =>
    obtain ⟨htake, hdrop⟩ := takeWhile_key hkey (':' :: value) rfl
    rw [isKey_cons, Bool.and_eq_true] at hkey
    rw [List.cons_append, List.takeWhile_cons_of_pos hkey.1] at htake
    rw [List.cons_append, List.dropWhile_cons_of_pos hkey.1] at hdrop
    rw [List.cons_append, pairs, if_pos hkey.1, htake]
    dsimp only
    split
    · rename_i found hcolon
      rw [hdrop] at hcolon
      obtain rfl := (List.cons.inj hcolon).2
      split <;> rename_i hfound <;> rw [hfound]
    · rename_i hother
      exact absurd hdrop (hother value)

/-- A key with its colon and a value is a pair. -/
theorem pairs_key {key value raw tail : List Char} (hkey : isKey key)
    (hvalue : rawValue? value = some (raw, tail)) :
    pairs (key ++ ':' :: value) = (key, raw) :: pairs tail := by
  rw [pairs_colon hkey, hvalue]

/-- Pairs that are written on a line are found there again. -/
theorem pairs_written {found : List (List Char × List Char)} (h : ∀ p ∈ found, IsWritable p) :
    pairs (written found) = found := by
  induction found with
  | nil => rw [written, pairs]
  | cons p rest ih =>
    obtain ⟨hp, hrest⟩ := List.forall_mem_cons.mp h
    rw [written, pairs_of_not_word (by decide),
      pairs_key hp.key (rawValue?_append hp.value (isBlank_head_written rest)), ih hrest]

/-- A pair of a text stands in it. -/
theorem exists_of_mem_pairs {text : List Char} {p : List Char × List Char} (h : p ∈ pairs text) :
    isKey p.1 ∧ ∃ before tail, text = before ++ (p.1 ++ ':' :: (p.2 ++ tail)) ∧
      rawValue? (p.2 ++ tail) = some (p.2, tail) := by
  fun_induction pairs text with
  | case1 => cases h
  | case2 c rest hword key value htail raw tail hfound ih =>
    have htext : c :: rest = key ++ ':' :: value := by
      rw [← htail]
      simp only [key, List.cons_append, List.takeWhile_append_dropWhile]
    have hvalue := eq_append_of_rawValue? hfound
    rcases List.mem_cons.mp h with rfl | hlater
    · exact ⟨isKey_takeWhile hword rest, [], tail, by rw [htext, hvalue]; rfl, by rwa [← hvalue]⟩
    · obtain ⟨hkey, before, behind, hsplit, hraw⟩ := ih hlater
      refine ⟨hkey, key ++ ':' :: (raw ++ before), behind, ?_, hraw⟩
      rw [htext, hvalue, hsplit]
      simp
  | case3 c rest hword value htail hnone ih =>
    have htext : c :: rest = c :: (rest.takeWhile isWordChar ++ ':' :: value) := by
      rw [← htail, List.takeWhile_append_dropWhile]
    obtain ⟨hkey, before, behind, hsplit, hraw⟩ := ih h
    refine ⟨hkey, c :: (rest.takeWhile isWordChar ++ ':' :: before), behind, ?_, hraw⟩
    rw [htext, hsplit]
    simp
  | case4 c rest hword hcolon ih =>
    have htext : c :: rest = c :: (rest.takeWhile isWordChar ++ rest.dropWhile isWordChar) := by
      rw [List.takeWhile_append_dropWhile]
    obtain ⟨hkey, before, behind, hsplit, hraw⟩ := ih h
    refine ⟨hkey, c :: (rest.takeWhile isWordChar ++ before), behind, ?_, hraw⟩
    rw [htext, hsplit]
    simp
  | case5 c rest hword ih =>
    obtain ⟨hkey, before, behind, hsplit, hraw⟩ := ih h
    exact ⟨hkey, c :: before, behind, by rw [hsplit]; rfl, hraw⟩

end ViewSchema.Remark
