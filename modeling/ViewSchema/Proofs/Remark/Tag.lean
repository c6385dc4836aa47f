import Mathlib.Data.List.TakeWhile
import ViewSchema.Proofs.Remark.Pairs
import ViewSchema.Proofs.Text.Cut

/-!
Lines that open with a tag and hold pairs behind it. Such a line says what its pairs say, whatever
tags and marks the values of an operation hold, and as long as the values of a field hold no tag.
-/

namespace ViewSchema

namespace Text

/-- A mark that begins in front of a character it lacks ends in front of it. -/
theorem prefix_of_prefix_append_cons {mark behind : List Char} {c : Char} (front : List Char)
    (hc : c ∉ mark) (h : mark <+: front ++ c :: behind) : mark <+: front := by
  induction front generalizing mark with
  | nil =>
    cases mark with
    | nil => exact List.prefix_rfl
    | cons d mark =>
      obtain ⟨rfl, -⟩ := List.cons_prefix_cons.mp h
      exact absurd List.mem_cons_self hc
  | cons d front ih =>
    cases mark with
    | nil => exact List.nil_prefix
    | cons e mark =>
      obtain ⟨rfl, hrest⟩ := List.cons_prefix_cons.mp h
      exact List.cons_prefix_cons.mpr ⟨rfl, ih (mt (List.mem_cons_of_mem _) hc) hrest⟩

/-- A mark does not reach over a character it lacks. -/
theorem not_infix_append_cons {mark front behind : List Char} {c : Char} (hc : c ∉ mark)
    (hfront : ¬mark <:+: front) (hbehind : ¬mark <:+: behind) :
    ¬mark <:+: front ++ c :: behind := by
  induction front with
  | nil =>
    intro h
    rcases List.infix_cons_iff.mp h with hprefix | hinside
    · exact hfront (prefix_of_prefix_append_cons [] hc hprefix).isInfix
    · exact hbehind hinside
  | cons d front ih =>
    intro h
    rcases List.infix_cons_iff.mp h with hprefix | hinside
    · exact hfront (prefix_of_prefix_append_cons (d :: front) hc hprefix).isInfix
    · exact ih (fun hrest => hfront (hrest.trans (List.suffix_cons d front).isInfix)) hinside

end Text

namespace Remark

open Text

/-- A line has the tag in front and the pairs behind it. -/
def line (tag : List Char) (found : List (List Char × List Char)) : List Char :=
  '#' :: ' ' :: (tag ++ written found)

/-- A text without the tag of a field. -/
def IsFree (text : List Char) : Prop := ¬fieldTag <:+: text

/-- No value holds the tag of a field. -/
def AreFree (found : List (List Char × List Char)) : Prop := ∀ p ∈ found, IsFree p.2

section Scan

variable {tag text content : List Char} {c : Char}

theorem content?_cons (h : ¬tag <+: c :: text) : content? tag (c :: text) = content? tag text := by
  rw [content?, after?_eq_none_iff.mpr h]
  rfl

theorem not_prefix_cons (htag : tag.head? = some '@') (hc : c ≠ '@') : ¬tag <+: c :: text := by
  obtain ⟨letters, rfl⟩ := List.head?_eq_some_iff.mp htag
  intro h
  exact hc (List.cons_prefix_cons.mp h).1.symm

/-- A tag is looked for behind the mark of a comment and a blank. -/
theorem content?_opening (htag : tag.head? = some '@') :
    content? tag ('#' :: ' ' :: text) = content? tag text := by
  rw [content?_cons (not_prefix_cons htag (by decide)),
    content?_cons (not_prefix_cons htag (by decide))]

theorem content?_of_not_infix (h : ¬tag <:+: text) : content? tag text = none := by
  induction text with
  | nil => rfl
  | cons c text ih =>
    rw [content?_cons fun hprefix => h hprefix.isInfix]
    exact ih fun hinside => h (hinside.trans (List.suffix_cons c text).isInfix)

theorem hasMarker_cons (h : ¬fieldTag <+: c :: text) : hasMarker (c :: text) = hasMarker text := by
  rw [hasMarker, after?_eq_none_iff.mpr h]
  exact Bool.false_or _

theorem hasMarker_of_not_infix (h : ¬fieldTag <:+: text) : hasMarker text = false := by
  induction text with
  | nil => rfl
  | cons c text ih =>
    rw [hasMarker_cons fun hprefix => h hprefix.isInfix]
    exact ih fun hinside => h (hinside.trans (List.suffix_cons c text).isInfix)

theorem lastLine?_of_not_mem (hne : text ≠ []) (h : '\n' ∉ text) : lastLine? text = some text := by
  have hall : ∀ c ∈ text, (c != '\n') = true := by
    intro c hc
    rw [bne_iff_ne]
    rintro rfl
    exact h hc
  have htake := List.takeWhile_eq_self_iff.mpr hall
  have hdrop := List.dropWhile_eq_nil_iff.mpr hall
  simp [lastLine?, htake, hdrop, hne]

/-- The content behind a blank is the rest of the line, when no further blank opens it. -/
theorem afterBlanks?_blank (hc : isBlank c = false) (h : '\n' ∉ c :: text) :
    afterBlanks? (' ' :: c :: text) = some (c :: text) := by
  have hnone : afterBlanks? (c :: text) = none := by simp [afterBlanks?, hc]
  rw [afterBlanks?, if_pos (by decide), hnone, lastLine?_of_not_mem (by simp) h]
  rfl

theorem isPrefix_lastLine? (h : lastLine? text = some content) : content <+: text := by
  unfold lastLine? at h
  dsimp only at h
  split at h
  · cases h
  · split at h
    · obtain rfl := Option.some.inj h
      exact List.takeWhile_prefix _
    · cases h

theorem isInfix_afterBlanks? (h : afterBlanks? text = some content) : content <:+: text := by
  induction text with
  | nil => cases h
  | cons c rest ih =>
    rw [afterBlanks?] at h
    split at h
    · rcases Option.or_eq_some_iff.mp h with hlater | ⟨-, hhere⟩
      · exact (ih hlater).trans (List.suffix_cons c rest).isInfix
      · exact (isPrefix_lastLine? hhere).isInfix.trans (List.suffix_cons c rest).isInfix
    · cases h

/-- The content of a tag stands in the comment. -/
theorem isInfix_content? (h : content? tag text = some content) : content <:+: text := by
  induction text with
  | nil => cases h
  | cons c rest ih =>
    rw [content?] at h
    split at h
    · rename_i found hfound
      obtain rfl := Option.some.inj h
      obtain ⟨tail, htail, hblanks⟩ := Option.bind_eq_some_iff.mp hfound
      rw [eq_append_of_after? htail]
      exact (isInfix_afterBlanks? hblanks).trans (List.suffix_append tag tail).isInfix
    · exact (ih h).trans (List.suffix_cons c rest).isInfix

end Scan

section Line

variable {found : List (List Char × List Char)}

theorem not_mem_of_isKey {key : List Char} {c : Char} (h : isKey key) (hc : isWordChar c = false) :
    c ∉ key := by
  intro hmem
  simp only [isKey, Bool.and_eq_true] at h
  rw [List.all_eq_true.mp h.2 c hmem] at hc
  cases hc

theorem not_mem_written {c : Char} (hblank : c ≠ ' ') (hcolon : c ≠ ':')
    (h : ∀ p ∈ found, c ∉ p.1 ∧ c ∉ p.2) : c ∉ written found := by
  induction found with
  | nil => simp [written]
  | cons p rest ih =>
    obtain ⟨⟨hkey, hvalue⟩, hrest⟩ := List.forall_mem_cons.mp h
    simp only [written, List.mem_cons, List.mem_append, not_or]
    exact ⟨hblank, hkey, hcolon, hvalue, ih hrest⟩

theorem isFree_of_not_mem {text : List Char} (h : '@' ∉ text) : IsFree text :=
  fun hinside => h (hinside.subset (by decide))

theorem isFree_cons {c : Char} {text : List Char} (hc : c ∉ fieldTag) (h : IsFree text) :
    IsFree (c :: text) := by
  intro hinside
  rcases List.infix_cons_iff.mp hinside with hprefix | hbehind
  · exact absurd (prefix_of_prefix_append_cons [] hc hprefix) (by decide)
  · exact h hbehind

theorem isFree_written (hkeys : ∀ p ∈ found, isKey p.1) (hfree : AreFree found) :
    IsFree (written found) := by
  induction found with
  | nil => exact isFree_of_not_mem (by simp [written])
  | cons p rest ih =>
    obtain ⟨hkey, hkeys⟩ := List.forall_mem_cons.mp hkeys
    obtain ⟨hvalue, hfree⟩ := List.forall_mem_cons.mp hfree
    have hrest := ih hkeys hfree
    have hname : IsFree p.1 := isFree_of_not_mem (not_mem_of_isKey hkey (by decide))
    have hbehind : IsFree (p.2 ++ written rest) := by
      cases rest with
      | nil =>
        rw [written, List.append_nil]
        exact hvalue
      | cons q rest =>
        rw [written] at hrest ⊢
        refine not_infix_append_cons (by decide) hvalue fun hinside => ?_
        exact hrest (hinside.trans (List.suffix_cons _ _).isInfix)
    rw [written]
    exact isFree_cons (by decide) (not_infix_append_cons (by decide) hname hbehind)

theorem IsValue.exists_last {raw : List Char} (h : IsValue raw) :
    ∃ front last, raw = front ++ [last] ∧ isBlank last = false := by
  cases h with
  | bare h =>
    exact ⟨raw.dropLast, raw.getLast h.nonempty, (List.dropLast_concat_getLast _).symm,
      h.unbroken _ (List.getLast_mem _)⟩
  | @quoted text h => exact ⟨doubleQuote :: text, doubleQuote, rfl, by decide⟩
  | @bracketed text h => exact ⟨'[' :: text, ']', rfl, by decide⟩

theorem exists_last_written (hfound : found ≠ []) (h : ∀ p ∈ found, IsWritable p) :
    ∃ front last, written found = front ++ [last] ∧ isBlank last = false := by
  obtain ⟨front, last, hraw, hlast⟩ := (h _ (List.getLast_mem hfound)).value.exists_last
  have hsplit := written_append found.dropLast [found.getLast hfound]
  rw [List.dropLast_concat_getLast] at hsplit
  refine ⟨written found.dropLast ++ ' ' :: ((found.getLast hfound).1 ++ ':' :: front), last, ?_,
    hlast⟩
  rw [hsplit]
  simp [written, hraw]

/-- Behind a blank, what a line says opens and ends without blanks. -/
theorem exists_content (hfound : found ≠ []) (h : ∀ p ∈ found, IsWritable p) :
    ∃ first inner last, written found = ' ' :: first :: (inner ++ [last]) ∧
      isBlank first = false ∧ isBlank last = false := by
  obtain ⟨front, last, hend, hlast⟩ := exists_last_written hfound h
  cases found with
  | nil => exact absurd rfl hfound
  | cons p others =>
    obtain ⟨key, raw⟩ := p
    have hkey := (h (key, raw) List.mem_cons_self).key
    cases key with
    | nil => cases hkey
    | cons first letters =>
      rw [isKey_cons, Bool.and_eq_true] at hkey
      refine ⟨first, ?_⟩
      rw [written] at hend ⊢
      have hne : letters ++ ':' :: (raw ++ written others) ≠ [] := by simp
      have hsame : (letters ++ ':' :: (raw ++ written others)).getLast hne = last := by
        have hgetLast := congrArg List.getLast? hend
        rw [List.cons_append, ← List.dropLast_concat_getLast hne] at hgetLast
        simpa [List.getLast?_append, List.getLast?_cons] using hgetLast
      refine ⟨(letters ++ ':' :: (raw ++ written others)).dropLast, last, ?_,
        isBlank_of_isWordChar hkey.1, hlast⟩
      rw [List.cons_append, ← hsame, List.dropLast_concat_getLast hne]

theorem break_not_mem_written (h : ∀ p ∈ found, IsWritable p) : '\n' ∉ written found :=
  not_mem_written (by decide) (by decide) fun p hp =>
    ⟨not_mem_of_isKey (h p hp).key (by decide), (h p hp).oneLine⟩

/-- A line opens and ends without blanks. -/
theorem trim_line (tag : List Char) (hfound : found ≠ []) (h : ∀ p ∈ found, IsWritable p) :
    trim (line tag found) = line tag found := by
  obtain ⟨front, last, hend, hlast⟩ := exists_last_written hfound h
  refine trimBy_eq_self rfl ?_
  rw [line, hend, ← List.append_assoc, ← List.cons_append, ← List.cons_append,
    List.getLast?_concat]
  simp [hlast]

/-- The content of the tag of a line, and the pairs in it. -/
theorem content?_line (letters : List Char) (hfound : found ≠ []) (h : ∀ p ∈ found, IsWritable p) :
    ∃ content, written found = ' ' :: content ∧
      content? ('@' :: letters) (line ('@' :: letters) found) = some content ∧
      pairs (trim content) = found := by
  obtain ⟨first, inner, last, hcontent, hfirst, hlast⟩ := exists_content hfound h
  have hbreak := break_not_mem_written h
  rw [hcontent, List.mem_cons, not_or] at hbreak
  refine ⟨first :: (inner ++ [last]), hcontent, ?_, ?_⟩
  · have hafter : after? ('@' :: letters) ('@' :: (letters ++ written found)) =
        some (written found) := after?_append ('@' :: letters) _
    rw [line, content?_opening rfl, List.cons_append, content?, hafter]
    simp [hcontent, afterBlanks?_blank hfirst hbreak.2]
  · have hpairs := pairs_written h
    rw [hcontent, pairs_of_not_word (by decide)] at hpairs
    have htrim : trim (first :: (inner ++ [last])) = first :: (inner ++ [last]) := by
      refine trimBy_eq_self (by simp [hfirst]) ?_
      rw [← List.cons_append, List.getLast?_concat]
      simp [hlast]
    rw [htrim, hpairs]

/-- A line with the tag of an operation says what its pairs say about the operation. -/
theorem of?_operationLine (hfound : found ≠ []) (h : ∀ p ∈ found, IsWritable p)
    (hsaid : operationAttributes found ≠ []) :
    of? (line operationTag found) = some (.operation (operationAttributes found)) := by
  obtain ⟨content, -, hcontent, hpairs⟩ :=
    content?_line "openapi_operation".toList hfound h
  have htag : operationTag = '@' :: "openapi_operation".toList := by decide
  have hoperation : operationOf? (line operationTag found) =
      some (.operation (operationAttributes found)) := by
    rw [operationOf?, htag, hcontent, Option.bind_some, hpairs]
    split
    · rename_i hnone
      exact absurd hnone hsaid
    · rfl
  rw [of?, hoperation]
  rfl

/-- Behind the sign of its tag, the line of a field holds no tag. -/
theorem isFree_behind_sign (h : ∀ p ∈ found, IsWritable p) (hfree : AreFree found) :
    IsFree ("openapi".toList ++ written found) := by
  have hwritten := isFree_written (fun p hp => (h p hp).key) hfree
  cases found with
  | nil => exact isFree_of_not_mem (by decide)
  | cons p rest =>
    rw [written] at hwritten ⊢
    refine not_infix_append_cons (by decide) (isFree_of_not_mem (by decide)) fun hinside => ?_
    exact hwritten (hinside.trans (List.suffix_cons _ _).isInfix)

theorem operationContent?_fieldLine (h : ∀ p ∈ found, IsWritable p) (hfree : AreFree found) :
    content? operationTag (line fieldTag found) = none := by
  have hbehind := isFree_behind_sign h hfree
  have hopens : fieldTag <+: operationTag := by decide
  have hfield : fieldTag = '@' :: "openapi".toList := by decide
  have hoperation : operationTag = '@' :: "openapi_operation".toList := by decide
  have hnone : content? operationTag ("openapi".toList ++ written found) = none :=
    content?_of_not_infix fun hinside => hbehind (hopens.isInfix.trans hinside)
  have htag : ¬operationTag <+: '@' :: ("openapi".toList ++ written found) := by
    cases found with
    | nil => decide
    | cons p rest => simp [hoperation, written, List.cons_prefix_cons]
  rw [line, content?_opening (by decide), hfield, List.cons_append, content?_cons htag, hnone]

/-- The content of a line opens the marker only as its one pair. -/
theorem eq_marker_of_content {content final : List Char} (h : ∀ p ∈ found, IsWritable p)
    (hcontent : written found = ' ' :: content)
    (hmarker : content = "conditional:true".toList ++ final) (hfinal : final.all isBlank) :
    found = [("conditional".toList, "true".toList)] := by
  have hopens : final.head?.all isBlank := by
    cases final with
    | nil => rfl
    | cons c rest => exact (Bool.and_eq_true_iff.mp hfinal).1
  have hvalue : rawValue? ("true".toList ++ final) = some ("true".toList, final) :=
    rawValue?_append (.bare (by decide)) hopens
  have hkey : isKey "conditional".toList := by decide
  have hsplit : content = "conditional".toList ++ ':' :: ("true".toList ++ final) := hmarker
  rw [← pairs_written h, hcontent, pairs_of_not_word (by decide), hsplit, pairs_key hkey hvalue,
    pairs_of_blank hfinal]

theorem hasMarker_fieldLine (hfound : found ≠ []) (h : ∀ p ∈ found, IsWritable p)
    (hfree : AreFree found) (hmarker : found ≠ [("conditional".toList, "true".toList)]) :
    hasMarker (line fieldTag found) = false := by
  obtain ⟨first, inner, last, hcontent, hfirst, -⟩ := exists_content hfound h
  have hfield : fieldTag = '@' :: "openapi".toList := by decide
  have hafter : after? fieldTag ('@' :: ("openapi".toList ++ written found)) =
      some (written found) := after?_append fieldTag _
  have hdrop : (written found).dropWhile isBlank = first :: (inner ++ [last]) := by
    rw [hcontent, List.dropWhile_cons_of_pos (by decide),
      List.dropWhile_cons_of_neg (by simp [hfirst])]
  rw [line, hasMarker_cons (not_prefix_cons (by decide) (by decide)),
    hasMarker_cons (not_prefix_cons (by decide) (by decide)), hfield, List.cons_append, hasMarker,
    hafter, hasMarker_of_not_infix (isFree_behind_sign h hfree)]
  simp only [hdrop, Bool.or_false]
  split
  · rfl
  · rename_i final hfinal
    rw [Bool.eq_false_iff]
    intro hall
    rw [Bool.and_eq_true] at hall
    exact hmarker (eq_marker_of_content h hcontent (eq_append_of_after? hfinal) hall.2)

/-- A line with the tag of a field says what its pairs say about the field. -/
theorem of?_fieldLine (hfound : found ≠ []) (h : ∀ p ∈ found, IsWritable p)
    (hfree : AreFree found) (hmarker : found ≠ [("conditional".toList, "true".toList)]) :
    of? (line fieldTag found) = (fieldAttributes found).map .field := by
  obtain ⟨content, -, hcontent, hpairs⟩ := content?_line "openapi".toList hfound h
  have htag : fieldTag = '@' :: "openapi".toList := by decide
  have hnone := operationContent?_fieldLine h hfree
  have hoperation : operationOf? (line fieldTag found) = none := by
    rw [operationOf?, hnone]
    rfl
  rw [of?, hoperation, Option.none_or, fieldOf?, hnone, hasMarker_fieldLine hfound h hfree hmarker]
  rw [htag, hcontent]
  simp [hpairs]

end Line

end Remark
end ViewSchema
