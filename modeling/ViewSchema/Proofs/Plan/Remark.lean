import ViewSchema.Proofs.Plan.Template
import ViewSchema.Proofs.Record
import ViewSchema.Proofs.Remark.Tag
import ViewSchema.Walk.Lookup

/-!
What the comments in the template of a plan say. The comment in front of a property gives its name
and its type and nothing else; the comment in front of a condition is the marker.
-/

namespace ViewSchema.Remark

open Text

/-- A word that names a type and is no truth value. -/
def isTypeWord : List Char → Bool
  | [] => false
  | first :: rest => isSmall first && rest.all isSmall && first != 't'

theorem isTypeWord_cons {type : List Char} (h : isTypeWord type) :
    type ≠ [] ∧ (∀ c ∈ type, isSmall c) ∧ type.head? ≠ some 't' := by
  cases type with
  | nil => cases h
  | cons first rest =>
    simp only [isTypeWord, Bool.and_eq_true, bne_iff_ne] at h
    refine ⟨by simp, ?_, by simpa using h.2⟩
    intro c hc
    rcases List.mem_cons.mp hc with rfl | hrest
    · exact h.1.1
    · exact List.all_eq_true.mp h.1.2 c hrest

theorem isPlain_of_mem {name : List Char} (h : isPlainName name) {c : Char} (hc : c ∈ name) :
    isPlain c := by
  cases name with
  | nil => cases h
  | cons first letters =>
    simp only [isPlainName, Bool.and_eq_true] at h
    rcases List.mem_cons.mp hc with rfl | hrest
    · exact isPlain_of_isSmall h.1
    · exact List.all_eq_true.mp h.2 c hrest

theorem isKey_of_isPlainName {name : List Char} (h : isPlainName name) : isKey name := by
  have hne : name.isEmpty = false := by
    cases name with
    | nil => cases h
    | cons first letters => rfl
  rw [isKey, hne, Bool.not_false, Bool.true_and, List.all_eq_true]
  exact fun c hc => isWordChar_of_isPlain (isPlain_of_mem h hc)

theorem isBare_of_isTypeWord {type : List Char} (h : isTypeWord type) : IsBare type := by
  obtain ⟨hne, hsmall, -⟩ := isTypeWord_cons h
  have hopens : ∀ c, isSmall c = false → type.head? ≠ some c := by
    intro c hc hhead
    rw [hsmall c (List.mem_of_mem_head? hhead)] at hc
    cases hc
  exact ⟨hne, fun c hc => isBlank_of_isWordChar
    (isWordChar_of_isPlain (isPlain_of_isSmall (hsmall c hc))), hopens _ (by decide),
    hopens _ (by decide)⟩

section Comment

variable {name type : List Char} (hname : isPlainName name) (htype : isTypeWord type)
include hname htype

theorem isWritable_field : ∀ p ∈ [(name, type)], IsWritable p := by
  have hbare := isBare_of_isTypeWord htype
  have hbreak : '\n' ∉ type := fun hmem => absurd (hbare.unbroken _ hmem) (by decide)
  exact List.forall_mem_singleton.mpr ⟨isKey_of_isPlainName hname, .bare hbare, hbreak⟩

/-- The comment in front of a property has no blanks around it. -/
theorem trim_fieldComment : trim (line fieldTag [(name, type)]) = line fieldTag [(name, type)] :=
  trim_line fieldTag (by simp) (isWritable_field hname htype)

/-- What a comment in front of a property says. -/
theorem of?_fieldComment :
    of? (line fieldTag [(name, type)]) =
      some (.field [("field_name", .text (String.ofList name)),
        ("type", .text (String.ofList type))]) := by
  obtain ⟨-, hsmall, hopens⟩ := isTypeWord_cons htype
  have hfree : AreFree [(name, type)] := List.forall_mem_singleton.mpr <|
    isFree_of_not_mem fun hsign => absurd (hsmall _ hsign) (by decide)
  have hmarker : [(name, type)] ≠ [("conditional".toList, "true".toList)] := by
    rintro hsame
    obtain ⟨-, rfl⟩ := Prod.mk.inj (List.cons.inj hsame).1
    exact hopens rfl
  have hattributes : fieldAttributes [(name, type)] =
      some [("field_name", .text (String.ofList name)), ("type", .text (String.ofList type))] := by
    have hplain : ∀ key : String, key ≠ "field_name" → key ≠ "type" →
        Record.find? [("field_name", .text (String.ofList name)),
          ("type", .text (String.ofList type))] key = none := by
      intro key hfield hkey
      rw [Record.find?_cons, if_neg hfield, Record.find?_cons, if_neg hkey]
      rfl
    simp only [fieldAttributes, unquoted_bare (isBare_of_isTypeWord htype), List.foldl_nil,
      withExample, hplain "example" (by decide) (by decide),
      hplain "default" (by decide) (by decide)]
  rw [of?_fieldLine (by simp) (isWritable_field hname htype) hfree hmarker, hattributes]
  rfl

end Comment

end ViewSchema.Remark
