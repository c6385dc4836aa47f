import ViewSchema.Proofs.CommentLine.Property
import ViewSchema.Proofs.Note
import ViewSchema.Proofs.Stub

/-!
The comment lines of stubs, read back. Where the name of a node can be the key of a pair, its stub
gives the name, the type of the structure and whether the node may be absent; where it cannot, no
remark with that name stands in the stub.
-/

namespace ViewSchema

open Text Remark CommentLine

/-- The comment gives a field the name and the type, and says when it may be absent. -/
def Remark.Describes (comment name type : String) (required : Bool) : Prop :=
  ∃ attributes, of? comment.toList = some (.field attributes) ∧
    attributes.find? "field_name" = some (.text name) ∧
    attributes.find? "type" = some (.text type) ∧
    (attributes.find? "required" = some (.bool false) ↔ required = false)

theorem Remark.unquoted_sublist (raw : List Char) : List.Sublist (unquoted raw) raw := by
  have htrim : List.Sublist (trim raw) raw := (isInfix_trimBy _ raw).sublist
  unfold unquoted
  dsimp only
  split
  · rename_i first rest hsplit
    split
    · rw [hsplit] at htrim
      exact (List.dropLast_sublist rest).trans ((List.sublist_cons_self first rest).trans htrim)
    · exact htrim
  · exact List.nil_sublist raw

/-- The name of a field is the key of its first pair, or else the value of a later pair, whose key
has an underscore more than the name. -/
theorem Remark.isKey_or_count_lt {text : List Char} {attributes : Record} {name : String}
    (h : of? text = some (.field attributes))
    (hname : attributes.find? "field_name" = some (.text name)) :
    isKey name.toList ∨ name.toList.count '_' < text.count '_' := by
  obtain ⟨content, hcontent, hpairs⟩ := exists_pairs_of_field h
  rcases fieldAttributes_cases (by decide) (by decide) hpairs hname with
    ⟨p, hp, ⟨-, hvalue⟩ | ⟨htype, -⟩⟩ | ⟨p, hp, hkey, hvalue⟩
  · obtain rfl := Value.text.inj hvalue
    rw [String.toList_ofList]
    exact .inl (exists_of_mem_pairs hp).1
  · exact absurd htype (by decide)
  · right
    rw [attributeValue_text (by decide) (by decide) (by decide)] at hvalue
    obtain rfl := Value.text.inj hvalue
    obtain ⟨-, before, tail, hsplit, -⟩ := exists_of_mem_pairs hp
    have hraw := (unquoted_sublist p.2).count_le '_'
    have hmore := hcontent.sublist.count_le '_'
    have hone : p.1.count '_' = 1 := by
      rw [← String.toList_ofList (l := p.1), hkey]
      decide
    rw [hsplit] at hmore
    simp only [List.count_append, List.count_cons, hone] at hmore
    rw [String.toList_ofList]
    omega

namespace CommentLine

/-- The details that take a remark to be known. -/
def remarkKeys : List String := ["description", "enum", "format", "minimum", "maximum"]

section Silent

variable {r : Record} (h : ∀ key ∈ remarkKeys, r.get key = .null)
include h

theorem detailPairs_of_silent : detailPairs r = itemsPairs r ++ optionalPairs r := by
  simp only [remarkKeys, List.forall_mem_cons] at h
  obtain ⟨hdescription, hchoices, hformat, hminimum, hmaximum, -⟩ := h
  simp only [detailPairs, quotedPairs, listPairs, plainPairs, boundPairs,
    isGiven_of_null hdescription, isGiven_of_null hchoices, isGiven_of_null hformat, hminimum,
    hmaximum, Bool.false_eq_true, if_false, List.append_nil]

theorem describedDetails_of_silent (type : String) :
    describedDetails r type = describedItems r type ++ describedOptional r := by
  simp only [remarkKeys, List.forall_mem_cons] at h
  obtain ⟨hdescription, hchoices, hformat, hminimum, hmaximum, -⟩ := h
  simp only [describedDetails, presentSoftened, present, hdescription, hchoices, hformat, hminimum,
    hmaximum, List.append_nil]

end Silent

end CommentLine

namespace Shape

/-- The type in the stub of a node: that of its structure, and a text for a simple value. -/
def stubType : Shape → String
  | .array .. => "array"
  | .simple _ => "string"
  | _ => "object"

/-- The type in a stub is one bare word. -/
theorem stubType_word (s : Shape) :
    IsBare s.stubType.toList ∧ '@' ∉ s.stubType.toList ∧ '_' ∉ s.stubType.toList ∧
      s.stubType ≠ "true" := by
  have htype : s.stubType ∈ ["array", "string", "object"] := by
    cases s with
    | array => exact .head _
    | simple => exact .tail _ (.head _)
    | _ => exact .tail _ (.tail _ (.head _))
  generalize s.stubType = type at htype
  revert type
  decide

/-- What the stub of a node is written from. -/
def stubRecord (path : String) (s : Shape) : Record := (s.property path).toRecord

section Blank

variable {s : Shape} (h : s.note = .blank) (path : String)
include h

theorem itemType_blank :
    s.itemType = .null ∨ s.itemType = .text "array" ∨ s.itemType = .text "object" := by
  cases s with
  | array f isRoot items =>
    have hblank : f.note = .blank := h
    cases items with
    | nil =>
      left
      simp [itemType, notedItemType, hblank, Note.blank]
    | cons item rest =>
      right
      cases item with
      | array => exact .inl rfl
      | _ => exact .inr rfl
  | simple f =>
    have hblank : f.note = .blank := h
    left
    simp [itemType, propertyType, notedItemType, note, facts, hblank, Note.blank]
  | _ => exact .inl rfl

theorem typeText_stub : typeText (s.stubRecord path) = s.stubType.toList := by
  cases s with
  | simple f =>
    have hblank : f.note = .blank := h
    have htype : (stubRecord path (.simple f)).get "type" = .text missingComment := by
      change Value.text (propertyType (.simple f)) = _
      simp [propertyType, hblank, Note.blank]
    rw [typeText, htype]
    rfl
  | _ => rfl

/-- A node without a remark has nothing to say about itself but its items. -/
theorem silent_stubRecord : ∀ key ∈ remarkKeys, (s.stubRecord path).get key = .null := by
  have hproperty : s.property path =
      { path, name := s.name, typeName := s.propertyType, description := none,
        required := s.isRequired, conditional := s.facts.conditional, line := s.facts.line,
        annotated := false, choices := .null, format := none, items := s.itemType,
        minimum := .null, maximum := .null } := by
    unfold property
    rw [h]
    rfl
  rw [stubRecord, hproperty]
  simp only [remarkKeys, List.forall_mem_cons]
  exact ⟨rfl, rfl, rfl, rfl, rfl, List.forall_mem_nil _⟩

theorem hasDetails_stub : HasDetails (s.stubRecord path) s.stubType := by
  have hitems : MayBeText (s.stubRecord path) "items" fun text => IsBare text ∧ IsFree text := by
    rcases itemType_blank h with hnone | harray | hobject
    · exact .inl hnone
    · exact .inr ⟨"array", harray, by decide, isFree_of_not_mem (by decide)⟩
    · exact .inr ⟨"object", hobject, by decide, isFree_of_not_mem (by decide)⟩
  exact
    { items := fun _ => hitems
      required := ⟨s.isRequired, rfl⟩
      description := .inl (silent_stubRecord h path _ (by decide))
      choices := .inl (silent_stubRecord h path _ (by decide))
      format := .inl (silent_stubRecord h path _ (by decide))
      minimum := .inl (silent_stubRecord h path _ (by decide))
      maximum := .inl (silent_stubRecord h path _ (by decide)) }

/-- Behind the name, a stub holds no underscore. -/
theorem not_mem_detailPairs_stub :
    ∀ p ∈ detailPairs (s.stubRecord path), '_' ∉ p.1 ∧ '_' ∉ p.2 := by
  have hitems : ∀ p ∈ itemsPairs (s.stubRecord path), '_' ∉ p.1 ∧ '_' ∉ p.2 := by
    unfold itemsPairs plainPairs
    split
    · split
      · rename_i hgiven
        rcases itemType_blank h with hnone | harray | hobject
        · have hnull : (s.stubRecord path).get "items" = .null := hnone
          rw [isGiven_of_null hnull] at hgiven
          cases hgiven
        · have htext : (s.stubRecord path).get "items" = .text "array" := harray
          rw [shownAttribute_text htext]
          decide
        · have htext : (s.stubRecord path).get "items" = .text "object" := hobject
          rw [shownAttribute_text htext]
          decide
      · nofun
    · nofun
  have hoptional : ∀ p ∈ optionalPairs (s.stubRecord path), '_' ∉ p.1 ∧ '_' ∉ p.2 := by
    unfold optionalPairs
    split
    · decide
    · nofun
  rw [detailPairs_of_silent (silent_stubRecord h path)]
  exact List.forall_mem_append.mpr ⟨hitems, hoptional⟩

variable {name : String} (hname : s.name = some name)
include hname

omit h in
theorem get_name_stub : (s.stubRecord path).get "name" = .text name := by
  change Value.ofText? s.name = _
  rw [hname]
  rfl

/-- A stub describes its node when the name of the node can be the key of a pair. -/
theorem describes_stub (hkey : isKey name.toList) :
    Describes (CommentLine.property (s.stubRecord path)) name s.stubType s.isRequired := by
  obtain ⟨hbare, hunmarked, -, hfalse⟩ := stubType_word s
  have hread := of?_property_of_details (hasDetails_stub h path)
    (get_name_stub path hname) hkey (typeText_stub h path) hbare (isFree_of_not_mem hunmarked)
    fun hmarker => hfalse hmarker.2
  refine ⟨_, hread, rfl, rfl, ?_⟩
  have hitems : (describedItems (s.stubRecord path) s.stubType).find? "required" = none := by
    unfold describedItems present
    split
    · split <;> rfl
    · rfl
  have hoptional : describedOptional (s.stubRecord path) =
      if s.isRequired then [] else [("required", .bool false)] := by
    have hrequired : (s.stubRecord path).get "required" = .bool s.isRequired := rfl
    rw [describedOptional, hrequired]
    cases s.isRequired <;> rfl
  rw [described, Record.find?_cons, if_neg (by decide), Record.find?_cons, if_neg (by decide),
    describedDetails_of_silent (silent_stubRecord h path), Record.find?_append, hitems, hoptional]
  cases s.isRequired <;> simp [Record.find?_cons]

/-- All underscores of a stub are in the name. -/
theorem count_stub :
    (CommentLine.property (s.stubRecord path)).toList.count '_' ≤ name.toList.count '_' := by
  have hdetails : (written (detailPairs (s.stubRecord path))).count '_' = 0 :=
    List.count_eq_zero.mpr
      (not_mem_written (by decide) (by decide) (not_mem_detailPairs_stub h path))
  have htype : s.stubType.toList.count '_' = 0 :=
    List.count_eq_zero.mpr (stubType_word s).2.2.1
  have htag : fieldTag.count '_' = 0 := by decide
  rw [property_eq_line, shownAttribute_text (get_name_stub path hname), typeText_stub h path,
    String.toList_ofList]
  refine ((isInfix_trimBy _ _).sublist.count_le '_').trans ?_
  simp [line, written, hdetails, htype, htag]

/-- A stub describes its node exactly when the name of the node can be the key of a pair. -/
theorem describes_stub_iff :
    Describes (CommentLine.property (s.stubRecord path)) name s.stubType s.isRequired ↔
      isKey name.toList := by
  constructor
  · rintro ⟨attributes, hread, hfound, -, -⟩
    refine (isKey_or_count_lt hread hfound).resolve_right ?_
    exact Nat.not_lt.mpr (count_stub h path hname)
  · exact describes_stub h path hname

end Blank

end Shape
end ViewSchema
