import ViewSchema.Proofs.CommentLine.Pairs

/-!
The comment line of a property, read back. It gives the property its name, its type and every
other attribute that it was written from, whatever the description and the list of values hold,
as long as no text in it holds the tag of a field.
-/

namespace ViewSchema.CommentLine

open Text Remark

/-- What a property of a type says behind its name and type can be read back. -/
structure HasDetails (r : Record) (type : String) : Prop where
  items : type = "array" → MayBeText r "items" fun text => IsBare text ∧ IsFree text
  required : ∃ required, r.get "required" = .bool required
  description : MayBeText r "description" fun text => IsSentence text ∧ IsFree text
  choices : MayBeList r "enum" fun text => IsItem text ∧ IsFree text
  format : MayBeText r "format" fun text => IsBare text ∧ IsFree text
  minimum : MayBeBound r "minimum"
  maximum : MayBeBound r "maximum"

/-- A property whose comment line can be read back. -/
structure IsDescribable (r : Record) (name type : String) : Prop extends HasDetails r type where
  named : r.get "name" = .text name
  nameKey : isKey name.toList
  typed : r.get "type" = .text type
  typeBare : IsBare type.toList
  typeFree : IsFree type.toList
  unmarked : ¬(name = "conditional" ∧ type = "true")

/-- The item type, where the property is an array. -/
def describedItems (r : Record) (type : String) : Record :=
  if type = "array" then present r "items" else []

/-- That the property may be absent, where it may be. -/
def describedOptional (r : Record) : Record :=
  match r.get "required" with
  | .bool false => [("required", .bool false)]
  | _ => []

/-- What the comment line of a property says behind its name and type. -/
def describedDetails (r : Record) (type : String) : Record :=
  describedItems r type ++ (describedOptional r ++ (presentSoftened r "description" ++
    (present r "enum" ++ (present r "format" ++ (present r "minimum" ++ present r "maximum")))))

/-- What the comment line of a property says. -/
def described (r : Record) (name type : String) : Record :=
  ("field_name", .text name) :: ("type", .text type) :: describedDetails r type

def itemsPairs (r : Record) : List (List Char × List Char) :=
  if typeText r == "array".toList then plainPairs r "items" else []

def optionalPairs (r : Record) : List (List Char × List Char) :=
  match r.find? "required" with
  | some (.bool false) => [("required".toList, "false".toList)]
  | _ => []

/-- The pairs behind the name and the type. -/
def detailPairs (r : Record) : List (List Char × List Char) :=
  itemsPairs r ++ (optionalPairs r ++ (quotedPairs r "description" ++ (listPairs r "enum" ++
    (plainPairs r "format" ++ (boundPairs r "minimum" ++ boundPairs r "maximum")))))

def detailKeys : List String :=
  ["items", "required", "description", "enum", "format", "minimum", "maximum"]

/-- The comment line of a property is a line of pairs, the first its name and type. -/
theorem property_eq_line (r : Record) :
    property r = String.ofList
      (trim (line fieldTag ((shownAttribute r "name", typeText r) :: detailPairs r))) := by
  have hitems : written (itemsPairs r) = itemsPair r := by
    unfold itemsPairs itemsPair
    split
    · exact written_plainPairs r _
    · rfl
  have hoptional : written (optionalPairs r) = optionalPair r := by
    unfold optionalPairs optionalPair
    cases r.find? "required" with
    | none => rfl
    | some v =>
      cases v with
      | bool required => cases required <;> rfl
      | _ => rfl
  have htag : "# @openapi ".toList = '#' :: ' ' :: (fieldTag ++ [' ']) := by decide
  simp only [property, line, written, detailPairs, written_append, hitems, hoptional,
    written_quotedPairs, written_listPairs, written_plainPairs, written_boundPairs, htag,
    List.append_assoc, List.cons_append, List.nil_append]

section Free

variable {r : Record} {key : String}

theorem isFree_enclosed {text : List Char} {first last : Char} (h : IsFree text)
    (hfirst : first ∉ fieldTag) (hlast : last ∉ fieldTag) :
    IsFree (first :: (text ++ [last])) := by
  exact isFree_cons hfirst
    (not_infix_append_cons hlast h (isFree_of_not_mem List.not_mem_nil))

theorem areFree_ite {raw : List Char} (h : IsFree raw) (given : Bool) (key : List Char) :
    AreFree (if given then [(key, raw)] else []) := by
  cases given with
  | false => nofun
  | true => exact List.forall_mem_singleton.mpr h

theorem areFree_plainPairs (h : MayBeText r key IsFree) : AreFree (plainPairs r key) := by
  rcases h with hnull | ⟨s, htext, hfree⟩
  · rw [plainPairs, isGiven_of_null hnull]
    exact List.forall_mem_nil _
  · rw [plainPairs, shownAttribute_text htext]
    exact areFree_ite hfree _ _

theorem areFree_quotedPairs (h : MayBeText r key IsFree) : AreFree (quotedPairs r key) := by
  rcases h with hnull | ⟨s, htext, hfree⟩
  · rw [quotedPairs, isGiven_of_null hnull]
    exact List.forall_mem_nil _
  · rw [quotedPairs, shownAttribute_text htext, doubleQuoted_toList]
    exact areFree_ite (isFree_enclosed (isFree_softened hfree) (by decide) (by decide)) _ _

theorem areFree_listPairs (h : MayBeList r key IsFree) : AreFree (listPairs r key) := by
  rcases h with hnull | ⟨items, hitems, -, hfree⟩
  · rw [listPairs, isGiven_of_null hnull]
    exact List.forall_mem_nil _
  · have hjoin : IsFree (join [','] (items.map String.toList)) := isFree_join (by simpa using hfree)
    rw [listPairs, hitems, bracketed, listed_texts]
    exact areFree_ite (isFree_enclosed hjoin (by decide) (by decide)) _ _

theorem areFree_boundPairs (h : MayBeBound r key) : AreFree (boundPairs r key) := by
  rcases h with hnull | ⟨n, hint, -⟩
  · rw [boundPairs, hnull]
    exact List.forall_mem_nil _
  · have hsign : '@' ∉ (Value.int n).asText.toList := by
      rw [asText_int]
      intro hmem
      rcases Numeral.digit_or_sign_of_mem_toString hmem with hdigit | hsign
      · exact absurd hdigit (by decide)
      · exact absurd hsign (by decide)
    rw [boundPairs, hint]
    exact areFree_ite (isFree_of_not_mem hsign) true _

end Free

section Details

variable {r : Record} {name type : String}

theorem HasDetails.tells (h : HasDetails r type) (htype : typeText r = type.toList) :
    Tells detailKeys (detailPairs r) (describedDetails r type) := by
  have hitems : Tells ["items"] (itemsPairs r) (describedItems r type) := by
    unfold itemsPairs describedItems
    rw [htype]
    by_cases harray : type = "array"
    · subst harray
      exact tells_plainPairs _ (by decide) (by decide) (by decide) (by decide)
        ((h.items rfl).mono fun _ htext => htext.1)
    · have hnot : (type.toList == "array".toList) = false := by
        rw [beq_eq_false_iff_ne]
        exact fun hsame => harray (String.toList_inj.mp hsame)
      rw [hnot, if_neg harray]
      exact .none _
  have hoptional : Tells ["required"] (optionalPairs r) (describedOptional r) := by
    obtain ⟨required, hrequired⟩ := h.required
    have hfind : r.find? "required" = some (.bool required) := by
      unfold Record.get at hrequired
      cases hfind : r.find? "required" with
      | none =>
        rw [hfind] at hrequired
        cases hrequired
      | some v =>
        rw [hfind] at hrequired
        exact congrArg some hrequired
    unfold optionalPairs describedOptional
    rw [hfind, hrequired]
    cases required with
    | true => exact .none _
    | false => exact .pair ⟨by decide, .bare (by decide), by decide⟩ rfl
  have hdescription := tells_quotedPairs "description" (by decide) (by decide)
    (by decide) (by decide) (h.description.mono fun _ htext => htext.1)
  have hchoices := tells_listPairs "enum" (by decide) (by decide)
    (h.choices.mono fun _ htext => htext.1)
  have hformat := tells_plainPairs "format" (by decide) (by decide) (by decide)
    (by decide) (h.format.mono fun _ htext => htext.1)
  have hminimum := tells_boundPairs "minimum" (by decide) (by decide) (by decide)
    (by decide) h.minimum
  have hmaximum := tells_boundPairs "maximum" (by decide) (by decide) (by decide)
    (by decide) h.maximum
  exact hitems.append (hoptional.append (hdescription.append (hchoices.append
    (hformat.append (hminimum.append hmaximum)))))

theorem HasDetails.areFree (h : HasDetails r type) (htype : typeText r = type.toList) :
    AreFree (detailPairs r) := by
  have hitems : AreFree (itemsPairs r) := by
    unfold itemsPairs
    rw [htype]
    split
    · rename_i harray
      have harray : type = "array" := String.toList_inj.mp (eq_of_beq harray)
      exact areFree_plainPairs ((h.items harray).mono fun _ htext => htext.2)
    · nofun
  have hoptional : AreFree (optionalPairs r) := by
    unfold optionalPairs
    split
    · exact areFree_ite (isFree_of_not_mem (by decide)) true _
    · nofun
  have hdescription := areFree_quotedPairs (h.description.mono fun _ htext => htext.2)
  have hchoices := areFree_listPairs (h.choices.mono fun _ htext => htext.2)
  have hformat := areFree_plainPairs (h.format.mono fun _ htext => htext.2)
  have hminimum := areFree_boundPairs h.minimum
  have hmaximum := areFree_boundPairs h.maximum
  simp only [AreFree, detailPairs, List.forall_mem_append]
  exact ⟨hitems, hoptional, hdescription, hchoices, hformat, hminimum, hmaximum⟩

theorem withExample_of_not_mem {attributes : Record} {key : String} (h : key ∉ attributes.keys) :
    withExample key attributes = attributes := by
  rw [withExample, Record.find?_eq_none_of_not_mem h]

/-- The attributes of a name, a type and details. -/
theorem fieldAttributes_details (h : HasDetails r type) (htype : typeText r = type.toList)
    (hbare : IsBare type.toList) :
    fieldAttributes ((name.toList, type.toList) :: detailPairs r) =
      some (described r name type) := by
  have htells := h.tells htype
  have hkeys : List.Sublist (described r name type).keys
      ("field_name" :: "type" :: detailKeys) :=
    (htells.keys.cons_cons _).cons_cons _
  have hdistinct : (["field_name", "type"] ++ detailKeys).Nodup := by decide
  have hfold := htells.foldl_insert [("field_name", .text name), ("type", .text type)] hdistinct
  rw [fieldAttributes, unquoted_bare hbare, String.ofList_toList, String.ofList_toList]
  simp only [heard] at hfold
  simp only [hfold, List.cons_append, List.nil_append]
  rw [← described, withExample_of_not_mem fun hmem => absurd (hkeys.subset hmem) (by decide),
    withExample_of_not_mem fun hmem => absurd (hkeys.subset hmem) (by decide)]

/-- A comment line with a name, a type and details is read back. -/
theorem of?_property_of_details (h : HasDetails r type) (hname : r.get "name" = .text name)
    (hkey : isKey name.toList) (htype : typeText r = type.toList) (hbare : IsBare type.toList)
    (hfree : IsFree type.toList) (hmarker : ¬(name = "conditional" ∧ type = "true")) :
    of? (property r).toList = some (.field (described r name type)) := by
  have hbreak : '\n' ∉ type.toList := fun hmem => absurd (hbare.unbroken _ hmem) (by decide)
  have hwritable : ∀ p ∈ (name.toList, type.toList) :: detailPairs r, IsWritable p :=
    List.forall_mem_cons.mpr ⟨⟨hkey, .bare hbare, hbreak⟩, (h.tells htype).writable⟩
  have hfree : AreFree ((name.toList, type.toList) :: detailPairs r) :=
    List.forall_mem_cons.mpr ⟨hfree, h.areFree htype⟩
  have hmarker : (name.toList, type.toList) :: detailPairs r ≠
      [("conditional".toList, "true".toList)] := by
    intro hsame
    obtain ⟨hfirst, hsecond⟩ := Prod.mk.inj (List.cons.inj hsame).1
    exact hmarker ⟨String.toList_inj.mp hfirst, String.toList_inj.mp hsecond⟩
  rw [property_eq_line, shownAttribute_text hname, htype, String.toList_ofList,
    trim_line _ (by simp) hwritable, of?_fieldLine (by simp) hwritable hfree hmarker,
    fieldAttributes_details h htype hbare]
  rfl

/-- A property is read back from its comment line. -/
theorem of?_property (h : IsDescribable r name type) :
    of? (property r).toList = some (.field (described r name type)) := by
  have hne : type ≠ "" := fun hnil => h.typeBare.nonempty (by rw [hnil]; rfl)
  have hstated : type ≠ missingComment := by
    rintro rfl
    exact absurd (h.typeBare.unbroken ' ' (by decide)) (by decide)
  have htype : typeText r = type.toList := by simp [typeText, h.typed, hne, hstated]
  exact of?_property_of_details h.toHasDetails h.named h.nameKey htype h.typeBare h.typeFree
    h.unmarked

end Details

/-- A property with an attribute of every kind, one of them full of look-alikes. -/
def scores : Record :=
  [("path", .text "post.scores"), ("name", .text "scores"), ("type", .text "array"),
    ("description", .text "said \"type:x\" [of] 5"), ("required", .bool false),
    ("enum", .list [.text "low", .text "very high"]), ("format", .text "a:b"),
    ("items", .text "integer"), ("minimum", .int 0), ("maximum", .int (-5))]

theorem isDescribable_scores : IsDescribable scores "scores" "array" where
  named := rfl
  nameKey := by decide
  typed := rfl
  typeBare := by decide
  typeFree := isFree_of_not_mem (by decide)
  unmarked := by decide
  items _ := .inr ⟨"integer", rfl, by decide, isFree_of_not_mem (by decide)⟩
  required := ⟨false, rfl⟩
  description := .inr ⟨_, rfl, by constructor <;> decide, isFree_of_not_mem (by decide)⟩
  choices := by
    have hitems : ∀ item ∈ ["low", "very high"], IsItem item.toList ∧ '@' ∉ item.toList := by
      decide
    refine .inr ⟨["low", "very high"], rfl, by decide, fun item hitem => ?_⟩
    exact (hitems item hitem).imp_right isFree_of_not_mem
  format := .inr ⟨"a:b", rfl, by decide, isFree_of_not_mem (by decide)⟩
  minimum := .inr ⟨0, rfl, by decide⟩
  maximum := .inr ⟨-5, rfl, by decide⟩

theorem of?_property_scores :
    IsDescribable scores "scores" "array" ∧
      of? (property scores).toList = some (.field
        [("field_name", .text "scores"), ("type", .text "array"), ("items", .text "integer"),
          ("required", .bool false), ("description", .text "said 'type:x' [of] 5"),
          ("enum", .list [.text "low", .text "very high"]), ("format", .text "a:b"),
          ("minimum", .int 0), ("maximum", .int (-5))]) :=
  ⟨isDescribable_scores, of?_property isDescribable_scores⟩

end ViewSchema.CommentLine
