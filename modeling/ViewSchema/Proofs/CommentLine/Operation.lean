import ViewSchema.Proofs.CommentLine.Pairs

/-!
The comment line of an operation, read back. There is one unless every attribute is missing, and
it gives the operation the attributes that it was written from, whatever tags, keys and brackets
their texts hold.
-/

namespace ViewSchema.CommentLine

open Text Remark

/-- The attributes of an operation, in the order of its comment line. -/
def operationKeys : List String :=
  ["summary", "description", "operationId", "tags", "status", "responseDescription"]

/-- An operation whose comment line can be read back. -/
structure IsOperation (r : Record) : Prop where
  summary : MayBeText r "summary" IsSentence
  description : MayBeText r "description" IsSentence
  operationId : MayBeText r "operationId" IsBare
  tags : MayBeList r "tags" IsItem
  status : MayBeText r "status" IsBare
  responseDescription : MayBeText r "responseDescription" IsSentence
  given : ∃ key ∈ operationKeys, isGiven r key

/-- What the comment line of an operation says. -/
def describedOperation (r : Record) : Record :=
  presentSoftened r "summary" ++ (presentSoftened r "description" ++ (present r "operationId" ++
    (present r "tags" ++ (present r "status" ++ presentSoftened r "responseDescription"))))

def operationPairs (r : Record) : List (List Char × List Char) :=
  quotedPairs r "summary" ++ (quotedPairs r "description" ++ (plainPairs r "operationId" ++
    (listPairs r "tags" ++ (plainPairs r "status" ++ quotedPairs r "responseDescription"))))

theorem operationLine_eq (r : Record) :
    "# @openapi_operation".toList ++ quotedPair r "summary" ++ quotedPair r "description" ++
      plainPair r "operationId" ++ listPair r "tags" ++ plainPair r "status" ++
      quotedPair r "responseDescription" = line operationTag (operationPairs r) := by
  have htag : "# @openapi_operation".toList = '#' :: ' ' :: operationTag := by decide
  simp only [line, operationPairs, written_append, written_quotedPairs, written_listPairs,
    written_plainPairs, htag, List.append_assoc, List.cons_append]

theorem operationPairs_eq_nil_iff (r : Record) :
    operationPairs r = [] ↔ ∀ key ∈ operationKeys, isGiven r key = false := by
  have hpair : ∀ (given : Bool) (p : List Char × List Char),
      (if given then [p] else []) = [] ↔ given = false := by
    intro given p
    cases given <;> simp
  simp only [operationPairs, operationKeys, quotedPairs, plainPairs, listPairs,
    List.append_eq_nil_iff, hpair, List.forall_mem_cons, List.not_mem_nil, false_imp_iff,
    implies_true, and_true]

/-- The line of an operation is the bare tag only without any pair. -/
theorem trim_operationLine_eq_iff (found : List (List Char × List Char)) :
    trim (line operationTag found) = "# @openapi_operation".toList ↔ found = [] := by
  constructor
  · intro h
    cases found with
    | nil => rfl
    | cons p rest =>
      have hcolon : ':' ∈ trim (line operationTag (p :: rest)) :=
        mem_trimBy (by simp [line, written]) (by decide)
      rw [h] at hcolon
      exact absurd hcolon (by decide)
  · rintro rfl
    decide

theorem IsOperation.tells {r : Record} (h : IsOperation r) :
    Tells operationKeys (operationPairs r) (describedOperation r) := by
  have hsummary := tells_quotedPairs "summary" (by decide) (by decide) (by decide)
    (by decide) h.summary
  have hdescription := tells_quotedPairs "description" (by decide) (by decide)
    (by decide) (by decide) h.description
  have hid := tells_plainPairs "operationId" (by decide) (by decide) (by decide)
    (by decide) h.operationId
  have htags := tells_listPairs "tags" (by decide) (by decide) h.tags
  have hstatus := tells_plainPairs "status" (by decide) (by decide) (by decide)
    (by decide) h.status
  have hresponse := tells_quotedPairs "responseDescription" (by decide) (by decide)
    (by decide) (by decide) h.responseDescription
  exact hsummary.append (hdescription.append (hid.append (htags.append
    (hstatus.append hresponse))))

/-- Among the keys of an operation, the other names of the status have no part. -/
theorem operationStep_eq {key : String} (hkey : key ∈ operationKeys) (r : Record)
    (raw : List Char) :
    (if statusKeys.contains key then r.insert "status" (.text (String.ofList (unquoted raw)))
      else r.insert key (attributeValue key raw)) = r.insert key (attributeValue key raw) := by
  by_cases hstatus : key = "status"
  · subst hstatus
    rfl
  · have hother : statusKeys.contains key = false := by
      have hall : ∀ key ∈ operationKeys, key ≠ "status" → statusKeys.contains key = false := by
        decide
      exact hall key hkey hstatus
    rw [hother]
    rfl

theorem operationAttributes_eq {found : List (List Char × List Char)} {told : Record}
    (h : Tells operationKeys found told) : operationAttributes found = told := by
  have hkeys : ∀ p ∈ found, String.ofList p.1 ∈ operationKeys := by
    intro p hp
    have hmem : heard p ∈ told := h.heard ▸ List.mem_map_of_mem hp
    exact h.keys.subset (List.mem_map_of_mem hmem)
  have hfold := h.foldl_insert [] (by decide)
  rw [List.nil_append] at hfold
  rw [operationAttributes, ← hfold]
  refine List.foldl_ext _ _ _ fun r p hp => ?_
  exact operationStep_eq (hkeys p hp) r p.2

/-- There is a comment line unless there is nothing but the tag. -/
theorem operation_eq (r : Record) :
    operation r =
      if operationPairs r = [] then none
      else some (String.ofList (trim (line operationTag (operationPairs r)))) := by
  have htag := trim_operationLine_eq_iff (operationPairs r)
  rw [operation, operationLine_eq]
  by_cases hnil : operationPairs r = []
  · rw [if_pos hnil, if_pos (beq_iff_eq.mpr (htag.mpr hnil))]
  · rw [if_neg hnil, if_neg (mt beq_iff_eq.mp (mt htag.mp hnil))]

/-- An operation has a comment line unless it has no attribute, and is read back from it. -/
theorem operation_outcome (r : Record) :
    (operation r = none ↔ ∀ key ∈ operationKeys, isGiven r key = false) ∧
      (IsOperation r → ∃ comment, operation r = some comment ∧
        of? comment.toList = some (.operation (describedOperation r))) := by
  have hnone : operation r = none ↔ operationPairs r = [] := by
    rw [operation_eq]
    by_cases hnil : operationPairs r = []
    · simp [hnil]
    · simp [hnil]
  refine ⟨hnone.trans (operationPairs_eq_nil_iff r), fun h => ?_⟩
  have htells := h.tells
  have hfound : operationPairs r ≠ [] := by
    obtain ⟨key, hkey, hgiven⟩ := h.given
    intro hnil
    rw [(operationPairs_eq_nil_iff r).mp hnil key hkey] at hgiven
    cases hgiven
  have hattributes := operationAttributes_eq htells
  have hsaid : operationAttributes (operationPairs r) ≠ [] := by
    rw [hattributes, ← htells.heard]
    exact mt List.map_eq_nil_iff.mp hfound
  refine ⟨String.ofList (line operationTag (operationPairs r)), ?_, ?_⟩
  · rw [operation_eq, if_neg hfound, trim_line operationTag hfound htells.writable]
  · rw [String.toList_ofList, of?_operationLine hfound htells.writable hsaid, hattributes]

/-- An operation with texts that look like tags, pairs and lists. -/
def listing : Record :=
  [("summary", .text "a \"list\" @openapi x:[y]"), ("operationId", .text "posts#index"),
    ("tags", .list [.text "blog posts", .text "@openapi_operation z:1"]), ("status", .text "200")]

theorem isOperation_listing : IsOperation listing where
  summary := .inr ⟨_, rfl, by constructor <;> decide⟩
  description := .inl rfl
  operationId := .inr ⟨_, rfl, by decide⟩
  tags := .inr ⟨["blog posts", "@openapi_operation z:1"], rfl, by decide, by decide⟩
  status := .inr ⟨_, rfl, by decide⟩
  responseDescription := .inl rfl
  given := ⟨"summary", by decide, by decide⟩

theorem operation_outcome_listing :
    IsOperation listing ∧ ∃ comment, operation listing = some comment ∧
      of? comment.toList = some (.operation
        [("summary", .text "a 'list' @openapi x:[y]"), ("operationId", .text "posts#index"),
          ("tags", .list [.text "blog posts", .text "@openapi_operation z:1"]),
          ("status", .text "200")]) :=
  ⟨isOperation_listing, (operation_outcome listing).2 isOperation_listing⟩

end ViewSchema.CommentLine
