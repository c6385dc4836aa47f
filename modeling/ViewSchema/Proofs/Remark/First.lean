import Mathlib.Data.List.Induction
import ViewSchema.Proofs.Note
import ViewSchema.Proofs.Remark.Tag

/-!
What the tag and the first pair of a remark decide. The tag tells remarks about an operation from
others, and the first pair names a field and its type. A later pair of a field takes the place of
what was said under its key before, also where that is the name or the type, and a pair under
`operation` makes the remark look like one about an operation.
-/

namespace ViewSchema.Remark

open Text

/-- The value of the last pair under a key, as written. -/
def lastRaw? (key : String) (found : List (List Char × List Char)) : Option (List Char) :=
  (found.reverse.find? fun p => String.ofList p.1 == key).map Prod.snd

theorem lastRaw?_concat (key : String) (found : List (List Char × List Char))
    (p : List Char × List Char) :
    lastRaw? key (found ++ [p]) =
      if String.ofList p.1 = key then some p.2 else lastRaw? key found := by
  by_cases h : String.ofList p.1 = key
  · simp [lastRaw?, h]
  · simp [lastRaw?, h]

/-- Of the pairs that are put into a record, the last one under a key is found there. -/
theorem find?_foldl_pairs (value : String → List Char → Value)
    (found : List (List Char × List Char)) (r : Record) (key : String) :
    (found.foldl (fun r p => r.insert (String.ofList p.1) (value (String.ofList p.1) p.2))
      r).find? key = ((lastRaw? key found).map (value key)).or (r.find? key) := by
  induction found using List.reverseRecOn with
  | nil => rfl
  | append_singleton found p ih =>
    rw [List.foldl_concat, Record.find?_insert, ih, lastRaw?_concat]
    by_cases h : String.ofList p.1 = key
    · simp [h]
    · simp [h, Ne.symm h]

/-- Keys whose values stay texts, and which no declared type changes. -/
def isPlain (key : String) : Bool :=
  !(listKeys ++ truthKeys ++ numberKeys ++ ["example", "default"]).contains key

section Field

variable {name raw : List Char} {others : List (List Char × List Char)} {attributes : Record}

theorem attributeValue_of_isPlain {key : String} (h : isPlain key) (raw : List Char) :
    attributeValue key raw = .text (String.ofList (unquoted raw)) := by
  simp only [isPlain, Bool.not_eq_true', List.contains_eq_mem, decide_eq_false_iff_not,
    List.mem_append, not_or] at h
  obtain ⟨⟨⟨hlist, htruth⟩, hnumber⟩, -⟩ := h
  exact attributeValue_text hlist htruth hnumber raw

theorem find?_fieldAttributes (h : fieldAttributes ((name, raw) :: others) = some attributes)
    (key : String) (hkey : isPlain key) :
    attributes.find? key =
      ((lastRaw? key others).map fun later => .text (String.ofList (unquoted later))).or
        (Record.find? [("field_name", .text (String.ofList name)),
          ("type", .text (String.ofList (unquoted raw)))] key) := by
  have hplain : attributeValue key = fun later => .text (String.ofList (unquoted later)) :=
    funext (attributeValue_of_isPlain hkey)
  have hsample : key ≠ "default" ∧ key ≠ "example" := by
    constructor <;> rintro rfl <;> exact absurd hkey (by decide)
  cases h
  rw [find?_withExample _ _ _ hsample.1, find?_withExample _ _ _ hsample.2, find?_foldl_pairs,
    hplain]

end Field

/-- What the remark of a text says: about an operation by its tag, or about a field, whose name,
type and operation are those of the last pairs that give them. -/
inductive Tells (text : List Char) : Remark → Prop
  | operation {attributes : Record} (htag : (content? operationTag text).isSome)
      (hne : attributes ≠ []) : Tells text (.operation attributes)
  | marker (htag : content? operationTag text = none) : Tells text .marker
  | field {content name raw : List Char} {others : List (List Char × List Char)}
      {attributes : Record} (htag : content? operationTag text = none)
      (hcontent : content? fieldTag text = some content)
      (hpairs : pairs (trim content) = (name, raw) :: others)
      (hname : attributes.find? "field_name" =
        some (.text (String.ofList (((lastRaw? "field_name" others).map unquoted).getD name))))
      (htype : attributes.find? "type" =
        some (.text (String.ofList (unquoted ((lastRaw? "type" others).getD raw)))))
      (hoperation : attributes.find? "operation" =
        (lastRaw? "operation" others).map fun later => .text (String.ofList (unquoted later))) :
      Tells text (.field attributes)

/-- The tag and the first pair decide what the remark is, whatever pairs follow. -/
structure IsDecided (text : List Char) (r : Remark) : Prop where
  operation : ∀ v, r.operation? = some v →
    (content? operationTag text).isSome ∧ ∃ attributes, attributes ≠ [] ∧ v = .map attributes
  field : ∀ attributes, r = .field attributes → ∃ content name raw others,
    content? fieldTag text = some content ∧ pairs (trim content) = (name, raw) :: others ∧
      attributes.find? "field_name" = some (.text (String.ofList name)) ∧
      attributes.find? "type" = some (.text (String.ofList (unquoted raw)))

/-- The pairs behind the first one of a field repeat its name and its type, if they give one, and
give no operation. -/
structure Agree (name raw : List Char) (others : List (List Char × List Char)) : Prop where
  operation : lastRaw? "operation" others = none
  name : ∀ later ∈ lastRaw? "field_name" others, unquoted later = name
  type : ∀ later ∈ lastRaw? "type" others, unquoted later = unquoted raw

theorem tells_field {text content : List Char} {attributes : Record}
    (htag : content? operationTag text = none) (hcontent : content? fieldTag text = some content)
    (h : fieldAttributes (pairs (trim content)) = some attributes) :
    Tells text (.field attributes) := by
  cases hpairs : pairs (trim content) with
  | nil =>
    rw [hpairs] at h
    cases h
  | cons first others =>
    obtain ⟨name, raw⟩ := first
    rw [hpairs] at h
    have hname := find?_fieldAttributes h "field_name" (by decide)
    have htype := find?_fieldAttributes h "type" (by decide)
    have hoperation := find?_fieldAttributes h "operation" (by decide)
    refine .field htag hcontent hpairs ?_ ?_ ?_
    · rw [hname]
      cases lastRaw? "field_name" others <;> rfl
    · rw [htype]
      cases lastRaw? "type" others <;> rfl
    · rw [hoperation]
      exact Option.or_none

theorem tells_of_eq_some {text : List Char} {r : Remark} (h : of? text = some r) :
    Tells text r := by
  unfold of? at h
  rcases Option.or_eq_some_iff.mp h with hoperation | ⟨-, hfield⟩
  · obtain ⟨content, hcontent, hsaid⟩ := Option.bind_eq_some_iff.mp hoperation
    split at hsaid
    · cases hsaid
    · rename_i hne
      cases hsaid
      exact .operation (by simp [hcontent]) hne
  · unfold fieldOf? at hfield
    split at hfield
    · cases hfield
    · rename_i htag
      have htag : content? operationTag text = none := by simpa using htag
      split at hfield
      · cases hfield
        exact .marker htag
      · obtain ⟨content, hcontent, hsaid⟩ := Option.bind_eq_some_iff.mp hfield
        obtain ⟨attributes, hattributes, rfl⟩ := Option.map_eq_some_iff.mp hsaid
        exact tells_field htag hcontent hattributes

theorem isDecided_operation {text : List Char} {attributes : Record}
    (htag : (content? operationTag text).isSome) (hne : attributes ≠ []) :
    IsDecided text (.operation attributes) where
  operation := by
    rintro v hv
    cases hv
    exact ⟨htag, attributes, hne, rfl⟩
  field := nofun

/-- A field is decided by its first pair exactly when the other pairs agree with it. -/
theorem isDecided_field_iff {text content name raw : List Char}
    {others : List (List Char × List Char)} {attributes : Record}
    (hcontent : content? fieldTag text = some content)
    (hpairs : pairs (trim content) = (name, raw) :: others)
    (htells : Tells text (.field attributes)) :
    IsDecided text (.field attributes) ↔ Agree name raw others := by
  cases htells with
  | @field content' name' raw' others' _ htag hcontent' hpairs' hname htype hoperation =>
    obtain rfl := Option.some.inj (hcontent.symm.trans hcontent')
    obtain ⟨⟨rfl, rfl⟩, rfl⟩ := by simpa using hpairs.symm.trans hpairs'
    constructor
    · intro h
      obtain ⟨_, _, _, _, hcontent', hpairs', hname', htype'⟩ := h.field attributes rfl
      obtain rfl := Option.some.inj (hcontent.symm.trans hcontent')
      obtain ⟨⟨rfl, rfl⟩, rfl⟩ := by simpa using hpairs.symm.trans hpairs'
      refine ⟨?_, fun later hlater => ?_, fun later hlater => ?_⟩
      · rw [Option.eq_none_iff_forall_ne_some]
        intro later hlater
        rw [hlater] at hoperation
        have hsome := (h.operation _ hoperation).1
        rw [htag] at hsome
        cases hsome
      · rw [hname, Option.mem_def.mp hlater] at hname'
        simpa [String.ofList_inj] using hname'
      · rw [htype, Option.mem_def.mp hlater] at htype'
        simpa [String.ofList_inj] using htype'
    · intro h
      refine ⟨fun v hv => ?_, fun _ hsame => ?_⟩
      · have hnone : attributes.find? "operation" = none := by rw [hoperation, h.operation]; rfl
        have hsome : attributes.find? "operation" = some v := hv
        rw [hnone] at hsome
        cases hsome
      · cases hsame
        refine ⟨content, name, raw, others, hcontent, hpairs, ?_, ?_⟩
        · rw [hname]
          cases hlater : lastRaw? "field_name" others with
          | none => rfl
          | some later => simp [h.name later hlater]
        · rw [htype]
          cases hlater : lastRaw? "type" others with
          | none => rfl
          | some later => simp [h.type later hlater]

/-- What the remark of any text tells, and when the tag and the first pair decide it. -/
theorem of?_decides {text : List Char} {r : Remark} (h : of? text = some r) :
    Tells text r ∧
      (IsDecided text r ↔ ∀ attributes content name raw others, r = .field attributes →
        content? fieldTag text = some content → pairs (trim content) = (name, raw) :: others →
          Agree name raw others) := by
  have htells := tells_of_eq_some h
  refine ⟨htells, ?_⟩
  cases htells with
  | operation htag hne => exact iff_of_true (isDecided_operation htag hne) nofun
  | marker htag => exact iff_of_true ⟨nofun, nofun⟩ nofun
  | field htag hcontent hpairs hname htype hoperation =>
    have htells := tells_of_eq_some h
    constructor
    · intro hdecided _ _ _ _ _ hsame hcontent' hpairs'
      cases hsame
      exact (isDecided_field_iff hcontent' hpairs' htells).mp hdecided
    · intro hagree
      exact (isDecided_field_iff hcontent hpairs htells).mpr
        (hagree _ _ _ _ _ rfl hcontent hpairs)

/-- Later pairs rename the title, give it another type and speak of an operation. -/
def renamedTitle : List (List Char × List Char) :=
  [("title".toList, "string".toList), ("operation".toList, "show".toList),
    ("field_name".toList, "name".toList), ("type".toList, "integer".toList)]

/-- What is left of the title. -/
def renamedAttributes : Record :=
  [("field_name", .text "name"), ("type", .text "integer"), ("operation", .text "show")]

theorem of?_renamedTitle :
    of? (line fieldTag renamedTitle) = some (.field renamedAttributes) := by
  have hwritable : ∀ p ∈ renamedTitle, IsWritable p := by
    have hbare : ∀ p ∈ renamedTitle, isKey p.1 ∧ IsBare p.2 ∧ '\n' ∉ p.2 := by decide
    exact fun p hp => ⟨(hbare p hp).1, .bare (hbare p hp).2.1, (hbare p hp).2.2⟩
  have hfree : AreFree renamedTitle := by
    have htags : ∀ p ∈ renamedTitle, '@' ∉ p.2 := by decide
    exact fun p hp => isFree_of_not_mem (htags p hp)
  rw [of?_fieldLine (by decide) hwritable hfree (by decide)]
  rfl

theorem of?_decides_renamedTitle :
    of? (line fieldTag renamedTitle) = some (.field renamedAttributes) ∧
      Tells (line fieldTag renamedTitle) (.field renamedAttributes) :=
  ⟨of?_renamedTitle, (of?_decides of?_renamedTitle).1⟩

/-- The remark looks like one about an operation, and is about neither the title nor a text. -/
theorem not_isDecided_renamedTitle :
    of? "# @openapi title:string operation:show field_name:name type:integer".toList =
        some (.field renamedAttributes) ∧
      ¬IsDecided "# @openapi title:string operation:show field_name:name type:integer".toList
        (.field renamedAttributes) := by
  have hline : "# @openapi title:string operation:show field_name:name type:integer".toList =
      line fieldTag renamedTitle := by decide
  rw [hline]
  refine ⟨of?_renamedTitle, fun hdecided => ?_⟩
  obtain ⟨-, attributes, -, hmap⟩ := hdecided.operation (.text "show") rfl
  cases hmap

end ViewSchema.Remark
