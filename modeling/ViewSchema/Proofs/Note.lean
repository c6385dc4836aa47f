import ViewSchema.Proofs.Record
import ViewSchema.Proofs.Remark.Tag
import ViewSchema.Walk.Lookup

/-!
What a note can say when a comment made it. Most keys of a comment are kept as texts, so the items
of an array are always given by the name of their type.
-/

namespace ViewSchema

namespace Remark

/-- Coercing the value under one key leaves every other key alone. -/
theorem find?_withExample (r : Record) (key wanted : String) (h : wanted ≠ key) :
    (withExample key r).find? wanted = r.find? wanted := by
  unfold withExample
  cases r.find? key with
  | none => rfl
  | some v => rw [Record.find?_insert, if_neg h]

/-- A key without a coercion of its own is kept as a text. -/
theorem attributeValue_text {key : String} (hlist : key ∉ listKeys) (htruth : key ∉ truthKeys)
    (hnumber : key ∉ numberKeys) (raw : List Char) :
    attributeValue key raw = .text (String.ofList (unquoted raw)) := by
  simp [attributeValue, hlist, htruth, hnumber]

/-- What a record gives under a key once pairs were put into it: what it gave before, or what one
of the pairs says. -/
theorem find?_foldl_attributes {key : String} {found : List (List Char × List Char)} {r : Record}
    {v : Value}
    (hv : (found.foldl (fun r p =>
      r.insert (String.ofList p.1) (attributeValue (String.ofList p.1) p.2)) r).find? key =
        some v) :
    r.find? key = some v ∨ ∃ p ∈ found, String.ofList p.1 = key ∧ v = attributeValue key p.2 := by
  induction found generalizing r with
  | nil => exact .inl hv
  | cons pair rest ih =>
    rcases ih hv with hbefore | ⟨p, hp, hkey, hvalue⟩
    · rw [Record.find?_insert] at hbefore
      split at hbefore
      · rename_i hkey
        exact .inr ⟨pair, List.mem_cons_self, hkey.symm, by rw [hkey, Option.some.inj hbefore]⟩
      · exact .inl hbefore
    · exact .inr ⟨p, List.mem_cons_of_mem _ hp, hkey, hvalue⟩

/-- A field has its name and its type from the first pair, unless a later pair gives them. -/
theorem fieldAttributes_cases {key : String} (hexample : key ≠ "example")
    (hdefault : key ≠ "default") {found : List (List Char × List Char)} {r : Record}
    (h : fieldAttributes found = some r) {v : Value} (hv : r.find? key = some v) :
    (∃ p ∈ found, key = "field_name" ∧ v = .text (String.ofList p.1) ∨
      key = "type" ∧ v = .text (String.ofList (unquoted p.2))) ∨
        ∃ p ∈ found, String.ofList p.1 = key ∧ v = attributeValue key p.2 := by
  cases found with
  | nil => cases h
  | cons first rest =>
    obtain rfl := Option.some.inj h
    rw [find?_withExample _ _ _ hdefault, find?_withExample _ _ _ hexample] at hv
    rcases find?_foldl_attributes hv with hopening | ⟨p, hp, hkey, hvalue⟩
    · refine .inl ⟨first, List.mem_cons_self, ?_⟩
      simp only [Record.find?_cons, Record.find?_nil] at hopening
      split at hopening
      · rename_i hname
        exact .inl ⟨hname, (Option.some.inj hopening).symm⟩
      · split at hopening
        · rename_i htype
          exact .inr ⟨htype, (Option.some.inj hopening).symm⟩
        · cases hopening
    · exact .inr ⟨p, List.mem_cons_of_mem _ hp, hkey, hvalue⟩

/-- Whatever pairs a field comment holds, a key without a coercion of its own has a text. -/
theorem fieldAttributes_text {key : String} (hlist : key ∉ listKeys) (htruth : key ∉ truthKeys)
    (hnumber : key ∉ numberKeys) (hexample : key ≠ "example") (hdefault : key ≠ "default")
    {found : List (List Char × List Char)} {r : Record} (h : fieldAttributes found = some r)
    {v : Value} (hv : r.find? key = some v) : ∃ s, v = .text s := by
  rcases fieldAttributes_cases hexample hdefault h hv with
    ⟨p, -, ⟨-, hvalue⟩ | ⟨-, hvalue⟩⟩ | ⟨p, -, -, hvalue⟩
  · exact ⟨_, hvalue⟩
  · exact ⟨_, hvalue⟩
  · rw [attributeValue_text hlist htruth hnumber] at hvalue
    exact ⟨_, hvalue⟩

/-- The attributes of a field are those of the pairs in some part of the comment. -/
theorem exists_pairs_of_field {text : List Char} {attributes : Record}
    (h : of? text = some (.field attributes)) :
    ∃ content, content <:+: text ∧ fieldAttributes (pairs content) = some attributes := by
  rcases Option.or_eq_some_iff.mp h with hop | ⟨-, hfield⟩
  · obtain ⟨content, -, hcontent⟩ := Option.bind_eq_some_iff.mp hop
    split at hcontent <;> simp at hcontent
  · unfold fieldOf? at hfield
    split at hfield
    · cases hfield
    · split at hfield
      · cases hfield
      · obtain ⟨content, hcontent, hsaid⟩ := Option.bind_eq_some_iff.mp hfield
        obtain ⟨r, hr, hsame⟩ := Option.map_eq_some_iff.mp hsaid
        cases hsame
        exact ⟨_, (Text.isInfix_trimBy _ content).trans (isInfix_content? hcontent), hr⟩

/-- A remark gives attributes for the operation, or else a word. -/
theorem operation?_of_of? {text : List Char} {remark : Remark} (h : of? text = some remark)
    {v : Value} (hv : remark.operation? = some v) :
    (∃ attributes, v = .map attributes) ∨ ∃ word, v = .text word := by
  cases remark with
  | operation attributes =>
    simp only [operation?, toRecord, Record.find?_cons, if_true, Option.some.injEq] at hv
    exact .inl ⟨attributes, hv.symm⟩
  | marker => simp [operation?, toRecord, Record.find?_cons] at hv
  | field attributes =>
    obtain ⟨content, -, hfound⟩ := exists_pairs_of_field h
    exact .inr (fieldAttributes_text (by decide) (by decide) (by decide) (by decide) (by decide)
      hfound hv)

end Remark

/-- The operation of a template is a record of attributes, or else a word. -/
theorem Template.Comments.operation?_cases {c : Template.Comments} {v : Value}
    (h : c.operation? = some v) : (∃ attributes, v = .map attributes) ∨ ∃ word, v = .text word := by
  obtain ⟨entry, -, hentry⟩ := List.exists_of_findSome?_eq_some h
  obtain ⟨remark, hremark, hv⟩ := Option.bind_eq_some_iff.mp hentry
  exact Remark.operation?_of_of? hremark hv

namespace Note

/-- The note is what some comment makes, or the blank note of a place without a comment. -/
def IsWritten (n : Note) : Prop :=
  ∃ comment : Option String, n = ofRemark? (Remark.ofComment? comment)

theorem isWritten_blank : blank.IsWritten := ⟨none, rfl⟩

private theorem items_ofRecord {r : Record}
    (h : ∀ v, r.find? "items" = some v → ∃ s, v = .text s) :
    (ofRecord r).items = none ∨ ∃ s, (ofRecord r).items = some (typeSchema (some s)) := by
  unfold ofRecord
  split
  · exact .inl rfl
  · cases hitems : r.find? "items" with
    | none => exact .inl (by simp [Record.get, hitems, itemsOf])
    | some v =>
      obtain ⟨s, rfl⟩ := h v hitems
      exact .inr ⟨s, by simp [Record.get, hitems, itemsOf]⟩

/-- A written note gives the items of an array by a type name or not at all. -/
theorem IsWritten.items {n : Note} (h : n.IsWritten) :
    n.items = none ∨ ∃ s, n.items = some (typeSchema (some s)) := by
  obtain ⟨comment, rfl⟩ := h
  cases hremark : Remark.ofComment? comment with
  | none => exact .inl rfl
  | some remark =>
    refine items_ofRecord ?_
    intro v hv
    cases remark with
    | operation attributes => simp [Remark.toRecord, Record.find?_cons] at hv
    | marker => simp [Remark.toRecord, Record.find?_cons] at hv
    | field attributes =>
      obtain ⟨text, -, htext⟩ := Option.bind_eq_some_iff.mp hremark
      obtain ⟨content, -, hfound⟩ := Remark.exists_pairs_of_field htext
      exact Remark.fieldAttributes_text (by decide) (by decide) (by decide) (by decide) (by decide)
        hfound hv

/-- A written note is blank unless a remark made it. -/
theorem IsWritten.eq_blank {n : Note} (h : n.IsWritten) (hannotated : n.annotated = false) :
    n = blank := by
  obtain ⟨comment, rfl⟩ := h
  cases hremark : Remark.ofComment? comment with
  | none => rfl
  | some remark =>
    rw [hremark, ofRemark?, ofRecord] at hannotated
    rw [ofRemark?, ofRecord]
    split
    · rfl
    · rename_i hsays
      rw [if_neg hsays] at hannotated
      cases hannotated

end Note

namespace Template.Comments

variable (c : Comments) (line : Option Int)

theorem isWritten_noteFor : (c.noteFor line).IsWritten := by
  unfold noteFor
  cases hremark : c.remarkFor line with
  | none => exact Note.isWritten_blank
  | some remark =>
    rcases Option.or_eq_some_iff.mp hremark with hhere | ⟨-, habove⟩
    · exact ⟨c.here line, by rw [(Option.filter_eq_some_iff.mp hhere).1]⟩
    · exact ⟨c.above line, by rw [(Option.filter_eq_some_iff.mp habove).1]⟩

theorem isWritten_attributeNote (name : String) : (c.attributeNote line name).IsWritten := by
  unfold attributeNote
  cases hfound : ((c.fieldComments line).filterMap fieldNote?).lookup name with
  | none => exact Note.isWritten_blank
  | some note =>
    obtain ⟨before, after, hnotes, -⟩ := List.lookup_eq_some_iff.mp hfound
    have hmem : (name, note) ∈ (c.fieldComments line).filterMap fieldNote? := by
      rw [hnotes]
      simp
    obtain ⟨comment, -, hnote⟩ := List.mem_filterMap.mp hmem
    obtain ⟨remark, hremark, hnamed⟩ := Option.bind_eq_some_iff.mp hnote
    refine ⟨some comment, ?_⟩
    rw [Remark.ofComment?, Option.bind_some, hremark]
    split at hnamed
    · split at hnamed
      · cases hnamed
      · exact (Prod.mk.inj (Option.some.inj hnamed)).2.symm
    · cases hnamed

end Template.Comments
end ViewSchema
