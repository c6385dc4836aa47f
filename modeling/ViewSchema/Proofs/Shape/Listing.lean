import Mathlib.Data.List.Induction
import ViewSchema.Proofs.Note
import ViewSchema.Shape.Property
import ViewSchema.Shape.Schema

/-!
The flat property list of a shape and its nested schema describe one document. A schema is listed
by going down its `properties` and `items`; the main statement says that this listing and the
property list of the shape agree entry by entry, in path, name, presence and type, for any shape
of simple values, objects and arrays whose members have names of their own and whose arrays have
one item template at most.
-/

namespace ViewSchema

/-- A property as it stands in a schema: where, under which name, whether the enclosing schema
requires it, and its own schema. -/
structure ListedProperty where
  path : String
  name : String
  required : Bool
  schema : Value

namespace ListedProperty

def requiredKeys (schema : Record) : List String :=
  match schema.get "required" with
  | .list items => items.filterMap Value.text?
  | _ => []

mutual

/-- The properties of a schema from the top down, each before those inside it. A step into a
property adds its name behind a dot, a step into the items of an array adds brackets. -/
def listing (path : String) : Value → List ListedProperty
  | .map fields => listingFields path (requiredKeys fields) fields
  | _ => []

/-- The properties that the fields of a schema hold. -/
def listingFields (path : String) (required : List String) :
    List (String × Value) → List ListedProperty
  | [] => []
  | (key, v) :: rest =>
    (if key == "properties" then listingProperties path required v
    else if key == "items" then listing (path ++ "[]") v
    else []) ++ listingFields path required rest

/-- The properties under the key `properties`, with the names required beside it. -/
def listingProperties (path : String) (required : List String) : Value → List ListedProperty
  | .map members => listingMembers path required members
  | _ => []

/-- The named properties of an object and those inside them. -/
def listingMembers (path : String) (required : List String) :
    List (String × Value) → List ListedProperty
  | [] => []
  | (name, v) :: rest =>
    let inner := Shape.memberPath path (some name)
    ⟨inner, name, required.contains name, v⟩ ::
      (listing inner v ++ listingMembers path required rest)

end

theorem listingFields_append (path : String) (required : List String) (r s : Record) :
    listingFields path required (r ++ s) =
      listingFields path required r ++ listingFields path required s := by
  induction r with
  | nil => rfl
  | cons entry rest ih =>
    obtain ⟨key, v⟩ := entry
    simp only [List.cons_append, listingFields]
    rw [ih, List.append_assoc]

theorem listingFields_eq_nil (path : String) (required : List String) {r : Record}
    (hproperties : "properties" ∉ r.keys) (hitems : "items" ∉ r.keys) :
    listingFields path required r = [] := by
  induction r with
  | nil => rfl
  | cons entry rest ih =>
    obtain ⟨key, v⟩ := entry
    simp only [Record.keys, List.map_cons, List.mem_cons, not_or] at hproperties hitems
    have hkey : (key == "properties") = false ∧ (key == "items") = false :=
      ⟨beq_false_of_ne (Ne.symm hproperties.1), beq_false_of_ne (Ne.symm hitems.1)⟩
    simp only [listingFields, hkey, Bool.false_eq_true, if_false, List.nil_append]
    exact ih hproperties.2 hitems.2

end ListedProperty

theorem requiredNames_concat (members : List Shape) (m : Shape) :
    requiredNames (members ++ [m]) =
      match m.name with
      | some own =>
        if m.isRequired && !(requiredNames members).contains own then
          requiredNames members ++ [own]
        else requiredNames members
      | none => requiredNames members := by
  unfold requiredNames
  rw [List.foldl_append]
  rfl

/-- Under distinct names the required ones are listed in the order of the members. -/
theorem requiredNames_of_distinct {members : List Shape}
    (h : (members.filterMap Shape.name).Nodup) :
    requiredNames members = members.filterMap fun m => if m.isRequired then m.name else none := by
  induction members using List.reverseRecOn with
  | nil => rfl
  | append_singleton members m ih =>
    rw [List.filterMap_append] at h ⊢
    rw [requiredNames_concat, ih (List.nodup_append.mp h).1]
    cases hname : m.name with
    | none => simp [hname]
    | some own =>
      have hfresh : own ∉ members.filterMap fun m => if m.isRequired then m.name else none := by
        intro hmem
        obtain ⟨other, hother, hsame⟩ := List.mem_filterMap.mp hmem
        split at hsame
        · have hold := List.mem_filterMap.mpr ⟨other, hother, hsame⟩
          exact (List.nodup_append.mp h).2.2 own hold own (by simp [hname]) rfl
        · cases hsame
      cases hrequired : m.isRequired with
      | true => simp_all
      | false => simp [hrequired]

/-- The names listed as required are those of the members that are always present. -/
theorem mem_requiredNames (members : List Shape) (name : String) :
    name ∈ requiredNames members ↔ ∃ m ∈ members, m.name = some name ∧ m.isRequired := by
  induction members using List.reverseRecOn with
  | nil => simp [requiredNames]
  | append_singleton members m ih =>
    rw [requiredNames_concat]
    cases hname : m.name with
    | none => simp [ih, hname]
    | some own =>
      simp only [List.mem_append, List.mem_singleton]
      split
      · rename_i hadded
        simp only [Bool.and_eq_true] at hadded
        grind
      · rename_i hkept
        simp only [Bool.and_eq_true, Bool.not_eq_true', List.contains_eq_mem,
          decide_eq_false_iff_not, not_and, not_not] at hkept
        grind

namespace Shape

/-- A shape of simple values, objects and arrays with notes that comments made. Members have names
of their own, and an array has one item template at most. -/
inductive Plain : Shape → Prop where
  | simple {f : Facts} (hnote : f.note.IsWritten) : Plain (.simple f)
  | object {f : Facts} {members : List Shape} (hnote : f.note.IsWritten)
      (hnamed : ∀ m ∈ members, m.name.isSome) (hdistinct : (members.map Shape.name).Nodup)
      (hmembers : ∀ m ∈ members, Plain m) : Plain (.object f members)
  | array {f : Facts} {isRoot : Bool} {items : List Shape} (hnote : f.note.IsWritten)
      (hone : items.length ≤ 1) (hitems : ∀ item ∈ items, Plain item) :
      Plain (.array f isRoot items)

/-- A named node and a listed property belong together: path, name, presence and schema agree. -/
def Agrees (e : String × Shape) (l : ListedProperty) : Prop :=
  e.1 = l.path ∧ e.2.name = some l.name ∧ e.2.isRequired = l.required ∧
    l.schema = .map e.2.schema

end Shape

open ListedProperty

namespace Note

theorem keys_schemaFields (n : Note) {key : String} (h : key ∈ n.schemaFields.keys) :
    key = "description" ∨ key ∈ passedKeys := by
  unfold schemaFields at h
  split at h
  · cases h
  · simp only [Record.keys, List.map_append, List.mem_append] at h
    rcases h with hdescription | hpassed
    · split at hdescription
      · exact .inl (by simpa using hdescription)
      · cases hdescription
    · refine .inr ?_
      simp only [List.mem_map, List.mem_filterMap] at hpassed
      obtain ⟨entry, ⟨passed, hmem, hentry⟩, rfl⟩ := hpassed
      obtain ⟨v, -, rfl⟩ := Option.map_eq_some_iff.mp hentry
      exact hmem

theorem listingFields_schemaFields (n : Note) (path : String) (required : List String) :
    listingFields path required n.schemaFields = [] := by
  apply listingFields_eq_nil
  · intro h
    rcases n.keys_schemaFields h with hkey | hkey <;> revert hkey <;> decide
  · intro h
    rcases n.keys_schemaFields h with hkey | hkey <;> revert hkey <;> decide

theorem find?_schemaFields (n : Note) {key : String} (hdescription : key ≠ "description")
    (hpassed : key ∉ passedKeys) : n.schemaFields.find? key = none := by
  apply Record.find?_eq_none_of_not_mem
  intro h
  rcases n.keys_schemaFields h with hkey | hkey
  · exact hdescription hkey
  · exact hpassed hkey

/-- The schema of a type name holds no properties. -/
theorem listing_typeSchema (path name : String) :
    listing path (.map (typeSchema (some name))) = [] := by
  unfold typeSchema
  split
  · rfl
  · rfl
  · split <;> rfl

/-- The item schema of a written note names a type and holds no properties. -/
theorem IsWritten.listing_itemSchema {n : Note} (h : n.IsWritten) (path : String) :
    listing path n.itemSchema = [] := by
  unfold itemSchema
  split
  · rfl
  · rfl
  · rename_i fields _ hfields
    rcases h.items with hitems | ⟨name, hitems⟩
    · rw [hitems] at hfields
      cases hfields
    · rw [hitems] at hfields
      obtain rfl := Option.some.inj hfields
      exact listing_typeSchema path name

/-- The schema of a simple value holds no properties. -/
theorem IsWritten.listing_simpleSchema {n : Note} (h : n.IsWritten) (path : String) :
    listing path (.map n.simpleSchema) = [] := by
  unfold simpleSchema
  split
  · rfl
  split
  · rfl
  rw [listing]
  generalize requiredKeys _ = required
  -- Of the fields of a simple value only `items` is looked into.
  have hopening : ∀ (name : String) (rest : Record),
      listingFields path required (("type", .text name) :: rest) =
        listingFields path required rest := fun _ _ => rfl
  simp only [hopening, listingFields_append, List.append_eq_nil_iff]
  refine ⟨⟨⟨⟨n.listingFields_schemaFields path required, ?_⟩, ?_⟩, ?_⟩, ?_⟩
  · split <;> rfl
  · split <;> rfl
  · split <;> rfl
  · split
    · simp [listingFields, h.listing_itemSchema]
    · rfl

end Note

namespace Shape

/-- The schema of an object with the given note, member schemas and required names. -/
def objectSchema (n : Note) (members : Record) (required : List String) : Record :=
  ("type", .text "object") :: (n.schemaFields ++ nonEmptyField "properties" (.map members) ++
    nonEmptyField "required" (.list (required.map .text)))

theorem schema_object (f : Facts) (members : List Shape) :
    schema (.object f members) =
      objectSchema f.note (Record.ofEntries (memberSchemas members)) (requiredNames members) :=
  rfl

theorem find?_nonEmptyField (key : String) (v : Value) (wanted : String) :
    Record.find? (nonEmptyField key v) wanted =
      if wanted = key ∧ v.isTruthy then some v else none := by
  unfold nonEmptyField
  by_cases htruthy : v.isTruthy = true
  · simp [htruthy, Record.find?_cons]
  · simp [htruthy]

theorem find?_properties_objectSchema (n : Note) (members : Record) (required : List String) :
    (objectSchema n members required).find? "properties" =
      if members.isEmpty then none else some (.map members) := by
  have hnote : n.schemaFields.find? "properties" = none :=
    n.find?_schemaFields (by decide) (by decide)
  simp only [objectSchema, Record.find?_cons, Record.find?_append, hnote, find?_nonEmptyField]
  cases members <;> simp [Value.isTruthy]

theorem find?_required_objectSchema (n : Note) (members : Record) (required : List String) :
    (objectSchema n members required).find? "required" =
      if required.isEmpty then none else some (.list (required.map .text)) := by
  have hnote : n.schemaFields.find? "required" = none :=
    n.find?_schemaFields (by decide) (by decide)
  simp only [objectSchema, Record.find?_cons, Record.find?_append, hnote, find?_nonEmptyField]
  cases required <;> simp [Value.isTruthy]

/-- The names behind `required` are read back as they were put there. -/
theorem requiredKeys_objectSchema (n : Note) (members : Record) (required : List String) :
    requiredKeys (objectSchema n members required) = required := by
  have htext : (required.map Value.text).filterMap Value.text? = required := by
    simp [List.filterMap_map, Function.comp_def, Value.text?]
  rw [requiredKeys, Record.get, find?_required_objectSchema]
  cases required with
  | nil => rfl
  | cons first rest => exact htext

/-- The properties of an object schema are its members and what is inside them. -/
theorem listing_objectSchema (n : Note) (members : Record) (required : List String)
    (path : String) :
    listing path (.map (objectSchema n members required)) =
      listingMembers path required members := by
  rw [listing, requiredKeys_objectSchema]
  have hopening : ∀ rest : Record,
      listingFields path required (("type", .text "object") :: rest) =
        listingFields path required rest := fun _ => rfl
  have hproperties : listingFields path required (nonEmptyField "properties" (.map members)) =
      listingMembers path required members := by
    cases members with
    | nil => rfl
    | cons first rest =>
      simp [nonEmptyField, Value.isTruthy, listingFields, listingProperties]
  have hrequired :
      listingFields path required (nonEmptyField "required" (.list (required.map .text))) = [] := by
    unfold nonEmptyField
    split <;> rfl
  rw [objectSchema, hopening, listingFields_append, listingFields_append,
    n.listingFields_schemaFields, hproperties, hrequired]
  simp

/-- Under distinct names a member is required by the schema exactly when it is always present. -/
theorem contains_requiredNames {members : List Shape} (hdistinct : (members.map Shape.name).Nodup)
    {m : Shape} (hm : m ∈ members) {name : String} (hname : m.name = some name) :
    (requiredNames members).contains name = m.isRequired := by
  have hiff : name ∈ requiredNames members ↔ m.isRequired = true := by
    rw [mem_requiredNames]
    constructor
    · rintro ⟨other, hother, hsame, hrequired⟩
      have heq : other = m :=
        List.inj_on_of_nodup_map hdistinct hother hm (hsame.trans hname.symm)
      exact heq ▸ hrequired
    · intro hrequired
      exact ⟨m, hm, hname, hrequired⟩
  rw [Bool.eq_iff_iff]
  simpa using hiff

theorem memberSchemas_append (first second : List Shape) :
    memberSchemas (first ++ second) = memberSchemas first ++ memberSchemas second := by
  induction first with
  | nil => rfl
  | cons s rest ih =>
    rw [List.cons_append, memberSchemas, memberSchemas, ih]
    cases s.name <;> rfl

theorem keys_memberSchemas (members : List Shape) :
    (memberSchemas members).keys = members.filterMap Shape.name := by
  induction members with
  | nil => rfl
  | cons m rest ih =>
    rw [memberSchemas]
    cases hname : m.name with
    | none => simpa [hname] using ih
    | some name => simpa [hname, Record.keys] using ih

theorem ofEntries_memberSchemas {members : List Shape}
    (hdistinct : (members.map Shape.name).Nodup) :
    Record.ofEntries (memberSchemas members) = memberSchemas members := by
  apply Record.ofEntries_of_nodup
  rw [keys_memberSchemas]
  have hids : members.filterMap Shape.name = (members.map Shape.name).filterMap id := by
    simp [List.filterMap_map]
  rw [hids]
  apply List.Nodup.filterMap _ hdistinct
  intro a b c hc hb
  simp_all

private theorem agrees_members {members : List Shape} (required : List String)
    (hnamed : ∀ m ∈ members, m.name.isSome)
    (hrequired : ∀ m ∈ members, ∀ name, m.name = some name →
      required.contains name = m.isRequired)
    (ih : ∀ m ∈ members, ∀ path,
      List.Forall₂ Agrees (m.named path) (listing path (.map m.schema)))
    (path : String) :
    List.Forall₂ Agrees (namedMembers path members)
      (listingMembers path required (memberSchemas members)) := by
  induction members with
  | nil => exact .nil
  | cons m rest hrest =>
    obtain ⟨name, hname⟩ := Option.isSome_iff_exists.mp (hnamed m List.mem_cons_self)
    simp only [namedMembers, memberSchemas, hname, Option.isSome_some, if_true, listingMembers,
      List.cons_append]
    refine .cons ?_ (List.rel_append ?_ ?_)
    · exact ⟨rfl, hname, (hrequired m List.mem_cons_self name hname).symm, rfl⟩
    · exact ih m List.mem_cons_self _
    · apply hrest
      · exact fun other hother => hnamed other (List.mem_cons_of_mem _ hother)
      · exact fun other hother => hrequired other (List.mem_cons_of_mem _ hother)
      · exact fun other hother => ih other (List.mem_cons_of_mem _ hother)

/-- The named nodes of a plain shape and the properties of its schema, in the same order. The
induction is on the shape; below a path prefix the two go down side by side. -/
theorem Plain.agrees {s : Shape} (h : s.Plain) (path : String) :
    List.Forall₂ Agrees (s.named path) (listing path (.map s.schema)) := by
  induction h generalizing path with
  | simple hnote =>
    rw [schema, hnote.listing_simpleSchema]
    exact .nil
  | @object f members hnote hnamed hdistinct hmembers ih =>
    rw [schema_object, ofEntries_memberSchemas hdistinct, listing_objectSchema]
    refine agrees_members _ hnamed ?_ ih path
    exact fun m hm name hname => contains_requiredNames hdistinct hm hname
  | @array f isRoot items hnote hone hitems ih =>
    have hfields : listing path (.map (schema (.array f isRoot items))) =
        listing (path ++ "[]") (itemsField f.note (itemSchemas items)) := by
      rw [schema, listing]
      generalize requiredKeys _ = required
      have hopening : ∀ rest : Record,
          listingFields path required (("type", .text "array") :: rest) =
            listingFields path required rest := fun _ => rfl
      rw [hopening, listingFields_append, f.note.listingFields_schemaFields]
      simp [listingFields]
    rw [hfields]
    match items, hone with
    | [], _ =>
      rw [itemSchemas, itemsField, distinctValues]
      simp only [List.foldl_nil]
      rw [hnote.listing_itemSchema]
      exact .nil
    | [item], _ =>
      have honly : itemsField f.note (itemSchemas [item]) = .map item.schema := rfl
      simpa only [honly, named, namedItems, List.append_nil] using
        ih item List.mem_cons_self (path ++ "[]")

end Shape

/-- The schema of a property refers to a component, or it has the type that a type name stands
for. -/
def ListedProperty.TypedAs (l : ListedProperty) (typeName : String) : Prop :=
  ∃ fields : Record, l.schema = .map fields ∧
    (fields.has "$ref" ∨ fields.find? "type" = (typeSchema (some typeName)).find? "type")

/-- The type under which a schema names a type other than the empty one. -/
theorem find?_typeSchema {name : String} (hname : name ≠ "") :
    (typeSchema (some name)).find? "type" =
      some (.text (if (formattedTypes.lookup name).isSome then "string" else name)) := by
  unfold typeSchema
  split
  · contradiction
  · rename_i heq
    exact absurd (Option.some.inj heq) hname
  · rename_i given _ heq
    obtain rfl := Option.some.inj heq
    cases formattedTypes.lookup name <;> rfl

namespace Shape

/-- The schema of a simple value carries the type of its property entry, unless it refers to a
component. Types that stand for a format of text are told apart on both sides. -/
theorem simpleSchema_type (f : Facts) :
    f.note.simpleSchema.has "$ref" ∨
      f.note.simpleSchema.find? "type" =
        (typeSchema (some (propertyType (.simple f)))).find? "type" := by
  unfold Note.simpleSchema
  split
  · exact .inl rfl
  refine .inr ?_
  by_cases hannotated : f.note.annotated = true
  · simp only [propertyType, hannotated, Bool.not_true, Bool.false_eq_true, if_false, if_true,
      Record.find?_cons]
    have hstring : (typeSchema (some "string")).find? "type" = some (.text "string") := rfl
    cases htype : f.note.typeName with
    | none => simp [Note.schemaType, htype, givenText, hstring]
    | some name =>
      by_cases hname : name = ""
      · subst hname
        rw [Note.schemaType, htype]
        rfl
      · have hkept : (some name).filter (fun s => s != "") = some name := by simp [hname]
        rw [hkept, Option.getD_some, find?_typeSchema hname]
        simp only [Note.schemaType, htype]
        split
        · rfl
        · rw [givenText, hkept]
          rfl
  · simp only [propertyType, hannotated]
    rfl

theorem Plain.schema_type {s : Shape} (h : s.Plain) :
    s.schema.has "$ref" ∨
      s.schema.find? "type" = (typeSchema (some s.propertyType)).find? "type" := by
  cases h with
  | simple => exact simpleSchema_type _
  | object => exact .inr rfl
  | array => exact .inr rfl

private theorem plain_namedMembers {members : List Shape}
    (hmembers : ∀ m ∈ members, m.Plain)
    (ih : ∀ m ∈ members, ∀ path, ∀ e ∈ m.named path, e.2.Plain) (path : String) :
    ∀ e ∈ namedMembers path members, e.2.Plain := by
  induction members with
  | nil => simp [namedMembers]
  | cons m rest hrest =>
    intro e he
    simp only [namedMembers, List.mem_append] at he
    rcases he with (hown | hbelow) | hlater
    · split at hown
      · obtain rfl := List.mem_singleton.mp hown
        exact hmembers m List.mem_cons_self
      · cases hown
    · exact ih m List.mem_cons_self _ e hbelow
    · refine hrest ?_ ?_ e hlater
      · exact fun other hother => hmembers other (List.mem_cons_of_mem _ hother)
      · exact fun other hother => ih other (List.mem_cons_of_mem _ hother)

/-- All named nodes of a plain shape are plain. -/
theorem Plain.named {s : Shape} (h : s.Plain) (path : String) : ∀ e ∈ s.named path, e.2.Plain := by
  induction h generalizing path with
  | simple => simp [Shape.named]
  | object hnote hnamed hdistinct hmembers ih => exact plain_namedMembers hmembers ih path
  | @array f isRoot items hnote hone hitems ih =>
    match items, hone with
    | [], _ => simp [Shape.named, namedItems]
    | [item], _ => simpa [Shape.named, namedItems] using ih item List.mem_cons_self (path ++ "[]")

private theorem map_eq_of_agrees {entries : List (String × Shape)}
    {listed : List ListedProperty} (h : List.Forall₂ Agrees entries listed) :
    (entries.map fun e => (e.1, e.2.name, e.2.isRequired)) =
      listed.map fun l => (l.path, some l.name, l.required) := by
  induction h with
  | nil => rfl
  | cons hfirst _ ih =>
    obtain ⟨hpath, hname, hrequired, -⟩ := hfirst
    rw [List.map_cons, List.map_cons, ih, hpath, hname, hrequired]

private theorem typedAs_of_agrees {entries : List (String × Shape)}
    {listed : List ListedProperty} (h : List.Forall₂ Agrees entries listed)
    (hplain : ∀ e ∈ entries, e.2.Plain) :
    List.Forall₂ (fun p l => l.TypedAs p.typeName)
      (entries.map fun e => property e.1 e.2) listed := by
  induction h with
  | nil => exact .nil
  | @cons e l _ _ hfirst _ ih =>
    refine .cons ?_ (ih fun other hother => hplain other (List.mem_cons_of_mem _ hother))
    exact ⟨e.2.schema, hfirst.2.2.2, (hplain e List.mem_cons_self).schema_type⟩

private theorem missing_of_agrees {entries : List (String × Shape)}
    {listed : List ListedProperty} (h : List.Forall₂ Agrees entries listed) :
    ((entries.filterMap fun e =>
        if e.2.note.annotated then none
        else some (e.1, e.2.name.getD "", e.2.kindName)).map fun m => (m.1, some m.2.1)) =
      ((entries.map fun e => property e.1 e.2).filter fun p => !p.annotated).map
        fun p => (p.path, p.name) := by
  induction h with
  | nil => rfl
  | @cons e l _ _ hfirst _ ih =>
    have hname : e.2.name = some l.name := hfirst.2.1
    cases hannotated : e.2.note.annotated with
    | true => simpa [property, hannotated] using ih
    | false => simpa [property, hannotated, hname] using ih

/-- The property list of a plain shape is the listing of its schema: the same paths, names and
presence in the same order, and each schema has the type of its entry. The properties reported as
missing a remark are the entries whose node has none. -/
theorem properties_eq_listing {s : Shape} (h : s.Plain) :
    (s.properties.map fun p => (p.path, p.name, p.required)) =
        ((listing "" (.map s.schema)).map fun l => (l.path, some l.name, l.required)) ∧
      List.Forall₂ (fun p l => l.TypedAs p.typeName) s.properties (listing "" (.map s.schema)) ∧
      (s.missing.map fun m => (m.1, some m.2.1)) =
        (s.properties.filter fun p => !p.annotated).map fun p => (p.path, p.name) := by
  have hagrees := h.agrees ""
  refine ⟨?_, typedAs_of_agrees hagrees (h.named ""), missing_of_agrees hagrees⟩
  rw [properties, List.map_map]
  exact map_eq_of_agrees hagrees

/-- An array of tracks, each with an optional release date and an object of two names. -/
def trackList : Shape :=
  .array (.new none .blank (some 1)) true
    [.object {}
      [.simple (.new (some "released")
          (Note.ofRemark? (Remark.ofComment? (some "# @openapi released:date required:false")))
          (some 3)),
        .object (.new (some "artist") .blank (some 4))
          [.simple (.new (some "first") .blank (some 5)),
            (Shape.simple (.new (some "last") .blank (some 6))).marked]]]

theorem properties_eq_listing_trackList :
    trackList.Plain ∧
      ((listing "" (.map trackList.schema)).map fun l => (l.path, l.name)) =
        [("[].released", "released"), ("[].artist", "artist"), ("[].artist.first", "first"),
          ("[].artist.last", "last")] ∧
      (trackList.missing.map fun m => (m.1, some m.2.1)) =
        (trackList.properties.filter fun p => !p.annotated).map fun p => (p.path, p.name) := by
  have hlast : (Shape.simple (.new (some "last") .blank (some 6))).marked.Plain :=
    .simple Note.isWritten_blank
  have hartist : (Shape.object (.new (some "artist") .blank (some 4))
      [.simple (.new (some "first") .blank (some 5)),
        (Shape.simple (.new (some "last") .blank (some 6))).marked]).Plain := by
    refine .object Note.isWritten_blank ?_ ?_ ?_
    · simp [name, facts, Facts.new, marked, mapFacts]
    · simp [name, facts, Facts.new, marked, mapFacts]
    · simpa using ⟨Plain.simple Note.isWritten_blank, hlast⟩
  have hplain : trackList.Plain := by
    refine .array Note.isWritten_blank (Nat.le_refl 1) ?_
    simp only [List.mem_singleton, forall_eq]
    refine .object Note.isWritten_blank ?_ ?_ ?_
    · simp [name, facts, Facts.new]
    · simp [name, facts, Facts.new]
    · simpa using ⟨Plain.simple ⟨_, rfl⟩, hartist⟩
  have hmatch := properties_eq_listing hplain
  refine ⟨hplain, ?_, hmatch.2.2⟩
  have hlisted := congrArg (List.map fun t => (t.1, t.2.1.getD "")) hmatch.1
  simp only [List.map_map, Function.comp_def, Option.getD_some] at hlisted
  rw [← hlisted]
  rfl

end Shape
end ViewSchema
