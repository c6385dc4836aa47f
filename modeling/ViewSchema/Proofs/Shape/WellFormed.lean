import ViewSchema.Proofs.Shape.Constructed
import ViewSchema.Proofs.Shape.Listing

/-!
The schemas of shapes are well formed. What a schema lists is never an empty list, required names
are listed once and are names of properties, an array has items, and a reference to a component
stands alone. This holds of any shape. The main statement adds that, in a shape that was put
together step by step, an object lists its named members in their order and requires those that are
always present.
-/

namespace ViewSchema

namespace Record

/-- The schemas that a schema lists under `properties`. -/
def properties (schema : Record) : Record :=
  match schema.get "properties" with
  | .map members => members
  | _ => []

/-- A schema without empty lists, lost names or missing items. -/
structure WellFormed (schema : Record) : Prop where
  keys : schema.keys.Nodup
  properties : ∀ v, schema.find? "properties" = some v → ∃ members, v = .map members ∧ members ≠ []
  required : ∀ v, schema.find? "required" = some v →
    ∃ names : List String, v = .list (names.map .text) ∧ names ≠ [] ∧ names.Nodup ∧
      ∀ name ∈ names, name ∈ schema.properties.keys
  items : schema.find? "type" = some (.text "array") → schema.has "items"
  reference : schema.has "$ref" → schema.keys = ["$ref"]

end Record

/-- The keys of a schema that lists no properties, in their order. -/
def plainKeys : List String :=
  "type" :: (("description" :: passedKeys) ++ ["enum"] ++ ["format"] ++ ["example"] ++ ["items"])

theorem Record.find?_of_subset {r : Record} {keys : List String} (hkeys : r.keys ⊆ keys)
    {key : String} (h : key ∉ keys) : r.find? key = none :=
  find?_eq_none_of_not_mem fun hmem => h (hkeys hmem)

/-- A schema that lists nothing is well formed as long as an array has items. -/
theorem Record.WellFormed.plain {schema : Record} (hkeys : schema.keys.Sublist plainKeys)
    (hitems : schema.find? "type" = some (.text "array") → schema.has "items") :
    schema.WellFormed where
  keys := hkeys.nodup (by decide)
  properties v hv := by
    rw [find?_of_subset hkeys.subset (by decide)] at hv
    cases hv
  required v hv := by
    rw [find?_of_subset hkeys.subset (by decide)] at hv
    cases hv
  items := hitems
  reference h := by
    rw [has, find?_of_subset hkeys.subset (by decide)] at h
    cases h

/-- The schema of no particular object. -/
theorem Record.WellFormed.object : Record.WellFormed [("type", .text "object")] :=
  .plain (by decide) fun h => by simp [find?_cons] at h

theorem Record.WellFormed.alone (component : Value) : Record.WellFormed [("$ref", component)] where
  keys := List.nodup_singleton _
  properties v hv := by simp [find?_cons] at hv
  required v hv := by simp [find?_cons] at hv
  items h := by simp [find?_cons] at h
  reference _ := rfl

namespace Note

theorem sublist_keys_passed (extras : Record) (keys : List String) :
    (Record.keys (keys.filterMap fun key => (extras.find? key).map fun v => (key, v))).Sublist
      keys := by
  induction keys with
  | nil => exact .slnil
  | cons key rest ih =>
    rw [List.filterMap_cons]
    cases extras.find? key with
    | none => exact ih.cons key
    | some v => exact ih.cons_cons key

theorem sublist_keys_schemaFields (n : Note) :
    n.schemaFields.keys.Sublist ("description" :: passedKeys) := by
  unfold schemaFields
  split
  · exact List.nil_sublist _
  · have hpassed := sublist_keys_passed n.extras passedKeys
    rw [Record.keys, List.map_append]
    split
    · exact hpassed.cons_cons "description"
    · exact hpassed.cons "description"

/-- The schema of a simple value is a reference to a component, or it has fields of its own. -/
theorem simpleSchema_cases (n : Note) :
    (∃ component, n.simpleSchema = [("$ref", component)]) ∨
      n.simpleSchema.keys.Sublist plainKeys := by
  unfold simpleSchema
  split
  · exact .inl ⟨_, rfl⟩
  refine .inr ?_
  split
  · exact List.sublist_append_left ["type"] _
  · simp only [Record.keys, List.map_cons, List.map_append]
    refine .cons_cons "type" (.append (.append (.append (.append
      n.sublist_keys_schemaFields ?_) ?_) ?_) ?_)
    all_goals split <;> simp

theorem has_items_simpleSchema {n : Note}
    (h : n.simpleSchema.find? "type" = some (.text "array")) : n.simpleSchema.has "items" := by
  unfold simpleSchema at h ⊢
  split at h
  · simp [Record.find?_cons] at h
  split at h
  · simp [Record.find?_cons, missingComment] at h
  · rename_i hannotated
    have htype : (n.schemaType.filter (· != "")).getD "string" = "array" := by
      simpa [Record.find?_cons, givenText] using h
    apply Record.has_of_mem_keys
    simp [hannotated, Record.keys, givenText, htype]

/-- The items of a simple value are those that its note gives. -/
theorem items_simpleSchema {n : Note} {v : Value} (h : n.simpleSchema.find? "items" = some v) :
    v = n.itemSchema := by
  have hnote : ("items", v) ∉ n.schemaFields := fun hmem =>
    absurd (n.sublist_keys_schemaFields.subset (Record.mem_keys_of_mem hmem)) (by decide)
  have hmem := Record.mem_of_find? h
  unfold simpleSchema at hmem
  split at hmem
  · simp at hmem
  split at hmem
  · simp at hmem
  · simp only [List.mem_cons, List.mem_append, hnote, false_or, Prod.mk.injEq] at hmem
    -- Only the last of the parts has a field of this key.
    rcases hmem with hopening | ((hchoices | hformat) | hsample) | hitems
    · exact absurd hopening.1 (by decide)
    · split at hchoices <;> simp at hchoices
    · split at hformat <;> simp at hformat
    · split at hsample <;> simp at hsample
    · split at hitems <;> simp_all

theorem wellFormed_simpleSchema (n : Note) : n.simpleSchema.WellFormed := by
  rcases n.simpleSchema_cases with ⟨component, halone⟩ | hplain
  · exact halone ▸ .alone component
  · exact .plain hplain has_items_simpleSchema

end Note

theorem nodup_requiredNames (members : List Shape) : (requiredNames members).Nodup := by
  induction members using List.reverseRecOn with
  | nil => exact List.nodup_nil
  | append_singleton members m ih =>
    rw [requiredNames_concat]
    split
    · split
      · rename_i hadded
        simp only [Bool.and_eq_true, Bool.not_eq_true', List.contains_eq_mem,
          decide_eq_false_iff_not] at hadded
        exact List.concat_eq_append ▸ ih.concat hadded.2
      · exact ih
    · exact ih

theorem distinctValues_concat (values : List Value) (last : Value) :
    distinctValues (values ++ [last]) =
      if (distinctValues values).any (·.same last) then distinctValues values
      else distinctValues values ++ [last] := by
  rw [distinctValues, List.foldl_append]
  rfl

theorem mem_distinctValues {values : List Value} {v : Value} (h : v ∈ distinctValues values) :
    v ∈ values := by
  induction values using List.reverseRecOn with
  | nil => exact h
  | append_singleton values last ih =>
    rw [distinctValues_concat] at h
    split at h
    · exact List.mem_append_left _ (ih h)
    · exact List.mem_append.mpr ((List.mem_append.mp h).imp_left ih)

/-- The first of some values is kept. -/
theorem eq_nil_of_distinctValues {values : List Value} (h : distinctValues values = []) :
    values = [] := by
  induction values using List.reverseRecOn with
  | nil => rfl
  | append_singleton values last ih =>
    rw [distinctValues_concat] at h
    split at h
    · rename_i hsame
      simp [h] at hsame
    · simp at h

namespace Shape

open ListedProperty

theorem properties_objectSchema (n : Note) (members : Record) (required : List String) :
    (objectSchema n members required).properties = members := by
  rw [Record.properties, Record.get, find?_properties_objectSchema]
  cases members <;> rfl

theorem sublist_keys_objectSchema (n : Note) (members : Record) (required : List String) :
    (objectSchema n members required).keys.Sublist
      ("type" :: (("description" :: passedKeys) ++ ["properties"] ++ ["required"])) := by
  simp only [objectSchema, Record.keys, List.map_cons, List.map_append]
  refine .cons_cons "type" (.append (.append n.sublist_keys_schemaFields ?_) ?_)
  all_goals
    unfold nonEmptyField
    split <;> simp

theorem wellFormed_objectSchema (n : Note) {members : Record} {required : List String}
    (hdistinct : required.Nodup) (hlisted : ∀ name ∈ required, name ∈ members.keys) :
    (objectSchema n members required).WellFormed where
  keys := (sublist_keys_objectSchema n members required).nodup (by decide)
  properties v hv := by
    rw [find?_properties_objectSchema] at hv
    cases members with
    | nil => cases hv
    | cons first rest => exact ⟨first :: rest, (Option.some.inj hv).symm, List.cons_ne_nil _ _⟩
  required v hv := by
    rw [properties_objectSchema]
    rw [find?_required_objectSchema] at hv
    cases required with
    | nil => cases hv
    | cons first rest =>
      exact ⟨first :: rest, (Option.some.inj hv).symm, List.cons_ne_nil _ _, hdistinct, hlisted⟩
  items h := by simp [objectSchema, Record.find?_cons] at h
  reference h := by
    rw [Record.has,
      Record.find?_of_subset (sublist_keys_objectSchema n members required).subset (by decide)] at h
    cases h

/-- What lists some nodes by their names and requires those that are always present is well
formed. -/
theorem wellFormed_members (n : Note) (members : List Shape) :
    (objectSchema n (Record.ofEntries (memberSchemas members))
      (requiredNames members)).WellFormed := by
  refine wellFormed_objectSchema n (nodup_requiredNames members) fun name hname => ?_
  obtain ⟨m, hm, hown, -⟩ := (mem_requiredNames members name).mp hname
  rw [Record.mem_keys_ofEntries, keys_memberSchemas]
  exact List.mem_filterMap.mpr ⟨m, hm, hown⟩

theorem sublist_keys_array (f : Facts) (isRoot : Bool) (items : List Shape) :
    (schema (.array f isRoot items)).keys.Sublist plainKeys := by
  have hnote : f.note.schemaFields.keys.Sublist
      (("description" :: passedKeys) ++ ["enum"] ++ ["format"] ++ ["example"]) :=
    f.note.sublist_keys_schemaFields.trans
      (List.sublist_append_left _ ["enum", "format", "example"])
  simp only [schema, Record.keys, List.map_cons, List.map_append]
  exact .cons_cons "type" (hnote.append (.refl ["items"]))

theorem find?_items_array (f : Facts) (isRoot : Bool) (items : List Shape) :
    (schema (.array f isRoot items)).find? "items" =
      some (itemsField f.note (itemSchemas items)) := by
  have hnote : f.note.schemaFields.find? "items" = none :=
    f.note.find?_schemaFields (by decide) (by decide)
  simp [schema, Record.find?_cons, Record.find?_append, hnote]

theorem wellFormed_array (f : Facts) (isRoot : Bool) (items : List Shape) :
    (schema (.array f isRoot items)).WellFormed := by
  refine .plain (sublist_keys_array f isRoot items) fun _ => ?_
  rw [Record.has, find?_items_array]
  rfl

/-- The schema of every node of a shape is well formed. -/
theorem wellFormed_schema (s : Shape) : s.schema.WellFormed := by
  cases s with
  | simple f => exact f.note.wellFormed_simpleSchema
  | object f members => exact wellFormed_members f.note members
  | array f isRoot items => exact wellFormed_array f isRoot items
  | reference f template bindings resolved nodes =>
    cases resolved with
    | true => exact wellFormed_members .blank nodes
    | false => exact .object
  | bare f => exact .object

/-- A value is the schema of one of the children. -/
def GivesChild (s : Shape) (v : Value) : Prop := ∃ child ∈ s.children, v = .map child.schema

/-- Where the schema of a node has schemas inside, these are the schemas of its children: under
the name of the child, or as the items of an array. Only an array without item templates takes its
items from its note. -/
structure Nests (s : Shape) : Prop where
  properties : ∀ name v, (name, v) ∈ s.schema.properties →
    ∃ child ∈ s.children, child.name = some name ∧ v = .map child.schema
  items : ∀ v, s.schema.find? "items" = some v →
    s.children = [] ∧ v = s.note.itemSchema ∨ s.GivesChild v ∨
      ∃ several, v = .map [("oneOf", .list several)] ∧ ∀ w ∈ several, s.GivesChild w

theorem mem_memberSchemas {members : List Shape} {name : String} {v : Value}
    (h : (name, v) ∈ memberSchemas members) :
    ∃ m ∈ members, m.name = some name ∧ v = .map m.schema := by
  induction members with
  | nil => cases h
  | cons first rest ih =>
    have hrest : (name, v) ∈ memberSchemas rest →
        ∃ m ∈ first :: rest, m.name = some name ∧ v = .map m.schema := by
      intro hmem
      obtain ⟨m, hm, hgiven⟩ := ih hmem
      exact ⟨m, List.mem_cons_of_mem _ hm, hgiven⟩
    rw [memberSchemas] at h
    cases hname : first.name with
    | none =>
      rw [hname] at h
      exact hrest h
    | some own =>
      rw [hname] at h
      rcases List.mem_cons.mp h with hfirst | hlater
      · cases hfirst
        exact ⟨first, List.mem_cons_self, hname, rfl⟩
      · exact hrest hlater

theorem itemSchemas_eq_map (items : List Shape) :
    itemSchemas items = items.map fun item => .map item.schema := by
  induction items with
  | nil => rfl
  | cons item rest ih => rw [itemSchemas, ih, List.map_cons]

theorem itemsField_cases (n : Note) (schemas : List Value) :
    schemas = [] ∧ itemsField n schemas = n.itemSchema ∨ itemsField n schemas ∈ schemas ∨
      ∃ several, itemsField n schemas = .map [("oneOf", .list several)] ∧
        ∀ w ∈ several, w ∈ schemas := by
  unfold itemsField
  split
  · rename_i hnone
    exact .inl ⟨eq_nil_of_distinctValues hnone, rfl⟩
  · rename_i only honly
    exact .inr (.inl (mem_distinctValues (honly ▸ List.mem_singleton_self only)))
  · rename_i hseveral
    exact .inr (.inr ⟨_, rfl, fun w hw => mem_distinctValues hw⟩)

theorem Nests.simple (f : Facts) : (Shape.simple f).Nests where
  properties name v hv := by
    have hnone : f.note.simpleSchema.find? "properties" = none := by
      rcases f.note.simpleSchema_cases with ⟨component, halone⟩ | hplain
      · simp [halone, Record.find?_cons]
      · exact Record.find?_of_subset hplain.subset (by decide)
    rw [schema, Record.properties, Record.get, hnone] at hv
    cases hv
  items v hv := .inl ⟨rfl, Note.items_simpleSchema hv⟩

/-- The schema of no particular object nests nothing. -/
theorem Nests.object {s : Shape} (hschema : s.schema = [("type", .text "object")]) : s.Nests where
  properties name v hv := by
    rw [hschema] at hv
    cases hv
  items v hv := by
    rw [hschema] at hv
    cases hv

theorem Nests.members {s : Shape} {n : Note}
    (hschema : s.schema =
      objectSchema n (Record.ofEntries (memberSchemas s.children)) (requiredNames s.children)) :
    s.Nests where
  properties name v hv := by
    rw [hschema, properties_objectSchema] at hv
    exact mem_memberSchemas (Record.mem_ofEntries hv)
  items v hv := by
    rw [hschema, Record.find?_of_subset (sublist_keys_objectSchema _ _ _).subset (by decide)] at hv
    cases hv

theorem Nests.array (f : Facts) (isRoot : Bool) (items : List Shape) :
    (Shape.array f isRoot items).Nests where
  properties name v hv := by
    rw [Record.properties, Record.get,
      Record.find?_of_subset (sublist_keys_array f isRoot items).subset (by decide)] at hv
    cases hv
  items v hv := by
    have hchild : ∀ w ∈ itemSchemas items, (Shape.array f isRoot items).GivesChild w := by
      intro w hw
      rw [itemSchemas_eq_map] at hw
      obtain ⟨item, hitem, rfl⟩ := List.mem_map.mp hw
      exact ⟨item, hitem, rfl⟩
    rw [find?_items_array] at hv
    obtain rfl := Option.some.inj hv
    rcases itemsField_cases f.note (itemSchemas items) with
      ⟨hnone, hnote⟩ | honly | ⟨several, hseveral, hgiven⟩
    · rw [itemSchemas_eq_map] at hnone
      exact .inl ⟨List.map_eq_nil_iff.mp hnone, hnote⟩
    · exact .inr (.inl (hchild _ honly))
    · exact .inr (.inr ⟨several, hseveral, fun w hw => hchild w (hgiven w hw)⟩)

theorem nests (s : Shape) : s.Nests := by
  cases s with
  | simple f => exact .simple f
  | object f members => exact .members rfl
  | array f isRoot items => exact .array f isRoot items
  | reference f template bindings resolved nodes =>
    cases resolved with
    | true => exact .members (n := .blank) rfl
    | false => exact .object rfl
  | bare f => exact .object rfl

/-- An object with members of distinct names lists these in their order. -/
theorem Distinct.keys_properties {f : Facts} {members : List Shape}
    (h : (Shape.object f members).Distinct) :
    (schema (.object f members)).properties.keys = members.filterMap Shape.name := by
  have hkeys : (memberSchemas members).keys.Nodup := keys_memberSchemas members ▸ h f members rfl
  rw [schema_object, properties_objectSchema, Record.ofEntries_of_nodup hkeys, keys_memberSchemas]

/-- An object with members of distinct names requires those that are always present. -/
theorem Distinct.requiredKeys_schema {f : Facts} {members : List Shape}
    (h : (Shape.object f members).Distinct) :
    requiredKeys (schema (.object f members)) =
      (members.filter fun m => m.note.isRequired && !m.facts.conditional).filterMap
        Shape.name := by
  rw [schema_object, requiredKeys_objectSchema, requiredNames_of_distinct (h f members rfl),
    List.filterMap_filter]
  rfl

end Shape

/-- The schema of every node of a shape that was put together step by step is well formed, and what
stands inside it are the schemas of the children of the node. An object lists its named members in
their order and requires those whose note does and that are not conditional. -/
theorem Store.Constructed.schemas_wellFormed {store : Store} (h : store.Constructed) (r : Ref) :
    ∀ n ∈ (store.shape r).walk,
      n.schema.WellFormed ∧ n.Nests ∧
        ∀ f members, n = .object f members →
          n.schema.properties.keys = members.filterMap Shape.name ∧
            ListedProperty.requiredKeys n.schema =
              (members.filter fun m => m.note.isRequired && !m.facts.conditional).filterMap
                Shape.name := by
  intro n hn
  have hdistinct : n.Distinct := h.consistent.everywhere_distinct _ r n hn
  refine ⟨n.wellFormed_schema, n.nests, ?_⟩
  rintro f members rfl
  exact ⟨hdistinct.keys_properties, hdistinct.requiredKeys_schema⟩

/-- An album with a title, a conditional label and a list of credits. A reference that is resolved
to the title and the label stands among the credits and, without a name, in the album. -/
def album : Store :=
  let title : Shape := .simple { name := some "title" }
  let label : Shape := .simple { name := some "label", conditional := true }
  let named := (({} : Store).insert (.object {} [title, label])).2
  let listed := (named.insert (.array { name := some "credits" } false [.simple {}])).2
  let referring := (listed.make { form := .reference "names" [] none }).2
  (((referring.splice 5 [0, 1]).addItem 4 5).add 2 5).add 2 4

theorem schemas_wellFormed_album :
    album.Constructed ∧ (album.shape 2).schema.WellFormed ∧
      (album.shape 2).schema.properties.keys = ["title", "label", "credits"] ∧
      ListedProperty.requiredKeys (album.shape 2).schema = ["title", "credits"] := by
  have halbum : album.Constructed := by
    dsimp only [album]
    refine .tail (.tail (.tail (.tail (.tail ?trees (.make _ rfl)) (.splice 5 ?names))
      (.addItem 4 ?credit)) (.add 2 ?reference)) (.add 2 ?credits)
    case trees => exact (Store.steps_insert _ _).trans (Store.steps_insert _ _)
    all_goals decide
  have htop : album.shape 2 ∈ (album.shape 2).walk := List.mem_cons_self
  obtain ⟨hwell, -, hobject⟩ := Store.Constructed.schemas_wellFormed halbum 2 _ htop
  obtain ⟨hkeys, hrequired⟩ := hobject _ _ rfl
  exact ⟨halbum, hwell, hkeys, hrequired⟩

end ViewSchema
