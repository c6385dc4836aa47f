import ViewSchema.Proofs.Firsts
import ViewSchema.Proofs.Record.Revise
import ViewSchema.Proofs.Shape.Everywhere
import ViewSchema.Proofs.Shape.WellFormed
import ViewSchema.Proofs.Value.Same

/-!
The item schemas of an array with items that differ. Schemas are compared by their contents; what
stands under `items` are the schemas that are not the same as an earlier one, and none of the items
is lost by this, because sameness is an equivalence between the schemas of definite notes.
-/

namespace ViewSchema

/-- What a note hands on to a schema is definite. -/
structure Note.IsDefinite (n : Note) : Prop where
  choices : ∀ values, n.choices = some values → ∀ v ∈ values, v.IsDefinite
  sample : n.sample.IsDefinite
  items : ∀ fields, n.items = some fields → (Value.map fields).IsDefinite
  extras : ∀ e ∈ n.extras, e.2.IsDefinite

namespace Note

theorem isDefinite_blank : IsDefinite .blank where
  choices := nofun
  sample := .null
  items := nofun
  extras := nofun

namespace IsDefinite

variable {n : Note}

theorem schemaFields (h : n.IsDefinite) : ∀ e ∈ n.schemaFields, e.2.IsDefinite := by
  intro e he
  unfold Note.schemaFields at he
  split at he
  · cases he
  rcases List.mem_append.mp he with hdescription | hpassed
  · split at hdescription
    · obtain rfl := List.mem_singleton.mp hdescription
      exact .text _
    · cases hdescription
  · obtain ⟨key, -, hentry⟩ := List.mem_filterMap.mp hpassed
    obtain ⟨v, hv, rfl⟩ := Option.map_eq_some_iff.mp hentry
    exact h.extras _ (Record.mem_of_find? hv)

/-- The schema of no particular object. -/
theorem object : (Value.map [("type", .text "object")]).IsDefinite :=
  .map (List.nodup_singleton _) (List.forall_mem_singleton.mpr (.text _))

theorem itemSchema (h : n.IsDefinite) : n.itemSchema.IsDefinite := by
  unfold Note.itemSchema
  split
  · exact object
  · exact object
  · rename_i fields _ hfields
    exact h.items fields hfields

theorem simpleSchema (h : n.IsDefinite) : ∀ e ∈ n.simpleSchema, e.2.IsDefinite := by
  intro e he
  unfold Note.simpleSchema at he
  split at he
  · obtain rfl := List.mem_singleton.mp he
    exact .text _
  split at he
  · obtain rfl := List.mem_singleton.mp he
    exact .text _
  simp only [List.mem_cons, List.mem_append] at he
  rcases he with rfl | (((hfields | hchoices) | hformat) | hsample) | hitems
  · exact .text _
  · exact h.schemaFields e hfields
  · split at hchoices
    · cases hchoices
    · cases hchoices
    · rename_i values _ hvalues
      obtain rfl := List.mem_singleton.mp hchoices
      exact .list (h.choices values hvalues)
  · split at hformat
    · obtain rfl := List.mem_singleton.mp hformat
      exact .text _
    · cases hformat
  · split at hsample
    · cases hsample
    · obtain rfl := List.mem_singleton.mp hsample
      exact h.sample
  · split at hitems
    · obtain rfl := List.mem_singleton.mp hitems
      exact h.itemSchema
    · cases hitems

end IsDefinite
end Note

namespace Shape

theorem definite_nonEmptyField {key : String} {v : Value} (hv : v.IsDefinite) :
    ∀ e ∈ nonEmptyField key v, e.2.IsDefinite := by
  unfold nonEmptyField
  split
  · exact List.forall_mem_singleton.mpr hv
  · exact nofun

theorem definite_objectSchema {n : Note} (hn : n.IsDefinite) {members : Record}
    (hmembers : (Value.map members).IsDefinite) (required : List String) :
    ∀ e ∈ objectSchema n members required, e.2.IsDefinite := by
  intro e he
  simp only [objectSchema, List.mem_cons, List.mem_append] at he
  rcases he with rfl | ((hfields | hproperties) | hrequired)
  · exact .text _
  · exact hn.schemaFields e hfields
  · exact definite_nonEmptyField hmembers e hproperties
  · have hnames : ∀ v ∈ required.map Value.text, v.IsDefinite :=
      List.forall_mem_map.mpr fun name _ => .text name
    exact definite_nonEmptyField (.list hnames) e hrequired

/-- The schema of the node is definite. -/
def DefiniteSchema (s : Shape) : Prop := (Value.map s.schema).IsDefinite

theorem definite_members {members : List Shape} (h : ∀ m ∈ members, m.DefiniteSchema) :
    (Value.map (Record.ofEntries (memberSchemas members))).IsDefinite := by
  refine .map (Record.nodup_ofEntries _) fun e he => ?_
  obtain ⟨m, hm, -, hschema⟩ := mem_memberSchemas (Record.mem_ofEntries he)
  exact hschema ▸ h m hm

theorem definite_itemsField {n : Note} (hn : n.IsDefinite) {items : List Shape}
    (h : ∀ item ∈ items, item.DefiniteSchema) : (itemsField n (itemSchemas items)).IsDefinite := by
  have hitem : ∀ v ∈ itemSchemas items, v.IsDefinite := by
    rw [itemSchemas_eq_map]
    exact List.forall_mem_map.mpr h
  rcases itemsField_cases n (itemSchemas items) with
    ⟨-, hnote⟩ | honly | ⟨several, hseveral, hgiven⟩
  · exact hnote ▸ hn.itemSchema
  · exact hitem _ honly
  · rw [hseveral]
    exact .map (List.nodup_singleton _)
      (List.forall_mem_singleton.mpr (.list fun w hw => hitem w (hgiven w hw)))

theorem definiteSchema_of_children {s : Shape} (hnote : s.note.IsDefinite)
    (hchildren : ∀ child ∈ s.children, child.DefiniteSchema) : s.DefiniteSchema := by
  refine .map s.wellFormed_schema.keys fun e he => ?_
  cases s with
  | simple f => exact hnote.simpleSchema e he
  | object f members => exact definite_objectSchema hnote (definite_members hchildren) _ e he
  | array f isRoot items =>
    simp only [schema, List.mem_cons, List.mem_append, List.not_mem_nil, or_false] at he
    rcases he with rfl | hfields | rfl
    · exact .text _
    · exact hnote.schemaFields e hfields
    · exact definite_itemsField hnote hchildren
  | reference f template bindings resolved nodes =>
    cases resolved with
    | true =>
      exact definite_objectSchema Note.isDefinite_blank (definite_members hchildren) _ e he
    | false =>
      obtain rfl := List.mem_singleton.mp he
      exact .text _
  | bare f =>
    obtain rfl := List.mem_singleton.mp he
    exact .text _

mutual

/-- The schema of a shape with definite notes is definite. -/
theorem definiteSchema : ∀ s : Shape, (s.Everywhere fun n => n.note.IsDefinite) → s.DefiniteSchema
  | .simple _, h => definiteSchema_of_children (everywhere_iff.mp h).1 nofun
  | .object _ members, h =>
    definiteSchema_of_children (everywhere_iff.mp h).1
      (definiteSchemas members (everywhere_iff.mp h).2)
  | .array _ _ items, h =>
    definiteSchema_of_children (everywhere_iff.mp h).1
      (definiteSchemas items (everywhere_iff.mp h).2)
  | .reference _ _ _ _ nodes, h =>
    definiteSchema_of_children (everywhere_iff.mp h).1
      (definiteSchemas nodes (everywhere_iff.mp h).2)
  | .bare _, h => definiteSchema_of_children (everywhere_iff.mp h).1 nofun

theorem definiteSchemas : ∀ nodes : List Shape,
    (∀ s ∈ nodes, s.Everywhere fun n => n.note.IsDefinite) → ∀ s ∈ nodes, s.DefiniteSchema
  | [], _ => nofun
  | first :: rest, h =>
    List.forall_mem_cons.mpr ⟨definiteSchema first (h first List.mem_cons_self),
      definiteSchemas rest fun s hs => h s (List.mem_cons_of_mem _ hs)⟩

end

/-- No schema of a shape is a choice between others. -/
theorem find?_oneOf_schema (s : Shape) : s.schema.find? "oneOf" = none := by
  cases s with
  | simple f =>
    rcases f.note.simpleSchema_cases with ⟨component, halone⟩ | hplain
    · simp [schema, halone, Record.find?_cons]
    · exact Record.find?_of_subset hplain.subset (by decide)
  | object f members =>
    exact Record.find?_of_subset (sublist_keys_objectSchema _ _ _).subset (by decide)
  | array f isRoot items =>
    exact Record.find?_of_subset (sublist_keys_array f isRoot items).subset (by decide)
  | reference f template bindings resolved nodes =>
    cases resolved with
    | true => exact Record.find?_of_subset (sublist_keys_objectSchema .blank _ _).subset (by decide)
    | false => rfl
  | bare f => rfl

end Shape

/-- The loop that puts schemas together keeps those that are not the same as an earlier one. -/
theorem distinctValues_eq_firsts {values : List Value} (h : ∀ v ∈ values, v.IsDefinite) :
    distinctValues values = firsts Value.same values := by
  induction values using List.reverseRecOn with
  | nil => rfl
  | append_singleton values last ih =>
    have hearlier : ∀ v ∈ values, v.IsDefinite := fun v hv => h v (List.mem_append_left _ hv)
    rw [distinctValues_concat, firsts_concat, ih hearlier,
      any_firsts (fun v hv => (hearlier v hv).same_refl) fun v hv _ _ => (hearlier v hv).same_trans]

/-- The schemas that a schema of items allows: those it lists, or itself. -/
def Value.alternatives : Value → List Value
  | .map [("oneOf", .list several)] => several
  | only => [only]

theorem Value.alternatives_of_plain {schema : Record} (h : schema.find? "oneOf" = none) :
    (Value.map schema).alternatives = [.map schema] := by
  unfold alternatives
  split
  · rename_i several heq
    obtain rfl := Value.map.inj heq
    cases h
  · rfl

/-- What is put under `items` allows the distinct schemas, and it lists them when there are two or
more. -/
theorem alternatives_itemsField (n : Note) {schemas : List Value} (hsome : schemas ≠ [])
    (hplain : ∀ v ∈ schemas, ∃ r : Record, v = .map r ∧ r.find? "oneOf" = none) :
    (itemsField n schemas).alternatives = distinctValues schemas ∧
      ((∃ several, itemsField n schemas = .map [("oneOf", .list several)]) ↔
        2 ≤ (distinctValues schemas).length) := by
  unfold itemsField
  match hkept : distinctValues schemas with
  | [] => exact absurd (eq_nil_of_distinctValues hkept) hsome
  | [only] =>
    obtain ⟨r, rfl, hr⟩ := hplain only (mem_distinctValues (hkept ▸ List.mem_cons_self))
    refine ⟨Value.alternatives_of_plain hr, ⟨fun ⟨several, heq⟩ => ?_, fun hlength => ?_⟩⟩
    · obtain rfl := Value.map.inj heq
      cases hr
    · simp at hlength
  | _ :: _ :: _ => exact ⟨rfl, ⟨fun _ => by simp, fun _ => ⟨_, rfl⟩⟩⟩

namespace Shape

/-- The array gives its items the schemas of its item templates that are not the same as an earlier
one, in their order: alone if there is one, as a choice if there are more. No two of them are the
same, the schema of every template is the same as exactly one of them, and one more template whose
schema is the same as an earlier one changes nothing. The notes are to be definite, as they are
without a not-a-number. -/
theorem alternatives_items {f : Facts} {isRoot : Bool} {items : List Shape} (hitems : items ≠ [])
    (hdefinite : ∀ item ∈ items, item.Everywhere fun n => n.note.IsDefinite) :
    let schemas := items.map fun item => Value.map item.schema
    ∃ given, (schema (.array f isRoot items)).find? "items" = some given ∧
      given.alternatives = firsts Value.same schemas ∧
      ((∃ several, given = .map [("oneOf", .list several)]) ↔ 2 ≤ given.alternatives.length) ∧
      (given.alternatives.Pairwise fun v w => v.same w = false ∧ w.same v = false) ∧
      (∀ v ∈ schemas, given.alternatives.countP (·.same v) = 1 ∧
        given.alternatives.countP v.same = 1) ∧
      ∀ item : Shape, (∃ earlier ∈ items, (Value.map earlier.schema).same (.map item.schema)) →
        schema (.array f isRoot (items ++ [item])) = schema (.array f isRoot items) := by
  intro schemas
  have hschemas : itemSchemas items = schemas := itemSchemas_eq_map items
  have hsome : schemas ≠ [] := List.map_eq_nil_iff.not.mpr hitems
  have hknown : ∀ v ∈ schemas, v.IsDefinite :=
    List.forall_mem_map.mpr (definiteSchemas items hdefinite)
  have hself : ∀ v ∈ schemas, v.same v := fun v hv => (hknown v hv).same_refl
  have htrans : ∀ u ∈ schemas, ∀ v w, u.same v → v.same w → u.same w :=
    fun u hu _ _ => (hknown u hu).same_trans
  have hsymm : ∀ v ∈ schemas, ∀ w ∈ schemas, v.same w → w.same v :=
    fun v hv w hw => (hknown v hv).same_symm (hknown w hw)
  obtain ⟨halternatives, hlisted⟩ := alternatives_itemsField f.note hsome
    (List.forall_mem_map.mpr fun item _ => ⟨item.schema, rfl, item.find?_oneOf_schema⟩)
  rw [← halternatives] at hlisted
  rw [distinctValues_eq_firsts hknown] at halternatives
  have hamong : ∀ v ∈ firsts Value.same schemas, v ∈ schemas := (sublist_firsts schemas).subset
  refine ⟨itemsField f.note schemas, hschemas ▸ find?_items_array f isRoot items, halternatives,
    hlisted, ?_, fun v hv => ⟨?_, ?_⟩, fun item hearlier => ?_⟩
  · rw [halternatives]
    refine (pairwise_firsts schemas).imp_of_mem fun {v w} hv hw hdiffer => ⟨hdiffer, ?_⟩
    refine Bool.eq_false_iff.mpr fun hback => Bool.eq_false_iff.mp hdiffer ?_
    exact hsymm w (hamong w hw) v (hamong v hv) hback
  · rw [halternatives]
    exact countP_firsts hself htrans hsymm v hv
  · rw [halternatives, ← countP_firsts hself htrans hsymm v hv]
    exact List.countP_congr fun w hw => ⟨hsymm v hv w (hamong w hw), hsymm w (hamong w hw) v hv⟩
  · obtain ⟨earlier, hmem, hsame⟩ := hearlier
    have hfound : schemas.any (·.same (.map item.schema)) :=
      List.any_eq_true.mpr ⟨_, List.mem_map_of_mem hmem, hsame⟩
    have hkept : distinctValues (itemSchemas (items ++ [item])) =
        distinctValues (itemSchemas items) := by
      rw [hschemas, itemSchemas_eq_map, List.map_append, List.map_singleton, distinctValues_concat,
        distinctValues_eq_firsts hknown, any_firsts hself htrans, if_pos hfound]
    rw [schema, schema, itemsField, hkept, itemsField]

/-- Three item templates, the second of the same schema as the first: a number and a truth value are
the same. -/
def switchedTracks : List Shape :=
  [.int 1, .bool true, .text "off"].map fun sample =>
    .simple { note := { typeName := some "integer", sample } }

theorem alternatives_items_switchedTracks :
    switchedTracks ≠ [] ∧
      (∀ item ∈ switchedTracks, item.Everywhere fun n => n.note.IsDefinite) ∧
      ∃ given, (schema (.array {} true switchedTracks)).find? "items" = some given ∧
        given.alternatives.length = 2 ∧
        schema (.array {} true (switchedTracks ++ switchedTracks.take 1)) =
          schema (.array {} true switchedTracks) := by
  have hsome : switchedTracks ≠ [] := by decide
  have hsamples : ∀ v ∈ [Value.int 1, .bool true, .text "off"], v.IsDefinite := by
    simp [Value.IsDefinite.int, Value.IsDefinite.bool, Value.IsDefinite.text]
  have hdefinite : ∀ item ∈ switchedTracks, item.Everywhere fun n => n.note.IsDefinite := by
    refine List.forall_mem_map.mpr fun sample hsample => everywhere_iff.mpr ⟨?_, nofun⟩
    exact { choices := nofun, sample := hsamples sample hsample, items := nofun, extras := nofun }
  refine ⟨hsome, hdefinite, ?_⟩
  obtain ⟨given, hgiven, hkept, -, -, -, happend⟩ :=
    alternatives_items (f := {}) hsome hdefinite
  refine ⟨given, hgiven, ?_, happend _ ⟨_, List.mem_cons_self, ?_⟩⟩
  · rw [hkept]
    decide +kernel
  · decide +kernel

end Shape

end ViewSchema
