import ViewSchema.Proofs.Record.Revise
import ViewSchema.Proofs.Shape.Everywhere
import ViewSchema.Proofs.Shape.WellFormed

/-!
The schema of a shape that is marked as conditional. It is the schema of the shape without the
names that objects require, at any depth. Inside an object, marking one of the members changes its
schema in this way and takes its name from those that the object requires. An array with several
item templates is left out: templates that differ in required names alone become the same.
-/

namespace ViewSchema.Shape

open ListedProperty
open Value (onEntries)

/-- The schema of an object without its required names, its properties changed by their names. -/
def relaxed (change : String → Record → Record) (schema : Record) : Record :=
  Record.without "required"
    (schema.revise "properties" (onEntries (Record.mapValues fun name => onEntries (change name))))

mutual

/-- The schema of the shape without the names that its objects require, at any depth. -/
def withoutRequired : Shape → Record → Record
  | .object _ members => relaxed (memberWithoutRequired members)
  | .reference _ _ _ _ nodes => relaxed (memberWithoutRequired nodes)
  | .array _ _ items => Record.revise "items" (onEntries (itemWithoutRequired items))
  | .simple _ | .bare _ => id

/-- The schema of the last member of a name. -/
def memberWithoutRequired : List Shape → String → Record → Record
  | [], _ => id
  | s :: rest, name =>
    if name ∈ rest.filterMap Shape.name then memberWithoutRequired rest name
    else if s.name = some name then withoutRequired s
    else id

/-- The schema of the only item. -/
def itemWithoutRequired : List Shape → Record → Record
  | [item] => withoutRequired item
  | _ => id

end

/-- An array has one item template at most. -/
def hasOneItem : Shape → Bool
  | .array _ _ items => items.length ≤ 1
  | _ => true

section Marked

variable {s : Shape} {members : List Shape}

theorem isRequired_marked (s : Shape) : s.marked.isRequired = false := by
  rw [isRequired, marked, facts_mapFacts, Facts.isRequired]
  exact Bool.and_false _

theorem marked_marked (s : Shape) : s.marked.marked = s.marked := mapFacts_mapFacts _ _ s

/-- Nothing that is marked is required. -/
theorem requiredNames_marked (members : List Shape) :
    requiredNames (members.map Shape.marked) = [] := by
  refine List.eq_nil_iff_forall_not_mem.mpr fun name hname => ?_
  obtain ⟨m, hm, -, hrequired⟩ := (mem_requiredNames _ name).mp hname
  obtain ⟨s, -, rfl⟩ := List.mem_map.mp hm
  rw [isRequired_marked] at hrequired
  cases hrequired

theorem memberWithoutRequired_concat (members : List Shape) (s : Shape) (name : String) :
    memberWithoutRequired (members ++ [s]) name =
      if s.name = some name then s.withoutRequired else memberWithoutRequired members name := by
  induction members with
  | nil => simp [memberWithoutRequired]
  | cons first rest ih =>
    rw [List.cons_append, memberWithoutRequired, memberWithoutRequired, ih]
    by_cases hs : s.name = some name
    · simp [hs]
    · simp [hs]

/-- The properties of an object whose members are marked. -/
theorem ofEntries_memberSchemas_marked
    (h : ∀ m ∈ members, m.marked.schema = m.withoutRequired m.schema) :
    Record.ofEntries (memberSchemas (members.map Shape.marked)) =
      (Record.ofEntries (memberSchemas members)).mapValues fun name =>
        onEntries (memberWithoutRequired members name) := by
  induction members using List.reverseRecOn with
  | nil => rfl
  | append_singleton members m ih =>
    have hmembers := ih fun s hs => h s (List.mem_append_left _ hs)
    have hm := h m (by simp)
    simp only [List.map_append, List.map_cons, List.map_nil, memberSchemas_append]
    cases hname : m.name with
    | none =>
      have hnone : memberWithoutRequired (members ++ [m]) = memberWithoutRequired members := by
        funext name
        simp [memberWithoutRequired_concat, hname]
      simp [memberSchemas, name_marked, hname, hmembers, hnone]
    | some name =>
      simp only [memberSchemas, name_marked, hname, Record.ofEntries_concat, hmembers, hm]
      have hlast : (.map (m.withoutRequired m.schema) : Value) =
          onEntries (memberWithoutRequired (members ++ [m]) name) (.map m.schema) := by
        rw [memberWithoutRequired_concat, if_pos hname]
        rfl
      rw [hlast]
      have hothers : ∀ other, other ≠ name → onEntries (memberWithoutRequired members other) =
          onEntries (memberWithoutRequired (members ++ [m]) other) := by
        intro other hother
        have hdiffers : m.name ≠ some other := by
          rw [hname]
          exact fun hsame => hother (Option.some.inj hsame).symm
        rw [memberWithoutRequired_concat, if_neg hdiffers]
      exact Record.insert_mapValues (Record.nodup_ofEntries _) hothers _

/-- What a note hands on has no part in properties, items or required names. -/
theorem not_mem_keys_schemaFields (n : Note) {key : String}
    (h : key = "properties" ∨ key = "items" ∨ key = "required") : key ∉ n.schemaFields.keys := by
  intro hmem
  rcases n.keys_schemaFields hmem with hkey | hkey <;> rcases h with rfl | rfl | rfl <;>
    revert hkey <;> decide

theorem eq_of_mem_keys_nonEmptyField {key wanted : String} {v : Value}
    (h : wanted ∈ (nonEmptyField key v).keys) : wanted = key := by
  unfold nonEmptyField at h
  split at h
  · exact List.mem_singleton.mp h
  · cases h

section ObjectSchema

variable (n : Note) (properties : Record) (required : List String)

theorem objectSchema_eq_append :
    objectSchema n properties required =
      [("type", .text "object")] ++ n.schemaFields ++
        nonEmptyField "properties" (.map properties) ++
          nonEmptyField "required" (.list (required.map .text)) := by
  simp [objectSchema]

theorem revise_objectSchema (change : String → Value → Value) :
    (objectSchema n properties required).revise "properties"
        (onEntries (Record.mapValues change)) =
      objectSchema n (properties.mapValues change) required := by
  have hnote := not_mem_keys_schemaFields n (.inl (Eq.refl "properties"))
  have hrequired : "properties" ∉ (nonEmptyField "required" (.list (required.map .text))).keys :=
    fun hmem => absurd (eq_of_mem_keys_nonEmptyField hmem) (by decide)
  have hlisted : (nonEmptyField "properties" (.map properties)).revise "properties"
      (onEntries (Record.mapValues change)) =
        nonEmptyField "properties" (.map (properties.mapValues change)) := by
    cases properties <;> rfl
  rw [objectSchema_eq_append, objectSchema_eq_append, Record.revise_append, Record.revise_append,
    Record.revise_append, Record.revise_of_not_mem hnote, Record.revise_of_not_mem hrequired,
    hlisted, Record.revise_of_not_mem (by decide)]

theorem without_objectSchema :
    (objectSchema n properties required).without "required" = objectSchema n properties [] := by
  have hnote := not_mem_keys_schemaFields n (.inr (.inr (Eq.refl "required")))
  have hproperties : "required" ∉ (nonEmptyField "properties" (.map properties)).keys :=
    fun hmem => absurd (eq_of_mem_keys_nonEmptyField hmem) (by decide)
  have hlost : (nonEmptyField "required" (.list (required.map .text))).without "required" = [] :=
    List.filter_eq_nil_iff.mpr fun e he => by
      simp [eq_of_mem_keys_nonEmptyField (Record.mem_keys_of_mem he)]
  rw [objectSchema_eq_append, objectSchema_eq_append, Record.without_append,
    Record.without_append, Record.without_append, Record.without_of_not_mem hnote,
    Record.without_of_not_mem hproperties, hlost, Record.without_of_not_mem (by decide)]
  rfl

/-- Of an object schema, only the properties change and only the required names are lost. -/
theorem relaxed_objectSchema (change : String → Record → Record) :
    relaxed change (objectSchema n properties required) =
      objectSchema n (properties.mapValues fun name => onEntries (change name)) [] := by
  rw [relaxed, revise_objectSchema, without_objectSchema]

end ObjectSchema

/-- The schema of an object whose members are marked. -/
theorem objectSchema_marked (n : Note)
    (h : ∀ m ∈ members, m.marked.schema = m.withoutRequired m.schema) :
    objectSchema n (Record.ofEntries (memberSchemas (members.map Shape.marked)))
        (requiredNames (members.map Shape.marked)) =
      relaxed (memberWithoutRequired members)
        (objectSchema n (Record.ofEntries (memberSchemas members)) (requiredNames members)) := by
  rw [relaxed_objectSchema, requiredNames_marked, ofEntries_memberSchemas_marked h]

/-- The only item template of an array gives its items. -/
theorem schema_array_marked {f : Facts} {isRoot : Bool} {items : List Shape}
    (hone : items.length ≤ 1)
    (h : ∀ item ∈ items, item.marked.schema = item.withoutRequired item.schema) :
    schema (.array { f with conditional := true } isRoot (items.map Shape.marked)) =
      (schema (.array f isRoot items)).revise "items" (onEntries (itemWithoutRequired items)) := by
  have hsplit : ∀ v : Value, ("type", .text "array") :: (f.note.schemaFields ++ [("items", v)]) =
      [("type", .text "array")] ++ f.note.schemaFields ++ [("items", v)] := fun _ => by simp
  have hitems : itemsField f.note (itemSchemas (items.map Shape.marked)) =
      onEntries (itemWithoutRequired items) (itemsField f.note (itemSchemas items)) := by
    match items, hone with
    | [], _ => exact (Value.onEntries_id _).symm
    | [item], _ =>
      have hitem := h item List.mem_cons_self
      change (.map item.marked.schema : Value) = .map (item.withoutRequired item.schema)
      rw [hitem]
  rw [schema, schema, hitems, hsplit, hsplit, Record.revise_append, Record.revise_append,
    Record.revise_of_not_mem (not_mem_keys_schemaFields f.note (.inr (.inl rfl))),
    Record.revise_of_not_mem (by decide)]
  rfl

mutual

/-- The schema of a marked shape is that of the shape without the names that objects require. -/
theorem schema_marked : ∀ s : Shape, (s.Everywhere fun n => n.hasOneItem) →
    s.marked.schema = s.withoutRequired s.schema
  | .simple _, _ => rfl
  | .object f members, h => by
    have hmembers := schema_marked_all members (everywhere_iff.mp h).2
    rw [marked, mapFacts, mapFactsList_eq_map]
    exact objectSchema_marked f.note hmembers
  | .array f isRoot items, h => by
    obtain ⟨hone, hchildren⟩ := everywhere_iff.mp h
    rw [marked, mapFacts, mapFactsList_eq_map]
    exact schema_array_marked (by simpa [hasOneItem] using hone) (schema_marked_all items hchildren)
  | .reference f template bindings resolved nodes, h => by
    have hnodes := schema_marked_all nodes (everywhere_iff.mp h).2
    rw [marked, mapFacts, mapFactsList_eq_map]
    cases resolved with
    | true => exact objectSchema_marked .blank hnodes
    | false => rfl
  | .bare _, _ => rfl

theorem schema_marked_all : ∀ nodes : List Shape,
    (∀ node ∈ nodes, node.Everywhere fun n => n.hasOneItem) →
      ∀ node ∈ nodes, node.marked.schema = node.withoutRequired node.schema
  | [], _ => nofun
  | s :: rest, h => by
    obtain ⟨hs, hrest⟩ := List.forall_mem_cons.mp h
    exact List.forall_mem_cons.mpr ⟨schema_marked s hs, schema_marked_all rest hrest⟩

end

section Member

variable {front back : List Shape} {name : String}

/-- A member with a name of its own, between members of other names. -/
structure StandsAlone (front : List Shape) (s : Shape) (back : List Shape) (name : String) :
    Prop where
  named : s.name = some name
  distinct : ((front ++ s :: back).filterMap Shape.name).Nodup

theorem StandsAlone.marked (h : StandsAlone front s back name) :
    StandsAlone front s.marked back name where
  named := (name_marked s).trans h.named
  distinct := by
    have hdistinct := h.distinct
    rw [List.filterMap_append, List.filterMap_cons] at hdistinct ⊢
    rwa [name_marked]

theorem StandsAlone.other (h : StandsAlone front s back name) :
    ∀ m ∈ front ++ back, m.name ≠ some name := by
  have hdistinct := h.distinct
  simp only [List.filterMap_append, List.filterMap_cons, h.named] at hdistinct
  rw [List.nodup_middle, List.nodup_cons, ← List.filterMap_append] at hdistinct
  exact fun m hm hsame => hdistinct.1 (List.mem_filterMap.mpr ⟨m, hm, hsame⟩)

theorem StandsAlone.ofEntries_memberSchemas (h : StandsAlone front s back name) :
    Record.ofEntries (memberSchemas (front ++ s :: back)) =
      memberSchemas front ++ [(name, .map s.schema)] ++ memberSchemas back := by
  have hkeys : (memberSchemas (front ++ s :: back)).keys.Nodup := by
    rw [keys_memberSchemas]
    exact h.distinct
  rw [Record.ofEntries_of_nodup hkeys, memberSchemas_append, memberSchemas, h.named]
  simp

theorem StandsAlone.properties_marked (h : StandsAlone front s back name)
    (hmarked : s.marked.schema = s.withoutRequired s.schema) :
    Record.ofEntries (memberSchemas (front ++ s.marked :: back)) =
      (Record.ofEntries (memberSchemas (front ++ s :: back))).revise name
        (onEntries s.withoutRequired) := by
  have hother : ∀ members, members ⊆ front ++ back → name ∉ (memberSchemas members).keys := by
    intro members hsubset hmem
    rw [keys_memberSchemas] at hmem
    obtain ⟨m, hm, hsame⟩ := List.mem_filterMap.mp hmem
    exact h.other m (hsubset hm) hsame
  have hown : Record.revise name (onEntries s.withoutRequired) [(name, .map s.schema)] =
      [(name, .map s.marked.schema)] := by
    simp [Record.revise, Record.mapValues, hmarked, onEntries]
  rw [h.ofEntries_memberSchemas, h.marked.ofEntries_memberSchemas, Record.revise_append,
    Record.revise_append, hown, Record.revise_of_not_mem (hother front (by simp)),
    Record.revise_of_not_mem (hother back (by simp))]

/-- The name of a member that is marked is no longer required, and every other name as before. -/
theorem StandsAlone.required_marked (h : StandsAlone front s back name) :
    requiredNames (front ++ s.marked :: back) =
      (requiredNames (front ++ s :: back)).filter (· != name) := by
  let required : Shape → Option String := fun m => if m.isRequired then m.name else none
  have hother : ∀ members, members ⊆ front ++ back →
      (members.filterMap required).filter (· != name) = members.filterMap required := by
    intro members hsubset
    refine List.filter_eq_self.mpr fun other hmem => bne_iff_ne.mpr ?_
    rintro rfl
    obtain ⟨m, hm, hsame⟩ := List.mem_filterMap.mp hmem
    simp only [required] at hsame
    split at hsame
    · exact h.other m (hsubset hm) hsame
    · cases hsame
  have hown : ([s].filterMap required).filter (· != name) = [] := by
    cases hrequired : s.isRequired <;> simp [required, hrequired, h.named]
  have hmarked : [s.marked].filterMap required = [] := by simp [required, isRequired_marked]
  have hsplit : ∀ m : Shape, front ++ m :: back = front ++ [m] ++ back := fun m => by simp
  rw [requiredNames_of_distinct h.marked.distinct, requiredNames_of_distinct h.distinct, hsplit,
    hsplit, List.filterMap_append, List.filterMap_append, List.filterMap_append,
    List.filterMap_append, List.filter_append, List.filter_append, hother front (by simp),
    hother back (by simp), hown, hmarked]

/-- The schema of an object in which one member is marked, and what it was before. -/
theorem StandsAlone.schema_marked (h : StandsAlone front s back name)
    (hmarked : s.marked.schema = s.withoutRequired s.schema) (f : Facts) :
    let before := schema (.object f (front ++ s :: back))
    before = objectSchema f.note before.properties (requiredKeys before) ∧
      schema (.object f (front ++ s.marked :: back)) =
        objectSchema f.note (before.properties.revise name (onEntries s.withoutRequired))
          ((requiredKeys before).filter (· != name)) := by
  simp only [schema_object, properties_objectSchema, requiredKeys_objectSchema, true_and,
    h.properties_marked hmarked, h.required_marked]

end Member

/-- Marking a shape only takes away what its objects require, a second time it changes nothing, and
of an object around it only its own schema changes and only its name is no longer required. -/
theorem marked_schema (h : s.Everywhere fun n => n.hasOneItem) :
    s.marked.schema = s.withoutRequired s.schema ∧ s.marked.marked = s.marked ∧
      ∀ (f : Facts) (front back : List Shape) (name : String), StandsAlone front s back name →
        let before := schema (.object f (front ++ s :: back))
        before = objectSchema f.note before.properties (requiredKeys before) ∧
          schema (.object f (front ++ s.marked :: back)) =
            objectSchema f.note (before.properties.revise name (onEntries s.withoutRequired))
              ((requiredKeys before).filter (· != name)) :=
  have hmarked := schema_marked s h
  ⟨hmarked, s.marked_marked, fun f _ _ _ halone => halone.schema_marked hmarked f⟩

end Marked

/-- Tracks with a title and an artist, who is spoken of in another file. -/
def tracks : Shape :=
  .array { name := some "tracks" } false
    [.object {}
      [.simple { name := some "title" },
        .reference { name := some "artist" } "artist" [] true [.simple { name := some "first" }]]]

/-- Of an album with a title and tracks, the title is left when the tracks are marked. -/
theorem marked_schema_tracks :
    (tracks.Everywhere fun n => n.hasOneItem) ∧
      tracks.marked.schema = tracks.withoutRequired tracks.schema ∧
      requiredKeys (schema (.object {} [.simple { name := some "title" }, tracks.marked])) =
        ["title"] := by
  have hone : tracks.Everywhere fun n => n.hasOneItem := by
    unfold Everywhere
    decide
  have halone : StandsAlone [.simple { name := some "title" }] tracks [] "tracks" :=
    ⟨rfl, by decide⟩
  obtain ⟨hschema, -, hmember⟩ := marked_schema hone
  have hafter := (hmember {} _ _ _ halone).2
  refine ⟨hone, hschema, ?_⟩
  rw [List.singleton_append] at hafter
  rw [hafter, requiredKeys_objectSchema]
  decide

end ViewSchema.Shape
