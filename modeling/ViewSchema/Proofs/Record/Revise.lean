import ViewSchema.Proofs.Record

/-!
Records with their values changed or with a key left out. The keys that are left keep their order,
and what is put under a key may as well be changed before it is put there.
-/

namespace ViewSchema

/-- A value with the record in it changed, if it is one. -/
def Value.onEntries (change : Record → Record) : Value → Value
  | .map entries => .map (change entries)
  | v => v

theorem Value.onEntries_id (v : Value) : v.onEntries (fun entries => entries) = v := by
  cases v <;> rfl

namespace Record

/-- The record with every value changed. -/
def mapValues (change : String → Value → Value) (r : Record) : Record :=
  r.map fun e => (e.1, change e.1 e.2)

/-- The record with the value under one key changed. -/
def revise (key : String) (change : Value → Value) (r : Record) : Record :=
  r.mapValues fun k v => if k = key then change v else v

/-- The record without a key. -/
def without (key : String) (r : Record) : Record := r.filter fun e => e.1 != key

section MapValues

variable {change other : String → Value → Value} {r : Record}

theorem mapValues_cons (change : String → Value → Value) (k : String) (v : Value) (r : Record) :
    mapValues change ((k, v) :: r) = (k, change k v) :: mapValues change r := rfl

theorem mapValues_append (change : String → Value → Value) (r s : Record) :
    mapValues change (r ++ s) = mapValues change r ++ mapValues change s :=
  List.map_append

theorem mapValues_congr (h : ∀ k ∈ r.keys, change k = other k) :
    r.mapValues change = r.mapValues other := by
  refine List.map_congr_left fun e he => ?_
  rw [h e.1 (List.mem_map_of_mem he)]

theorem mapValues_id (r : Record) : r.mapValues (fun _ v => v) = r := List.map_id _

theorem nodup_insert {key : String} (h : r.keys.Nodup) (v : Value) :
    (r.insert key v).keys.Nodup := by
  induction r with
  | nil => exact List.nodup_singleton key
  | cons entry rest ih =>
    obtain ⟨k, w⟩ := entry
    obtain ⟨hk, hrest⟩ := List.nodup_cons.mp h
    rw [insert]
    split
    · exact h
    · rename_i hne
      refine List.nodup_cons.mpr ⟨fun hmem => ?_, ih hrest⟩
      rcases (mem_keys_insert rest key k v).mp hmem with hold | rfl
      · exact hk hold
      · exact hne (beq_self_eq_true k)

theorem nodup_ofEntries (entries : Record) : (ofEntries entries).keys.Nodup := by
  induction entries using List.reverseRecOn with
  | nil => exact List.nodup_nil
  | append_singleton entries last ih =>
    rw [ofEntries_concat]
    exact nodup_insert ih _

/-- A value may be changed when it is put under its key, as long as the others change alike. -/
theorem insert_mapValues {key : String} (hdistinct : r.keys.Nodup)
    (h : ∀ k, k ≠ key → change k = other k) (v : Value) :
    (r.mapValues change).insert key (other key v) = (r.insert key v).mapValues other := by
  induction r with
  | nil => rfl
  | cons entry rest ih =>
    obtain ⟨k, w⟩ := entry
    obtain ⟨hk, hrest⟩ := List.nodup_cons.mp hdistinct
    rw [mapValues_cons, insert, insert]
    split
    · rename_i hsame
      obtain rfl : k = key := eq_of_beq hsame
      have hothers : mapValues change rest = mapValues other rest :=
        mapValues_congr fun later hlater => h later fun heq => hk (heq ▸ hlater)
      rw [mapValues_cons, hothers]
    · rename_i hne
      have hkey : k ≠ key := fun heq => hne (heq ▸ beq_self_eq_true k)
      rw [mapValues_cons, ih hrest, h k hkey]

end MapValues

section Key

variable {r s : Record} {key : String}

theorem revise_of_not_mem (h : key ∉ r.keys) (change : Value → Value) :
    r.revise key change = r := by
  have hsame : r.revise key change = r.mapValues fun _ v => v :=
    mapValues_congr fun k hk => by
      have hne : k ≠ key := fun heq => h (heq ▸ hk)
      simp [hne]
  rw [hsame, mapValues_id]

theorem revise_append (change : Value → Value) (r s : Record) :
    revise key change (r ++ s) = r.revise key change ++ s.revise key change :=
  mapValues_append _ r s

theorem without_of_not_mem (h : key ∉ r.keys) : r.without key = r := by
  refine List.filter_eq_self.mpr fun e he => bne_iff_ne.mpr ?_
  rintro rfl
  exact h (List.mem_map_of_mem he)

theorem without_append (key : String) (r s : Record) :
    without key (r ++ s) = r.without key ++ s.without key :=
  List.filter_append r s

end Key

end Record
end ViewSchema
