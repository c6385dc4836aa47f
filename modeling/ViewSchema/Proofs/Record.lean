import Mathlib.Data.List.Induction
import Mathlib.Data.List.Nodup
import ViewSchema.Value

/-!
How records answer look-ups. Putting a value under a key changes what the record gives for that key
and for no other, and a list of entries with distinct keys is its own record.
-/

namespace ViewSchema.Record

@[simp] theorem find?_nil (key : String) : find? [] key = none := rfl

theorem find?_cons (k : String) (w : Value) (rest : Record) (key : String) :
    find? ((k, w) :: rest) key = if key = k then some w else find? rest key := by
  by_cases h : key = k
  · simp [find?, h]
  · have hkey : (key == k) = false := beq_false_of_ne h
    simp [find?, List.lookup_cons, h, hkey]

theorem get_eq_text_iff {r : Record} {key text : String} :
    r.get key = .text text ↔ r.find? key = some (.text text) := by
  cases h : r.find? key <;> simp [get, h]

/-- A value put under a key is found there, and every other key gives what it gave before. -/
theorem find?_insert (r : Record) (key wanted : String) (v : Value) :
    find? (r.insert key v) wanted = if wanted = key then some v else r.find? wanted := by
  induction r with
  | nil => rw [insert, find?_cons]
  | cons entry rest ih =>
    obtain ⟨k, w⟩ := entry
    rw [insert]
    by_cases hk : k = key
    · subst hk
      by_cases hwanted : wanted = k <;> simp [find?_cons, hwanted]
    · by_cases hwanted : wanted = k
      · subst hwanted
        simp [find?_cons, hk]
      · simp [find?_cons, hk, hwanted, ih]

theorem find?_append (r s : Record) (key : String) :
    find? (r ++ s) key = (r.find? key).or (s.find? key) :=
  List.lookup_append

theorem find?_eq_none_of_not_mem {r : Record} {key : String} (h : key ∉ r.keys) :
    r.find? key = none := by
  induction r with
  | nil => rfl
  | cons entry rest ih =>
    obtain ⟨k, w⟩ := entry
    simp only [keys, List.map_cons, List.mem_cons, not_or] at h
    rw [find?_cons, if_neg h.1]
    exact ih h.2

/-- A key that the record lacks is put at its end. -/
theorem insert_of_not_mem {r : Record} {key : String} (h : key ∉ r.keys) (v : Value) :
    r.insert key v = r ++ [(key, v)] := by
  induction r with
  | nil => rfl
  | cons entry rest ih =>
    obtain ⟨k, w⟩ := entry
    simp only [keys, List.map_cons, List.mem_cons, not_or] at h
    have hk : (k == key) = false := by simpa using Ne.symm h.1
    simp only [insert, hk, Bool.false_eq_true, if_false, List.cons_append]
    rw [ih h.2]

/-- Entries with new and distinct keys are put at the end of a record one after the other. -/
theorem foldl_insert_of_nodup (entries r : Record)
    (h : (r.keys ++ keys entries).Nodup) :
    entries.foldl (fun r e => r.insert e.1 e.2) r = r ++ entries := by
  induction entries generalizing r with
  | nil => simp
  | cons entry rest ih =>
    obtain ⟨k, w⟩ := entry
    have hk : k ∉ r.keys := by
      intro hmem
      exact (List.nodup_append.mp h).2.2 k hmem k (by simp [keys]) rfl
    have hstep : r.insert k w = r ++ [(k, w)] := insert_of_not_mem hk w
    simp only [List.foldl_cons]
    rw [hstep, ih]
    · simp
    · simpa [keys] using h

theorem mem_insert {r : Record} {key : String} {v : Value} {entry : String × Value}
    (h : entry ∈ r.insert key v) : entry ∈ r ∨ entry = (key, v) := by
  induction r with
  | nil => exact .inr (List.mem_singleton.mp h)
  | cons first rest ih =>
    obtain ⟨k, w⟩ := first
    rw [insert] at h
    split at h
    · rename_i hkey
      rcases List.mem_cons.mp h with rfl | hrest
      · exact .inr (by rw [beq_iff_eq.mp hkey])
      · exact .inl (List.mem_cons_of_mem _ hrest)
    · rcases List.mem_cons.mp h with rfl | hrest
      · exact .inl List.mem_cons_self
      · exact (ih hrest).imp_left (List.mem_cons_of_mem _)

theorem mem_keys_insert (r : Record) (key wanted : String) (v : Value) :
    wanted ∈ (r.insert key v).keys ↔ wanted ∈ r.keys ∨ wanted = key := by
  induction r with
  | nil => simp [insert, keys]
  | cons first rest ih =>
    obtain ⟨k, w⟩ := first
    rw [insert]
    split
    · rename_i hkey
      rw [← beq_iff_eq.mp hkey]
      exact ⟨.inl, fun h => h.elim id fun hsame => hsame ▸ List.mem_cons_self⟩
    · simp only [keys, List.map_cons, List.mem_cons] at ih ⊢
      rw [ih, or_assoc]

theorem ofEntries_concat (entries : Record) (entry : String × Value) :
    ofEntries (entries ++ [entry]) = (ofEntries entries).insert entry.1 entry.2 := by
  simp [ofEntries]

/-- What a record of entries holds is among the entries. -/
theorem mem_ofEntries {entries : Record} {entry : String × Value} (h : entry ∈ ofEntries entries) :
    entry ∈ entries := by
  induction entries using List.reverseRecOn with
  | nil => exact h
  | append_singleton entries last ih =>
    rw [ofEntries_concat] at h
    rcases mem_insert h with hbefore | rfl
    · exact List.mem_append_left _ (ih hbefore)
    · simp

/-- A record of entries has the keys of the entries. -/
theorem mem_keys_ofEntries (entries : Record) (wanted : String) :
    wanted ∈ (ofEntries entries).keys ↔ wanted ∈ entries.keys := by
  induction entries using List.reverseRecOn with
  | nil => rfl
  | append_singleton entries last ih =>
    rw [ofEntries_concat, mem_keys_insert, ih]
    simp [keys]

theorem mem_of_find? {r : Record} {key : String} {v : Value} (h : r.find? key = some v) :
    (key, v) ∈ r := by
  obtain ⟨before, after, hr, -⟩ := List.lookup_eq_some_iff.mp h
  rw [hr]
  simp

theorem mem_keys_of_mem {r : Record} {key : String} {v : Value} (h : (key, v) ∈ r) :
    key ∈ r.keys :=
  List.mem_map_of_mem h

/-- An entry of a record with distinct keys is found under its key. -/
theorem find?_of_mem {r : Record} (hdistinct : r.keys.Nodup) {key : String} {v : Value}
    (h : (key, v) ∈ r) : r.find? key = some v := by
  induction r with
  | nil => cases h
  | cons first rest ih =>
    obtain ⟨k, w⟩ := first
    obtain ⟨hk, hrest⟩ := List.nodup_cons.mp hdistinct
    rw [find?_cons]
    rcases List.mem_cons.mp h with hfirst | hlater
    · cases hfirst
      exact if_pos rfl
    · have hne : key ≠ k := fun heq => hk (heq ▸ mem_keys_of_mem hlater)
      rw [if_neg hne, ih hrest hlater]

theorem has_of_mem_keys {r : Record} {key : String} (h : key ∈ r.keys) : r.has key := by
  induction r with
  | nil => cases h
  | cons first rest ih =>
    obtain ⟨k, w⟩ := first
    rw [has, find?_cons]
    split
    · rfl
    · rename_i hne
      exact ih ((List.mem_cons.mp h).resolve_left hne)

/-- Entries with distinct keys are a record as they stand. -/
theorem ofEntries_of_nodup {entries : Record} (h : entries.keys.Nodup) :
    ofEntries entries = entries := by
  have hfold := foldl_insert_of_nodup entries [] (by simpa [keys] using h)
  simpa [ofEntries] using hfold

end ViewSchema.Record
