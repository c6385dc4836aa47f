import ViewSchema.Walk.Account

/-!
Registers of components put together: of two components of one name the first stays. The names are
those of both registers, a name gives what the first register gives for it, and the grouping of
several registers does not matter.
-/

namespace ViewSchema.Components

theorem mem_merge {a b : Components} {c : String × Shape} :
    c ∈ a.merge b ↔ c ∈ a ∨ c ∈ b ∧ c.1 ∉ a.map Prod.fst := by
  simp only [merge, List.mem_append, List.mem_filter, Bool.not_eq_true', List.any_eq_false,
    beq_iff_eq, List.mem_map, not_exists, not_and]

theorem mem_keys_merge {a b : Components} {key : String} :
    key ∈ (a.merge b).map Prod.fst ↔ key ∈ a.map Prod.fst ∨ key ∈ b.map Prod.fst := by
  simp only [List.mem_map, mem_merge]
  constructor
  · rintro ⟨c, ha | ⟨hb, -⟩, rfl⟩
    · exact .inl ⟨c, ha, rfl⟩
    · exact .inr ⟨c, hb, rfl⟩
  · rintro (⟨c, ha, rfl⟩ | ⟨c, hb, rfl⟩)
    · exact ⟨c, .inl ha, rfl⟩
    · by_cases hold : ∃ d ∈ a, d.1 = c.1
      · obtain ⟨d, hd, hkey⟩ := hold
        exact ⟨d, .inl hd, hkey⟩
      · exact ⟨c, .inr ⟨hb, by simpa using hold⟩, rfl⟩

theorem nodup_merge {a b : Components} (ha : (a.map Prod.fst).Nodup)
    (hb : (b.map Prod.fst).Nodup) : ((a.merge b).map Prod.fst).Nodup := by
  rw [merge, List.map_append, List.nodup_append]
  refine ⟨ha, hb.sublist (List.filter_sublist.map _), ?_⟩
  rintro x hx y hy rfl
  obtain ⟨c, hc, hcx⟩ := List.mem_map.mp hy
  have hfresh := (List.mem_filter.mp hc).2
  obtain ⟨d, hd, hdx⟩ := List.mem_map.mp hx
  simp only [Bool.not_eq_true', List.any_eq_false, beq_iff_eq] at hfresh
  exact hfresh d hd (hdx.trans hcx.symm)

theorem nil_merge (a : Components) : merge [] a = a := by
  simp [merge]

theorem merge_nil (a : Components) : merge a [] = a := by
  simp [merge]

/-- What the second register adds are its components of new names. -/
theorem merge_eq (a b : Components) :
    a.merge b = a ++ b.filter fun c => decide (c.1 ∉ a.map Prod.fst) := by
  unfold merge
  congr 2
  funext c
  rw [Bool.eq_iff_iff]
  simp only [Bool.not_eq_true', List.any_eq_false, beq_iff_eq, decide_eq_true_eq, List.mem_map,
    not_exists, not_and]

theorem merge_assoc (a b c : Components) : (a.merge b).merge c = a.merge (b.merge c) := by
  rw [merge_eq (a.merge b), merge_eq b, merge_eq a (b ++ _), merge_eq a b, List.filter_append,
    List.filter_filter, List.append_assoc]
  congr 2
  apply List.filter_congr
  intro d _
  rw [← merge_eq, ← Bool.decide_and]
  simp only [mem_keys_merge, not_or]

/-- Leaving out other names does not change what a name gives. -/
theorem lookup_filter (keep : String → Bool) {key : String} (hkeep : keep key) (a : Components) :
    (a.filter fun c => keep c.1).lookup key = a.lookup key := by
  induction a with
  | nil => rfl
  | cons c rest ih =>
    obtain ⟨name, shape⟩ := c
    by_cases hname : key = name
    · subst hname
      simp [hkeep]
    · have hother : (key == name) = false := beq_false_of_ne hname
      rw [List.filter_cons]
      split <;> simp [List.lookup_cons, hother, ih]

theorem lookup_of_mem {a : Components} {key : String} {shape : Shape}
    (hnodup : (a.map Prod.fst).Nodup) (hmem : (key, shape) ∈ a) : a.lookup key = some shape := by
  obtain ⟨before, after, rfl⟩ := List.append_of_mem hmem
  have hfresh : before.lookup key = none := by
    rw [List.lookup_eq_none_iff]
    intro c hc
    rw [List.map_append] at hnodup
    rw [bne_iff_ne]
    exact fun hsame => (List.nodup_append.mp hnodup).2.2 c.1 (List.mem_map_of_mem hc) key
      List.mem_cons_self hsame.symm
  rw [List.lookup_append, hfresh, List.lookup_cons_self, Option.none_or]

theorem lookup_merge (a b : Components) (key : String) :
    (a.merge b).lookup key = (a.lookup key).or (b.lookup key) := by
  rw [merge_eq, List.lookup_append]
  by_cases hold : key ∈ a.map Prod.fst
  · cases hfirst : a.lookup key with
    | some shape => rfl
    | none =>
      obtain ⟨c, hc, rfl⟩ := List.mem_map.mp hold
      have hother := List.lookup_eq_none_iff.mp hfirst c hc
      simp at hother
  · rw [lookup_filter (fun name => decide (name ∉ a.map Prod.fst)) (decide_eq_true hold)]

end ViewSchema.Components
