import Mathlib.Data.List.Induction
import ViewSchema.Value

/-!
The items of a list for which no earlier item stands. Lists that grow by an item only when nothing
in them stands for it yet are made of these.
-/

namespace ViewSchema

variable {α : Type} {stands : α → α → Bool}

/-- The items for which no earlier item stands, in their order. -/
def firsts (stands : α → α → Bool) (items : List α) : List α :=
  (items.zipIdx.filter fun e => !(items.take e.2).any (stands · e.1)).map Prod.fst

theorem firsts_concat (items : List α) (item : α) :
    firsts stands (items ++ [item]) =
      if items.any (stands · item) then firsts stands items else firsts stands items ++ [item] := by
  have hearlier : ∀ e ∈ items.zipIdx, (items ++ [item]).take e.2 = items.take e.2 := by
    rintro ⟨other, i⟩ he
    have hi : i < items.length := by
      have := List.snd_lt_add_of_mem_zipIdx he
      simpa using this
    exact List.take_append_of_le_length (Nat.le_of_lt hi)
  have hfilter : (items.zipIdx.filter fun e => !((items ++ [item]).take e.2).any (stands · e.1)) =
      items.zipIdx.filter fun e => !(items.take e.2).any (stands · e.1) :=
    List.filter_congr fun e he => by rw [hearlier e he]
  rw [firsts, List.zipIdx_append, List.filter_append, List.map_append, hfilter]
  simp only [List.zipIdx_cons, List.zipIdx_nil, Nat.zero_add, List.filter_cons, List.filter_nil,
    List.take_left]
  cases items.any (stands · item) with
  | false => rfl
  | true => exact List.append_nil _

theorem sublist_firsts (items : List α) : (firsts stands items).Sublist items := by
  have hsublist := (List.filter_sublist (l := items.zipIdx)
    (p := fun e => !(items.take e.2).any (stands · e.1))).map Prod.fst
  rwa [List.zipIdx_map_fst] at hsublist

/-- Of two of them, the earlier does not stand for the later. -/
theorem pairwise_firsts (items : List α) :
    (firsts stands items).Pairwise fun a b => stands a b = false := by
  induction items using List.reverseRecOn with
  | nil => exact .nil
  | append_singleton items item ih =>
    rw [firsts_concat]
    split
    · exact ih
    · rename_i hnew
      refine List.pairwise_append.mpr ⟨ih, List.pairwise_singleton _ _, fun a ha b hb => ?_⟩
      obtain rfl := List.mem_singleton.mp hb
      rw [List.any_eq_true, not_exists] at hnew
      have hearlier := (sublist_firsts items).subset ha
      exact Bool.eq_false_iff.mpr fun hstands => hnew a ⟨hearlier, hstands⟩

section Transitive

variable {items : List α} (hself : ∀ item ∈ items, stands item item)
  (htrans : ∀ a ∈ items, ∀ b c, stands a b → stands b c → stands a c)

include hself htrans

/-- Where standing for an item is handed on, one of the first items stands for each item. -/
theorem exists_stands_firsts : ∀ item ∈ items, ∃ a ∈ firsts stands items, stands a item := by
  induction items using List.reverseRecOn with
  | nil => exact fun _ hitem => nomatch hitem
  | append_singleton items last ih =>
    have hearlier := ih (fun item hitem => hself item (List.mem_append_left _ hitem))
      fun a ha => htrans a (List.mem_append_left _ ha)
    have hkept : ∀ a ∈ firsts stands items, a ∈ firsts stands (items ++ [last]) := fun a ha => by
      rw [firsts_concat]
      split
      · exact ha
      · exact List.mem_append_left _ ha
    intro item hitem
    rcases List.mem_append.mp hitem with hold | hlast
    · obtain ⟨a, ha, hstands⟩ := hearlier item hold
      exact ⟨a, hkept a ha, hstands⟩
    obtain rfl := List.mem_singleton.mp hlast
    cases hfound : items.any (stands · item) with
    | true =>
      obtain ⟨b, hb, hstands⟩ := List.any_eq_true.mp hfound
      obtain ⟨a, ha, hfirst⟩ := hearlier b hb
      have hamong := List.mem_append_left [item] ((sublist_firsts items).subset ha)
      exact ⟨a, hkept a ha, htrans a hamong b item hfirst hstands⟩
    | false =>
      refine ⟨item, ?_, hself item (List.mem_append_right _ hlast)⟩
      rw [firsts_concat, hfound]
      exact List.mem_append_right _ hlast

/-- To know whether an earlier item stands for an item it is enough to ask the first ones. -/
theorem any_firsts (item : α) :
    (firsts stands items).any (stands · item) = items.any (stands · item) := by
  rw [Bool.eq_iff_iff, List.any_eq_true, List.any_eq_true]
  constructor
  · rintro ⟨a, ha, hstands⟩
    exact ⟨a, (sublist_firsts items).subset ha, hstands⟩
  · rintro ⟨b, hb, hstands⟩
    obtain ⟨a, ha, hfirst⟩ := exists_stands_firsts hself htrans b hb
    exact ⟨a, ha, htrans a ((sublist_firsts items).subset ha) b item hfirst hstands⟩

/-- Where standing for an item is mutual as well, no two of the first items stand for one item. -/
theorem countP_firsts (hsymm : ∀ a ∈ items, ∀ b ∈ items, stands a b → stands b a) :
    ∀ item ∈ items, (firsts stands items).countP (stands · item) = 1 := by
  intro item hitem
  have hsub : firsts stands items ⊆ items := (sublist_firsts items).subset
  have hapart : ((firsts stands items).filter (stands · item)).Pairwise fun _ _ => False := by
    refine ((pairwise_firsts items).filter _).imp_of_mem fun {a b} ha hb hfalse => ?_
    obtain ⟨hfirst, hstands⟩ := List.mem_filter.mp ha
    obtain ⟨hlater, hstands'⟩ := List.mem_filter.mp hb
    have hback := hsymm b (hsub hlater) item hitem hstands'
    exact absurd (htrans a (hsub hfirst) item b hstands hback) (Bool.eq_false_iff.mp hfalse)
  obtain ⟨a, ha, hstands⟩ := exists_stands_firsts hself htrans item hitem
  have hfound : a ∈ (firsts stands items).filter (stands · item) :=
    List.mem_filter.mpr ⟨ha, hstands⟩
  rw [List.countP_eq_length_filter]
  match hkept : (firsts stands items).filter (stands · item), hapart, hfound with
  | [_], _, _ => rfl
  | b :: c :: _, hpair, _ => exact ((List.pairwise_cons.mp hpair).1 c List.mem_cons_self).elim

end Transitive

end ViewSchema
