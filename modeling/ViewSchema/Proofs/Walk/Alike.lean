import ViewSchema.Proofs.Walk.Relation

/-!
Two includers that cannot be told apart but by their messages, by the components that they register
and by which inclusions they resolve. A walk never asks for any of these, so walks with the two of
them end alike: with the same nodes or the same failure, and with the same inclusions on account.
-/

namespace ViewSchema

open Template

/-- The inclusion, leaving aside whether it was resolved. -/
def Inclusion.asked (i : Inclusion) : Inclusion := { i with resolved := false }

/-- The inclusions on account, leaving aside which of them were resolved. -/
def Account.asked (a : Account) : List Inclusion := a.inclusions.map Inclusion.asked

namespace Account

theorem asked_append (a b : Account) : (a.append b).asked = a.asked ++ b.asked :=
  List.map_append

/-- Names are settled in the entries alone, so it does not matter what was resolved. -/
theorem asked_settle (name : Option String) (a : Account) :
    (a.settle name).asked =
      a.asked.map fun i => { i with entries := i.entries.map (Entry.settle name) } := by
  simp only [asked, settle, List.map_map]
  rfl

end Account

namespace Walk

theorem ofExcept_error_bind {α β : Type} (failure : Failure) (next : α → Walk β) :
    ofExcept (.error failure) >>= next = fail failure := rfl

/-- The walks give the same or fail in the same way, and ask for the same inclusions. -/
structure Alike {α : Type} (first second : Walk α) : Prop where
  result : first.result = second.result
  asked : first.account.asked = second.account.asked

namespace Alike

variable {α β : Type} {first second : Walk α}

theorem refl (w : Walk α) : Alike w w := ⟨rfl, rfl⟩

theorem symm (h : Alike first second) : Alike second first := ⟨h.result.symm, h.asked.symm⟩

theorem trans {third : Walk α} (h : Alike first second) (h' : Alike second third) :
    Alike first third :=
  ⟨h.result.trans h'.result, h.asked.trans h'.asked⟩

theorem settle (h : Alike first second) (name : Option String) :
    Alike (first.settle name) (second.settle name) where
  result := h.result
  asked := by
    simp only [Walk.settle, Account.asked_settle, h.asked]

theorem bind (h : Alike first second) {next next' : α → Walk β}
    (hnext : ∀ a, Alike (next a) (next' a)) : Alike (first >>= next) (second >>= next') := by
  change Alike (first.andThen next) (second.andThen next')
  unfold andThen
  rw [h.result]
  cases second.result with
  | error failure => exact ⟨rfl, h.asked⟩
  | ok a =>
    refine ⟨(hnext a).result, ?_⟩
    simp only [Account.asked_append, h.asked, (hnext a).asked]

theorem congruence : Congruence @Alike where
  refl := refl
  bind h hnext := h.bind hnext
  settle name h := by
    rw [h.result]
    exact h.settle _

end Alike
end Walk
end ViewSchema
