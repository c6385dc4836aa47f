import ViewSchema.Proofs.Walk.Relation
import ViewSchema.Proofs.Walk.Result

/-!
Two includers that agree wherever the first gives nodes. A walk that ends with the first includer
ends with the second one as well, with the same nodes and the same account: the walk only sees what
the inclusions leave, and a walk that ends has got nodes from each of them.
-/

namespace ViewSchema.Walk

variable {α β : Type} {first second : Walk α}

/-- The second walk is the first one, unless that fails. -/
def Upheld (first second : Walk α) : Prop := ∀ a, first.result = .ok a → second = first

namespace Upheld

theorem bind (h : Upheld first second) {next next' : α → Walk β}
    (hnext : ∀ a, Upheld (next a) (next' a)) : Upheld (first >>= next) (second >>= next') := by
  intro b hb
  rw [result_bind] at hb
  obtain ⟨a, ha, hb⟩ := eq_of_bind_ok hb
  rw [h a ha]
  change first.andThen next' = first.andThen next
  simp only [andThen, ha, hnext a b hb]

theorem congruence : Congruence @Upheld where
  refl _ _ _ := rfl
  bind h hnext := h.bind hnext
  settle name h nodes hnodes := by rw [h nodes hnodes]

end Upheld
end ViewSchema.Walk
