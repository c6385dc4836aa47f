import ViewSchema.Partial

/-!
The path of an included template is clean: it is put together from what was read as a path, which
leaves out empty segments and dots.
-/

namespace ViewSchema

namespace Path

theorem IsClean.parent {p : Path} (h : p.IsClean) : p.parent.IsClean :=
  fun segment hsegment => h segment (List.dropLast_subset _ hsegment)

theorem IsClean.join {p q : Path} (hp : p.IsClean) (hq : q.IsClean) : (p.join q).IsClean := by
  unfold Path.join
  split
  · exact hq
  · intro segment hsegment
    rcases List.mem_append.mp hsegment with hleft | hright
    · exact hp segment hleft
    · exact hq segment hright

theorem IsClean.ancestors {p q : Path} (h : p.IsClean) (hq : q ∈ p.ancestors) : q.IsClean := by
  simp only [Path.ancestors, List.mem_map] at hq
  obtain ⟨count, -, rfl⟩ := hq
  exact fun segment hsegment => h segment (List.mem_of_mem_take hsegment)

end Path

namespace Partial

/-- The file of a partial's name is a clean path when the template is. -/
theorem isClean_path (name : String) {current : Path} (settings : Settings)
    (h : current.IsClean) : (path name current settings).IsClean := by
  have hbase : ((viewsRoot? current settings).getD current.parent).IsClean := by
    cases hroot : viewsRoot? current settings with
    | none => exact h.parent
    | some root => exact h.ancestors (List.mem_of_find?_eq_some hroot)
  have hfold : ∀ (directories : List String) (base : Path), base.IsClean →
      (directories.foldl (fun p d => p.join (Path.ofString d)) base).IsClean := by
    intro directories
    induction directories with
    | nil => exact fun _ hb => hb
    | cons d rest ih => exact fun _ hb => ih _ (hb.join (Path.isClean_ofString d))
  simp only [path]
  split
  · exact Path.isClean_ofString name
  · split
    · exact h.parent.join (Path.isClean_ofString _)
    · split
      · exact h.parent.join (Path.isClean_ofString _)
      · exact (hfold _ _ hbase).join (Path.isClean_ofString _)

end Partial
end ViewSchema
