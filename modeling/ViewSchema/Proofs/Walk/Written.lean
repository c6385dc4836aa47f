import ViewSchema.Proofs.Note
import ViewSchema.Proofs.Walk.Invariant

/-!
Comments made all notes in a walk. A node has the note for the line of its call or for its name
among extracted attributes, and keeps it wherever it goes; a root array that becomes a property has
one of two such notes.
-/

namespace ViewSchema

open Template

namespace Shape

/-- Comments made all notes in the shape. -/
def AllWritten (s : Shape) : Prop := s.Everywhere fun n => n.note.IsWritten

theorem AllWritten.blank_ofMembers {nodes : List Shape} (h : ∀ n ∈ nodes, n.AllWritten) :
    (Shape.ofMembers {} nodes).AllWritten :=
  Everywhere.ofMembers (fun _ => Note.isWritten_blank) h

theorem AllWritten.mapFacts {change : Facts → Facts} (hnote : ∀ f, (change f).note = f.note)
    {s : Shape} (h : s.AllWritten) : (s.mapFacts change).AllWritten := by
  refine Everywhere.mapFacts (fun n hn => ?_) h
  rwa [note, facts_mapFacts, hnote]

theorem AllWritten.asForeign {s : Shape} (h : s.AllWritten) : s.asForeign.AllWritten := by
  refine h.mapFacts ?_
  exact fun _ => rfl

end Shape

namespace Site

open Shape

variable {facts : Facts} {nodes : List Shape}

theorem allWritten_itemOf (h : ∀ n ∈ nodes, n.AllWritten) : (itemOf nodes).AllWritten := by
  unfold itemOf
  split
  · have harray := everywhere_iff.mp (List.forall_mem_singleton.mp h)
    exact everywhere_iff.mpr harray
  · exact AllWritten.blank_ofMembers h

theorem allWritten_asItems {s : Shape} (h : s.AllWritten) : (asItems s).AllWritten := by
  unfold asItems
  split
  · have harray := everywhere_iff.mp h
    exact everywhere_iff.mpr harray
  · exact h

theorem allWritten_enclosing (hnote : facts.note.IsWritten) (h : ∀ n ∈ nodes, n.AllWritten) :
    (enclosing facts nodes).AllWritten := by
  unfold enclosing
  split
  · obtain ⟨hinner, hitems⟩ := everywhere_iff.mp (List.forall_mem_singleton.mp h)
    refine everywhere_iff.mpr ⟨?_, hitems⟩
    unfold collapsed
    dsimp only [note, Shape.facts]
    split
    · exact hnote
    · exact hinner
  · refine .ofMembers (fun _ => hnote) fun m hm => ?_
    obtain ⟨before, hbefore, rfl⟩ := List.mem_map.mp hm
    exact allWritten_asItems (h before hbefore)

/-- Every way of making a node gives it a note that a comment made. -/
theorem written_invariant (site : Site) : site.Invariant AllWritten where
  attributes := by
    intro args line s hs
    obtain ⟨name, -, rfl⟩ := List.mem_map.mp hs
    exact everywhere_iff.mpr ⟨site.comments.isWritten_attributeNote line name, nofun⟩
  ofIncluded := by
    intro i nodes h
    have hitem := allWritten_itemOf h
    have hnote := site.comments.isWritten_noteFor i.line
    unfold ofIncluded
    split
    · exact .ofMembers (fun _ => hnote) (everywhere_itemMembers hitem)
    · exact .array hnote hitem
  ofBlock := by
    intro i hasParams nodes h
    have hnote := site.comments.isWritten_noteFor i.line
    unfold ofBlock
    split
    · exact .array hnote (allWritten_itemOf h)
    · exact allWritten_enclosing hnote h
  ofAttributes := by
    intro i attributes h
    have hnote := site.comments.isWritten_noteFor i.line
    unfold ofAttributes
    split
    · exact everywhere_iff.mpr ⟨hnote, nofun⟩
    · split
      · exact .array hnote (AllWritten.blank_ofMembers h)
      · exact .ofMembers (fun _ => hnote) h
  array i _ h := .array (site.comments.isWritten_noteFor i.line) (allWritten_itemOf h)
  arrayOfAttributes := by
    intro i attributes h
    have hnote := site.comments.isWritten_noteFor i.line
    unfold arrayOfAttributes
    split
    · exact everywhere_iff.mpr ⟨hnote, nofun⟩
    · exact .array hnote (AllWritten.blank_ofMembers h)
  marked := by
    intro s h
    refine h.mapFacts ?_
    exact fun _ => rfl

end Site
end ViewSchema
