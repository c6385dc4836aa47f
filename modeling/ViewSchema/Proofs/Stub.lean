import ViewSchema.Proofs.Shape.Settled
import ViewSchema.Stub

/-!
Which nodes the stubs of a document speak of. There is a stub for each line that has a named node of
the template itself without a remark, and it speaks of the first such node on its line.
-/

namespace ViewSchema

theorem mem_foldl_firstStubs {stub : Stub} (stubs kept : List Stub) :
    stub ∈ stubs.foldl
        (fun kept s => if kept.any fun k => k.line == s.line then kept else kept ++ [s]) kept ↔
      stub ∈ kept ∨ (∀ k ∈ kept, k.line ≠ stub.line) ∧
        stubs.find? (fun s => s.line == stub.line) = some stub := by
  induction stubs generalizing kept with
  | nil => simp
  | cons first rest ih =>
    rw [List.foldl_cons, ih, List.find?_cons]
    by_cases hline : first.line = stub.line
    · by_cases htaken : ∃ k ∈ kept, k.line = stub.line
      · have hany : (kept.any fun k => k.line == first.line) = true := by
          simpa [hline] using htaken
        obtain ⟨k, hk, hsame⟩ := htaken
        have hnot : ¬∀ k ∈ kept, k.line ≠ stub.line := fun h => h k hk hsame
        simp [hany, hnot]
      · have hfree : ∀ k ∈ kept, k.line ≠ stub.line := fun k hk hsame => htaken ⟨k, hk, hsame⟩
        have hany : (kept.any fun k => k.line == first.line) = false := by
          simpa [hline] using hfree
        have hnot : ¬∀ k ∈ kept ++ [first], k.line ≠ stub.line := fun h => h first (by simp) hline
        have hhere : (first.line == stub.line) = true := by simpa using hline
        rw [if_neg (by simp [hany]), hhere, List.mem_append, List.mem_singleton]
        constructor
        · rintro ((hold | rfl) | ⟨hnone, -⟩)
          · exact .inl hold
          · exact .inr ⟨hfree, rfl⟩
          · exact absurd hnone hnot
        · rintro (hold | ⟨-, hfirst⟩)
          · exact .inl (.inl hold)
          · exact .inl (.inr (Option.some.inj hfirst).symm)
    · have hother : (first.line == stub.line) = false := by simpa using hline
      have hne : stub ≠ first := fun hsame => hline (by rw [hsame])
      rw [hother]
      split
      · rfl
      · have hkept : (∀ k ∈ kept ++ [first], k.line ≠ stub.line) ↔
            ∀ k ∈ kept, k.line ≠ stub.line := by
          rw [List.forall_mem_append, List.forall_mem_singleton]
          exact and_iff_left hline
        rw [hkept, List.mem_append, List.mem_singleton, or_iff_left hne]

/-- Of stubs with one line, the first stays. -/
theorem mem_firstStubs {stubs : List Stub} {stub : Stub} :
    stub ∈ firstStubs stubs ↔ stubs.find? (fun s => s.line == stub.line) = some stub := by
  rw [firstStubs, mem_foldl_firstStubs]
  simp

namespace Shape

/-- A node of the template itself that no remark speaks of, on the given line. -/
def awaitsStub (line : Int) (s : Shape) : Bool :=
  s.facts.line == some line && !(s.note.annotated || s.facts.foreign)

theorem stub?_eq_some_iff {path : String} {s : Shape} {stub : Stub} :
    s.stub? path = some stub ↔
      s.awaitsStub stub.line ∧ stub.comment = CommentLine.property (s.property path).toRecord := by
  unfold stub? awaitsStub
  cases s.facts.line with
  | none => simp
  | some line =>
    cases s.note.annotated || s.facts.foreign with
    | true => simp
    | false =>
      simp only [Bool.false_eq_true, if_false, Option.some.injEq, Bool.not_false, Bool.and_true,
        beq_iff_eq]
      constructor
      · rintro rfl
        exact ⟨rfl, rfl⟩
      · rintro ⟨rfl, hcomment⟩
        rw [← hcomment]

/-- The first node that awaits a stub on a line, with its path. -/
def firstAwaiting? (line : Int) (s : Shape) : Option (String × Shape) :=
  (s.named "").find? fun e => e.2.awaitsStub line

/-- A stub speaks of the first node that awaits one on its line. -/
theorem mem_stubs_iff {s : Shape} {stub : Stub} :
    stub ∈ s.stubs ↔ ∃ e, s.firstAwaiting? stub.line = some e ∧
      stub.comment = CommentLine.property (e.2.property e.1).toRecord := by
  have hwanted : ∀ e : String × Shape,
      ((e.2.stub? e.1).any fun found => found.line == stub.line) = e.2.awaitsStub stub.line := by
    intro e
    rw [Bool.eq_iff_iff, Option.any_eq_true]
    constructor
    · rintro ⟨found, hfound, hline⟩
      rw [← eq_of_beq hline]
      exact (stub?_eq_some_iff.mp hfound).1
    · intro hawaits
      have hsome : e.2.stub? e.1 =
          some ⟨stub.line, CommentLine.property (e.2.property e.1).toRecord⟩ :=
        stub?_eq_some_iff.mpr ⟨hawaits, rfl⟩
      exact ⟨_, hsome, beq_self_eq_true stub.line⟩
  rw [stubs, List.mem_mergeSort, mem_firstStubs, List.find?_filterMap, Option.bind_eq_some_iff]
  simp only [hwanted, firstAwaiting?]
  refine exists_congr fun e => and_congr_right fun hfound => ?_
  have hawaits : e.2.awaitsStub stub.line := by simpa using List.find?_some hfound
  rw [stub?_eq_some_iff]
  simp [hawaits]

/-- The lines with stubs are those of the named nodes that await one. -/
theorem exists_stub_iff {s : Shape} {line : Int} :
    (∃ stub ∈ s.stubs, stub.line = line) ↔ ∃ e ∈ s.named "", e.2.awaitsStub line := by
  constructor
  · rintro ⟨stub, hstub, rfl⟩
    obtain ⟨e, hfirst, -⟩ := mem_stubs_iff.mp hstub
    exact ⟨e, List.mem_of_find?_eq_some hfirst, by simpa using List.find?_some hfirst⟩
  · rintro ⟨e, he, hawaits⟩
    obtain ⟨first, hfirst⟩ : ∃ first, s.firstAwaiting? line = some first :=
      Option.isSome_iff_exists.mp (List.find?_isSome.mpr ⟨e, he, hawaits⟩)
    have hstub : ⟨line, CommentLine.property (first.2.property first.1).toRecord⟩ ∈ s.stubs :=
      mem_stubs_iff.mpr ⟨first, hfirst, rfl⟩
    exact ⟨_, hstub, rfl⟩

variable {change : Facts → Facts}

mutual

/-- Names and paths do not depend on the facts that do not name. -/
theorem named_mapFacts (h : ∀ f, (change f).name = f.name) (path : String) : ∀ s : Shape,
    (s.mapFacts change).named path = (s.named path).map fun e => (e.1, e.2.mapFacts change)
  | .simple _ => rfl
  | .object _ members => namedMembers_mapFactsList h path members
  | .array _ _ items => namedItems_mapFactsList h path items
  | .reference _ _ _ _ nodes => namedMembers_mapFactsList h path nodes
  | .bare _ => rfl

theorem namedMembers_mapFactsList (h : ∀ f, (change f).name = f.name) (path : String) :
    ∀ members : List Shape,
      namedMembers path (mapFactsList change members) =
        (namedMembers path members).map fun e => (e.1, e.2.mapFacts change)
  | [] => rfl
  | s :: rest => by
    rw [mapFactsList, namedMembers, namedMembers, name_mapFacts h, named_mapFacts h _ s,
      namedMembers_mapFactsList h path rest]
    split <;> simp

theorem namedItems_mapFactsList (h : ∀ f, (change f).name = f.name) (path : String) :
    ∀ items : List Shape,
      namedItems path (mapFactsList change items) =
        (namedItems path items).map fun e => (e.1, e.2.mapFacts change)
  | [] => rfl
  | s :: rest => by
    rw [mapFactsList, namedItems, namedItems, named_mapFacts h _ s,
      namedItems_mapFactsList h path rest, List.map_append]

end

mutual

/-- The nodes that are listed by name are nodes of the shape, and have names. -/
theorem mem_walk_of_mem_named (path : String) : ∀ (s : Shape), ∀ e ∈ s.named path,
    e.2 ∈ s.walk ∧ e.2.name.isSome
  | .simple _, e, he => by cases he
  | .object f members, e, he => by
    obtain ⟨hwalk, hname⟩ := mem_walkList_of_mem_namedMembers path members e he
    exact ⟨List.mem_cons_of_mem _ hwalk, hname⟩
  | .array f isRoot items, e, he => by
    obtain ⟨hwalk, hname⟩ := mem_walkList_of_mem_namedItems path items e he
    exact ⟨List.mem_cons_of_mem _ hwalk, hname⟩
  | .reference f template bindings resolved nodes, e, he => by
    obtain ⟨hwalk, hname⟩ := mem_walkList_of_mem_namedMembers path nodes e he
    exact ⟨List.mem_cons_of_mem _ hwalk, hname⟩
  | .bare _, e, he => by cases he

theorem mem_walkList_of_mem_namedMembers (path : String) : ∀ (members : List Shape),
    ∀ e ∈ namedMembers path members, e.2 ∈ walkList members ∧ e.2.name.isSome
  | [], e, he => by cases he
  | s :: rest, e, he => by
    rw [namedMembers, List.mem_append, List.mem_append] at he
    rw [walkList, List.mem_append]
    rcases he with (hself | hinner) | hrest
    · split at hself
      · rename_i hname
        obtain rfl := List.mem_singleton.mp hself
        exact ⟨.inl (by rw [walk_eq_cons]; exact List.mem_cons_self), hname⟩
      · cases hself
    · obtain ⟨hwalk, hname⟩ := mem_walk_of_mem_named _ s e hinner
      exact ⟨.inl hwalk, hname⟩
    · obtain ⟨hwalk, hname⟩ := mem_walkList_of_mem_namedMembers path rest e hrest
      exact ⟨.inr hwalk, hname⟩

theorem mem_walkList_of_mem_namedItems (path : String) : ∀ (items : List Shape),
    ∀ e ∈ namedItems path items, e.2 ∈ walkList items ∧ e.2.name.isSome
  | [], e, he => by cases he
  | s :: rest, e, he => by
    rw [namedItems, List.mem_append] at he
    rw [walkList, List.mem_append]
    rcases he with hinner | hrest
    · obtain ⟨hwalk, hname⟩ := mem_walk_of_mem_named _ s e hinner
      exact ⟨.inl hwalk, hname⟩
    · obtain ⟨hwalk, hname⟩ := mem_walkList_of_mem_namedItems path rest e hrest
      exact ⟨.inr hwalk, hname⟩

end

end Shape
end ViewSchema
