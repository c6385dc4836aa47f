import Mathlib.Data.Finset.Card
import Mathlib.Data.List.Nodup
import ViewSchema.Proofs.Record
import ViewSchema.Walk.Lookup

/-!
The notes on attributes that are extracted together. Going up from the line of the extraction, one
heeds the comments that have lines to themselves until a line has none, and then the comment on the
line itself. A field keeps the first note it gets. So the notes are those of the nearest comments,
and a comment behind a gap, or behind one that trails, makes none.

A comment may give its field an empty name. Such a comment makes no note.
-/

namespace ViewSchema.Template.Comments

/-- Notes on fields by their names. -/
abbrev FieldNotes := List (String × Note)

namespace FieldNotes

/-- The names of the fields that there are notes on. -/
def names (notes : FieldNotes) : List String := notes.map Prod.fst

/-- Heed a comment: its note on a field counts unless there is a note on the field. -/
def heed (notes : FieldNotes) (comment : String) : FieldNotes :=
  match fieldNote? comment with
  | some (name, note) => if name ∈ notes.names then notes else notes ++ [(name, note)]
  | none => notes

end FieldNotes

/-- The notes on the fields that the comments of a line speak of. -/
def attributeNotes (c : Comments) (line : Int) : FieldNotes :=
  (c.fieldComments (some line)).foldl FieldNotes.heed []

/-- The comment that a line has to itself. A line in front of the first has none. -/
def aloneAt (c : Comments) : Int → Option String
  | .ofNat n => c.alone n
  | .negSucc _ => none

/-- The remark in a comment names the field, and makes the note. -/
def Speaks (comment : Option String) (name : String) (note : Note) : Prop :=
  ∃ remark, Remark.ofComment? comment = some remark ∧
    remark.toRecord.find? "field_name" = some (.text name) ∧ note = Note.ofRemark? (some remark)

/-- From one line on, all lines above another have comments to themselves. -/
def InRun (c : Comments) (line k : Int) : Prop :=
  k < line ∧ ∀ m, k ≤ m → m < line → (c.aloneAt m).isSome

/-- The comment that a line has to itself makes the note on a field, and none further down, above
the other line, speaks of the field. -/
structure SpeaksLast (c : Comments) (line k : Int) (name : String) (note : Note) : Prop where
  speaks : Speaks (c.aloneAt k) name note
  last : ∀ m, k < m → m < line → ∀ other, ¬Speaks (c.aloneAt m) name other

/-- The note that the nearest comment makes on a field: in the unbroken run above a line, or on the
line itself when the run says nothing of the field. -/
inductive Nearest (c : Comments) (line : Int) (name : String) (note : Note) : Prop where
  | above (k : Int) (run : c.InRun line k) (speaks : c.SpeaksLast line k name note)
  | beside (silent : ∀ k, c.InRun line k → ∀ other, ¬Speaks (c.aloneAt k) name other)
    (speaks : Speaks (c.here (some line)) name note)

/-- Where going up stands: the line that comes next, and the notes so far. -/
structure Climb where
  next : Int
  notes : FieldNotes

/-- Go up by a line, if it has a comment to itself. -/
def climb? (c : Comments) (s : Climb) : Option Climb :=
  (c.aloneAt s.next).map fun comment => ⟨s.next - 1, s.notes.heed comment⟩

/-- Going up comes to an end after so many lines. -/
inductive Climbs (c : Comments) : Nat → Climb → Climb → Prop where
  | stop {s : Climb} (h : c.climb? s = none) : Climbs c 0 s s
  | up {s t last : Climb} {turns : Nat} (h : c.climb? s = some t) (more : Climbs c turns t last) :
    Climbs c (turns + 1) s last

variable {c : Comments} {line k : Int} {name comment : String} {note : Note} {notes : FieldNotes}
  {s t last : Climb} {turns : Nat}

theorem fieldNote?_eq_some_iff :
    fieldNote? comment = some (name, note) ↔ name ≠ "" ∧ Speaks (some comment) name note := by
  constructor
  · intro h
    obtain ⟨remark, hremark, hsaid⟩ := Option.bind_eq_some_iff.mp h
    split at hsaid
    · rename_i found hname
      split at hsaid
      · cases hsaid
      · rename_i hne
        obtain ⟨rfl, rfl⟩ := Prod.mk.inj (Option.some.inj hsaid)
        exact ⟨by simpa using hne, remark, hremark, Record.get_eq_text_iff.mp hname, rfl⟩
    · cases hsaid
  · rintro ⟨hne, remark, hremark, hname, rfl⟩
    have hof : Remark.of? comment.toList = some remark := hremark
    simp [fieldNote?, hof, Record.get_eq_text_iff.mpr hname, hne, Note.ofRemark?]

namespace FieldNotes

theorem names_append (notes others : FieldNotes) :
    names (notes ++ others) = notes.names ++ names others :=
  List.map_append

/-- A comment changes nothing, or adds a note on a field that has none. -/
theorem heed_cases (notes : FieldNotes) (comment : String) :
    (notes.heed comment = notes ∧
        ∀ name note, fieldNote? comment = some (name, note) → name ∈ notes.names) ∨
      ∃ name note, fieldNote? comment = some (name, note) ∧ name ∉ notes.names ∧
        notes.heed comment = notes ++ [(name, note)] := by
  unfold heed
  cases hsaid : fieldNote? comment with
  | none => exact .inl ⟨rfl, by simp⟩
  | some said =>
    obtain ⟨name, note⟩ := said
    by_cases hold : name ∈ notes.names
    · refine .inl ⟨if_pos hold, ?_⟩
      rintro _ _ ⟨⟩
      exact hold
    · exact .inr ⟨name, note, rfl, hold, if_neg hold⟩

theorem mem_heed :
    (name, note) ∈ notes.heed comment ↔
      (name, note) ∈ notes ∨ fieldNote? comment = some (name, note) ∧ name ∉ notes.names := by
  rcases notes.heed_cases comment with ⟨hsame, hknown⟩ | ⟨field, new, hsaid, hnew, hadded⟩
  · rw [hsame]
    exact (or_iff_left fun h => h.2 (hknown _ _ h.1)).symm
  · rw [hadded, List.mem_append, List.mem_singleton, hsaid, Option.some.injEq, eq_comm]
    refine or_congr_right (iff_self_and.mpr ?_)
    rintro ⟨⟩
    exact hnew

theorem mem_names_heed :
    name ∈ (notes.heed comment).names ↔
      name ∈ notes.names ∨ ∃ note, fieldNote? comment = some (name, note) := by
  rcases notes.heed_cases comment with ⟨hsame, hknown⟩ | ⟨field, new, hsaid, -, hadded⟩
  · rw [hsame]
    exact (or_iff_left_of_imp fun ⟨_, h⟩ => hknown _ _ h).symm
  · rw [hadded, names_append, List.mem_append, hsaid]
    simp [names, eq_comm]

theorem nodup_names_heed (h : notes.names.Nodup) : (notes.heed comment).names.Nodup := by
  rcases notes.heed_cases comment with ⟨hsame, -⟩ | ⟨field, new, -, hnew, hadded⟩
  · rwa [hsame]
  · rw [hadded, names_append]
    exact List.concat_eq_append ▸ h.concat hnew

theorem lookup_ne_none (h : name ∈ notes.names) : notes.lookup name ≠ none := by
  rw [Ne, List.lookup_eq_none_iff]
  intro hnone
  obtain ⟨entry, hentry, rfl⟩ := List.mem_map.mp h
  simpa using hnone entry hentry

/-- A look-up finds the earlier note before the new one. -/
theorem lookup_heed (notes : FieldNotes) (comment name : String) :
    (notes.heed comment).lookup name =
      (notes.lookup name).or ((fieldNote? comment).toList.lookup name) := by
  rcases notes.heed_cases comment with ⟨hsame, hknown⟩ | ⟨field, new, hsaid, -, hadded⟩
  · rw [hsame]
    cases hfound : notes.lookup name with
    | some _ => rfl
    | none =>
      have hsilent : (fieldNote? comment).toList.lookup name = none := by
        rw [List.lookup_eq_none_iff]
        rintro ⟨field, new⟩ hmem
        have hfield := hknown field new (by simpa using hmem)
        simp only [bne_iff_ne, ne_eq]
        rintro rfl
        exact lookup_ne_none hfield hfound
      rw [hsilent]
      rfl
  · rw [hadded, List.lookup_append, hsaid]
    rfl

/-- Heeding comments one after the other gives what a look-up among all their notes finds first. -/
theorem lookup_foldl_heed (comments : List String) (notes : FieldNotes) (name : String) :
    (comments.foldl heed notes).lookup name =
      (notes.lookup name).or ((comments.filterMap fieldNote?).lookup name) := by
  induction comments generalizing notes with
  | nil => simp
  | cons comment rest ih =>
    rw [List.foldl_cons, ih, lookup_heed, Option.or_assoc, ← List.lookup_append]
    congr 2
    cases hsaid : fieldNote? comment <;> simp [hsaid]

end FieldNotes

/-- The note on an attribute is the one among the notes, or blank. -/
theorem attributeNote_eq_lookup (c : Comments) (line : Int) (name : String) :
    c.attributeNote (some line) name = ((c.attributeNotes line).lookup name).getD .blank := by
  rw [attributeNotes, FieldNotes.lookup_foldl_heed]
  rfl

section Climb

theorem aloneAt_of_neg (h : k < 0) : c.aloneAt k = none := by
  cases k with
  | ofNat n => exact absurd h (Int.not_lt.mpr (Int.natCast_nonneg n))
  | negSucc n => rfl

theorem climb?_eq_none_iff : c.climb? s = none ↔ c.aloneAt s.next = none := Option.map_eq_none_iff

theorem climb?_eq_some_iff :
    c.climb? s = some t ↔
      ∃ comment, c.aloneAt s.next = some comment ∧
        t = ⟨s.next - 1, s.notes.heed comment⟩ := by
  rw [climb?, Option.map_eq_some_iff]
  exact exists_congr fun comment => and_congr_right fun _ => eq_comm

/-- What the notes are on the way up from a line: the lines passed have comments to themselves, and
of those that speak of a field the nearest made the note. -/
structure Gathered (c : Comments) (line : Int) (s : Climb) : Prop where
  below : s.next < line
  run : ∀ m, s.next < m → m < line → (c.aloneAt m).isSome
  notes : ∀ name note, (name, note) ∈ s.notes ↔
    name ≠ "" ∧ ∃ k, s.next < k ∧ k < line ∧ c.SpeaksLast line k name note
  names : ∀ name, name ∈ s.notes.names ↔
    name ≠ "" ∧ ∃ k, s.next < k ∧ k < line ∧ ∃ note, Speaks (c.aloneAt k) name note
  distinct : s.notes.names.Nodup

theorem gathered_start (c : Comments) (line : Int) : c.Gathered line ⟨line - 1, []⟩ where
  below := Int.sub_one_lt_of_le le_rfl
  run m hlow hhigh := by
    dsimp only at hlow
    omega
  notes name note := by
    refine iff_of_false List.not_mem_nil ?_
    rintro ⟨-, k, hlow, hhigh, -⟩
    dsimp only at hlow
    omega
  names name := by
    refine iff_of_false List.not_mem_nil ?_
    rintro ⟨-, k, hlow, hhigh, -⟩
    dsimp only at hlow
    omega
  distinct := List.nodup_nil

/-- One line further up, the next line included. -/
theorem exists_above_iff {next : Int} (hnext : next < line) {P : Int → Prop} :
    (∃ k, next - 1 < k ∧ k < line ∧ P k) ↔ P next ∨ ∃ k, next < k ∧ k < line ∧ P k := by
  constructor
  · rintro ⟨k, hlow, hhigh, hk⟩
    rcases Int.lt_or_eq_of_le (Int.le_of_sub_one_lt hlow) with hlt | rfl
    · exact .inr ⟨k, hlt, hhigh, hk⟩
    · exact .inl hk
  · rintro (hk | ⟨k, hlow, hhigh, hk⟩)
    · exact ⟨next, by omega, hnext, hk⟩
    · exact ⟨k, by omega, hhigh, hk⟩

/-- Going up by a line keeps it so. -/
theorem Gathered.climb (h : c.Gathered line s) (hstep : c.climb? s = some t) :
    c.Gathered line t := by
  obtain ⟨comment, hcomment, rfl⟩ := climb?_eq_some_iff.mp hstep
  refine ⟨Int.sub_one_lt_of_le (Int.le_of_lt h.below), ?_, ?_, ?_,
    FieldNotes.nodup_names_heed h.distinct⟩
  · intro m hlow hhigh
    rcases Int.lt_or_eq_of_le (Int.le_of_sub_one_lt hlow) with hlt | rfl
    · exact h.run m hlt hhigh
    · rw [hcomment]
      rfl
  · intro name note
    rw [FieldNotes.mem_heed, h.notes, h.names, fieldNote?_eq_some_iff, exists_above_iff h.below,
      ← hcomment]
    -- A field has no note yet exactly when no line passed speaks of it.
    constructor
    · rintro (⟨hne, hold⟩ | ⟨⟨hne, hspeaks⟩, hnew⟩)
      · exact ⟨hne, .inr hold⟩
      · refine ⟨hne, .inl ⟨hspeaks, fun m hlow hhigh other hother => ?_⟩⟩
        exact hnew ⟨hne, m, hlow, hhigh, other, hother⟩
    · rintro ⟨hne, hnow | hold⟩
      · refine .inr ⟨⟨hne, hnow.speaks⟩, ?_⟩
        rintro ⟨-, m, hlow, hhigh, other, hother⟩
        exact hnow.last m hlow hhigh other hother
      · exact .inl ⟨hne, hold⟩
  · intro name
    rw [FieldNotes.mem_names_heed, h.names, exists_above_iff h.below, hcomment]
    simp only [fieldNote?_eq_some_iff, exists_and_left, ← and_or_left, or_comm]

/-- Going up to the end keeps it so, and the line reached has no comment to itself. -/
theorem Gathered.climbs (h : c.Gathered line s) (hclimbs : c.Climbs turns s last) :
    c.Gathered line last ∧ c.aloneAt last.next = none := by
  induction hclimbs with
  | stop hstop => exact ⟨h, climb?_eq_none_iff.mp hstop⟩
  | up hstep _ ih => exact ih (h.climb hstep)

/-- Where going up ends, the lines passed are the whole run. -/
theorem Gathered.inRun_iff (h : c.Gathered line last) (hstop : c.aloneAt last.next = none) :
    c.InRun line k ↔ last.next < k ∧ k < line := by
  constructor
  · rintro ⟨hbelow, hrun⟩
    refine ⟨?_, hbelow⟩
    by_contra hlow
    have hsome := hrun last.next (Int.not_lt.mp hlow) h.below
    rw [hstop] at hsome
    cases hsome
  · rintro ⟨hlow, hhigh⟩
    exact ⟨hhigh, fun m hm => h.run m (Int.lt_of_lt_of_le hlow hm)⟩

theorem Climbs.isSome (h : c.Climbs turns s last) {i : Nat} (hi : i < turns) :
    (c.aloneAt (s.next - i)).isSome := by
  induction h generalizing i with
  | stop => omega
  | up hstep _ ih =>
    obtain ⟨comment, hcomment, rfl⟩ := climb?_eq_some_iff.mp hstep
    cases i with
    | zero =>
      rw [Int.natCast_zero, Int.sub_zero, hcomment]
      rfl
    | succ i =>
      have hearlier := ih (Nat.lt_of_succ_lt_succ hi)
      rwa [Int.sub_sub, Int.add_comm, ← Int.natCast_succ] at hearlier

theorem mem_lines_of_isSome (h : (c.aloneAt k).isSome) :
    0 ≤ k ∧ k.toNat ∈ c.entries.map Prod.fst := by
  cases k with
  | negSucc n => cases h
  | ofNat n =>
    refine ⟨Int.natCast_nonneg n, ?_⟩
    obtain ⟨comment, hcomment⟩ := Option.isSome_iff_exists.mp h
    have hon : c.entries.lookup n = some comment := by
      change c.alone n = some comment at hcomment
      unfold alone at hcomment
      split at hcomment
      · cases hcomment
      · exact hcomment
    obtain ⟨before, after, hentries, -⟩ := List.lookup_eq_some_iff.mp hon
    rw [hentries]
    simp

/-- There are no more lines on the way up than there are comments. -/
theorem Climbs.turns_le (h : c.Climbs turns s last) : turns ≤ c.entries.length := by
  -- The lines passed are distinct, and each of them is the line of some comment.
  have hmem : ∀ i ∈ Finset.range turns,
      (s.next - i).toNat ∈ (c.entries.map Prod.fst).toFinset := fun i hi =>
    List.mem_toFinset.mpr (mem_lines_of_isSome (h.isSome (Finset.mem_range.mp hi))).2
  have hinj : Set.InjOn (fun i : Nat => (s.next - i).toNat) (Finset.range turns) := by
    intro i hi j hj hsame
    have hlow := (mem_lines_of_isSome (h.isSome (Finset.mem_range.mp hi))).1
    have hhigh := (mem_lines_of_isSome (h.isSome (Finset.mem_range.mp hj))).1
    dsimp only at hsame
    omega
  calc turns = (Finset.range turns).card := (Finset.card_range turns).symm
    _ ≤ (c.entries.map Prod.fst).toFinset.card := Finset.card_le_card_of_injOn _ hmem hinj
    _ ≤ (c.entries.map Prod.fst).length := List.toFinset_card_le _
    _ = c.entries.length := List.length_map _

/-- Going up from a line comes to an end, with all comments of the run heeded. -/
theorem exists_climbs (c : Comments) (n : Nat) (notes : FieldNotes) :
    ∃ last, c.Climbs (c.run n).length ⟨n - 1, notes⟩ last ∧
      last.notes = (c.run n).foldl FieldNotes.heed notes := by
  induction n generalizing notes with
  | zero => exact ⟨_, .stop (climb?_eq_none_iff.mpr (aloneAt_of_neg (by simp))), rfl⟩
  | succ n ih =>
    have hnext : ((n + 1 : Nat) : Int) - 1 = n := Int.add_sub_cancel n 1
    rw [hnext, run]
    cases hcomment : c.alone n with
    | none => exact ⟨_, .stop (climb?_eq_none_iff.mpr hcomment), rfl⟩
    | some comment =>
      obtain ⟨last, hclimbs, hnotes⟩ := ih (notes.heed comment)
      exact ⟨last, .up (climb?_eq_some_iff.mpr ⟨comment, hcomment, rfl⟩) hclimbs, hnotes⟩

end Climb

theorem attributeNotes_eq (c : Comments) (line : Int) :
    c.attributeNotes line = (c.here (some line)).toList.foldl FieldNotes.heed
      ((c.run line.toNat).foldl FieldNotes.heed []) := by
  simp only [attributeNotes, fieldComments, Option.map_some, Option.getD_some, List.foldl_append]

/-- Going up from the line above comes to an end, and the comment on the line is heeded last. -/
theorem exists_climbs_attributeNotes (c : Comments) (line : Int) :
    ∃ turns last, c.Climbs turns ⟨line - 1, []⟩ last ∧
      c.attributeNotes line = (c.here (some line)).toList.foldl FieldNotes.heed last.notes := by
  rw [attributeNotes_eq]
  rcases Int.le_total 0 line with hline | hline
  · obtain ⟨last, hclimbs, hnotes⟩ := c.exists_climbs line.toNat []
    rw [Int.toNat_of_nonneg hline] at hclimbs
    exact ⟨_, last, hclimbs, by rw [hnotes]⟩
  · have hstop : c.climb? ⟨line - 1, []⟩ = none :=
      climb?_eq_none_iff.mpr (aloneAt_of_neg (Int.sub_one_lt_of_le hline))
    refine ⟨0, _, .stop hstop, ?_⟩
    rw [Int.toNat_of_nonpos hline]
    rfl

/-- Heed the comment of a line that may have none. -/
theorem mem_heed_toList (notes : FieldNotes) (said : Option String) :
    (name, note) ∈ said.toList.foldl FieldNotes.heed notes ↔
      (name, note) ∈ notes ∨ (name ≠ "" ∧ Speaks said name note) ∧ name ∉ notes.names := by
  cases said with
  | none =>
    refine (or_iff_left ?_).symm
    rintro ⟨⟨-, remark, hremark, -⟩, -⟩
    cases hremark
  | some comment =>
    rw [← fieldNote?_eq_some_iff]
    exact FieldNotes.mem_heed

/-- The notes are those of the nearest comments, but for an empty name. -/
theorem mem_attributeNotes_iff :
    (name, note) ∈ c.attributeNotes line ↔ name ≠ "" ∧ c.Nearest line name note := by
  obtain ⟨turns, last, hclimbs, hnotes⟩ := c.exists_climbs_attributeNotes line
  obtain ⟨hgathered, hstop⟩ := (c.gathered_start line).climbs hclimbs
  have hrun : ∀ k, c.InRun line k ↔ last.next < k ∧ k < line := fun k =>
    hgathered.inRun_iff hstop
  rw [hnotes, mem_heed_toList, hgathered.notes, hgathered.names]
  constructor
  · rintro (⟨hne, k, hlow, hhigh, hspeaks⟩ | ⟨⟨hne, hspeaks⟩, hnew⟩)
    · exact ⟨hne, .above k ((hrun k).mpr ⟨hlow, hhigh⟩) hspeaks⟩
    · refine ⟨hne, .beside (fun k hk other hother => ?_) hspeaks⟩
      obtain ⟨hlow, hhigh⟩ := (hrun k).mp hk
      exact hnew ⟨hne, k, hlow, hhigh, other, hother⟩
  · rintro ⟨hne, ⟨k, hk, hspeaks⟩ | ⟨hsilent, hspeaks⟩⟩
    · obtain ⟨hlow, hhigh⟩ := (hrun k).mp hk
      exact .inl ⟨hne, k, hlow, hhigh, hspeaks⟩
    · refine .inr ⟨⟨hne, hspeaks⟩, ?_⟩
      rintro ⟨-, k, hlow, hhigh, other, hother⟩
      exact hsilent k ((hrun k).mpr ⟨hlow, hhigh⟩) other hother

theorem nodup_names_attributeNotes (c : Comments) (line : Int) :
    (c.attributeNotes line).names.Nodup := by
  obtain ⟨turns, last, hclimbs, hnotes⟩ := c.exists_climbs_attributeNotes line
  obtain ⟨hgathered, -⟩ := (c.gathered_start line).climbs hclimbs
  rw [hnotes]
  cases c.here (some line) with
  | none => exact hgathered.distinct
  | some comment => exact FieldNotes.nodup_names_heed hgathered.distinct

/-- What stands beyond a line without a comment to itself is not in the run. -/
theorem run_congr {other : Comments} {gap : Int} (hgap : c.aloneAt gap = none) {n : Nat}
    (hbelow : gap < n) (hsame : ∀ m, gap ≤ m → m < n → other.aloneAt m = c.aloneAt m) :
    other.run n = c.run n := by
  induction n with
  | zero => rfl
  | succ n ih =>
    have hline : other.alone n = c.alone n := hsame n (by omega) (by omega)
    rw [run, run, hline]
    cases hcomment : c.alone n with
    | none => rfl
    | some comment =>
      -- The line passed has a comment to itself, so the gap is still ahead.
      have hne : gap ≠ n := by
        rintro rfl
        cases hgap.symm.trans hcomment
      have hrest := ih (by omega) fun m hlow hhigh => hsame m hlow (by omega)
      exact congrArg (List.cons comment) hrest

theorem attributeNotes_congr {other : Comments} {gap : Int} (hgap : c.aloneAt gap = none)
    (hbelow : gap < line) (hhere : other.here (some line) = c.here (some line))
    (hsame : ∀ m, gap ≤ m → m < line → other.aloneAt m = c.aloneAt m) :
    other.attributeNotes line = c.attributeNotes line := by
  rw [attributeNotes_eq, attributeNotes_eq, hhere]
  rcases Int.le_total 0 line with hline | hline
  · rw [← Int.toNat_of_nonneg hline] at hbelow hsame
    rw [run_congr hgap hbelow hsame]
  · rw [Int.toNat_of_nonpos hline]
    rfl

/-- Gathering the notes for the attributes on a line comes to an end, after at most as many lines
as there are comments. There is one note for each name but the empty one that the comments of the
run above the line, or the comment beside it, speak of: that of the nearest. Comments beyond a line
that has no comment to itself make no difference. These are the notes that the attributes get. -/
theorem attributeNotes_nearest (c : Comments) (line : Int) :
    (∃ turns last, turns ≤ c.entries.length ∧ c.Climbs turns ⟨line - 1, []⟩ last ∧
      c.attributeNotes line = (c.here (some line)).toList.foldl FieldNotes.heed last.notes) ∧
    (c.attributeNotes line).names.Nodup ∧
    (∀ name note, (name, note) ∈ c.attributeNotes line ↔ name ≠ "" ∧ c.Nearest line name note) ∧
    (∀ (other : Comments) (gap : Int), c.aloneAt gap = none → gap < line →
      other.here (some line) = c.here (some line) →
      (∀ m, gap ≤ m → m < line → other.aloneAt m = c.aloneAt m) →
        other.attributeNotes line = c.attributeNotes line) ∧
    ∀ name, c.attributeNote (some line) name =
      ((c.attributeNotes line).lookup name).getD .blank := by
  obtain ⟨turns, last, hclimbs, hnotes⟩ := c.exists_climbs_attributeNotes line
  exact ⟨⟨turns, last, hclimbs.turns_le, hclimbs, hnotes⟩, c.nodup_names_attributeNotes line,
    fun _ _ => mem_attributeNotes_iff, fun _ _ => attributeNotes_congr,
    c.attributeNote_eq_lookup line⟩

/-- A comment about no field does not end the run, a gap does. Of two remarks on a field the nearer
counts, and one beside the attributes where the run has none. -/
example :
    (({ entries :=
          [(1, "# @openapi email:string"), (3, "# @openapi id:string"), (4, "# The author."),
            (5, "# @openapi id:integer"), (6, "# @openapi name:string")]
        trailing := [6] } : Comments).attributeNotes 6).map (fun e => (e.1, e.2.typeName)) =
      [("id", some "integer"), ("name", some "string")] := by
  decide +kernel

/-- A remark on the title, which then gives its field an empty name. -/
def namelessTitle : Comments := { entries := [(1, "# @openapi title:string field_name:\"\"")] }

/-- The nearest comment may give its field an empty name. Then it makes no note on an attribute of
that name, which stays without one. -/
theorem exists_nearest_namelessTitle :
    ∃ note, namelessTitle.Nearest 2 "" note ∧ note.annotated = true ∧
      ("", note) ∉ namelessTitle.attributeNotes 2 ∧
      namelessTitle.attributeNote (some 2) "" = .blank := by
  have hremark : ((Remark.ofComment? (namelessTitle.aloneAt 1)).map fun remark =>
      ((remark.toRecord.find? "field_name").bind Value.text?,
        (Note.ofRemark? (some remark)).annotated)) = some (some "", true) := by
    decide +kernel
  obtain ⟨remark, hfound, hsaid⟩ := Option.map_eq_some_iff.mp hremark
  obtain ⟨hname, hannotated⟩ := Prod.mk.inj hsaid
  obtain ⟨v, hv, htext⟩ := Option.bind_eq_some_iff.mp hname
  obtain rfl : v = .text "" := by
    cases v <;> simp_all [Value.text?]
  have hnone : namelessTitle.attributeNotes 2 = [] :=
    List.isEmpty_iff.mp (by decide +kernel)
  have hrun : namelessTitle.InRun 2 1 := by
    refine ⟨by decide, fun m hlow hhigh => ?_⟩
    obtain rfl : m = 1 := by omega
    rfl
  refine ⟨Note.ofRemark? (some remark), .above 1 hrun ⟨⟨remark, hfound, hv, rfl⟩, ?_⟩, hannotated,
    by simp [hnone], by rw [attributeNote_eq_lookup, hnone]; rfl⟩
  intro m hlow hhigh
  omega

end ViewSchema.Template.Comments
