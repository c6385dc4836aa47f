import ViewSchema.Text.Blank

/-!
File paths as written, with slashes between segments. Empty and `.` segments vanish when a path is
read; `..` is kept, because what it leads to is only known from the directory in use and the links
in it. Exactly two leading slashes make a root of their own. The plain location of a path is what
remains when it is taken from the root directory and every `..` is carried out by the names alone;
it is in normal form: a list of proper segments.
-/

namespace ViewSchema

namespace Text

/-- No piece of a text holds a character that the text is cut at. -/
theorem not_mem_pieces {test : Char → Bool} {text piece : List Char}
    (h : piece ∈ pieces test text) {c : Char} (hc : c ∈ piece) : test c = false := by
  induction text generalizing piece with
  | nil =>
    simp only [pieces, List.mem_singleton] at h
    subst h
    cases hc
  | cons d rest ih =>
    rw [pieces] at h
    split at h
    · rcases List.mem_cons.mp h with rfl | hrest
      · cases hc
      · exact ih hrest hc
    · rename_i hd
      split at h
      · obtain rfl := List.mem_singleton.mp h
        obtain rfl := List.mem_singleton.mp hc
        simpa using hd
      · rename_i first others hpieces
        rcases List.mem_cons.mp h with rfl | hothers
        · rcases List.mem_cons.mp hc with rfl | hfirst
          · simpa using hd
          · exact ih (hpieces ▸ List.mem_cons_self) hfirst
        · exact ih (hpieces ▸ List.mem_cons_of_mem _ hothers) hc

end Text

/-- A path: its leading slashes (none, `/` or `//`) and its segments. -/
structure Path where
  root : String
  segments : List String
  deriving Repr, DecidableEq, Inhabited

/-- The segments that lead from the root directory to a file or directory, free of `..`. -/
abbrev Location := List String

/-- A segment that names a step down: not empty, no dot and no double dot, without a slash. -/
def IsProperSegment (segment : String) : Prop :=
  segment ≠ "" ∧ segment ≠ "." ∧ segment ≠ ".." ∧ '/' ∉ segment.toList

/-- A location in normal form has proper segments only. -/
def Location.IsNormal (l : Location) : Prop := ∀ segment ∈ l, IsProperSegment segment

namespace Path

def rootOf : List Char → String
  | '/' :: '/' :: '/' :: _ => "/"
  | '/' :: '/' :: _ => "//"
  | '/' :: _ => "/"
  | _ => ""

def segmentsOf (text : List Char) : List String :=
  ((Text.fields (· == '/') text).filter (· != ['.'])).map String.ofList

def ofString (s : String) : Path := ⟨rootOf s.toList, segmentsOf s.toList⟩

/-- Write a path. The empty relative path is written as a dot. -/
def toString (p : Path) : String :=
  if p.root == "" && p.segments.isEmpty then "." else p.root ++ "/".intercalate p.segments

def isAbsolute (p : Path) : Bool := p.root != ""

/-- The directory that holds the path; a path without segments holds itself. -/
def parent (p : Path) : Path := ⟨p.root, p.segments.dropLast⟩

/-- The last segment, empty when there is none. -/
def name (p : Path) : String := p.segments.getLast?.getD ""

/-- The directories above the path, the nearest first. -/
def ancestors (p : Path) : List Path :=
  (List.range p.segments.length).reverse.map fun count => ⟨p.root, p.segments.take count⟩

/-- Follow a second path from the first; an absolute one replaces it. -/
def join (p q : Path) : Path :=
  if q.isAbsolute then q else ⟨p.root, p.segments ++ q.segments⟩

def walkTo (at_ : Location) (segment : String) : Location :=
  if segment == ".." then at_.dropLast else at_ ++ [segment]

/-- Where a path leads from the root directory when nothing is a link. -/
def location (p : Path) : Location := p.segments.foldl walkTo []

/-- Every segment is proper or a double dot. -/
def IsClean (p : Path) : Prop := ∀ segment ∈ p.segments, segment = ".." ∨ IsProperSegment segment

theorem isClean_ofString (s : String) : (ofString s).IsClean := by
  intro segment hsegment
  simp only [ofString, segmentsOf, Text.fields, List.mem_map, List.mem_filter] at hsegment
  obtain ⟨piece, ⟨⟨hpiece, hempty⟩, hdot⟩, rfl⟩ := hsegment
  by_cases hup : String.ofList piece = ".."
  · exact .inl hup
  · refine .inr ⟨?_, ?_, hup, ?_⟩
    · intro h
      have hnil : piece = [] := by simpa using congrArg String.toList h
      simp [hnil] at hempty
    · intro h
      have hsingle : piece = ['.'] := by simpa using congrArg String.toList h
      simp [hsingle] at hdot
    · intro h
      rw [String.toList_ofList] at h
      have hslash := Text.not_mem_pieces hpiece h
      simp at hslash

theorem isNormal_walkTo {at_ : Location} {segment : String} (hat : at_.IsNormal)
    (h : segment = ".." ∨ IsProperSegment segment) : Location.IsNormal (walkTo at_ segment) := by
  unfold walkTo
  split
  · exact fun s hs => hat s (List.dropLast_subset _ hs)
  · rename_i hup
    intro s hs
    rcases List.mem_append.mp hs with hold | hnew
    · exact hat s hold
    · obtain rfl := List.mem_singleton.mp hnew
      exact h.resolve_left (by simpa using hup)

theorem isNormal_foldl_walkTo {segments : List String} {at_ : Location} (hat : at_.IsNormal)
    (h : ∀ segment ∈ segments, segment = ".." ∨ IsProperSegment segment) :
    Location.IsNormal (segments.foldl walkTo at_) := by
  induction segments generalizing at_ with
  | nil => exact hat
  | cons segment rest ih =>
    obtain ⟨hfirst, hrest⟩ := List.forall_mem_cons.mp h
    exact ih (isNormal_walkTo hat hfirst) hrest

/-- A clean path leads to a location in normal form. -/
theorem IsClean.isNormal_location {p : Path} (h : p.IsClean) : p.location.IsNormal :=
  isNormal_foldl_walkTo (by simp [Location.IsNormal]) h

end Path

def Location.toString (l : Location) : String := "/" ++ "/".intercalate l

end ViewSchema
