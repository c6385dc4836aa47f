import Mathlib.Data.List.Induction
import Mathlib.Logic.Relation
import ViewSchema.Proofs.Path
import ViewSchema.Proofs.Text.Cut

/-!
The directory of views above a template, along inclusions. An included file lies below the directory
that its name is taken from, by the directories of the name and of the written file name. As long as
none of these is named like a directory of views, the nearest one above the file is the nearest one
above the including template. Names with a directory then lead to the same file from every template
on the way.
-/

namespace ViewSchema

namespace Path

/-- The nearest directory above a path is the path without its last segment. -/
theorem ancestors_concat (root : String) (segments : List String) (last : String) :
    (⟨root, segments ++ [last]⟩ : Path).ancestors =
      ⟨root, segments⟩ :: (⟨root, segments⟩ : Path).ancestors := by
  simp only [ancestors, List.length_append, List.length_singleton, List.range_succ,
    List.reverse_append, List.reverse_singleton, List.singleton_append, List.map_cons,
    List.take_left]
  congr 1
  apply List.map_congr_left
  intro count hcount
  have hwithin : count ≤ segments.length :=
    Nat.le_of_lt (List.mem_range.mp (List.mem_reverse.mp hcount))
  rw [List.take_append_of_le_length hwithin]

/-- A piece without a slash is read as one segment, or as none. -/
theorem segments_ofString {piece : String} (h : '/' ∉ piece.toList) :
    (ofString piece).segments = [] ∨ (ofString piece).segments = [piece] := by
  simp only [ofString, segmentsOf, Text.fields, Text.pieces_of_not_mem h]
  by_cases hread : piece.toList.isEmpty = false ∧ piece.toList ≠ ['.']
  · exact .inr (by simp [hread])
  · left
    rw [not_and_or, Bool.not_eq_false, not_not] at hread
    rcases hread with hempty | hdot
    · simp [hempty]
    · simp [hdot]

/-- What starts with an underscore is no absolute path and has a segment. -/
theorem segments_ofString_ne_nil {written : String} {rest : List Char}
    (h : written.toList = '_' :: rest) : (ofString written).segments ≠ [] := by
  have hpieces : ∃ first others,
      Text.pieces (· == '/') ('_' :: rest) = ('_' :: first) :: others := by
    simp only [Text.pieces]
    rw [if_neg (by decide)]
    split
    · exact ⟨[], [], rfl⟩
    · exact ⟨_, _, rfl⟩
  obtain ⟨first, others, hpieces⟩ := hpieces
  simp [ofString, segmentsOf, Text.fields, h, hpieces]

theorem isAbsolute_of_underscore {written : String} {rest : List Char}
    (h : written.toList = '_' :: rest) : (ofString written).isAbsolute = false := by
  simp [ofString, isAbsolute, rootOf, h]

theorem isAbsolute_of_not_mem {piece : String} (h : '/' ∉ piece.toList) :
    (ofString piece).isAbsolute = false := by
  have hroot : rootOf piece.toList = "" := by
    unfold rootOf
    split
    · simp_all
    · simp_all
    · simp_all
    · rfl
  simp [ofString, isAbsolute, hroot]

end Path

namespace Partial

variable {settings : Settings}

/-- The non-empty segments of a partial's name, cut at slashes of both kinds. -/
def parts (name : String) : List String := (Text.fields isSlash name.toList).map String.ofList

/-- The written file name of a partial, as a path: that of its last segment. -/
def file (name : String) (settings : Settings) : Path :=
  Path.ofString (fileName ((parts name).getLast?.getD name) settings)

/-- The directories that a partial's name leads through. -/
def directories (name : String) : List String :=
  (parts name).dropLast.flatMap fun directory => (Path.ofString directory).segments

/-- The directory that a partial's name is taken from. -/
def base (name : String) (current : Path) (settings : Settings) : Path :=
  if (parts name).dropLast = [] then current.parent
  else (viewsRoot? current settings).getD current.parent

theorem not_mem_of_mem_parts {name part : String} (h : part ∈ parts name) : '/' ∉ part.toList := by
  simp only [parts, Text.fields, List.mem_map, List.mem_filter] at h
  obtain ⟨piece, ⟨hpiece, -⟩, rfl⟩ := h
  intro hslash
  rw [String.toList_ofList] at hslash
  exact absurd (Text.not_mem_pieces hpiece hslash) (by decide)

/-- A written file name starts with an underscore. -/
theorem exists_toList_fileName (name : String) (settings : Settings) :
    ∃ rest, (fileName name settings).toList = '_' :: rest := by
  have hmarked : ∀ marked : String, (∃ rest, marked.toList = '_' :: rest) →
      ∃ rest, (if Text.endsWith marked.toList settings.extension.toList then marked
        else marked ++ settings.extension).toList = '_' :: rest := by
    rintro marked ⟨rest, hrest⟩
    split
    · exact ⟨rest, hrest⟩
    · exact ⟨rest ++ settings.extension.toList, by rw [String.toList_append, hrest]; rfl⟩
  apply hmarked
  split
  · rename_i hhead
    cases hname : name.toList with
    | nil => simp [hname] at hhead
    | cons c rest =>
      obtain rfl : c = '_' := by simpa [hname] using hhead
      exact ⟨rest, rfl⟩
  · exact ⟨name.toList, by simp⟩

/-- A relative name leads through its directories to its file, from the directory it is taken
from. -/
theorem path_eq {name : String} (h : (Path.ofString name).isAbsolute = false) (current : Path)
    (settings : Settings) :
    path name current settings =
      ⟨(base name current settings).root,
        (base name current settings).segments ++
          (directories name ++ (file name settings).segments)⟩ := by
  have hfile : (file name settings).isAbsolute = false :=
    Path.isAbsolute_of_underscore (exists_toList_fileName _ settings).choose_spec
  have hfold : ∀ (names : List String) (p : Path), (∀ d ∈ names, '/' ∉ d.toList) →
      names.foldl (fun p d => p.join (Path.ofString d)) p =
        ⟨p.root, p.segments ++ names.flatMap fun d => (Path.ofString d).segments⟩ := by
    intro names
    induction names with
    | nil => intro p _; simp
    | cons d rest ih =>
      intro p hnames
      obtain ⟨hd, hrest⟩ := List.forall_mem_cons.mp hnames
      rw [List.foldl_cons, ih _ hrest, Path.join, Path.isAbsolute_of_not_mem hd]
      simp
  have hdirectories : ∀ d ∈ (parts name).dropLast, '/' ∉ d.toList := fun d hd =>
    not_mem_of_mem_parts (List.dropLast_subset _ hd)
  have hpath : path name current settings =
      ((parts name).dropLast.foldl (fun p d => p.join (Path.ofString d))
        (base name current settings)).join (file name settings) := by
    have hparts : (Text.fields isSlash name.toList).map String.ofList = parts name := rfl
    unfold path base file
    simp only [h, Bool.false_eq_true, if_false]
    rw [hparts]
    cases hlast : (parts name).getLast? with
    | none => simp [List.getLast?_eq_none_iff.mp hlast]
    | some last =>
      cases hdrop : (parts name).dropLast with
      | nil => simp
      | cons d rest => simp
  rw [hpath, hfold _ _ hdirectories, Path.join, hfile]
  simp [directories]

/-! Which directory of views is the nearest. -/

theorem viewsRoot?_concat (root : String) (segments : List String) (last : String)
    (settings : Settings) :
    viewsRoot? ⟨root, segments ++ [last]⟩ settings =
      if (⟨root, segments⟩ : Path).name == settings.viewsDirectory then some ⟨root, segments⟩
      else viewsRoot? ⟨root, segments⟩ settings := by
  rw [viewsRoot?, Path.ancestors_concat, List.find?_cons]
  split
  · rename_i hname
    rw [if_pos hname]
  · rename_i hname
    rw [if_neg (by simp [hname]), viewsRoot?]

/-- Directories that are not named like one of views do not change which is the nearest. -/
theorem viewsRoot?_append {names : List String} (h : settings.viewsDirectory ∉ names)
    (root : String) (segments : List String) (last other : String) :
    viewsRoot? ⟨root, segments ++ (names ++ [last])⟩ settings =
      viewsRoot? ⟨root, segments ++ [other]⟩ settings := by
  induction names using List.reverseRecOn generalizing last with
  | nil => rw [List.nil_append, viewsRoot?_concat, viewsRoot?_concat]
  | append_singleton names name ih =>
    obtain ⟨hnames, hname⟩ := not_or.mp (mt List.mem_append.mpr h)
    have hother : name ≠ settings.viewsDirectory := by
      simpa [eq_comm] using hname
    rw [← List.append_assoc, viewsRoot?_concat, if_neg, ih hnames]
    simpa [Path.name, ← List.append_assoc] using hother

/-- A directory on the way that is named like one of views lies below every nearest one that was
there before. -/
theorem exists_viewsRoot?_of_mem {names : List String} (h : settings.viewsDirectory ∈ names)
    (root : String) (segments : List String) (last : String) :
    ∃ p, viewsRoot? ⟨root, segments ++ (names ++ [last])⟩ settings = some p ∧
      segments.length < p.segments.length := by
  induction names using List.reverseRecOn generalizing last with
  | nil => cases h
  | append_singleton names name ih =>
    rw [← List.append_assoc, viewsRoot?_concat]
    by_cases hname : name = settings.viewsDirectory
    · refine ⟨_, if_pos (by simp [Path.name, hname, ← List.append_assoc]), ?_⟩
      simp only [List.length_append, List.length_singleton]
      omega
    · rw [if_neg (by simpa [Path.name, ← List.append_assoc] using hname)]
      have hearlier : settings.viewsDirectory ∈ names :=
        (List.mem_append.mp h).resolve_right (by simpa [eq_comm] using hname)
      exact ih hearlier name

theorem length_lt_of_viewsRoot? {current p : Path} (h : viewsRoot? current settings = some p) :
    p.segments.length < current.segments.length := by
  have hmem := List.mem_of_find?_eq_some h
  simp only [Path.ancestors, List.mem_map, List.mem_reverse, List.mem_range] at hmem
  obtain ⟨count, hcount, rfl⟩ := hmem
  simp only [List.length_take]
  omega

/-- The nearest directory of views above a file beside a template is that above the template. -/
theorem viewsRoot?_beside (h : settings.viewsDirectory ≠ "") (current : Path) (last : String) :
    viewsRoot? ⟨current.parent.root, current.parent.segments ++ [last]⟩ settings =
      viewsRoot? current settings := by
  obtain ⟨root, segments⟩ := current
  rcases List.eq_nil_or_concat segments with rfl | ⟨directory, own, rfl⟩
  · rw [viewsRoot?_concat, if_neg]
    · rfl
    · exact fun hname => h (beq_iff_eq.mp hname).symm
  · rw [viewsRoot?_concat, List.concat_eq_append, viewsRoot?_concat]
    simp [Path.parent]

/-- A directory of views is the nearest one above what lies in it. -/
theorem viewsRoot?_within {current root : Path} (h : viewsRoot? current settings = some root)
    (last : String) : viewsRoot? ⟨root.root, root.segments ++ [last]⟩ settings = some root := by
  rw [viewsRoot?_concat]
  exact if_pos (List.find?_some h)

/-- A name is taken from a directory above whose files the nearest directory of views is that above
the template. -/
theorem viewsRoot?_base (h : settings.viewsDirectory ≠ "") (name : String) (current : Path)
    (last : String) :
    viewsRoot? ⟨(base name current settings).root,
        (base name current settings).segments ++ [last]⟩ settings =
      viewsRoot? current settings := by
  unfold base
  split
  · exact viewsRoot?_beside h current last
  · cases hroot : viewsRoot? current settings with
    | none => exact (viewsRoot?_beside h current last).trans hroot
    | some root => exact viewsRoot?_within hroot last

/-- A relative name of which no segment is named like the directory of views. -/
structure IsPlain (settings : Settings) (name : String) : Prop where
  relative : (Path.ofString name).isAbsolute = false
  parts : settings.viewsDirectory ∉ parts name

theorem IsPlain.not_mem_directories {name : String} (h : IsPlain settings name) :
    settings.viewsDirectory ∉ directories name := by
  intro hmem
  obtain ⟨d, hd, hsegment⟩ := List.mem_flatMap.mp hmem
  have hpart : d ∈ Partial.parts name := List.dropLast_subset _ hd
  rcases Path.segments_ofString (not_mem_of_mem_parts hpart) with hnone | hself
  · rw [hnone] at hsegment
    cases hsegment
  · rw [hself, List.mem_singleton] at hsegment
    exact h.parts (hsegment ▸ hpart)

/-- The written file name of a partial leads through a directory that is named like one of
views. -/
def FileHoldsViews (settings : Settings) (name : String) : Prop :=
  settings.viewsDirectory ∈ (file name settings).segments.dropLast

/-- Including a plain name keeps the nearest directory of views, unless the written file name holds
another one. -/
theorem viewsRoot?_path_iff (h : settings.viewsDirectory ≠ "") {name : String}
    (hplain : IsPlain settings name) (current : Path) :
    viewsRoot? (path name current settings) settings = viewsRoot? current settings ↔
      ¬FileHoldsViews settings name := by
  have hne : (file name settings).segments ≠ [] :=
    Path.segments_ofString_ne_nil (exists_toList_fileName _ settings).choose_spec
  have hbase := viewsRoot?_base h name current ((file name settings).segments.getLast hne)
  have hbelow : (base name current settings).segments ++
        (directories name ++ (file name settings).segments) =
      (base name current settings).segments ++
        (directories name ++ (file name settings).segments.dropLast ++
          [(file name settings).segments.getLast hne]) := by
    rw [List.append_assoc, List.dropLast_concat_getLast]
  rw [path_eq hplain.relative, hbelow, FileHoldsViews]
  constructor
  · intro hsame hmem
    obtain ⟨p, hp, hlength⟩ := exists_viewsRoot?_of_mem
      (List.mem_append_right (directories name) hmem) (base name current settings).root
      (base name current settings).segments ((file name settings).segments.getLast hne)
    have hless := length_lt_of_viewsRoot? (hbase.trans (hsame.symm.trans hp))
    simp only [List.length_append, List.length_singleton] at hless
    omega
  · intro hnone
    refine (viewsRoot?_append ?_ _ _ _ _).trans hbase
    exact fun hmem => (List.mem_append.mp hmem).elim hplain.not_mem_directories hnone

/-- Names with a directory lead to the same file from templates with the same directory of
views. -/
theorem path_of_viewsRoot?_eq {p q : Path} (hroot : (viewsRoot? q settings).isSome)
    (hsame : viewsRoot? p settings = viewsRoot? q settings) {name : String}
    (hparts : 2 ≤ (parts name).length) : path name p settings = path name q settings := by
  by_cases hrelative : (Path.ofString name).isAbsolute = false
  · obtain ⟨root, hroot⟩ := Option.isSome_iff_exists.mp hroot
    have hdirectories : (parts name).dropLast ≠ [] := by
      apply List.length_pos_iff.mp
      rw [List.length_dropLast]
      omega
    rw [path_eq hrelative, path_eq hrelative]
    simp only [base, hdirectories, if_false, hsame, hroot, Option.getD_some]
  · simp only [path, hrelative, if_true]

/-- A file is reached from a template by inclusions of plain names whose written file names hold no
directory of views. -/
def Reaches (settings : Settings) : Path → Path → Prop :=
  Relation.ReflTransGen fun p q =>
    ∃ name, IsPlain settings name ∧ ¬FileHoldsViews settings name ∧ q = path name p settings

theorem viewsRoot?_of_reaches (h : settings.viewsDirectory ≠ "") {current p : Path}
    (hreaches : Reaches settings current p) :
    viewsRoot? p settings = viewsRoot? current settings := by
  induction hreaches with
  | refl => rfl
  | tail _ hstep ih =>
    obtain ⟨name, hplain, hfile, rfl⟩ := hstep
    exact ((viewsRoot?_path_iff h hplain _).mpr hfile).trans ih

/-- With an extension without a slash, the written file name of a name with a segment is a single
segment. -/
theorem not_fileHoldsViews {name : String} (hextension : '/' ∉ settings.extension.toList)
    (hparts : parts name ≠ []) : ¬FileHoldsViews settings name := by
  have hlast : (parts name).getLast?.getD name ∈ parts name := by
    rw [List.getLast?_eq_some_getLast hparts]
    exact List.getLast_mem hparts
  have hslash := not_mem_of_mem_parts hlast
  have hwritten : '/' ∉ (fileName ((parts name).getLast?.getD name) settings).toList := by
    unfold fileName
    dsimp only
    split <;> split <;> simp [hslash, hextension]
  rcases Path.segments_ofString hwritten with hnone | hself
  · simp [FileHoldsViews, file, hnone]
  · simp [FileHoldsViews, file, hself]

/-- Including a plain name keeps the nearest directory of views, whether there is one or not,
exactly when the written file name holds no other. Along any number of such inclusions it is kept,
and when there is one, every name with two segments or more leads to the same file from each
template on the way. The written file name of a name with a segment can hold another directory of
views only when the extension has a slash. -/
theorem viewsRoot?_along_inclusions (h : settings.viewsDirectory ≠ "") (current : Path) :
    (∀ name, IsPlain settings name →
      (viewsRoot? (path name current settings) settings = viewsRoot? current settings ↔
        ¬FileHoldsViews settings name)) ∧
    (∀ p, Reaches settings current p →
      viewsRoot? p settings = viewsRoot? current settings ∧
        ((viewsRoot? current settings).isSome → ∀ name, 2 ≤ (parts name).length →
          path name p settings = path name current settings)) ∧
    ('/' ∉ settings.extension.toList → ∀ name, parts name ≠ [] →
      ¬FileHoldsViews settings name) := by
  refine ⟨fun name hplain => viewsRoot?_path_iff h hplain current, fun p hreaches => ?_,
    fun hextension name hparts => not_fileHoldsViews hextension hparts⟩
  have hsame := viewsRoot?_of_reaches h hreaches
  exact ⟨hsame, fun hroot name hparts => path_of_viewsRoot?_eq hroot hsame hparts⟩

theorem viewsRoot?_along_inclusions_show :
    let settings : Settings := {}
    let current := Path.ofString "/srv/app/views/api/posts/show.json.jbuilder"
    let item := path "shared\\./item" (path "comment" current settings) settings
    settings.viewsDirectory ≠ "" ∧ IsPlain settings "comment" ∧
      IsPlain settings "shared\\./item" ∧ '/' ∉ settings.extension.toList ∧
      viewsRoot? item settings = some (Path.ofString "/srv/app/views") ∧
      path "users/user" item settings =
        Path.ofString "/srv/app/views/users/_user.json.jbuilder" := by
  intro settings current item
  have hviews : settings.viewsDirectory ≠ "" := by decide
  have hcomment : IsPlain settings "comment" := ⟨by decide, by decide⟩
  have hitem : IsPlain settings "shared\\./item" := ⟨by decide, by decide⟩
  have hextension : '/' ∉ settings.extension.toList := by decide
  obtain ⟨-, hreached, hfile⟩ := viewsRoot?_along_inclusions hviews current
  have hreaches : Reaches settings current item :=
    .tail (.single ⟨"comment", hcomment, hfile hextension _ (by decide), rfl⟩)
      ⟨"shared\\./item", hitem, hfile hextension _ (by decide), rfl⟩
  obtain ⟨hroot, hpath⟩ := hreached item hreaches
  have hshow : viewsRoot? current settings = some (Path.ofString "/srv/app/views") := by decide
  refine ⟨hviews, hcomment, hitem, hextension, hroot.trans hshow, ?_⟩
  rw [hpath (by rw [hshow]; rfl) "users/user" (by decide)]
  decide

/-- An extension with a slash can put a directory of views into the name of every file: names with a
directory then lead elsewhere from the included file. -/
theorem exists_views_in_file :
    ∃ (settings : Settings) (current : Path) (name : String),
      settings.viewsDirectory ≠ "" ∧ (Path.ofString name).isAbsolute = false ∧
        ".." ∉ parts name ∧ settings.viewsDirectory ∉ parts name ∧
        viewsRoot? (path name current settings) settings ≠ viewsRoot? current settings ∧
        path "shared/item" (path name current settings) settings ≠
          path "shared/item" current settings :=
  ⟨{ extension := "/views/show.json.jbuilder" },
    Path.ofString "/app/views/posts/show.json.jbuilder", "comment", by decide⟩

end Partial
end ViewSchema
