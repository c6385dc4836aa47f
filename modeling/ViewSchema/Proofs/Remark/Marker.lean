import ViewSchema.Proofs.Remark.Tag

/-!
The marker of a conditional branch. A text without the tag of an operation is a marker by its end:
a field tag, blanks and `conditional:true` stand there, with nothing but blanks behind them. That
pair is then the last one of the text. Whether it is the only one has no part in this: the marker
may stand behind other pairs, and the pair alone is a field when other words follow it.
-/

namespace ViewSchema.Remark

open Text

def markerText : List Char := "conditional:true".toList

/-- The pair of a marker. -/
def markerPair : List Char × List Char := ("conditional".toList, "true".toList)

/-- A field tag, blanks and the marker stand at the end of the text, but for blanks. -/
def EndsMarked (text : List Char) : Prop :=
  ∃ front blanks behind, text = front ++ (fieldTag ++ (blanks ++ (markerText ++ behind))) ∧
    blanks ≠ [] ∧ blanks.all isBlank ∧ behind.all isBlank

/-- A text that is empty or ends with a blank. -/
def endsBlank (text : List Char) : Bool := text.getLast?.all isBlank

/-- Blanks and a mark are all that a text holds, but for more blanks. -/
theorem after?_dropWhile_iff {mark tail : List Char} (hmark : mark.head?.any (!isBlank ·)) :
    (match after? mark (tail.dropWhile isBlank) with
      | none => false
      | some behind => tail.head?.any isBlank && behind.all isBlank) = true ↔
    ∃ blanks behind, tail = blanks ++ (mark ++ behind) ∧ blanks ≠ [] ∧ blanks.all isBlank ∧
      behind.all isBlank := by
  constructor
  · intro hfound
    split at hfound
    · cases hfound
    · rename_i behind hbehind
      obtain ⟨hfirst, hall⟩ := Bool.and_eq_true_iff.mp hfound
      refine ⟨tail.takeWhile isBlank, behind, ?_, ?_, List.all_takeWhile, hall⟩
      · rw [← eq_append_of_after? hbehind, List.takeWhile_append_dropWhile]
      · cases tail with
        | nil => cases hfirst
        | cons c tail =>
          rw [List.takeWhile_cons_of_pos (by simpa using hfirst)]
          exact List.cons_ne_nil _ _
  · rintro ⟨blanks, behind, rfl, hne, hblanks, hbehind⟩
    have hdrop : (blanks ++ (mark ++ behind)).dropWhile isBlank = mark ++ behind := by
      rw [List.dropWhile_append_of_pos (List.all_eq_true.mp hblanks)]
      cases mark with
      | nil => cases hmark
      | cons c mark => exact List.dropWhile_cons_of_neg (by simpa using hmark)
    rw [hdrop, after?_append]
    cases blanks with
    | nil => exact absurd rfl hne
    | cons c blanks => simp [(Bool.and_eq_true_iff.mp hblanks).1, hbehind]

theorem hasMarker_iff {text : List Char} : hasMarker text ↔ EndsMarked text := by
  induction text with
  | nil =>
    refine iff_of_false Bool.false_ne_true ?_
    rintro ⟨front, blanks, behind, htext, hne, -⟩
    exact hne (by simp_all)
  | cons c rest ih =>
    rw [hasMarker, Bool.or_eq_true, ih]
    constructor
    · rintro (hhere | ⟨front, blanks, behind, rfl, hblanks⟩)
      · split at hhere
        · cases hhere
        · rename_i tail htail
          obtain ⟨blanks, behind, rfl, hblanks⟩ := (after?_dropWhile_iff (by decide)).mp hhere
          have htext := eq_append_of_after? htail
          exact ⟨[], blanks, behind, htext, hblanks⟩
      · exact ⟨c :: front, blanks, behind, rfl, hblanks⟩
    · rintro ⟨front, blanks, behind, htext, hblanks⟩
      cases front with
      | nil =>
        left
        rw [htext, List.nil_append, after?_append]
        exact (after?_dropWhile_iff (by decide)).mpr ⟨blanks, behind, rfl, hblanks⟩
      | cons d front =>
        right
        exact ⟨front, blanks, behind, (List.cons.inj htext).2, hblanks⟩

instance (text : List Char) : Decidable (EndsMarked text) := decidable_of_iff _ hasMarker_iff

theorem not_mem_of_all_isBlank {c : Char} {piece : List Char} (hpiece : piece.all isBlank)
    (hc : isBlank c = false) : c ∉ piece := by
  intro hmem
  rw [List.all_eq_true.mp hpiece c hmem] at hc
  cases hc

section Content

variable {tag text content tail : List Char}

theorem exists_of_lastLine? (h : lastLine? text = some content) :
    ∃ behind, text = content ++ behind ∧ behind.all isBlank := by
  unfold lastLine? at h
  dsimp only at h
  split at h
  · cases h
  · split at h
    · rename_i hrest
      cases h
      refine ⟨_, List.takeWhile_append_dropWhile.symm, ?_⟩
      rcases Bool.or_eq_true_iff.mp hrest with hnil | hbreak
      · rw [List.isEmpty_iff.mp hnil]
        rfl
      · rw [eq_of_beq hbreak]
        decide
    · cases h

theorem exists_of_afterBlanks? (h : afterBlanks? tail = some content) :
    ∃ blanks behind, tail = blanks ++ (content ++ behind) ∧ blanks ≠ [] ∧ blanks.all isBlank ∧
      behind.all isBlank := by
  induction tail with
  | nil => cases h
  | cons c rest ih =>
    rw [afterBlanks?] at h
    split at h
    · rename_i hc
      rcases Option.or_eq_some_iff.mp h with hlater | ⟨-, hhere⟩
      · obtain ⟨blanks, behind, rfl, -, hblanks, hbehind⟩ := ih hlater
        exact ⟨c :: blanks, behind, rfl, by simp, by rw [List.all_cons, hc, hblanks]; rfl, hbehind⟩
      · obtain ⟨behind, rfl, hbehind⟩ := exists_of_lastLine? hhere
        exact ⟨[c], behind, rfl, by simp, by simp [hc], hbehind⟩
    · cases h

theorem exists_of_content? (h : content? tag text = some content) :
    ∃ front tail, text = front ++ (tag ++ tail) ∧ afterBlanks? tail = some content := by
  induction text with
  | nil => cases h
  | cons c rest ih =>
    rw [content?] at h
    split at h
    · rename_i found hfound
      obtain rfl := Option.some.inj h
      obtain ⟨tail, htail, hblanks⟩ := Option.bind_eq_some_iff.mp hfound
      have htext := eq_append_of_after? htail
      exact ⟨[], tail, htext, hblanks⟩
    · obtain ⟨front, tail, rfl, hblanks⟩ := ih h
      exact ⟨c :: front, tail, rfl, hblanks⟩

end Content

section Place

variable {front behind tail : List Char}

theorem endsBlank_of_suffix (h : endsBlank front) (htail : tail <:+ front) : endsBlank tail := by
  obtain ⟨before, rfl⟩ := htail
  cases hlast : tail.getLast? with
  | none => simp [endsBlank, hlast]
  | some c => simpa [endsBlank, List.getLast?_append, hlast] using h

theorem endsBlank_append (before : List Char) (h : endsBlank tail) (hne : tail ≠ []) :
    endsBlank (before ++ tail) := by
  rw [endsBlank, List.getLast?_append, List.getLast?_eq_some_getLast hne] at *
  exact h

theorem endsBlank_of_all (h : front.all isBlank) : endsBlank front := by
  rw [endsBlank, Option.all_eq_true]
  exact fun c hc => List.all_eq_true.mp h c (List.mem_of_getLast? hc)

/-- A scan for a kind of character that is no blank stops in front of the last blank. -/
theorem dropWhile_append_marker (test : Char → Bool) (htest : ∀ c, test c → isBlank c = false)
    (hblank : endsBlank front) (hne : front ≠ []) :
    front.dropWhile test ≠ [] ∧
      (front ++ markerText).dropWhile test = front.dropWhile test ++ markerText := by
  have hstops : front.dropWhile test ≠ [] := by
    intro hnil
    have hall := List.dropWhile_eq_nil_iff.mp hnil
    have hlast := hblank
    rw [endsBlank, List.getLast?_eq_some_getLast hne] at hlast
    have hother := htest _ (hall _ (List.getLast_mem hne))
    rw [Option.all_some, hother] at hlast
    cases hlast
  refine ⟨hstops, ?_⟩
  rw [List.dropWhile_append, if_neg (by simpa using hstops)]

theorem enclosed?_append_marker {close : Char} {found : List Char × List Char}
    (hclose : close ∉ markerText) (h : enclosed? close (front ++ markerText) = some found) :
    ∃ tail, tail <:+ front ∧ found.2 = tail ++ markerText := by
  obtain ⟨inner, hinner, -, hsplit⟩ := eq_append_of_enclosed? h
  rw [hinner] at hsplit
  rcases List.append_eq_append_iff.mp hsplit with ⟨more, hmore, hmarker⟩ | ⟨tail, rfl, htail⟩
  · have hlast := congrArg List.getLast? hmore
    rw [List.getLast?_concat, List.getLast?_append] at hlast
    cases hmoreLast : more.getLast? with
    | none =>
      rw [List.getLast?_eq_none_iff.mp hmoreLast] at hmarker
      exact ⟨[], List.nil_suffix, hmarker.symm⟩
    | some last =>
      -- The closing character would stand in the marker.
      rw [hmoreLast] at hlast
      obtain rfl : close = last := Option.some.inj hlast
      refine absurd ?_ hclose
      rw [hmarker]
      exact List.mem_append_left _ (List.mem_of_getLast? hmoreLast)
  · exact ⟨tail, List.suffix_append _ _, htail⟩

/-- The value of a pair that begins in front of the marker ends there. -/
theorem rawValue?_append_marker {raw : List Char} (hblank : endsBlank front) (hne : front ≠ [])
    (h : rawValue? (front ++ markerText) = some (raw, tail)) :
    ∃ kept, kept <:+ front ∧ tail = kept ++ markerText := by
  cases front with
  | nil => exact absurd rfl hne
  | cons c rest =>
    rw [List.cons_append, rawValue?] at h
    split at h
    · cases h
    · rename_i hc
      have hrest : endsBlank rest := endsBlank_of_suffix hblank (List.suffix_cons c rest)
      have hmore : rest ≠ [] := by
        rintro rfl
        exact hc hblank
      dsimp only at h
      split at h
      · rename_i value behind hclosed
        cases h
        have hkept : ∃ kept, kept <:+ rest ∧ tail = kept ++ markerText := by
          split at hclosed
          · exact enclosed?_append_marker (by decide) hclosed
          · split at hclosed
            · exact enclosed?_append_marker (by decide) hclosed
            · cases hclosed
        obtain ⟨kept, hkept, htail⟩ := hkept
        exact ⟨kept, hkept.trans (List.suffix_cons c rest), htail⟩
      · obtain ⟨-, hdrop⟩ := dropWhile_append_marker (!isBlank ·) (by simp) hrest hmore
        cases h
        exact ⟨_, (List.dropWhile_suffix _).trans (List.suffix_cons c rest), hdrop⟩

theorem pairs_markerText : pairs markerText = [markerPair] := by
  have hsplit : markerText = "conditional".toList ++ ':' :: "true".toList := by decide
  have hvalue : rawValue? "true".toList = some ("true".toList, []) := by decide
  rw [hsplit, pairs_key (by decide) hvalue, pairs]
  rfl

/-- What the pairs behind a run of word characters are, told from those of shorter texts. -/
theorem getLast?_pairs_run {run : List Char} (hrun : isKey run) (hne : tail ≠ [])
    (hstop : tail.head?.all fun c => !isWordChar c) (hblank : endsBlank tail)
    (hbehind : ∀ kept, kept <:+ tail → (pairs (kept ++ markerText)).getLast? = some markerPair) :
    (pairs (run ++ (tail ++ markerText))).getLast? = some markerPair := by
  cases tail with
  | nil => exact absurd rfl hne
  | cons d value =>
    by_cases hcolon : d = ':'
    · subst hcolon
      have hsuffix : value <:+ ':' :: value := List.suffix_cons _ _
      have hvalue : value ≠ [] := by
        rintro rfl
        exact absurd hblank (by decide)
      rw [List.cons_append, pairs_colon hrun]
      cases hfound : rawValue? (value ++ markerText) with
      | none => exact hbehind value hsuffix
      | some found =>
        obtain ⟨raw, behind⟩ := found
        obtain ⟨kept, hkept, rfl⟩ :=
          rawValue?_append_marker (endsBlank_of_suffix hblank hsuffix) hvalue hfound
        have hlast := hbehind kept (hkept.trans hsuffix)
        dsimp only
        rw [List.getLast?_cons, hlast]
        rfl
    · have hother : (d :: value ++ markerText).head? ≠ some ':' := by simpa using hcolon
      have hpassed : pairs (run ++ (d :: value ++ markerText)) = pairs (d :: value ++ markerText) :=
        pairs_word hrun hstop hother
      rw [hpassed]
      exact hbehind _ List.suffix_rfl

/-- The marker is the last pair of a text that ends with it. -/
theorem getLast?_pairs (hblank : endsBlank front) :
    (pairs (front ++ markerText)).getLast? = some markerPair := by
  induction hlength : front.length using Nat.strongRecOn generalizing front with
  | ind length ih =>
    subst hlength
    cases front with
    | nil =>
      rw [List.nil_append, pairs_markerText]
      rfl
    | cons c rest =>
      have hbehind : ∀ kept, kept <:+ rest →
          (pairs (kept ++ markerText)).getLast? = some markerPair := fun kept hkept =>
        ih _ (Nat.lt_succ_of_le hkept.length_le)
          (endsBlank_of_suffix hblank (hkept.trans (List.suffix_cons c rest))) rfl
      by_cases hc : isWordChar c
      · obtain ⟨hne, -⟩ := dropWhile_append_marker isWordChar (fun _ => isBlank_of_isWordChar)
          hblank (List.cons_ne_nil c rest)
        rw [List.dropWhile_cons_of_pos hc] at hne
        have hsuffix : rest.dropWhile isWordChar <:+ rest := List.dropWhile_suffix _
        have hstop : (rest.dropWhile isWordChar).head?.all fun c => !isWordChar c := by
          have hhead := List.head?_dropWhile_not isWordChar rest
          cases hfirst : (rest.dropWhile isWordChar).head? with
          | none => rfl
          | some d => simpa [hfirst] using hhead
        have hsplit : c :: rest =
            (c :: rest.takeWhile isWordChar) ++ rest.dropWhile isWordChar := by
          rw [List.cons_append, List.takeWhile_append_dropWhile]
        rw [hsplit, List.append_assoc]
        exact getLast?_pairs_run (isKey_takeWhile hc rest) hne hstop
          (endsBlank_of_suffix hblank (hsuffix.trans (List.suffix_cons c rest)))
          fun kept hkept => hbehind kept (hkept.trans hsuffix)
      · rw [List.cons_append, pairs_of_not_word (by simpa using hc)]
        exact hbehind rest List.suffix_rfl

/-- What is left of a text that ends with the marker, without the blanks at its ends. -/
theorem trim_append_marker (front : List Char) (hbehind : behind.all isBlank) :
    ∃ kept, kept <:+ front ∧ trim (front ++ (markerText ++ behind)) = kept ++ markerText := by
  have hlast : (front.dropWhile isBlank ++ markerText).getLast?.all fun c => !isBlank c := by
    have hend : markerText.getLast? = some 'e' := by decide
    rw [List.getLast?_append, hend, Option.some_or]
    decide
  have hmarker : (markerText ++ behind).dropWhile isBlank = markerText ++ behind := by
    have hsplit : markerText = 'c' :: "onditional:true".toList := by decide
    rw [hsplit]
    exact List.dropWhile_cons_of_neg (by decide)
  refine ⟨front.dropWhile isBlank, List.dropWhile_suffix _, ?_⟩
  have hstart : (front ++ (markerText ++ behind)).dropWhile isBlank =
      front.dropWhile isBlank ++ markerText ++ behind := by
    rw [List.dropWhile_append]
    split
    · rename_i hnil
      rw [hmarker, List.isEmpty_iff.mp hnil, List.nil_append]
    · rw [List.append_assoc]
  rw [trim, trimBy, trimStart, hstart, trimEnd_append _ hbehind, trimEnd_eq_self hlast]

end Place

section Arity

variable {text content : List Char}

/-- Behind the last place of a character stands nothing but what follows any other place of it. -/
theorem suffix_of_append_cons_eq {front tail before behind : List Char} {c : Char}
    (h : front ++ c :: tail = before ++ c :: behind) (hc : c ∉ behind) : behind <:+ tail := by
  rcases List.append_eq_append_iff.mp h with ⟨between, -, htail⟩ | ⟨between, -, hbehind⟩
  · cases between with
    | nil => exact (List.cons.inj htail).2 ▸ List.suffix_rfl
    | cons d between =>
      rw [(List.cons.inj htail).2]
      exact (List.suffix_cons c behind).trans (List.suffix_append _ _)
  · cases between with
    | nil => exact (List.cons.inj hbehind).2 ▸ List.suffix_rfl
    | cons d between =>
      rw [(List.cons.inj hbehind).2] at hc
      exact absurd (by simp) hc

/-- A field tag stands nowhere behind the one of the marker. -/
theorem suffix_of_fieldTag {front tail before marked : List Char}
    (h : front ++ (fieldTag ++ tail) = before ++ (fieldTag ++ marked)) (hmarked : '@' ∉ marked) :
    marked <:+ tail := by
  have hfield : fieldTag = '@' :: "openapi".toList := by decide
  rw [hfield] at h
  have hbehind : '@' ∉ "openapi".toList ++ marked := by simp [hmarked]
  have hsuffix : "openapi".toList ++ marked <:+ "openapi".toList ++ tail :=
    suffix_of_append_cons_eq h hbehind
  have hlength := hsuffix.length_le
  rw [List.length_append, List.length_append] at hlength
  exact List.suffix_of_suffix_length_le ((List.suffix_append _ _).trans hsuffix)
    (List.suffix_append _ _) (Nat.le_of_add_le_add_left hlength)

/-- The content of a text that ends marked ends with the marker, behind a blank or nothing. -/
theorem exists_of_endsMarked (h : EndsMarked text)
    (hcontent : content? fieldTag text = some content) :
    ∃ front behind, content = front ++ (markerText ++ behind) ∧ endsBlank front ∧
      behind.all isBlank := by
  obtain ⟨before, blanks, behind, htext, hne, hblanks, hbehind⟩ := h
  obtain ⟨front, tail, htag, htail⟩ := exists_of_content? hcontent
  obtain ⟨opening, closing, rfl, -, hopening, hclosing⟩ := exists_of_afterBlanks? htail
  have hmarked : '@' ∉ blanks ++ (markerText ++ behind) := by
    have hmarker : '@' ∉ markerText := by decide
    have hsign : isBlank '@' = false := by decide
    simp [hmarker, not_mem_of_all_isBlank hblanks hsign, not_mem_of_all_isBlank hbehind hsign]
  obtain ⟨skipped, hskipped⟩ := suffix_of_fieldTag (htag.symm.trans htext) hmarked
  rw [← List.append_assoc] at hskipped
  have hblank : endsBlank (skipped ++ blanks) :=
    endsBlank_append skipped (endsBlank_of_all hblanks) hne
  -- The blanks in front of the content end in front of the marker.
  have hsplit : markerText = 'c' :: "onditional:true".toList := by decide
  have hprefix : opening <+: skipped ++ blanks := by
    rw [hsplit] at hskipped
    have hopens : opening <+: (skipped ++ blanks) ++ 'c' :: ("onditional:true".toList ++ behind) :=
      ⟨_, hskipped.symm⟩
    exact prefix_of_prefix_append_cons _ (not_mem_of_all_isBlank hopening (by decide)) hopens
  obtain ⟨more, hmore⟩ := hprefix
  rw [← hmore, List.append_assoc, List.append_cancel_left_eq, ← List.append_assoc] at hskipped
  have hmoreBlank : endsBlank more := endsBlank_of_suffix hblank ⟨opening, hmore⟩
  rcases List.append_eq_append_iff.mp hskipped with ⟨rest, hend, hrest⟩ | ⟨rest, hend, hrest⟩
  · rw [hrest, List.all_append, Bool.and_eq_true] at hbehind
    exact ⟨more, rest, by rw [hend, List.append_assoc], hmoreBlank, hbehind.1⟩
  · -- No part of the marker stands behind the content.
    cases hlast : rest.getLast? with
    | none =>
      obtain rfl := List.getLast?_eq_none_iff.mp hlast
      rw [List.append_nil] at hend
      exact ⟨more, [], by rw [List.append_nil, hend], hmoreBlank, rfl⟩
    | some last =>
      have hletter := congrArg List.getLast? hend
      have hmarkerLast : markerText.getLast? = some 'e' := by decide
      rw [List.getLast?_append, List.getLast?_append, hmarkerLast, hlast] at hletter
      obtain rfl : 'e' = last := Option.some.inj hletter
      rw [hrest] at hclosing
      exact absurd (List.mem_append_left behind (List.mem_of_getLast? hlast))
        (not_mem_of_all_isBlank hclosing (by decide))

/-- The pair of the marker is the last one of a text that ends marked. -/
theorem getLast?_pairs_of_endsMarked (h : EndsMarked text)
    (hcontent : content? fieldTag text = some content) :
    (pairs (trim content)).getLast? = some markerPair := by
  obtain ⟨front, behind, rfl, hblank, hbehind⟩ := exists_of_endsMarked h hcontent
  obtain ⟨kept, hkept, htrim⟩ := trim_append_marker front hbehind
  rw [htrim]
  exact getLast?_pairs (endsBlank_of_suffix hblank hkept)

/-- A text that says nothing but the marker ends marked. -/
theorem endsMarked_of_trim_eq (hcontent : content? fieldTag text = some content)
    (h : trim content = markerText) : EndsMarked text := by
  obtain ⟨front, tail, rfl, htail⟩ := exists_of_content? hcontent
  obtain ⟨opening, closing, rfl, hne, hopening, hclosing⟩ := exists_of_afterBlanks? htail
  obtain ⟨before, behind, hsplit, hbefore, hbehind⟩ := exists_of_trimBy isBlank content
  have hmarker : trimBy isBlank content = markerText := h
  refine ⟨front, opening ++ before, behind ++ closing, ?_, by simp [hne], ?_, ?_⟩
  · rw [hmarker] at hsplit
    rw [hsplit]
    simp
  · rw [List.all_append, hopening, hbefore]
    rfl
  · rw [List.all_append, hbehind, hclosing]
    rfl

end Arity

/-- A text without the tag of an operation is a marker, or speaks of a field, by how it ends. -/
structure IsByEnd (text : List Char) : Prop where
  marker : fieldOf? text = some .marker ↔ EndsMarked text
  field : ∀ attributes, fieldOf? text = some (.field attributes) ↔
    ¬EndsMarked text ∧ ∃ content, content? fieldTag text = some content ∧
      fieldAttributes (pairs (trim content)) = some attributes
  alone : ∀ content, content? fieldTag text = some content → trim content = markerText →
    EndsMarked text
  last : ∀ content, content? fieldTag text = some content → EndsMarked text →
    (pairs (trim content)).getLast? = some markerPair

/-- A text is a marker when the one pair of its content is that of the marker, and speaks of a
field when it has other pairs. -/
structure IsByArity (text content : List Char) : Prop where
  marker : fieldOf? text = some .marker ↔ pairs (trim content) = [markerPair]
  field : pairs (trim content) ≠ [] → pairs (trim content) ≠ [markerPair] →
    ∃ attributes, fieldOf? text = some (.field attributes)

section Decided

variable {text content : List Char}

theorem fieldOf?_of_endsMarked (htag : content? operationTag text = none) (h : EndsMarked text) :
    fieldOf? text = some .marker := by
  simp [fieldOf?, htag, hasMarker_iff.mpr h]

theorem fieldOf?_of_not_endsMarked (htag : content? operationTag text = none)
    (h : ¬EndsMarked text) :
    fieldOf? text = (content? fieldTag text).bind fun content =>
      (fieldAttributes (pairs (trim content))).map .field := by
  have hmarker : hasMarker text = false := by rwa [← Bool.not_eq_true, hasMarker_iff]
  simp [fieldOf?, htag, hmarker]

theorem isByEnd (htag : content? operationTag text = none) : IsByEnd text where
  marker := by
    refine ⟨fun hmarker => ?_, fieldOf?_of_endsMarked htag⟩
    refine Decidable.byContradiction fun hunmarked => ?_
    rw [fieldOf?_of_not_endsMarked htag hunmarked] at hmarker
    obtain ⟨content, -, hsaid⟩ := Option.bind_eq_some_iff.mp hmarker
    obtain ⟨attributes, -, hfield⟩ := Option.map_eq_some_iff.mp hsaid
    cases hfield
  field := by
    intro attributes
    by_cases hmarked : EndsMarked text
    · rw [fieldOf?_of_endsMarked htag hmarked]
      exact iff_of_false nofun fun hboth => hboth.1 hmarked
    · rw [fieldOf?_of_not_endsMarked htag hmarked]
      simp [Option.bind_eq_some_iff, Option.map_eq_some_iff, hmarked]
  alone := fun _ hcontent => endsMarked_of_trim_eq hcontent
  last := fun _ hcontent hmarked => getLast?_pairs_of_endsMarked hmarked hcontent

/-- The number of its pairs decides what a text is exactly when the pair of the marker ends it
alone or not at all. -/
theorem isByArity_iff (htag : content? operationTag text = none)
    (hcontent : content? fieldTag text = some content) :
    IsByArity text content ↔ (EndsMarked text ↔ pairs (trim content) = [markerPair]) := by
  refine ⟨fun h => ?_, fun h => ⟨?_, fun hne hother => ?_⟩⟩
  · rw [← (isByEnd htag).marker, h.marker]
  · rw [(isByEnd htag).marker, h]
  · have hunmarked : ¬EndsMarked text := fun hmarked => hother (h.mp hmarked)
    cases hpairs : pairs (trim content) with
    | nil => exact absurd hpairs hne
    | cons first others =>
      rw [fieldOf?_of_not_endsMarked htag hunmarked, hcontent, Option.bind_some, hpairs]
      exact ⟨_, rfl⟩

/-- A text is a marker by its end, and by the number of its pairs only where the two agree. -/
theorem fieldOf?_byEnd (htag : content? operationTag text = none) :
    IsByEnd text ∧ ∀ content, content? fieldTag text = some content →
      (IsByArity text content ↔ (EndsMarked text ↔ pairs (trim content) = [markerPair])) :=
  ⟨isByEnd htag, fun _ => isByArity_iff htag⟩

end Decided

/-- Words behind the pair of the marker. -/
def markedAdmins : List Char := "# @openapi conditional:true for admins".toList

theorem fieldOf?_byEnd_markedAdmins :
    content? operationTag markedAdmins = none ∧ ¬EndsMarked markedAdmins ∧
      IsByEnd markedAdmins := by
  have htag : content? operationTag markedAdmins = none := by decide
  exact ⟨htag, by decide, (fieldOf?_byEnd htag).1⟩

/-- The pair of the marker is the only one there, and yet the text speaks of a field. -/
theorem not_isByArity_markedAdmins :
    pairs (trim "conditional:true for admins".toList) = [markerPair] ∧
      fieldOf? markedAdmins =
        some (.field [("field_name", .text "conditional"), ("type", .text "true")]) ∧
      ¬IsByArity markedAdmins "conditional:true for admins".toList := by
  have htag : content? operationTag markedAdmins = none := by decide
  have hcontent : content? fieldTag markedAdmins = some "conditional:true for admins".toList := by
    decide
  have hunmarked : ¬EndsMarked markedAdmins := by decide
  have hpairs : pairs (trim "conditional:true for admins".toList) = [markerPair] := by
    decide +kernel
  refine ⟨hpairs, ?_, fun harity => hunmarked ?_⟩
  · rw [fieldOf?_of_not_endsMarked htag hunmarked, hcontent, Option.bind_some, hpairs]
    rfl
  · exact (isByEnd htag).marker.mp (harity.marker.mpr hpairs)

end ViewSchema.Remark
