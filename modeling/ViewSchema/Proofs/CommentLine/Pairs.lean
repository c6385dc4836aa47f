import ViewSchema.CommentLine
import ViewSchema.Proofs.Number.Numeral
import ViewSchema.Proofs.Record
import ViewSchema.Proofs.Remark.Tag

/-!
Attributes as a comment line gives them: each is a pair behind a blank, or left out. Bare texts,
texts in double quotes and lists in brackets are read back from their pairs, but for the double
quotes inside a quoted text.
-/

namespace ViewSchema

open Text Remark

namespace CommentLine

/-- A text with apostrophes for its double quotes. -/
def softened (s : String) : String :=
  String.ofList (s.toList.map fun c => if c == doubleQuote then apostrophe else c)

/-- A text that an element of a list in brackets can give. -/
structure IsItem (text : List Char) : Prop where
  nonempty : text ≠ []
  noComma : ',' ∉ text
  noBracket : ']' ∉ text
  oneLine : '\n' ∉ text
  opens : text.head?.all fun c => !isBlank c
  ends : text.getLast?.all fun c => !isBlank c
  unwrapped : ∀ inner, text ≠ doubleQuote :: (inner ++ [doubleQuote])

theorem unwrapped_iff {text : List Char} :
    (∀ inner, text ≠ doubleQuote :: (inner ++ [doubleQuote])) ↔
      ¬(text.head? = some doubleQuote ∧ text.tail.getLast? = some doubleQuote) := by
  cases text with
  | nil => simp
  | cons c rest =>
    simp only [List.head?_cons, Option.some.injEq, List.tail_cons, List.getLast?_eq_some_iff,
      ne_eq, List.cons.injEq, not_and, not_exists]
    exact ⟨fun h hc inner => h inner hc, fun h inner hc => h hc inner⟩

theorem isItem_iff {text : List Char} :
    IsItem text ↔ text ≠ [] ∧ ',' ∉ text ∧ ']' ∉ text ∧ '\n' ∉ text ∧
      (text.head?.all fun c => !isBlank c) ∧ (text.getLast?.all fun c => !isBlank c) ∧
      ¬(text.head? = some doubleQuote ∧ text.tail.getLast? = some doubleQuote) := by
  rw [← unwrapped_iff]
  exact ⟨fun h => ⟨h.nonempty, h.noComma, h.noBracket, h.oneLine, h.opens, h.ends, h.unwrapped⟩,
    fun ⟨hne, hcomma, hbracket, hline, hopens, hends, hwrapped⟩ =>
      ⟨hne, hcomma, hbracket, hline, hopens, hends, hwrapped⟩⟩

instance (text : List Char) : Decidable (IsItem text) := decidable_of_iff _ isItem_iff.symm

/-- A text that stands on one line. -/
structure IsSentence (text : List Char) : Prop where
  nonempty : text ≠ []
  oneLine : '\n' ∉ text

/-- The attribute is absent or a text of the kind. -/
def MayBeText (r : Record) (key : String) (kind : List Char → Prop) : Prop :=
  r.get key = .null ∨ ∃ s : String, r.get key = .text s ∧ kind s.toList

/-- The attribute is absent or a list of texts of the kind, one at least. -/
def MayBeList (r : Record) (key : String) (kind : List Char → Prop) : Prop :=
  r.get key = .null ∨ ∃ items : List String, r.get key = .list (items.map .text) ∧
    items ≠ [] ∧ ∀ item ∈ items, kind item.toList

/-- The attribute is absent or a whole number of few enough digits. -/
def MayBeBound (r : Record) (key : String) : Prop :=
  r.get key = .null ∨ ∃ n : Int, r.get key = .int n ∧
    (Nat.toDigits 10 n.natAbs).length ≤ Numeral.maxDigits

theorem MayBeText.mono {r : Record} {key : String} {kind other : List Char → Prop}
    (h : MayBeText r key kind) (hkind : ∀ text, kind text → other text) : MayBeText r key other :=
  h.imp_right fun ⟨s, htext, hs⟩ => ⟨s, htext, hkind _ hs⟩

theorem MayBeList.mono {r : Record} {key : String} {kind other : List Char → Prop}
    (h : MayBeList r key kind) (hkind : ∀ text, kind text → other text) : MayBeList r key other :=
  h.imp_right fun ⟨items, hlist, hne, hall⟩ =>
    ⟨items, hlist, hne, fun item hitem => hkind _ (hall item hitem)⟩

theorem IsItem.trim {text : List Char} (h : IsItem text) : Text.trim text = text :=
  trimBy_eq_self h.opens h.ends

section Value

variable {text : List Char}

theorem unquoted_item (h : IsItem text) : unquoted text = text :=
  unquoted_of_not_wrapped h.trim h.unwrapped

theorem not_mem_softened (s : String) : doubleQuote ∉ (softened s).toList := by
  rw [softened, String.toList_ofList, List.mem_map]
  rintro ⟨c, -, hc⟩
  split at hc
  · exact absurd hc (by decide)
  · rename_i hne
    exact hne (by rw [hc]; rfl)

theorem doubleQuoted_toList (s : String) :
    doubleQuoted s.toList = doubleQuote :: ((softened s).toList ++ [doubleQuote]) := by
  rw [doubleQuoted, softened, String.toList_ofList]

/-- Replacing double quotes brings no other character in. -/
theorem mem_softened {s : String} {c : Char} (hc : c ≠ apostrophe) (h : c ∈ (softened s).toList) :
    c ∈ s.toList := by
  rw [softened, String.toList_ofList, List.mem_map] at h
  obtain ⟨d, hd, rfl⟩ := h
  split at hc
  · exact absurd rfl hc
  · rename_i hne
    rwa [if_neg hne]

/-- Replacing double quotes brings no tag in. -/
theorem isFree_softened {s : String} (h : IsFree s.toList) : IsFree (softened s).toList := by
  rw [softened, String.toList_ofList]
  intro hinside
  obtain ⟨source, hsource, htag⟩ := List.infix_map_iff.mp hinside
  have hsame : source = fieldTag := by
    rw [htag]
    symm
    rw [List.map_congr_left (g := id), List.map_id]
    intro c hc
    have hmem : (if c == doubleQuote then apostrophe else c) ∈ fieldTag := by
      rw [htag]
      exact List.mem_map_of_mem hc
    split at hmem
    · exact absurd hmem (by decide)
    · rename_i hne
      exact if_neg hne
  exact h (hsame ▸ hsource)

end Value

section Join

variable {texts : List (List Char)}

theorem not_mem_join {c : Char} (hc : c ≠ ',') (h : ∀ text ∈ texts, c ∉ text) :
    c ∉ join [','] texts := by
  induction texts with
  | nil => simp [join]
  | cons text rest ih =>
    obtain ⟨htext, hrest⟩ := List.forall_mem_cons.mp h
    cases rest with
    | nil => exact htext
    | cons next others =>
      rw [join_cons_cons, List.mem_append, List.mem_append, List.mem_singleton]
      exact not_or.mpr ⟨htext, not_or.mpr ⟨hc, ih hrest⟩⟩

theorem isFree_join (h : ∀ text ∈ texts, IsFree text) : IsFree (join [','] texts) := by
  induction texts with
  | nil => exact isFree_of_not_mem (by simp [join])
  | cons text rest ih =>
    obtain ⟨htext, hrest⟩ := List.forall_mem_cons.mp h
    cases rest with
    | nil => exact htext
    | cons next others =>
      rw [join_cons_cons]
      exact not_infix_append_cons (by decide) htext (ih hrest)

theorem head?_join {text : List Char} (hne : text ≠ []) (rest : List (List Char)) :
    (join [','] (text :: rest)).head? = text.head? := by
  cases text with
  | nil => exact absurd rfl hne
  | cons c text => cases rest <;> rfl

/-- Elements put together in a list leave no blanks at either end. -/
theorem trim_join (h : ∀ text ∈ texts, IsItem text) : Text.trim (join [','] texts) =
    join [','] texts := by
  have hlast : (join [','] texts).getLast?.all fun c => !isBlank c := by
    induction texts with
    | nil => rfl
    | cons text rest ih =>
      obtain ⟨htext, hrest⟩ := List.forall_mem_cons.mp h
      cases rest with
      | nil => exact htext.ends
      | cons next others =>
        have hbehind := ih hrest
        rw [join_cons_cons, List.getLast?_append, List.singleton_append, List.getLast?_cons]
        cases hend : (join [','] (next :: others)).getLast? with
        | none => rfl
        | some c =>
          rw [hend] at hbehind
          exact hbehind
  cases texts with
  | nil => rfl
  | cons text rest =>
    have htext := h text List.mem_cons_self
    refine trimBy_eq_self ?_ hlast
    rw [head?_join htext.nonempty]
    exact htext.opens

theorem listed_texts (items : List String) :
    listed (.list (items.map .text)) = items.map String.toList := by
  simp [listed, Value.asText]

/-- A list in brackets gives its elements. -/
theorem listValue_bracketed {items : List String} (hne : items ≠ [])
    (h : ∀ item ∈ items, IsItem item.toList) :
    listValue (bracketed (.list (items.map .text))) = .list (items.map .text) := by
  have hitems : ∀ text ∈ items.map String.toList, IsItem text := by simpa using h
  have hnonempty : join [','] (items.map String.toList) ≠ [] := by
    cases items with
    | nil => exact absurd rfl hne
    | cons item rest =>
      have hitem := (h item List.mem_cons_self).nonempty
      intro hnil
      have hhead := head?_join hitem (rest.map String.toList)
      rw [List.map_cons] at hnil
      rw [hnil, List.head?_nil] at hhead
      exact hitem (List.head?_eq_none_iff.mp hhead.symm)
  have hpieces := pieces_join (by simpa using hne) fun text htext => (hitems text htext).noComma
  rw [bracketed, listed_texts]
  simp only [listValue, List.getLast?_concat, List.dropLast_concat, beq_self_eq_true, if_true,
    trim_join hitems, List.isEmpty_iff, hnonempty, if_false, hpieces, List.map_map]
  congr 1
  refine List.map_congr_left fun item hitem => ?_
  simp [unquoted_item (h item hitem)]

end Join

theorem asText_int (n : Int) : (Value.int n).asText.toList = (toString n).toList :=
  String.toList_ofList

theorem isBare_toString (n : Int) : IsBare (toString n).toList := by
  have hmem : ∀ c ∈ (toString n).toList, isAsciiDigit c ∨ c = '-' :=
    fun c hc => Numeral.digit_or_sign_of_mem_toString hc
  have hblank : ∀ c ∈ (toString n).toList, isBlank c = false := by
    intro c hc
    rcases hmem c hc with hdigit | rfl
    · exact Numeral.isBlank_of_isAsciiDigit hdigit
    · decide
  have hopens : ∀ c, isAsciiDigit c = false → c ≠ '-' → (toString n).toList.head? ≠ some c := by
    intro c hdigit hsign hhead
    rcases hmem c (List.mem_of_mem_head? hhead) with hc | hc
    · rw [hdigit] at hc
      cases hc
    · exact hsign hc
  exact ⟨Numeral.toString_ne_nil n, hblank, hopens _ (by decide) (by decide),
    hopens _ (by decide) (by decide)⟩

/-- What a pair says. -/
def heard (p : List Char × List Char) : String × Value :=
  (String.ofList p.1, attributeValue (String.ofList p.1) p.2)

/-- The pairs give attributes under some of the keys, each key at most once and in their order. -/
structure Tells (keys : List String) (found : List (List Char × List Char)) (told : Record) :
    Prop where
  keys : List.Sublist told.keys keys
  writable : ∀ p ∈ found, IsWritable p
  heard : found.map heard = told

namespace Tells

variable {keys others : List String} {found more : List (List Char × List Char)}
  {told also : Record} {key : String} {raw : List Char} {v : Value}

theorem none (keys : List String) : Tells keys [] [] :=
  ⟨List.nil_sublist keys, nofun, rfl⟩

theorem pair (hwritable : IsWritable (key.toList, raw)) (hvalue : attributeValue key raw = v) :
    Tells [key] [(key.toList, raw)] [(key, v)] where
  keys := List.Sublist.refl _
  writable := by simpa using hwritable
  heard := by simp [CommentLine.heard, hvalue]

theorem append (h : Tells keys found told) (h' : Tells others more also) :
    Tells (keys ++ others) (found ++ more) (told ++ also) where
  keys := by
    rw [Record.keys, List.map_append]
    exact h.keys.append h'.keys
  writable := List.forall_mem_append.mpr ⟨h.writable, h'.writable⟩
  heard := by rw [List.map_append, h.heard, h'.heard]

/-- Pairs of new and distinct keys are put behind a record as they are heard. -/
theorem foldl_insert (h : Tells keys found told) (opening : Record)
    (hkeys : (opening.keys ++ keys).Nodup) :
    found.foldl (fun r p => r.insert (CommentLine.heard p).1 (CommentLine.heard p).2) opening =
      opening ++ told := by
  have hnodup : (opening.keys ++ Record.keys (found.map CommentLine.heard)).Nodup := by
    rw [h.heard]
    exact hkeys.sublist ((List.Sublist.refl _).append h.keys)
  have hfold := Record.foldl_insert_of_nodup (found.map CommentLine.heard) opening hnodup
  rwa [List.foldl_map, h.heard] at hfold

end Tells

section Pairs

variable {r : Record} {key : String}

/-- The entry of a key, unless its value is null. -/
def present (r : Record) (key : String) : Record :=
  match r.get key with
  | .null => []
  | v => [(key, v)]

/-- The entry of a text as quotes leave it. -/
def presentSoftened (r : Record) (key : String) : Record :=
  match r.get key with
  | .text s => [(key, .text (softened s))]
  | _ => []

def plainPairs (r : Record) (key : String) : List (List Char × List Char) :=
  if isGiven r key then [(key.toList, shownAttribute r key)] else []

def quotedPairs (r : Record) (key : String) : List (List Char × List Char) :=
  if isGiven r key then [(key.toList, doubleQuoted (shownAttribute r key))] else []

def listPairs (r : Record) (key : String) : List (List Char × List Char) :=
  if isGiven r key then [(key.toList, bracketed (r.get key))] else []

def boundPairs (r : Record) (key : String) : List (List Char × List Char) :=
  match r.get key with
  | .null => []
  | v => [(key.toList, v.asText.toList)]

theorem written_singleton (key : String) (raw : List Char) :
    written [(key.toList, raw)] = pair key raw := by
  simp [written, pair]

theorem written_plainPairs (r : Record) (key : String) :
    written (plainPairs r key) = plainPair r key := by
  unfold plainPairs plainPair
  split
  · exact written_singleton _ _
  · rfl

theorem written_quotedPairs (r : Record) (key : String) :
    written (quotedPairs r key) = quotedPair r key := by
  unfold quotedPairs quotedPair
  split
  · exact written_singleton _ _
  · rfl

theorem written_listPairs (r : Record) (key : String) :
    written (listPairs r key) = listPair r key := by
  unfold listPairs listPair
  split
  · exact written_singleton _ _
  · rfl

theorem written_boundPairs (r : Record) (key : String) :
    written (boundPairs r key) = boundPair r key := by
  unfold boundPairs boundPair Record.get
  cases r.find? key with
  | none => rfl
  | some v =>
    cases v with
    | null => rfl
    | _ => exact written_singleton _ _

theorem isGiven_of_null (h : r.get key = .null) : isGiven r key = false := by
  rw [isGiven, h]
  rfl

theorem shownAttribute_text {s : String} (h : r.get key = .text s) :
    shownAttribute r key = s.toList := by
  unfold shownAttribute
  unfold Record.get at h
  cases hfind : r.find? key with
  | none =>
    rw [hfind] at h
    cases h
  | some v =>
    rw [hfind] at h
    obtain rfl : v = .text s := h
    rfl

theorem tells_plainPairs (key : String) (hkey : isKey key.toList) (hlist : key ∉ listKeys)
    (htruth : key ∉ truthKeys) (hnumber : key ∉ numberKeys)
    (h : MayBeText r key IsBare) :
    Tells [key] (plainPairs r key) (present r key) := by
  rcases h with hnull | ⟨s, htext, hbare⟩
  · rw [plainPairs, isGiven_of_null hnull, present, hnull]
    exact .none _
  · have hgiven : isGiven r key = true := by
      have hne : s ≠ "" := fun hnil => hbare.nonempty (by rw [hnil]; rfl)
      simpa [isGiven, htext, Value.isTruthy] using hne
    have hbreak : '\n' ∉ s.toList := fun hmem =>
      absurd (hbare.unbroken _ hmem) (by decide)
    have hpresent : present r key = [(key, .text s)] := by rw [present, htext]
    rw [plainPairs, if_pos hgiven, shownAttribute_text htext, hpresent]
    refine .pair ⟨hkey, .bare hbare, hbreak⟩ ?_
    simp [attributeValue, hlist, htruth, hnumber, unquoted_bare hbare]

theorem tells_quotedPairs (key : String) (hkey : isKey key.toList) (hlist : key ∉ listKeys)
    (htruth : key ∉ truthKeys) (hnumber : key ∉ numberKeys)
    (h : MayBeText r key IsSentence) :
    Tells [key] (quotedPairs r key) (presentSoftened r key) := by
  rcases h with hnull | ⟨s, htext, hsentence⟩
  · rw [quotedPairs, isGiven_of_null hnull, presentSoftened, hnull]
    exact .none _
  · have hgiven : isGiven r key = true := by
      have hne : s ≠ "" := fun hnil => hsentence.nonempty (by rw [hnil]; rfl)
      simpa [isGiven, htext, Value.isTruthy] using hne
    rw [quotedPairs, if_pos hgiven, shownAttribute_text htext, presentSoftened, htext,
      doubleQuoted_toList]
    refine .pair ⟨hkey, .quoted (not_mem_softened s), ?_⟩ ?_
    · simp only [List.mem_cons, List.mem_append, List.not_mem_nil, or_false, not_or]
      exact ⟨by decide, fun hmem => hsentence.oneLine (mem_softened (by decide) hmem), by decide⟩
    · simp [attributeValue, hlist, htruth, hnumber, unquoted_quoted]

theorem tells_listPairs (key : String) (hkey : isKey key.toList) (hlist : key ∈ listKeys)
    (h : MayBeList r key IsItem) :
    Tells [key] (listPairs r key) (present r key) := by
  rcases h with hnull | ⟨items, hitems, hne, h⟩
  · rw [listPairs, isGiven_of_null hnull, present, hnull]
    exact .none _
  · have hgiven : isGiven r key = true := by
      simpa [isGiven, hitems, Value.isTruthy] using hne
    have hpresent : present r key = [(key, .list (items.map .text))] := by rw [present, hitems]
    have hclose : ']' ∉ join [','] (items.map String.toList) :=
      not_mem_join (by decide) (by simpa using fun item hitem => (h item hitem).noBracket)
    have hbreak : '\n' ∉ join [','] (items.map String.toList) :=
      not_mem_join (by decide) (by simpa using fun item hitem => (h item hitem).oneLine)
    rw [listPairs, if_pos hgiven, hitems, hpresent]
    refine .pair ⟨hkey, ?_, ?_⟩ ?_
    · rw [bracketed, listed_texts]
      exact .bracketed hclose
    · simpa [bracketed, listed_texts] using hbreak
    · rw [attributeValue, if_pos (by simpa using hlist), bracketed, unquoted_bracketed, ← bracketed]
      exact listValue_bracketed hne h

theorem tells_boundPairs (key : String) (hkey : isKey key.toList) (hlist : key ∉ listKeys)
    (htruth : key ∉ truthKeys) (hnumber : key ∈ numberKeys)
    (h : MayBeBound r key) :
    Tells [key] (boundPairs r key) (present r key) := by
  rcases h with hnull | ⟨n, hint, hshort⟩
  · rw [boundPairs, present, hnull]
    exact .none _
  · have hbare := isBare_toString n
    have hbreak : '\n' ∉ (toString n).toList := fun hmem =>
      absurd (hbare.unbroken _ hmem) (by decide)
    rw [boundPairs, present, hint]
    dsimp only
    have hread := Numeral.readInt?_toString hshort
    rw [asText_int]
    generalize (toString n).toList = text at hbare hbreak hread
    refine .pair ⟨hkey, .bare hbare, hbreak⟩ ?_
    simp [attributeValue, hlist, htruth, hnumber, unquoted_bare hbare, numberValue, hread]

end Pairs

end CommentLine
end ViewSchema
