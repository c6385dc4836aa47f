import ViewSchema.Proofs.Template.Entries

/-!
Lists of entries: as arguments in parentheses behind a variable, and as a hash between braces in
their place. Both are read as the same hash. A key that is a text in front of a colon ends the list
of arguments, and the call is refused at the colon.
-/

namespace ViewSchema.Template

/-- A hash on a line whose pairs are some entries. -/
def IsHashOf (entries : List Entry) (line : Nat) (n : Node) : Prop :=
  ∃ pairs source, n = .hash pairs { line := some line, source } ∧
    pairs.map unsourcedPair = entries.map (Entry.pair line)

namespace Read

variable {T : Token → Prop} {F : Faults} {g : Grammar} {d line : Nat} {noDo spaced gap : Bool}
  {before rest after : List Seen}

theorem breaks_operator {op : String} (hop : op ≠ ";") :
    breaks (⟨.operator op, line, spaced⟩ :: rest) = ⟨.operator op, line, spaced⟩ :: rest :=
  breaks_of_next (by simp [Seen.next]) (by simpa [Seen.next] using hop)

/-! ### Entries among arguments -/

section Turn

variable {a : ArgumentList} {Q : ArgumentList → Prop} (hbreaks : breaks before = before)
  (hopen : (Seen.next before).isOneOf [")"] = false)
include hbreaks hopen

theorem ends_listTurn_comma
    (hlisted : Ends T F (listed g (some ")") false a) before
      (⟨.operator ",", line, spaced⟩ :: rest) Q) :
    Ends T F (listTurn g (some ")") false a) before rest
      fun turn => ∃ next, turn = .again next ∧ Q next := by
  apply (ends_skipBreaks_none hbreaks).bind
  intro _ _
  apply Ends.noOperator hopen
  apply hlisted.bind
  intro b hb
  apply Ends.onOperator (by simp [Seen.next, Lexeme.isOneOf])
  apply (ends_advance _ rest).bind
  intro _ _
  exact (ends_pure _ rest).mono fun _ h => ⟨b, h, hb⟩

theorem ends_listTurn_last (hlisted : Ends T F (listed g (some ")") false a) before after Q)
    (hafter : (Seen.next after).isOneOf [","] = false) :
    Ends T F (listTurn g (some ")") false a) before after
      fun turn => ∃ b, turn = .finished b ∧ Q b := by
  apply (ends_skipBreaks_none hbreaks).bind
  intro _ _
  apply Ends.noOperator hopen
  apply hlisted.bind
  intro b hb
  apply Ends.noOperator hafter
  exact (ends_pure _ after).mono fun _ h => ⟨b, h, hb⟩

end Turn

/-- Arguments and pairs that have been gathered from some arguments and entries. -/
structure Gathered (line : Nat) (args : List Node) (done : List Entry) (a : ArgumentList) :
    Prop where
  args : a.args = args
  pairs : a.pairs.reverse.map unsourcedPair = done.map (Entry.pair line)
  opening : done ≠ [] → a.opening.isSome
  line : ∀ t ∈ a.opening, t.line = line

theorem Gathered.add {args : List Node} {done : List Entry} {a b : ArgumentList} {e : Entry}
    (h : Gathered line args done a) (hb : IsAdded line e a b) :
    Gathered line args (done ++ [e]) b := by
  obtain ⟨t, pair, rfl, ht, hpair⟩ := hb
  refine ⟨h.args, ?_, fun _ => by simp [ArgumentList.addPair], fun u hu => ?_⟩
  · simp [ArgumentList.addPair, h.pairs, hpair]
  · rcases Option.or_eq_some_iff.mp hu with hopening | ⟨-, hlast⟩
    · exact h.line u hopening
    · rwa [← Option.some.inj hlast]

theorem seen_followingGlyphs_cons (e : Entry) (others : List Entry) :
    Glyph.seen line false (Entry.followingGlyphs (e :: others)) =
      ⟨.operator ",", line, false⟩ :: (Glyph.seen line false (e.glyphs true) ++
        Glyph.seen line false (Entry.followingGlyphs others)) := by
  have hsplit : Entry.followingGlyphs (e :: others) =
      .mark false "," :: (e.glyphs true ++ Entry.followingGlyphs others) := by
    simp [Entry.followingGlyphs]
  rw [hsplit, Glyph.seen, Glyph.seen_append, Bool.false_and]
  rfl

/-- A text in front of a colon is an argument by itself, and ends the list. -/
theorem ends_entryTurns_quotedLabel {e : Entry} (hkey : e.key.isQuotedLabel) (a : ArgumentList) :
    ∃ rest, Ends Token.IsStatic F (repeated (listTurn (grammar (d + 2)) (some ")") false) a)
      (Glyph.seen line spaced (e.glyphs gap) ++ after) (⟨.operator ":", line, false⟩ :: rest)
      fun _ => True := by
  obtain ⟨key, value⟩ := e
  cases key with
  | quotedLabel q =>
    refine ⟨Glyph.seen line false (value.glyphs true) ++ after, Ends.finish ?_⟩
    refine ends_listTurn_last (breaks_entry _) (isOneOf_entry _ (by decide)) ?_ rfl
    exact (ends_listed_argument (some ")") a rfl rfl
      (ends_argument_written (.text q) gap rfl) rfl).mono fun _ _ => trivial
  | _ => cases hkey

section Entry

variable {e : Entry} (hkey : e.key.isQuotedLabel = false) (a : ArgumentList)
include hkey

theorem ends_entryTurn_comma :
    Ends Token.IsStatic F (listTurn (grammar (d + 2)) (some ")") false a)
      (Glyph.seen line spaced (e.glyphs gap) ++ ⟨.operator ",", line, false⟩ :: rest) rest
      fun turn => ∃ b, turn = .again b ∧ IsAdded line e a b :=
  ends_listTurn_comma (breaks_entry e) (isOneOf_entry e (by decide))
    (ends_listed_entry e hkey a rfl)

theorem ends_entryTurn_last :
    Ends Token.IsStatic F (listTurn (grammar (d + 2)) (some ")") false a)
      (Glyph.seen line spaced (e.glyphs gap) ++ ⟨.operator ")", line, false⟩ :: rest)
      (⟨.operator ")", line, false⟩ :: rest)
      fun turn => ∃ b, turn = .finished b ∧ IsAdded line e a b :=
  ends_listTurn_last (breaks_entry e) (isOneOf_entry e (by decide))
    (ends_listed_entry e hkey a rfl) rfl

end Entry

theorem forall_concat_of_plain {done : List Entry} {e : Entry}
    (hdone : ∀ x ∈ done, x.key.isQuotedLabel = false) (he : e.key.isQuotedLabel = false) :
    ∀ x ∈ done ++ [e], x.key.isQuotedLabel = false :=
  List.forall_mem_append.mpr ⟨hdone, List.forall_mem_singleton.mpr he⟩

/-- Entries are gathered up to the end of the list, or up to the colon behind the first of them
whose key is a text in front of a colon. -/
theorem ends_entryTurns {α : Type} {q : ArgumentList → Read α} {R : α → Prop} {final : List Seen}
    {args : List Node} {all : List Entry}
    (hclosed : (∀ e ∈ all, e.key.isQuotedLabel = false) → ∀ a, Gathered line args all a →
      Ends Token.IsStatic F (q a) (⟨.operator ")", line, false⟩ :: after) final R)
    (hcolon : (∃ e ∈ all, e.key.isQuotedLabel) → ∀ a rest,
      Ends Token.IsStatic F (q a) (⟨.operator ":", line, false⟩ :: rest) final R)
    {done others : List Entry} {e : Entry} (hall : all = done ++ e :: others)
    (hdone : ∀ e ∈ done, e.key.isQuotedLabel = false) {a : ArgumentList}
    (ha : Gathered line args done a) :
    Ends Token.IsStatic F (repeated (listTurn (grammar (d + 2)) (some ")") false) a >>= q)
      (Glyph.seen line spaced (e.glyphs gap) ++
        (Glyph.seen line false (Entry.followingGlyphs others) ++
          ⟨.operator ")", line, false⟩ :: after)) final R := by
  -- The list ends well at the colon, too: only what follows it decides that the call is refused.
  induction others generalizing done e a spaced gap with
  | nil =>
    cases hkey : e.key.isQuotedLabel with
    | true =>
      obtain ⟨rest, hends⟩ := ends_entryTurns_quotedLabel hkey a
      exact hends.bind fun a _ => hcolon ⟨e, by simp [hall], hkey⟩ a rest
    | false =>
      apply (Ends.finish (ends_entryTurn_last hkey a)).bind
      intro b hb
      exact hclosed (hall ▸ forall_concat_of_plain hdone hkey) b (hall ▸ ha.add hb)
  | cons next more ih =>
    rw [seen_followingGlyphs_cons, List.cons_append, List.append_assoc]
    cases hkey : e.key.isQuotedLabel with
    | true =>
      obtain ⟨rest, hends⟩ := ends_entryTurns_quotedLabel hkey a
      exact hends.bind fun a _ => hcolon ⟨e, by simp [hall], hkey⟩ a rest
    | false =>
      apply Ends.again_bind (ends_entryTurn_comma hkey a) (by simp; omega)
      intro b hb
      exact ih (by simpa using hall) (forall_concat_of_plain hdone hkey) (ha.add hb)

/-- The first argument of a call, an instance variable. -/
theorem ends_instanceVariableTurn (name : String) :
    Ends T F (listTurn (grammar (d + 1)) (some ")") false {})
      (⟨.instanceVariable name, line, spaced⟩ :: ⟨.operator ",", line, false⟩ :: rest) rest
      fun turn => ∃ a, turn = .again a ∧ a = ArgumentList.add {} (nameAt line name) := by
  have hchain : Seen.endsChain (⟨.operator ",", line, false⟩ :: rest) = true := rfl
  have hrests : Seen.rests (⟨.operator ",", line, false⟩ :: rest) = true := rfl
  have hunary := Ends.unary rfl (ends_operand_instanceVariable (T := T) (F := F) (grammar d) false
    false name line spaced _) hchain
  apply ends_listTurn_comma (breaks_of_next (by simp [Seen.next]) (by simp [Seen.next])) rfl
  apply (ends_listed_argument (some ")") {} rfl rfl (hunary.argument rfl hrests) rfl).mono
  rintro _ ⟨_, ha, rfl⟩
  exact ha

/-- Entries behind an instance variable are read as one hash, if none of their keys is a text in
front of a colon. -/
theorem ends_arguments_entries (name : String) {entries : List Entry} (hne : entries ≠ [])
    (hF : (∃ e ∈ entries, e.key.isQuotedLabel) → F (.expected ")") (.operator ":") line) :
    Ends Token.IsStatic F (arguments (grammar (d + 2)) (some ")") false)
      (⟨.instanceVariable name, line, false⟩ :: ⟨.operator ",", line, false⟩ ::
        (Glyph.seen line false (Entry.listedGlyphs true entries) ++
          ⟨.operator ")", line, false⟩ :: after)) after
      fun args => (∀ e ∈ entries, e.key.isQuotedLabel = false) ∧
        ∃ n, args = [nameAt line name, n] ∧ IsHashOf entries line n := by
  match entries with
  | e :: others =>
    apply Ends.again_bind (ends_instanceVariableTurn name)
      (by simp only [List.length_cons]; omega)
    rintro _ rfl
    have hnone : Gathered line [nameAt line name] [] (ArgumentList.add {} (nameAt line name)) :=
      ⟨rfl, rfl, fun h => absurd rfl h, fun _ h => by cases h⟩
    rw [Entry.listedGlyphs, Glyph.seen_append, List.append_assoc, Bool.false_and]
    refine ends_entryTurns ?_ ?_ (List.nil_append _).symm (fun _ h => by cases h) hnone
    · intro hplain a ha
      obtain ⟨t, hopening⟩ := Option.isSome_iff_exists.mp (ha.opening hne)
      apply (ends_skipBreaks_none (breaks_operator (by decide))).bind
      intro _ _
      apply (ends_expectOperator after (by simp [Lexeme.isOneOf])).bind
      intro _ _
      simp only [hopening]
      apply (ends_extentFrom t after).bind_pure.mono
      rintro _ ⟨_, ⟨source, rfl⟩, rfl⟩
      rw [ha.args, ha.line t hopening]
      exact ⟨hplain, _, rfl, a.pairs.reverse, source, rfl, ha.pairs⟩
    · intro hquoted a rest
      apply (ends_skipBreaks_none (breaks_operator (by decide))).bind
      intro _ _
      exact (ends_expectOperator_other rfl (hF hquoted) rest [] fun _ => False).bind
        fun _ h => h.elim

/-! ### Entries between braces -/

section Turn

variable {pairs : List (Node × Node)} {Q : Node × Node → Prop} (hbreaks : breaks before = before)
  (hopen : (Seen.next before).isOneOf ["\x7d"] = false)
include hbreaks hopen

theorem ends_hashTurn_comma
    (hpair : Ends T F (hashPair g) before (⟨.operator ",", line, spaced⟩ :: rest) Q) :
    Ends T F (hashTurn g pairs) before rest
      fun turn => ∃ next, turn = .again next ∧ ∃ pair, next = pair :: pairs ∧ Q pair := by
  apply (ends_skipBreaks_none hbreaks).bind
  intro _ _
  apply Ends.noOperator hopen
  apply hpair.bind
  intro pair hpair
  apply (ends_skipBreaks_none (breaks_operator (by decide))).bind
  intro _ _
  apply Ends.onOperator (by simp [Seen.next, Lexeme.isOneOf])
  apply (ends_advance _ rest).bind
  intro _ _
  exact (ends_pure _ rest).mono fun _ h => ⟨_, h, pair, rfl, hpair⟩

theorem ends_hashTurn_last
    (hpair : Ends T F (hashPair g) before (⟨.operator "\x7d", line, spaced⟩ :: rest) Q) :
    Ends T F (hashTurn g pairs) before (⟨.operator "\x7d", line, spaced⟩ :: rest)
      fun turn => ∃ found, turn = .finished found ∧ ∃ pair, found = pair :: pairs ∧ Q pair := by
  apply (ends_skipBreaks_none hbreaks).bind
  intro _ _
  apply Ends.noOperator hopen
  apply hpair.bind
  intro pair hpair
  apply (ends_skipBreaks_none (breaks_operator (by decide))).bind
  intro _ _
  apply Ends.noOperator rfl
  exact (ends_pure _ _).mono fun _ h => ⟨_, h, pair, rfl, hpair⟩

end Turn

/-- Entries are read as pairs up to the closing brace. -/
theorem ends_pairTurns (e : Entry) (others : List Entry) (pairs : List (Node × Node)) :
    Ends Token.IsStatic F (repeated (hashTurn (grammar (d + 2))) pairs)
      (Glyph.seen line spaced (e.glyphs gap) ++
        (Glyph.seen line false (Entry.followingGlyphs others) ++
          ⟨.operator "\x7d", line, false⟩ :: after))
      (⟨.operator "\x7d", line, false⟩ :: after)
      fun found => found.reverse.map unsourcedPair =
        pairs.reverse.map unsourcedPair ++ (e :: others).map (Entry.pair line) := by
  induction others generalizing e pairs spaced gap with
  | nil =>
    apply (Ends.finish (ends_hashTurn_last (breaks_entry e) (isOneOf_entry e (by decide))
      (ends_hashPair_entry e rfl))).mono
    rintro _ ⟨pair, rfl, hpair⟩
    simp [hpair]
  | cons next more ih =>
    rw [seen_followingGlyphs_cons, List.cons_append, List.append_assoc]
    apply Ends.again (ends_hashTurn_comma (breaks_entry e) (isOneOf_entry e (by decide))
      (ends_hashPair_entry e rfl)) (by simp; omega)
    rintro _ ⟨pair, rfl, hpair⟩
    apply (ih next (pair :: pairs)).mono
    intro found hfound
    rw [hfound]
    simp [hpair]

theorem ends_hash_entries {entries : List Entry} (hne : entries ≠ []) :
    Ends Token.IsStatic F (hash (grammar (d + 2)))
      (⟨.operator "\x7b", line, spaced⟩ ::
        (Glyph.seen line false (Entry.listedGlyphs gap entries) ++
          ⟨.operator "\x7d", line, false⟩ :: after)) after (IsHashOf entries line) := by
  match entries with
  | e :: others =>
    rw [Entry.listedGlyphs, Glyph.seen_append, List.append_assoc, Bool.false_and]
    apply (ends_expectOperator _ (by simp [Lexeme.isOneOf])).bind
    intro t ht
    apply (ends_pairTurns e others []).bind
    intro pairs hpairs
    apply (ends_expectOperator after (by simp [Lexeme.isOneOf])).bind
    intro _ _
    apply (ends_extentFrom t after).bind_pure.mono
    rintro _ ⟨_, ⟨source, rfl⟩, rfl⟩
    rw [show t.line = line from ht.1.2.2 _ rfl]
    exact ⟨pairs.reverse, source, rfl, by simpa using hpairs⟩

/-- A hash of entries between braces is an argument behind an instance variable. -/
theorem ends_arguments_hash (name : String) {entries : List Entry} (hne : entries ≠ []) :
    Ends Token.IsStatic F (arguments (grammar (d + 3)) (some ")") false)
      (⟨.instanceVariable name, line, false⟩ :: ⟨.operator ",", line, false⟩ ::
        ⟨.operator "\x7b", line, true⟩ :: (Glyph.seen line false (Entry.listedGlyphs gap entries) ++
          ⟨.operator "\x7d", line, false⟩ :: ⟨.operator ")", line, false⟩ :: after)) after
      fun args => ∃ n, args = [nameAt line name, n] ∧ IsHashOf entries line n := by
  have hrests : Seen.rests (⟨.operator ")", line, false⟩ :: after) = true := rfl
  have hoperand : Ends Token.IsStatic F (operand (grammar (d + 2)) false false)
      (⟨.operator "\x7b", line, true⟩ :: (Glyph.seen line false (Entry.listedGlyphs gap entries) ++
        ⟨.operator "\x7d", line, false⟩ :: ⟨.operator ")", line, false⟩ :: after))
      (⟨.operator ")", line, false⟩ :: after) (IsHashOf entries line) := by
    apply (ends_current _).bind
    intro t ht
    have hlexeme : t.lexeme = .operator "\x7b" := ht.1.1
    simp only [hlexeme]
    exact ends_hash_entries hne
  have hargument := (Ends.unary rfl hoperand (Seen.endsChain_of_rests hrests)).argument rfl hrests
  apply Ends.again_bind (ends_instanceVariableTurn name)
    (by simp only [List.length_cons]; omega)
  rintro _ rfl
  apply (Ends.finish (ends_listTurn_last (breaks_operator (by decide)) rfl
    (ends_listed_argument (some ")") _ rfl rfl hargument rfl) rfl)).bind
  rintro _ ⟨n, rfl, hn⟩
  apply (ends_skipBreaks_none (breaks_operator (by decide))).bind
  intro _ _
  apply (ends_expectOperator after (by simp [Lexeme.isOneOf])).bind
  intro _ _
  apply (ends_pure _ after).mono
  rintro _ rfl
  exact ⟨n, rfl, hn⟩

end Read

/-! ### Calls with entries -/

/-- The call of a method on the builder with a variable and some entries. -/
def bareText (entries : List Entry) : List Char :=
  "json.f(@x, ".toList ++ Entry.listed entries ++ [')']

/-- The same call with the entries between braces. -/
def bracedText (entries : List Entry) : List Char :=
  "json.f(@x, \x7b".toList ++ Entry.listed entries ++ ['\x7d', ')']

/-- The call of a method on the builder with a variable and a hash of some entries. -/
def IsCallWith (entries : List Entry) (n : Node) : Prop :=
  ∃ c, n = .call c ∧ Read.IsCall (Read.nameAt 1 "json") "f" (some 1)
    (fun args => ∃ n, args = [Read.nameAt 1 "@x", n] ∧ IsHashOf entries 1 n) c

/-- The glyphs of the call up to the comma behind the variable. -/
def openingGlyphs : List Glyph :=
  [.word false "json", .dot, .word false "f", .mark false "(",
    .instanceVariable false ⟨'x', [], Eq.refl true, Eq.refl true⟩, .mark false ","]

def bareGlyphs (entries : List Entry) : List Glyph :=
  openingGlyphs ++ (Entry.listedGlyphs true entries ++ [.mark false ")"])

def bracedGlyphs (entries : List Entry) : List Glyph :=
  openingGlyphs ++ .mark true "\x7b" ::
    (Entry.listedGlyphs false entries ++ [.mark false "\x7d", .mark false ")"])

theorem text_openingGlyphs (others : List Glyph) :
    Glyph.text (openingGlyphs ++ others) = "json.f(@x,".toList ++ Glyph.text others :=
  Glyph.text_append openingGlyphs others

theorem text_bareGlyphs {entries : List Entry} (hne : entries ≠ []) :
    Glyph.text (bareGlyphs entries) = bareText entries := by
  have hopening : "json.f(@x, ".toList = "json.f(@x,".toList ++ [' '] := rfl
  unfold bareText
  rw [bareGlyphs, text_openingGlyphs, Glyph.text_append, Entry.text_listedGlyphs true hne, hopening]
  simp only [if_true, List.append_assoc]
  rfl

theorem text_bracedGlyphs {entries : List Entry} (hne : entries ≠ []) :
    Glyph.text (bracedGlyphs entries) = bracedText entries := by
  have hopening : "json.f(@x, \x7b".toList = "json.f(@x,".toList ++ [' ', '\x7b'] := rfl
  have hbrace : ∀ others, Glyph.text (.mark true "\x7b" :: others) =
      [' ', '\x7b'] ++ Glyph.text others := fun _ => rfl
  unfold bracedText
  rw [bracedGlyphs, text_openingGlyphs, hbrace, Glyph.text_append,
    Entry.text_listedGlyphs false hne, hopening]
  simp only [Bool.false_eq_true, if_false, List.nil_append, List.append_assoc]
  rfl

theorem seen_openingGlyphs (others : List Glyph) :
    Glyph.seen 1 true (openingGlyphs ++ others) =
      ⟨.identifier "json", 1, true⟩ :: ⟨.operator ".", 1, false⟩ :: ⟨.identifier "f", 1, false⟩ ::
        ⟨.operator "(", 1, false⟩ :: ⟨.instanceVariable "@x", 1, false⟩ ::
          ⟨.operator ",", 1, false⟩ :: Glyph.seen 1 false others := rfl

theorem allFollow_openingGlyphs {others : List Glyph}
    (h : Glyph.AllFollow false (some (.operator ",")) false others []) :
    Glyph.AllFollow true none true (openingGlyphs ++ others) [] :=
  ⟨(Glyph.fits_word false (by decide) rfl).opens (by decide) (by decide),
    (Glyph.fits_dot rfl).follows (by decide),
    (Glyph.fits_word false (by decide) rfl).follows (by decide),
    Glyph.follows_mark (by decide), Glyph.follows_instanceVariable rfl,
    Glyph.follows_mark (by decide), h⟩

section Entries

variable {entries : List Entry} (hne : entries ≠ []) (hshort : ∀ e ∈ entries, e.value.IsShort)
include hne hshort

theorem allFollow_bareGlyphs : Glyph.AllFollow true none true (bareGlyphs entries) [] :=
  allFollow_openingGlyphs <| Entry.allFollow_listedGlyphs hne hshort (by decide) true rfl
    fun _ => ⟨Glyph.follows_mark (by decide), trivial⟩

theorem allFollow_bracedGlyphs : Glyph.AllFollow true none true (bracedGlyphs entries) [] :=
  allFollow_openingGlyphs ⟨Glyph.follows_mark (by decide),
    Entry.allFollow_listedGlyphs hne hshort (by decide) false rfl fun _ =>
      ⟨Glyph.follows_mark (by decide), Glyph.follows_mark (by decide), trivial⟩⟩

end Entries

theorem allNested_bareGlyphs (entries : List Entry) :
    Glyph.allNested [] (bareGlyphs entries) = .ok [] := by
  have hopening : Glyph.allNested [] (bareGlyphs entries) =
      Glyph.allNested ['('] (Entry.listedGlyphs true entries ++ [.mark false ")"]) := rfl
  rw [hopening, Glyph.allNested_flat (Entry.isFlat_listedGlyphs true entries)]
  rfl

theorem allNested_bracedGlyphs (entries : List Entry) :
    Glyph.allNested [] (bracedGlyphs entries) = .ok [] := by
  have hopening : Glyph.allNested [] (bracedGlyphs entries) = Glyph.allNested ['\x7b', '(']
      (Entry.listedGlyphs false entries ++ [.mark false "\x7d", .mark false ")"]) := rfl
  rw [hopening, Glyph.allNested_flat (Entry.isFlat_listedGlyphs false entries)]
  rfl

/-- A text of one call with arguments in parentheses. -/
theorem Read.ends_statements_call {T : Token → Prop} {F : Faults} {g : Grammar} {inner : List Seen}
    {Args : List Node → Prop}
    (h : Ends T F (arguments g (some ")") false) inner [⟨.newline, 1, false⟩] Args) :
    Ends T F (statements g [] none)
      (⟨.identifier "json", 1, true⟩ :: ⟨.operator ".", 1, false⟩ :: ⟨.identifier "f", 1, false⟩ ::
        ⟨.operator "(", 1, false⟩ :: inner) []
      fun nodes => ∃ n, nodes = [n] ∧ ∃ c, n = .call c ∧
        IsCall (nameAt 1 "json") "f" (some 1) Args c := by
  have hquiet : Seen.quiet [⟨.newline, 1, false⟩] = true := rfl
  refine ends_statements_one (ends_call_statement keywords_json ?_ ?_ hquiet) (List.cons_ne_nil _ _)
  · intro start
    apply ends_callOf_parenthesis h
    intro c hc
    exact (ends_withBlock_none rfl rfl).mono fun _ hn => ⟨c, hn, hc⟩
  · simp

section Entries

variable {entries : List Entry} (hne : entries ≠ []) (hshort : ∀ e ∈ entries, e.value.IsShort)
include hne hshort

theorem read_bracedText :
    ∃ (t : ViewSchema.Template) (n : Node), read (bracedText entries) = .ok t ∧ t.body = [n] ∧
      IsCallWith entries n := by
  have hread := read_of_allFollow (allFollow_bracedGlyphs hne hshort)
    (allNested_bracedGlyphs entries) (F := fun _ _ _ => False)
    (P := fun nodes => ∃ n, nodes = [n] ∧ IsCallWith entries n) fun depth hdepth => ?_
  · rw [text_bracedGlyphs hne] at hread
    rcases hread with ⟨t, ht, n, hbody, hn⟩ | ⟨_, _, _, -, hfalse⟩
    · exact ⟨t, n, ht, hbody, hn⟩
    · exact hfalse.elim
  · have hcount : 3 ≤ (bracedGlyphs entries).length := by
      simp only [bracedGlyphs, openingGlyphs, List.length_append, List.length_cons]
      omega
    obtain ⟨d, rfl⟩ := Nat.exists_eq_add_of_le' (Nat.le_trans hcount hdepth)
    have hseen : Glyph.seen 1 true (bracedGlyphs entries) ++ [⟨.newline, 1, false⟩] =
        ⟨.identifier "json", 1, true⟩ :: ⟨.operator ".", 1, false⟩ ::
          ⟨.identifier "f", 1, false⟩ :: ⟨.operator "(", 1, false⟩ ::
            ⟨.instanceVariable "@x", 1, false⟩ :: ⟨.operator ",", 1, false⟩ ::
              ⟨.operator "\x7b", 1, true⟩ ::
                (Glyph.seen 1 false (Entry.listedGlyphs false entries) ++
                  [⟨.operator "\x7d", 1, false⟩, ⟨.operator ")", 1, false⟩,
                    ⟨.newline, 1, false⟩]) := by
      rw [bracedGlyphs, seen_openingGlyphs, Glyph.seen, Glyph.seen_append, Bool.false_and]
      simp only [List.cons_append, List.append_assoc]
      rfl
    rw [hseen]
    exact Read.ends_statements_call (Read.ends_arguments_hash "@x" hne)

theorem read_bareText :
    ((∀ e ∈ entries, e.key.isQuotedLabel = false) →
      ∃ (t : ViewSchema.Template) (n : Node), read (bareText entries) = .ok t ∧ t.body = [n] ∧
        IsCallWith entries n) ∧
    ((∃ e ∈ entries, e.key.isQuotedLabel) →
      read (bareText entries) = .error (.grammar (.expected ")") (.operator ":") 1)) := by
  have hread := read_of_allFollow (allFollow_bareGlyphs hne hshort) (allNested_bareGlyphs entries)
    (F := fun fault found line => (∃ e ∈ entries, e.key.isQuotedLabel) ∧
      fault = .expected ")" ∧ found = .operator ":" ∧ line = 1)
    (P := fun nodes => ∃ n, nodes = [n] ∧ (∀ e ∈ entries, e.key.isQuotedLabel = false) ∧
      IsCallWith entries n) fun depth hdepth => ?_
  · rw [text_bareGlyphs hne] at hread
    rcases hread with
      ⟨t, ht, n, hbody, hplain, hn⟩ | ⟨_, _, _, herror, ⟨e, he, hkey⟩, rfl, rfl, rfl⟩
    · refine ⟨fun _ => ⟨t, n, ht, hbody, hn⟩, fun ⟨e, he, hkey⟩ => ?_⟩
      rw [hplain e he] at hkey
      cases hkey
    · refine ⟨fun hplain => ?_, fun _ => herror⟩
      rw [hplain e he] at hkey
      cases hkey
  · have hcount : 2 ≤ (bareGlyphs entries).length := by
      simp only [bareGlyphs, openingGlyphs, List.length_append, List.length_cons]
      omega
    obtain ⟨d, rfl⟩ := Nat.exists_eq_add_of_le' (Nat.le_trans hcount hdepth)
    have hseen : Glyph.seen 1 true (bareGlyphs entries) ++ [⟨.newline, 1, false⟩] =
        ⟨.identifier "json", 1, true⟩ :: ⟨.operator ".", 1, false⟩ ::
          ⟨.identifier "f", 1, false⟩ :: ⟨.operator "(", 1, false⟩ ::
            ⟨.instanceVariable "@x", 1, false⟩ :: ⟨.operator ",", 1, false⟩ ::
              (Glyph.seen 1 false (Entry.listedGlyphs true entries) ++
                [⟨.operator ")", 1, false⟩, ⟨.newline, 1, false⟩]) := by
      rw [bareGlyphs, seen_openingGlyphs, Glyph.seen_append, Bool.false_and]
      simp only [List.cons_append, List.append_assoc]
      rfl
    rw [hseen]
    apply (Read.ends_statements_call (Read.ends_arguments_entries "@x" hne
      fun h => ⟨h, rfl, rfl, rfl⟩)).mono
    rintro _ ⟨n, rfl, c, rfl, hc⟩
    obtain ⟨args, hargs, hplain, hlisted⟩ := hc.args
    exact ⟨_, rfl, hplain, c, rfl, hc.mono fun _ h => h.2⟩

end Entries

/-- Entries between braces are read as a hash of them. Without braces they are read as the same
hash unless a key is a text in front of a colon: then the colon is refused. -/
theorem read_entries {entries : List Entry} (hne : entries ≠ [])
    (hshort : ∀ e ∈ entries, e.value.IsShort) :
    (∃ (t : ViewSchema.Template) (n : Node), read (bracedText entries) = .ok t ∧ t.body = [n] ∧
      IsCallWith entries n) ∧
    ((∀ e ∈ entries, e.key.isQuotedLabel = false) →
      ∃ (t : ViewSchema.Template) (n : Node), read (bareText entries) = .ok t ∧ t.body = [n] ∧
        IsCallWith entries n) ∧
    ((∃ e ∈ entries, e.key.isQuotedLabel) →
      read (bareText entries) = .error (.grammar (.expected ")") (.operator ":") 1)) :=
  ⟨read_bracedText hne hshort, read_bareText hne hshort⟩

/-- A label with a negative number, a text with a variable, and a hash that is spread. -/
def mixedEntries : List Entry :=
  [⟨.label ⟨'a', [], Eq.refl true, Eq.refl true⟩,
      .whole ⟨true, '1', [], Eq.refl true, Eq.refl true⟩⟩,
    ⟨.text ⟨true, ['k'], Eq.refl true⟩, .instanceVariable ⟨'b', [], Eq.refl true, Eq.refl true⟩⟩,
    ⟨.spread, .name ⟨⟨'r', [], Eq.refl true, Eq.refl true⟩, Eq.refl false⟩ (Eq.refl false)⟩]

theorem read_entries_mixed :
    (∃ (t : ViewSchema.Template) (n : Node),
      read "json.f(@x, \x7ba: -1, \"k\" => @b, **r\x7d)".toList = .ok t ∧ t.body = [n] ∧
        IsCallWith mixedEntries n) ∧
    ∃ (t : ViewSchema.Template) (n : Node),
      read "json.f(@x, a: -1, \"k\" => @b, **r)".toList = .ok t ∧ t.body = [n] ∧
        IsCallWith mixedEntries n := by
  have hne : mixedEntries ≠ [] := List.cons_ne_nil _ _
  have hshort : ∀ e ∈ mixedEntries, e.value.IsShort := by decide
  exact ⟨(read_entries hne hshort).1, (read_entries hne hshort).2.1 (by decide)⟩

/-- The entry `a` in front of a colon with the value 1. -/
def quotedEntry : Entry :=
  ⟨.quotedLabel ⟨true, ['a'], Eq.refl true⟩,
    .whole ⟨false, '1', [], Eq.refl true, Eq.refl true⟩⟩

/-- An entry that is read between braces only. -/
theorem exists_entries_refused :
    ∃ entries, entries ≠ [] ∧ (∀ e ∈ entries, e.value.IsShort) ∧
      bareText entries = "json.f(@x, \"a\": 1)".toList ∧
      (∀ t, read (bareText entries) ≠ .ok t) ∧ ∃ t, read (bracedText entries) = .ok t := by
  have hrefused : (read (bareText [quotedEntry])).toBool = false := by decide +kernel
  have hread : (read (bracedText [quotedEntry])).toBool = true := by decide +kernel
  refine ⟨[quotedEntry], List.cons_ne_nil _ _, by decide, rfl, ?_, ?_⟩
  · intro t ht
    rw [ht] at hrefused
    cases hrefused
  · cases hfound : read (bracedText [quotedEntry]) with
    | ok t => exact ⟨t, rfl⟩
    | error fault =>
      rw [hfound] at hread
      cases hread

end ViewSchema.Template
