import ViewSchema.Proofs.Template.Operand

/-!
Entries of a hash, as arguments in parentheses and between braces. The two rules read an entry
alike unless its key is a text with a colon behind it: only the rule for braces knows such a key.
Among arguments the text is an argument of its own, and the colon is refused.
-/

namespace ViewSchema.Template

/-- The key of an entry, as it is written in front of its value. -/
inductive Key where
  | label (w : Identifier)
  | quotedLabel (q : QuotedText)
  | symbol (w : Identifier)
  | text (q : QuotedText)
  | spread

namespace Key

def isQuotedLabel : Key → Bool
  | quotedLabel _ => true
  | _ => false

/-- A blank stands between the key and the value. -/
def spaces : Key → Bool
  | spread => false
  | _ => true

def chars : Key → List Char
  | label w => w.chars ++ [':']
  | quotedLabel q => q.chars ++ [':']
  | symbol w => ':' :: w.chars ++ [' ', '=', '>']
  | text q => q.chars ++ [' ', '=', '>']
  | spread => ['*', '*']

/-- The node of a key on a line, without its source text. -/
def node (line : Nat) : Key → Node
  | label w | symbol w => .literal .symbol (.text w.text) false { line := some line, source := "" }
  | quotedLabel q => .literal .symbol (.text q.text) false { line := some line, source := "" }
  | text q => .literal .text (.text q.text) false { line := some line, source := "" }
  | spread => .literal .symbol (.text "**") false { line := some line, source := "" }

def glyphs (gap : Bool) : Key → List Glyph
  | label w => [.label gap w]
  | quotedLabel q => [.quoted gap q, .mark false ":"]
  | symbol w => [.symbol gap w, .mark true "=>"]
  | text q => [.quoted gap q, .mark true "=>"]
  | spread => [.mark gap "**"]

theorem text_glyphs (gap : Bool) (k : Key) :
    Glyph.text (k.glyphs gap) = (if gap then [' '] else []) ++ k.chars := by
  cases k <;> cases gap <;> simp [glyphs, chars, Glyph.text, Glyph.chars, Glyph.label, Glyph.symbol,
    Glyph.quoted, Glyph.mark, Identifier.chars, QuotedText.chars]

theorem isFlat_glyphs (gap : Bool) (k : Key) : ∀ g ∈ k.glyphs gap, g.IsFlat := by
  cases k <;> simp [glyphs, Glyph.IsFlat, Glyph.nested, Glyph.label, Glyph.symbol, Glyph.quoted,
    Glyph.mark, Scan.nested]

end Key

/-- An entry of a hash: its key and its value. -/
structure Entry where
  key : Key
  value : Written

namespace Entry

def chars (e : Entry) : List Char :=
  e.key.chars ++ (if e.key.spaces then [' '] else []) ++ e.value.chars

/-- Entries with a comma and a blank between them. -/
def listed : List Entry → List Char
  | [] => []
  | e :: others => e.chars ++ others.flatMap fun e => ',' :: ' ' :: e.chars

/-- The nodes of an entry on a line, without their source texts. -/
def pair (line : Nat) (e : Entry) : Node × Node := (e.key.node line, e.value.node line)

def glyphs (gap : Bool) (e : Entry) : List Glyph := e.key.glyphs gap ++ e.value.glyphs e.key.spaces

/-- The glyphs of entries behind another one. -/
def followingGlyphs (entries : List Entry) : List Glyph :=
  entries.flatMap fun e => .mark false "," :: e.glyphs true

def listedGlyphs (gap : Bool) : List Entry → List Glyph
  | [] => []
  | e :: others => e.glyphs gap ++ followingGlyphs others

theorem text_glyphs (gap : Bool) (e : Entry) :
    Glyph.text (e.glyphs gap) = (if gap then [' '] else []) ++ e.chars := by
  rw [glyphs, Glyph.text_append, Key.text_glyphs, Written.text_glyphs, chars]
  simp only [List.append_assoc]

theorem text_followingGlyphs (entries : List Entry) :
    Glyph.text (followingGlyphs entries) = entries.flatMap fun e => ',' :: ' ' :: e.chars := by
  have hone : ∀ e : Entry, Glyph.text (.mark false "," :: e.glyphs true) =
      ',' :: ' ' :: e.chars := by
    intro e
    have hcomma : Glyph.text (.mark false "," :: e.glyphs true) =
        ',' :: Glyph.text (e.glyphs true) := rfl
    rw [hcomma, text_glyphs]
    rfl
  rw [followingGlyphs, Glyph.text, List.flatMap_assoc]
  exact congrArg (List.flatMap · entries) (funext hone)

theorem text_listedGlyphs (gap : Bool) {entries : List Entry} (hne : entries ≠ []) :
    Glyph.text (listedGlyphs gap entries) = (if gap then [' '] else []) ++ listed entries := by
  match entries with
  | e :: others =>
    rw [listedGlyphs, Glyph.text_append, text_glyphs, text_followingGlyphs, listed,
      List.append_assoc]

theorem isFlat_glyphs (gap : Bool) (e : Entry) : ∀ g ∈ e.glyphs gap, g.IsFlat := by
  rintro g hg
  rcases List.mem_append.mp hg with hg | hg
  · exact e.key.isFlat_glyphs gap g hg
  · exact e.value.isFlat_glyphs _ g hg

theorem isFlat_listedGlyphs (gap : Bool) (entries : List Entry) :
    ∀ g ∈ listedGlyphs gap entries, g.IsFlat := by
  match entries with
  | [] => simp [listedGlyphs]
  | e :: others =>
    have hcomma : (Glyph.mark false ",").IsFlat := fun _ => rfl
    intro g hg
    rcases List.mem_append.mp hg with hg | hg
    · exact e.isFlat_glyphs gap g hg
    · obtain ⟨other, -, hg⟩ := List.mem_flatMap.mp hg
      rcases List.mem_cons.mp hg with rfl | hg
      · exact hcomma
      · exact other.isFlat_glyphs true g hg

section Scanned

variable {spaced : Bool} {others : List Glyph} {rest : List Char}

/-- A key is scanned behind an operator that closes nothing and in front of its value. -/
theorem allFollow_glyphs {e : Entry} (he : e.value.IsShort) {op : String}
    (hop : op ∈ [",", "\x7b"]) (gap : Bool)
    (hrest : Lexer.endsValue (Glyph.text others ++ rest))
    (hothers : ∀ last, Glyph.AllFollow false last false others rest) :
    Glyph.AllFollow false (some (.operator op)) spaced (e.glyphs gap ++ others) rest := by
  obtain ⟨key, value⟩ := e
  have hvalue : ∀ last gap, Glyph.AllFollow false last false (value.glyphs gap ++ others) rest :=
    fun _ gap => value.allFollow_glyphs he gap hrest hothers
  have hdot : (some (Lexeme.operator op)).any (Lexeme.isOneOf [".", "&."]) = false := by
    have hall : ∀ op ∈ [",", "\x7b"], (Lexeme.operator op).isOneOf [".", "&."] = false := by decide
    exact hall op hop
  have hopen : op ∉ [")", "]", "\x7d"] := by
    have hall : ∀ op ∈ [",", "\x7b"], op ∉ [")", "]", "\x7d"] := by decide
    exact hall op hop
  have hblank : Glyph.text (value.glyphs true ++ others) ++ rest =
      ' ' :: (value.chars ++ Glyph.text others ++ rest) := by
    rw [Glyph.text_append, Written.text_glyphs]
    rfl
  rw [glyphs, List.append_assoc]
  cases key with
  | label w =>
    refine ⟨Glyph.follows_label hdot ?_, hvalue _ true⟩
    show (Glyph.text (value.glyphs true ++ others) ++ rest).head? ≠ some ':'
    simp [hblank]
  | quotedLabel q =>
    refine ⟨Glyph.follows_quoted, ?_, hvalue _ true⟩
    show Glyph.Follows false _ _ _ (Glyph.text (value.glyphs true ++ others) ++ rest)
    rw [hblank]
    exact Glyph.follows_colon
  | symbol w =>
    exact ⟨Glyph.follows_symbol hopen, Glyph.follows_mark (by decide), hvalue _ true⟩
  | text q => exact ⟨Glyph.follows_quoted, Glyph.follows_mark (by decide), hvalue _ true⟩
  | spread =>
    exact ⟨Glyph.follows_mark_of_ends (by decide) (value.endsOperator_glyphs others rest),
      hvalue _ false⟩

theorem allFollow_followingGlyphs {entries : List Entry}
    (hshort : ∀ e ∈ entries, e.value.IsShort)
    (hrest : Lexer.endsValue (Glyph.text others ++ rest))
    (hothers : ∀ last, Glyph.AllFollow false last false others rest) (last : Option Lexeme) :
    Glyph.AllFollow false last false (followingGlyphs entries ++ others) rest := by
  induction entries generalizing last with
  | nil => exact hothers last
  | cons e more ih =>
    have hmore := ih fun e he => hshort e (List.mem_cons_of_mem _ he)
    have hends : Lexer.endsValue (Glyph.text (followingGlyphs more ++ others) ++ rest) := by
      cases more with
      | nil => exact hrest
      | cons => rfl
    have hsplit : followingGlyphs (e :: more) ++ others =
        .mark false "," :: (e.glyphs true ++ (followingGlyphs more ++ others)) := by
      simp [followingGlyphs]
    rw [hsplit]
    exact ⟨Glyph.follows_mark (by decide),
      allFollow_glyphs (hshort e List.mem_cons_self) (by decide) true hends hmore⟩

/-- Entries are scanned behind a comma or an opening brace. -/
theorem allFollow_listedGlyphs {entries : List Entry} (hne : entries ≠ [])
    (hshort : ∀ e ∈ entries, e.value.IsShort) {op : String} (hop : op ∈ [",", "\x7b"]) (gap : Bool)
    (hrest : Lexer.endsValue (Glyph.text others ++ rest))
    (hothers : ∀ last, Glyph.AllFollow false last false others rest) :
    Glyph.AllFollow false (some (.operator op)) spaced
      (listedGlyphs gap entries ++ others) rest := by
  match entries with
  | e :: more =>
    have hends : Lexer.endsValue (Glyph.text (followingGlyphs more ++ others) ++ rest) := by
      cases more with
      | nil => exact hrest
      | cons => rfl
    have hmore : ∀ e ∈ more, e.value.IsShort := fun e he => hshort e (List.mem_cons_of_mem _ he)
    rw [listedGlyphs, List.append_assoc]
    exact allFollow_glyphs (hshort e List.mem_cons_self) hop gap hends
      (allFollow_followingGlyphs hmore hrest hothers)

end Scanned

end Entry

/-- A pair without the source texts of its nodes. -/
def unsourcedPair (pair : Node × Node) : Node × Node := (pair.1.unsourced, pair.2.unsourced)

/-- The lexeme is no line break, and no operator but the given one. -/
def Lexeme.isPlainOr (op : String) : Lexeme → Bool
  | .operator other => other == op
  | .newline => false
  | _ => true

namespace Read

variable {T : Token → Prop} {F : Faults} {g : Grammar} {d line : Nat} {noDo spaced gap : Bool}
  {before middle after : List Seen}

/-! ### One entry -/

theorem isOneOf_of_isPlainOr {l : Lexeme} {op : String} (h : l.isPlainOr op) {ops : List String}
    (hops : op ∉ ops) : l.isOneOf ops = false := by
  cases l with
  | operator other =>
    obtain rfl : other = op := beq_iff_eq.mp h
    simpa [Lexeme.isOneOf] using hops
  | _ => rfl

theorem breaks_of_isPlainOr {tokens : List Seen} {op : String} (h : (Seen.next tokens).isPlainOr op)
    (hop : op ≠ ";") : breaks tokens = tokens := by
  apply breaks_of_next
  · intro hnext
    rw [hnext] at h
    cases h
  · intro hnext
    rw [hnext] at h
    exact hop (beq_iff_eq.mp h).symm

/-- An entry opens with no operator but the one that spreads a hash. -/
theorem isPlainOr_entry (e : Entry) :
    (Seen.next (Glyph.seen line spaced (e.glyphs gap) ++ after)).isPlainOr "**" = true := by
  obtain ⟨key, value⟩ := e
  cases key <;> rfl

theorem isOneOf_entry (e : Entry) {ops : List String} (hops : "**" ∉ ops) :
    (Seen.next (Glyph.seen line spaced (e.glyphs gap) ++ after)).isOneOf ops = false :=
  isOneOf_of_isPlainOr (isPlainOr_entry e) hops

theorem breaks_entry (e : Entry) : breaks (Glyph.seen line spaced (e.glyphs gap) ++ after) =
    Glyph.seen line spaced (e.glyphs gap) ++ after :=
  breaks_of_isPlainOr (isPlainOr_entry e) (by decide)

/-- A value opens with no operator but a sign. -/
theorem isPlainOr_written (v : Written) :
    (Seen.next (Glyph.seen line spaced (v.glyphs gap) ++ after)).isPlainOr "-" = true := by
  cases v with
  | whole n =>
    rw [Written.glyphs, Glyph.whole]
    cases n.negative <;> rfl
  | _ => rfl

theorem breaks_written (v : Written) : breaks (Glyph.seen line spaced (v.glyphs gap) ++ after) =
    Glyph.seen line spaced (v.glyphs gap) ++ after :=
  breaks_of_isPlainOr (isPlainOr_written v) (by decide)

theorem isOneOf_written (v : Written) {ops : List String} (hops : "-" ∉ ops) :
    (Seen.next (Glyph.seen line spaced (v.glyphs gap) ++ after)).isOneOf ops = false :=
  isOneOf_of_isPlainOr (isPlainOr_written v) hops

theorem unsourced_keyOf {l : Lexeme} {t : Token} {rest : List Seen}
    (ht : Opens T (⟨l, line, spaced⟩ :: rest) t) :
    (keyOf t).unsourced =
      .literal .symbol (.text l.written) false { line := some line, source := "" } := by
  rw [keyOf, ht.1.2.2 _ rfl, show t.lexeme = l from ht.1.1]
  rfl

theorem unsourced_spreadKey {l : Lexeme} {t : Token} {rest : List Seen}
    (ht : Opens T (⟨l, line, spaced⟩ :: rest) t) :
    (spreadKey t).unsourced = Key.spread.node line := by
  rw [spreadKey, ht.1.2.2 _ rfl]
  rfl

theorem ends_argument_symbol (w : Identifier) (hafter : closesArgument after) :
    Ends Token.IsStatic F (argument (grammar (d + 2)) noDo)
      (⟨.symbol w.text, line, spaced⟩ :: after) after
      fun n => n.unsourced = (Key.symbol w).node line := by
  have hrests := rests_of_closesArgument hafter
  have hoperand := ends_operand_symbol (T := Token.IsStatic) (F := F) (grammar (d + 1)) false noDo
    w.text line spaced after
  exact ((Ends.unary rfl hoperand (Seen.endsChain_of_rests hrests)).argument rfl hrests).mono
    fun _ h => h.unsourced

section Arrow

variable {first : Lexeme} {key value : Node}

/-- An argument with an arrow behind it is the key of a pair. -/
theorem ends_listed_arrow (a : ArgumentList) (hlabel : first.isLabel = false)
    (hspread : first.isOperator "**" = false) (hbreaks : breaks middle = middle)
    (hkey : Ends T F (argument g noDo) (⟨first, line, spaced⟩ :: before)
      (⟨.operator "=>", line, true⟩ :: middle) fun n => n.unsourced = key)
    (hvalue : Ends T F (argument g noDo) middle after fun n => n.unsourced = value) :
    Ends T F (listed g (some ")") noDo a) (⟨first, line, spaced⟩ :: before) after
      fun b => ∃ t pair, b = a.addPair t pair.1 pair.2 ∧ t.line = line ∧
        unsourcedPair pair = (key, value) := by
  apply (ends_current _).bind
  intro t ht
  have hlexeme : t.lexeme = first := ht.1.1
  rw [hlexeme, hlabel, hspread, if_neg Bool.false_ne_true, if_neg Bool.false_ne_true]
  apply hkey.bind
  intro k hk
  apply Ends.onOperator (by simp [Seen.next, Lexeme.isOneOf])
  apply (ends_advance _ middle).bind
  intro _ _
  apply (ends_skipBreaks_none hbreaks).bind
  intro _ _
  apply hvalue.bind_pure.mono
  rintro _ ⟨v, hv, rfl⟩
  exact ⟨t, (k, v), rfl, ht.1.2.2 _ rfl, Prod.ext hk hv⟩

theorem ends_hashPair_arrow (hlabel : first.isLabel = false)
    (hspread : first.isOperator "**" = false) (hbreaks : breaks middle = middle)
    (hkey : Ends T F (argument g false)
      (⟨first, line, spaced⟩ :: ⟨.operator "=>", line, true⟩ :: middle)
      (⟨.operator "=>", line, true⟩ :: middle) fun n => n.unsourced = key)
    (hvalue : Ends T F (argument g false) middle after fun n => n.unsourced = value) :
    Ends T F (hashPair g) (⟨first, line, spaced⟩ :: ⟨.operator "=>", line, true⟩ :: middle) after
      fun pair => unsourcedPair pair = (key, value) := by
  have harrow : breaks (⟨.operator "=>", line, true⟩ :: middle) =
      ⟨.operator "=>", line, true⟩ :: middle :=
    breaks_of_next (by simp [Seen.next]) (by simp [Seen.next])
  apply (ends_current _).bind
  intro t ht
  have hlexeme : t.lexeme = first := ht.1.1
  rw [hlexeme, hlabel, hspread, if_neg Bool.false_ne_true, if_neg Bool.false_ne_true]
  apply (ends_peek 1 _).bind
  intro colon hcolon
  have hother : colon.lexeme.isOperator ":" = false := by
    rw [show colon.lexeme = .operator "=>" from hcolon.1]
    rfl
  rw [hother, Bool.and_false, Bool.false_and, if_neg Bool.false_ne_true]
  apply hkey.bind
  intro k hk
  apply (ends_skipBreaks_none harrow).bind
  intro _ _
  apply (ends_expectOperator middle (by simp [Lexeme.isOneOf])).bind
  intro _ _
  apply (ends_skipBreaks_none hbreaks).bind
  intro _ _
  apply hvalue.bind_pure.mono
  rintro _ ⟨v, hv, rfl⟩
  exact Prod.ext hk hv

end Arrow

/-- A list of arguments behind another one and the pair of an entry. -/
def IsAdded (line : Nat) (e : Entry) (a b : ArgumentList) : Prop :=
  ∃ t pair, b = a.addPair t pair.1 pair.2 ∧ t.line = line ∧ unsourcedPair pair = e.pair line

/-- Among arguments an entry is added as a pair. -/
theorem ends_listed_entry (e : Entry) (hkey : e.key.isQuotedLabel = false) (a : ArgumentList)
    (hafter : closesArgument after) :
    Ends Token.IsStatic F (listed (grammar (d + 2)) (some ")") noDo a)
      (Glyph.seen line spaced (e.glyphs gap) ++ after) after
      (IsAdded line e a) := by
  obtain ⟨key, value⟩ := e
  have hvalue : ∀ spaced gap, Ends Token.IsStatic F (argument (grammar (d + 2)) noDo)
      (Glyph.seen line spaced (value.glyphs gap) ++ after) after
      fun n => n.unsourced = value.node line := fun _ gap => ends_argument_written value gap hafter
  cases key with
  | label w =>
    apply (ends_current _).bind
    intro t ht
    have hlexeme : t.lexeme = .label w.text := ht.1.1
    rw [hlexeme, Lexeme.isLabel, if_pos rfl]
    apply (ends_advance _ _).bind
    intro _ _
    apply (ends_skipBreaks_none (breaks_written value)).bind
    intro _ _
    apply (ends_atOperator [","] _).bind
    rintro _ rfl
    apply (ends_atOperator [")"] _).bind
    rintro _ rfl
    rw [isOneOf_written value (by decide), isOneOf_written value (by decide), Bool.false_or,
      if_neg Bool.false_ne_true]
    apply (hvalue false true).bind_pure.mono
    rintro _ ⟨v, hv, rfl⟩
    exact ⟨t, (keyOf t, v), rfl, ht.1.2.2 _ rfl, Prod.ext (unsourced_keyOf ht) hv⟩
  | quotedLabel q => cases hkey
  | symbol w =>
    exact ends_listed_arrow a rfl rfl (breaks_written value) (ends_argument_symbol w rfl)
      (hvalue false true)
  | text q =>
    exact ends_listed_arrow a rfl rfl (breaks_written value)
      (ends_argument_written (.text q) gap rfl) (hvalue false true)
  | spread =>
    apply (ends_current _).bind
    intro t ht
    have hlexeme : t.lexeme = .operator "**" := ht.1.1
    rw [hlexeme]
    apply (ends_advance _ _).bind
    intro _ _
    apply (hvalue false false).bind_pure.mono
    rintro _ ⟨v, hv, rfl⟩
    exact ⟨t, (spreadKey t, v), rfl, ht.1.2.2 _ rfl, Prod.ext (unsourced_spreadKey ht) hv⟩

/-- Between braces an entry is read as a pair. -/
theorem ends_hashPair_entry (e : Entry) (hafter : closesArgument after) :
    Ends Token.IsStatic F (hashPair (grammar (d + 2)))
      (Glyph.seen line spaced (e.glyphs gap) ++ after) after
      fun pair => unsourcedPair pair = e.pair line := by
  obtain ⟨key, value⟩ := e
  have hvalue : ∀ spaced gap, Ends Token.IsStatic F (argument (grammar (d + 2)) false)
      (Glyph.seen line spaced (value.glyphs gap) ++ after) after
      fun n => n.unsourced = value.node line := fun _ gap => ends_argument_written value gap hafter
  cases key with
  | label w =>
    apply (ends_current _).bind
    intro t ht
    have hlexeme : t.lexeme = .label w.text := ht.1.1
    rw [hlexeme, Lexeme.isLabel, if_pos rfl]
    apply (ends_advance _ _).bind
    intro _ _
    apply (ends_skipBreaks_none (breaks_written value)).bind
    intro _ _
    apply Ends.noOperator (isOneOf_written value (by decide))
    apply (hvalue false true).bind_pure.mono
    rintro _ ⟨v, hv, rfl⟩
    exact Prod.ext (unsourced_keyOf ht) hv
  | quotedLabel q =>
    apply (ends_current _).bind
    intro t ht
    have hlexeme : t.lexeme = .text q.text := ht.1.1
    rw [hlexeme]
    apply (ends_peek 1 _).bind
    intro colon hcolon
    have hlabel : (Lexeme.isText (.text q.text) && colon.lexeme.isOperator ":" &&
        !colon.spaced) = true := by
      rw [show colon.lexeme = .operator ":" from hcolon.1, show colon.spaced = false from hcolon.2]
      rfl
    rw [hlabel]
    apply (ends_advance _ _).bind
    intro _ _
    apply (ends_advance _ _).bind
    intro _ _
    apply (hvalue false true).bind_pure.mono
    rintro _ ⟨v, hv, rfl⟩
    exact Prod.ext (unsourced_keyOf ht) hv
  | symbol w =>
    exact ends_hashPair_arrow rfl rfl (breaks_written value) (ends_argument_symbol w rfl)
      (hvalue false true)
  | text q =>
    exact ends_hashPair_arrow rfl rfl (breaks_written value)
      (ends_argument_written (.text q) gap rfl) (hvalue false true)
  | spread =>
    apply (ends_current _).bind
    intro t ht
    have hlexeme : t.lexeme = .operator "**" := ht.1.1
    rw [hlexeme]
    apply (ends_advance _ _).bind
    intro _ _
    apply (hvalue false false).bind_pure.mono
    rintro _ ⟨v, hv, rfl⟩
    exact Prod.ext (unsourced_spreadKey ht) hv

end Read

end ViewSchema.Template
