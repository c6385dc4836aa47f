import ViewSchema.Proofs.Template.Phrase
import ViewSchema.Proofs.Template.Rules

/-!
Statements with trailing modifiers. A statement is first read without its modifiers; each of them
then wraps what has been read so far, in a conditional or in an expression.
-/

namespace ViewSchema.Template

def modifierWords : List String := ["if", "unless", "while", "until", "rescue"]

/-- A trailing modifier with a name as its condition. -/
structure Modifier where
  keyword : String
  condition : String
  isModifier : keyword ∈ modifierWords
  isName : keywords.contains condition = false

namespace Modifier

/-- The modifier makes a conditional. -/
def isConditional (m : Modifier) : Bool := ["if", "unless"].contains m.keyword

def lexemes (m : Modifier) : List Lexeme := [.identifier m.keyword, .identifier m.condition]

/-- The node that a modifier makes of another, in a statement that opens on a line. -/
inductive Wraps (line : Option Int) (m : Modifier) (s : Node) : Node → Prop where
  | conditional (hkind : m.isConditional = true) (condition : Node) (extent : Extent)
      (hline : extent.line = line) :
      Wraps line m s (.conditional m.keyword (some condition) [[s]] extent)
  | expression (hkind : m.isConditional = false) (name : String) (place extent : Extent) :
      Wraps line m s (.expression [s, .name name place] extent)

end Modifier

/-- The node that modifiers make of another, one after the other. -/
inductive Modified (line : Option Int) : List Modifier → Node → Node → Prop where
  | none (s : Node) : Modified line [] s s
  | more {m : Modifier} {rest : List Modifier} {s middle n : Node} (hfirst : m.Wraps line s middle)
      (hrest : Modified line rest middle n) : Modified line (m :: rest) s n

namespace Read

variable (g : Grammar)

theorem stops_modifier {m : Modifier} {t : Seen} (ht : t.lexeme = .identifier m.keyword)
    (rest : List Seen) : stops (t :: rest) := by
  have hword : ∀ word ∈ modifierWords,
      (nonArgumentWords.contains word && !goingOnWords.contains word) = true := by decide
  simp only [stops, Seen.next, ht]
  exact hword _ m.isModifier

theorem leads_modifierTurn (t : Token) (s : Node) (m : Modifier) {first second : Seen}
    {rest : List Seen} (hfirst : first.lexeme = .identifier m.keyword)
    (hsecond : second.lexeme = .identifier m.condition) (hrest : stops rest) :
    Leads (modifierTurn g t s) (first :: second :: rest) rest
      fun turn => ∃ n, turn = .again n ∧ m.Wraps (some (t.line : Int)) s n := by
  have hnext : (Seen.next (first :: second :: rest)).isWordOf modifierWords = true := by
    simp only [Seen.next, hfirst, Lexeme.isWordOf]
    exact List.contains_iff_mem.mpr m.isModifier
  have hcondition : Leads (expression g true false) (second :: rest) rest
      (· = nameAt second.line m.condition) := by
    obtain ⟨lexeme, line, spaced⟩ := second
    obtain rfl : lexeme = _ := hsecond
    exact leads_expression_name g m.isName false line spaced rest hrest
  apply Leads.onWord hnext
  apply (leads_advance _ _).bind
  intro keyword hkeyword
  have hlexeme : keyword.lexeme = .identifier m.keyword := hkeyword.1.trans hfirst
  apply hcondition.bind
  rintro condition rfl
  have hkind : keyword.lexeme.isWordOf ["if", "unless"] = m.isConditional := by
    rw [hlexeme]
    rfl
  have hwritten : keyword.lexeme.written = m.keyword := by
    rw [hlexeme]
    rfl
  rw [hkind, hwritten]
  cases hconditional : m.isConditional with
  | true =>
    apply (leads_extentFrom t rest).bind_pure.mono
    rintro _ ⟨extent, hline, rfl⟩
    exact ⟨_, rfl, .conditional hconditional _ extent hline⟩
  | false =>
    apply (leads_extentFrom t rest).bind_pure.mono
    rintro _ ⟨extent, -, rfl⟩
    exact ⟨_, rfl, .expression hconditional _ _ extent⟩

/-- The modifiers behind a node wrap it one after the other. The induction is on the modifiers. -/
theorem leads_modifiers (t : Token) (s : Node) (mods : List Modifier) {front rest : List Seen}
    (hfront : front.map Seen.lexeme = mods.flatMap Modifier.lexemes) (hrest : stops rest)
    (hend : (Seen.next rest).isWordOf modifierWords = false) :
    Leads (repeated (modifierTurn g t) s) (front ++ rest) rest
      (Modified (some (t.line : Int)) mods s) := by
  induction mods generalizing s front with
  | nil =>
    obtain rfl : front = [] := List.map_eq_nil_iff.mp hfront
    apply Leads.finish
    apply Leads.noWord hend
    exact (leads_pure _ rest).mono fun _ hturn => ⟨s, hturn, .none s⟩
  | cons m others ih =>
    obtain ⟨first, tail, rfl, hfirst, htail⟩ := List.map_eq_cons_iff.mp hfront
    obtain ⟨second, tail, rfl, hsecond, htail⟩ := List.map_eq_cons_iff.mp htail
    have hstops : stops (tail ++ rest) := by
      cases others with
      | nil =>
        obtain rfl : tail = [] := List.map_eq_nil_iff.mp htail
        exact hrest
      | cons next more =>
        obtain ⟨third, tail, rfl, hthird, -⟩ := List.map_eq_cons_iff.mp htail
        exact stops_modifier hthird _
    apply Leads.again (leads_modifierTurn g t s m hfirst hsecond hstops)
    · simp only [List.length_cons]
      omega
    · intro middle hmiddle
      exact (ih middle htail).mono fun n hn => .more hmiddle hn

/-- A statement without its modifiers. -/
def unmodified (t : Token) : Read Node := do
  let first ← expression g true false
  if ← atOperator [","] then multipleAssignment g t first
  else return first

theorem statement_eq :
    statement g =
      current >>= fun t => unmodified g t >>= fun n => repeated (modifierTurn g t) n := by
  unfold statement unmodified
  simp only [bind_assoc]
  refine bind_congr fun t => bind_congr fun first => bind_congr fun comma => ?_
  cases comma
  · simp only [Bool.false_eq_true, if_false, pure_bind]
  · simp only [if_true]

variable {g} {bound : Nat}

theorem reads_unmodified (hg : g.Works bound) (t : Token) {c : Cursor} (hc : c.left ≤ bound) :
    (unmodified g t).ReadsNode c := by
  refine (reads_expression hg true false hc).bind ?_
  rintro first d ⟨hfirst, hd⟩
  refine (asks_atOperator [","] d).decide (fun _ => ?_) (ensures_pure ⟨hfirst, hd⟩)
  refine (ensures_multipleAssignment hg t hfirst (by omega)).mono ?_
  rintro n e ⟨hn, he⟩
  exact ⟨hn, by omega⟩

/-- What is known of a step that ended well. -/
theorem Ensures.of_ok {α : Type} {p : Read α} {c : Cursor} {Q : α → Cursor → Prop}
    (h : Ensures p c Q) {s : Source} (heof : s.eof.lexeme = .endOfText) {a : α} {d : Cursor}
    (hrun : p s c = .ok (a, d)) : Q a d := by
  rcases h s heof with ⟨a', d', hrun', hQ⟩ | ⟨fault, found, line, hrun'⟩
  · rw [hrun] at hrun'
    obtain ⟨rfl, rfl⟩ := Prod.mk.inj (Except.ok.inj hrun')
    exact hQ
  · rw [hrun] at hrun'
    cases hrun'

/-- Reading of a statement that starts at a cursor has come to a node and to a place behind it. More
modifiers may follow there. -/
inductive Reaches (g : Grammar) (s : Source) (c : Cursor) : Node → Cursor → Prop where
  | unmodified {n : Node} {d : Cursor}
      (hrun : Read.unmodified g (c.tokens.headD s.eof) s c = .ok (n, d)) : Reaches g s c n d
  | modified {n next : Node} {d e : Cursor} (hbefore : Reaches g s c n d)
      (hturn : modifierTurn g (c.tokens.headD s.eof) n s d = .ok (.again next, e)) :
      Reaches g s c next e

variable {s : Source} {c d : Cursor} {n : Node}

theorem Reaches.sound (hg : g.Works bound) (heof : s.eof.lexeme = .endOfText)
    (hc : c.left ≤ bound) (h : Reaches g s c n d) : n.Sound ∧ d.left ≤ c.left := by
  induction h with
  | unmodified hrun =>
    obtain ⟨hn, hd⟩ := (reads_unmodified hg _ hc).of_ok heof hrun
    exact ⟨hn, Nat.le_of_lt hd⟩
  | modified _ hturn ih =>
    obtain ⟨hn, hd⟩ := ih
    obtain ⟨hnext, hless⟩ := (turns_modifier hg _ hc _ _ hn hd).of_ok heof hturn
    exact ⟨hnext, by omega⟩

/-- A statement is read without its modifiers, and then the modifiers are read from there. -/
theorem statement_run (g : Grammar) (s : Source) (c : Cursor) :
    statement g s c = (Read.unmodified g (c.tokens.headD s.eof) s c).bind fun r =>
      repeated (modifierTurn g (c.tokens.headD s.eof)) r.1 s r.2 := by
  rw [statement_eq]
  rfl

/-- The statement goes on with its modifiers from wherever its reading has come to. -/
theorem Reaches.statement (hg : g.Works bound) (heof : s.eof.lexeme = .endOfText)
    (hc : c.left ≤ bound) (h : Reaches g s c n d) {found : Node × Cursor}
    (hfound : repeated (modifierTurn g (c.tokens.headD s.eof)) n s d = .ok found) :
    statement g s c = .ok found := by
  induction h with
  | @unmodified n d hrun =>
    rw [statement_run, hrun]
    exact hfound
  | modified hbefore hturn ih =>
    obtain ⟨hn, hd⟩ := hbefore.sound hg heof hc
    obtain ⟨-, hless⟩ := (turns_modifier hg _ hc _ _ hn hd).of_ok heof hturn
    exact ih (repeated_again hturn hless hfound)

/-- No more modifiers follow only where the statement has been read. -/
theorem eq_of_modifierTurn_finished {t : Token} {b : Node} {e : Cursor}
    (h : modifierTurn g t n s d = .ok (.finished b, e)) : b = n ∧ e = d := by
  unfold modifierTurn at h
  change (if (d.tokens.headD s.eof).lexeme.isWordOf _ then _ else _ : Read _) s d = _ at h
  split at h
  · change ((expression g true false s (d.behindNext s.eof)).bind fun r =>
      (if (d.tokens.headD s.eof).lexeme.isWordOf ["if", "unless"] then _ else _ : Read _) s r.2) =
        _ at h
    cases hcondition : expression g true false s (d.behindNext s.eof) with
    | error fault =>
      rw [hcondition] at h
      cases h
    | ok r =>
      rw [hcondition] at h
      simp only [Except.bind] at h
      split at h <;> cases h
  · cases h
    exact ⟨rfl, rfl⟩

/-- Turns that end well have only gone on with modifiers. The induction is on the turns left. -/
theorem Reaches.of_turns {count : Nat} {m : Node} {e : Cursor} (h : Reaches g s c m e)
    (hturns : turns (modifierTurn g (c.tokens.headD s.eof)) count m s e = .ok (n, d)) :
    Reaches g s c n d := by
  induction count generalizing m e with
  | zero => exact nomatch hturns
  | succ count ih =>
    cases hturn : modifierTurn g (c.tokens.headD s.eof) m s e with
    | error fault =>
      rw [turns_error hturn] at hturns
      cases hturns
    | ok turned =>
      obtain ⟨turn, f⟩ := turned
      cases turn with
      | again next =>
        rw [turns_again hturn] at hturns
        exact ih (.modified h hturn) hturns
      | finished result =>
        rw [turns_finished hturn] at hturns
        obtain ⟨rfl, rfl⟩ := eq_of_modifierTurn_finished hturn
        obtain ⟨rfl, rfl⟩ := Prod.mk.inj (Except.ok.inj hturns)
        exact h

/-- Every statement that is read has been reached. -/
theorem reaches_of_statement (h : statement g s c = .ok (n, d)) : Reaches g s c n d := by
  rw [statement_run] at h
  cases hrun : Read.unmodified g (c.tokens.headD s.eof) s c with
  | error fault =>
    rw [hrun] at h
    cases h
  | ok first =>
    rw [hrun] at h
    exact Reaches.of_turns (.unmodified hrun) h

end Read
end ViewSchema.Template
