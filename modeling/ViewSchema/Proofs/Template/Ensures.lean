import ViewSchema.Proofs.Template.Read
import ViewSchema.Template.Grammar

/-!
What a step of reading ensures wherever the tokens to come are known by their number only: it ends
with a result and leaves some tokens, or it fails with a fault of grammar, which carries a line.
Steps are put together like the steps of a program. A step that is repeated takes a token on every
turn but the last, so that the turns that a repetition is given are enough.
-/

namespace ViewSchema.Template

/-- How many tokens are to come. -/
def Cursor.left (c : Cursor) : Nat := c.tokens.length

namespace Read

variable {α β σ : Type}

/-- A step ends well with something known of its result and of the place it leads to, or with a
fault of grammar. -/
def Ensures (p : Read α) (c : Cursor) (Q : α → Cursor → Prop) : Prop :=
  ∀ s : Source, s.eof.lexeme = .endOfText →
    (∃ a d, p s c = .ok (a, d) ∧ Q a d) ∨
      ∃ fault found line, p s c = .error (.grammar fault found line)

theorem Ensures.mono {p : Read α} {c : Cursor} {P Q : α → Cursor → Prop} (h : Ensures p c P)
    (hPQ : ∀ a d, P a d → Q a d) : Ensures p c Q := by
  intro s heof
  rcases h s heof with ⟨a, d, hrun, ha⟩ | hfault
  · exact .inl ⟨a, d, hrun, hPQ a d ha⟩
  · exact .inr hfault

theorem Ensures.bind {p : Read α} {q : α → Read β} {c : Cursor} {P : α → Cursor → Prop}
    {Q : β → Cursor → Prop} (hp : Ensures p c P) (hq : ∀ a d, P a d → Ensures (q a) d Q) :
    Ensures (p >>= q) c Q := by
  intro s heof
  have hbind : (p >>= q) s c = (p s c >>= fun r => q r.1 s r.2) := rfl
  rcases hp s heof with ⟨a, d, hrun, ha⟩ | ⟨fault, found, line, hrun⟩
  · rw [hbind, hrun]
    exact hq a d ha s heof
  · rw [hbind, hrun]
    exact .inr ⟨fault, found, line, rfl⟩

theorem ensures_pure {a : α} {c : Cursor} {Q : α → Cursor → Prop} (h : Q a c) :
    Ensures (pure a) c Q :=
  fun _ _ => .inl ⟨a, c, rfl, h⟩

theorem ensures_fail (fault : GrammarFault) (c : Cursor) (Q : α → Cursor → Prop) :
    Ensures (fail fault) c Q :=
  fun _ _ => .inr ⟨_, _, _, rfl⟩

/-- A choice, whichever way it goes. -/
theorem ensures_ite {b : Bool} {yes no : Read α} {c : Cursor} {Q : α → Cursor → Prop}
    (hyes : Ensures yes c Q) (hno : Ensures no c Q) : Ensures (if b then yes else no) c Q := by
  cases b with
  | true => exact hyes
  | false => exact hno

/-- What is known of the token that comes next: it is the first of the list, but at the end. -/
def Comes (t : Token) (c : Cursor) : Prop := t.lexeme ≠ .endOfText → ∃ rest, c.tokens = t :: rest

theorem Comes.left {t : Token} {c : Cursor} (h : Comes t c) (hlexeme : t.lexeme ≠ .endOfText) :
    0 < c.left := by
  obtain ⟨rest, htokens⟩ := h hlexeme
  simp [Cursor.left, htokens]

theorem comes_headD {s : Source} (heof : s.eof.lexeme = .endOfText) (c : Cursor) :
    Comes (c.tokens.headD s.eof) c := by
  intro hlexeme
  cases htokens : c.tokens with
  | nil => simp [htokens, heof] at hlexeme
  | cons t rest => exact ⟨rest, rfl⟩

theorem ensures_current (c : Cursor) : Ensures current c fun t d => c = d ∧ Comes t c :=
  fun _ heof => .inl ⟨_, c, rfl, rfl, comes_headD heof c⟩

theorem ensures_peek (offset : Nat) (c : Cursor) : Ensures (peek offset) c fun _ d => c = d :=
  fun _ _ => .inl ⟨_, c, rfl, rfl⟩

/-- Taking a token leaves one less. At the end nothing is taken. -/
theorem ensures_advance (c : Cursor) :
    Ensures advance c fun t d => d.left = c.left - 1 ∧ Comes t c := by
  intro s heof
  refine .inl ⟨_, _, rfl, ?_, comes_headD heof c⟩
  cases htokens : c.tokens with
  | nil => simp [Cursor.behindNext, Cursor.left, htokens]
  | cons t rest => simp [Cursor.behindNext, Cursor.left, htokens]

/-- A question about the token that comes next: it is answered with yes only before the end. -/
def Asks (question : Read Bool) (c : Cursor) : Prop :=
  Ensures question c fun answer d => c = d ∧ (answer → 0 < c.left)

theorem asks_atOperator (ops : List String) (c : Cursor) : Asks (atOperator ops) c := by
  refine (ensures_current c).bind ?_
  rintro t _ ⟨rfl, hcomes⟩
  refine ensures_pure ⟨rfl, fun hanswer => hcomes.left fun hlexeme => ?_⟩
  rw [hlexeme] at hanswer
  cases hanswer

theorem asks_atWord (words : List String) (c : Cursor) : Asks (atWord words) c := by
  refine (ensures_current c).bind ?_
  rintro t _ ⟨rfl, hcomes⟩
  refine ensures_pure ⟨rfl, fun hanswer => hcomes.left fun hlexeme => ?_⟩
  rw [hlexeme] at hanswer
  cases hanswer

theorem asks_atAttached (op : String) (c : Cursor) : Asks (atAttached op) c := by
  refine (ensures_current c).bind ?_
  rintro t _ ⟨rfl, hcomes⟩
  refine ensures_pure ⟨rfl, fun hanswer => hcomes.left fun hlexeme => ?_⟩
  rw [hlexeme] at hanswer
  cases hanswer

/-- A question decides what is read; behind a yes there is a token to take. -/
theorem Asks.decide {question : Read Bool} {yes no : Read α} {c : Cursor}
    {Q : α → Cursor → Prop} (hasks : Asks question c) (hyes : 0 < c.left → Ensures yes c Q)
    (hno : Ensures no c Q) :
    Ensures (question >>= fun answer => if answer then yes else no) c Q := by
  refine Ensures.bind hasks ?_
  rintro answer _ ⟨rfl, hanswer⟩
  cases answer with
  | true => exact hyes (hanswer rfl)
  | false => exact hno

/-- A token that is asked for is taken. -/
theorem ensures_expectOperator (op : String) (c : Cursor) :
    Ensures (expectOperator op) c fun _ d => d.left < c.left := by
  refine (asks_atOperator [op] c).decide (fun hleft => ?_) (ensures_fail _ _ _)
  refine (ensures_advance c).mono ?_
  rintro t d ⟨hd, -⟩
  omega

theorem ensures_expectWord (word : String) (c : Cursor) :
    Ensures (expectWord word) c fun _ d => d.left < c.left := by
  refine (asks_atWord [word] c).decide (fun hleft => ?_) (ensures_fail _ _ _)
  refine (ensures_advance c).mono ?_
  rintro t d ⟨hd, -⟩
  omega

theorem left_behindBreaks (tokens : List Token) (lastEnd : Nat) :
    (Cursor.behindBreaks tokens lastEnd).left ≤ tokens.length := by
  induction tokens generalizing lastEnd with
  | nil => exact Nat.le_refl _
  | cons t rest ih =>
    rw [Cursor.behindBreaks]
    split
    · exact Nat.le_succ_of_le (ih _)
    · exact Nat.le_succ_of_le (ih _)
    · exact Nat.le_refl _

theorem ensures_skipBreaks (c : Cursor) : Ensures skipBreaks c fun _ d => d.left ≤ c.left :=
  fun _ _ => .inl ⟨(), _, rfl, left_behindBreaks c.tokens c.lastEnd⟩

theorem ensures_skipNewlines (c : Cursor) : Ensures skipNewlines c fun _ d => d.left ≤ c.left :=
  fun _ _ => .inl ⟨(), _, rfl, (List.dropWhile_suffix _).length_le⟩

theorem left_atLineEnd (tokens : List Token) (lastEnd : Nat) :
    (Cursor.atLineEnd tokens lastEnd).left ≤ tokens.length := by
  induction tokens generalizing lastEnd with
  | nil => exact Nat.le_refl _
  | cons t rest ih =>
    rw [Cursor.atLineEnd]
    split
    · exact Nat.le_refl _
    · exact Nat.le_succ_of_le (ih _)

theorem ensures_skipLine (c : Cursor) : Ensures skipLine c fun _ d => d.left ≤ c.left :=
  fun _ _ => .inl ⟨(), _, rfl, left_atLineEnd c.tokens c.lastEnd⟩

/-- In front of something other than a line break there is something to pass over. -/
theorem ensures_skipLine_of_comes {t : Token} {c : Cursor} (h : Comes t c)
    (hlexeme : t.lexeme ≠ .endOfText) (hbreak : t.lexeme ≠ .newline) :
    Ensures skipLine c fun _ d => d.left < c.left := by
  obtain ⟨rest, htokens⟩ := h hlexeme
  have hleft : c.left = rest.length + 1 := by simp [Cursor.left, htokens]
  refine fun _ _ => .inl ⟨(), _, rfl, ?_⟩
  rw [hleft, htokens, Cursor.atLineEnd, if_neg (by simpa using hbreak)]
  exact Nat.lt_succ_of_le (left_atLineEnd rest t.stop)

theorem ensures_sourceFrom (start : Nat) (c : Cursor) :
    Ensures (sourceFrom start) c fun _ d => c = d :=
  fun _ _ => .inl ⟨_, c, rfl, rfl⟩

theorem ensures_extentFrom (t : Token) (c : Cursor) :
    Ensures (extentFrom t) c fun e d => c = d ∧ e.line.isSome := by
  refine (ensures_sourceFrom t.start c).bind ?_
  rintro source _ rfl
  exact ensures_pure ⟨rfl, rfl⟩

theorem ensures_atHash (c : Cursor) : Ensures atHash c fun _ d => c = d := by
  intro s _
  unfold atHash
  split
  · exact .inl ⟨_, c, rfl, rfl⟩
  · dsimp only
    split <;> exact .inl ⟨_, c, rfl, rfl⟩

theorem ensures_atCommandArgument (c : Cursor) :
    Ensures atCommandArgument c fun _ d => c = d := by
  refine (ensures_current c).bind ?_
  rintro t _ ⟨rfl, -⟩
  split
  · exact ensures_pure rfl
  split
  · split
    · exact ensures_pure rfl
    split
    · refine (ensures_peek 1 c).bind ?_
      rintro next _ rfl
      exact ensures_pure rfl
    · exact ensures_pure rfl
  · exact ensures_pure rfl

theorem ensures_atOperandEnd (c : Cursor) : Ensures atOperandEnd c fun _ d => c = d := by
  refine (ensures_current c).bind ?_
  rintro t _ ⟨rfl, -⟩
  split <;> exact ensures_pure rfl

/-- What one turn comes to: going on takes a token and keeps what the repetition goes by. -/
def Turned (c : Cursor) (Inv : σ → Prop) (P : β → Prop) : Turn σ β → Cursor → Prop
  | .again next, d => Inv next ∧ d.left < c.left
  | .finished b, d => P b ∧ d.left ≤ c.left

/-- A repeated step does its part wherever few enough tokens are to come. -/
def TurnEnsures (step : σ → Read (Turn σ β)) (bound : Nat) (Inv : σ → Prop) (P : β → Prop) : Prop :=
  ∀ state c, Inv state → c.left ≤ bound → Ensures (step state) c (Turned c Inv P)

theorem ensures_again {c d : Cursor} {Inv : σ → Prop} {P : β → Prop} {next : σ} (h : Inv next)
    (hless : d.left < c.left) : Ensures (pure (.again next)) d (Turned c Inv P) :=
  ensures_pure ⟨h, hless⟩

theorem ensures_finished {c d : Cursor} {Inv : σ → Prop} {P : β → Prop} {b : β} (h : P b)
    (hle : d.left ≤ c.left) : Ensures (pure (.finished b)) d (Turned c Inv P) :=
  ensures_pure ⟨h, hle⟩

theorem ensures_turns {step : σ → Read (Turn σ β)} {Inv : σ → Prop} {P : β → Prop} {bound : Nat}
    (hstep : TurnEnsures step bound Inv P) {count : Nat} {state : σ} {c : Cursor}
    (hstate : Inv state) (hc : c.left ≤ bound) (hcount : c.left < count) :
    Ensures (turns step count state) c fun b d => P b ∧ d.left ≤ c.left := by
  induction count generalizing state c with
  | zero => exact absurd hcount (Nat.not_lt_zero _)
  | succ count ih =>
    refine (hstep state c hstate hc).bind ?_
    rintro turn d hturn
    cases turn with
    | again next =>
      obtain ⟨hnext, hless⟩ := hturn
      refine (ih hnext (by omega) (by omega)).mono ?_
      rintro b e ⟨hb, he⟩
      exact ⟨hb, by omega⟩
    | finished b => exact ensures_pure hturn

/-- The turns that a repetition is given are enough. -/
theorem ensures_repeated {step : σ → Read (Turn σ β)} {Inv : σ → Prop} {P : β → Prop} {c : Cursor}
    {state : σ} (hstep : TurnEnsures step c.left Inv P) (hstate : Inv state) :
    Ensures (repeated step state) c fun b d => P b ∧ d.left ≤ c.left :=
  ensures_turns hstep hstate (Nat.le_refl _) (Nat.lt_succ_self _)

end Read
end ViewSchema.Template
