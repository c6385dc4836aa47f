import ViewSchema.Proofs.Template.Scan
import ViewSchema.Template.Read

/-!
Steps of reading, by the tokens that come next: how a step ends where exactly some tokens come next
and something more is known of each of them. It ends with a result of a kind in front of other
tokens, or with a fault of a kind; where the tokens stand in the text does not matter. Steps are
put together like the steps of a program, and a text that is read in some cases and refused in
others is followed once for both.
-/

namespace ViewSchema.Template

/-- The end of a text, as scanning leaves it. -/
def Token.IsEnd (t : Token) : Prop := t.lexeme = .endOfText ∧ t.spaced = false

namespace Seen

def next : List Seen → Lexeme
  | [] => .endOfText
  | t :: _ => t.lexeme

def nextSpaced : List Seen → Bool
  | [] => false
  | t :: _ => t.spaced

end Seen

namespace Read

variable {α β σ : Type}

/-- Kinds of faults of grammar, by what is missed, what is found instead, and its line. -/
abbrev Faults := GrammarFault → Lexeme → Nat → Prop

/-- Reading stands in front of some tokens, of each of which something is known. -/
structure Stands (T : Token → Prop) (tokens : List Seen) (s : Source) (c : Cursor) : Prop where
  eof : s.eof.IsEnd
  seen : c.tokens.map Token.seen = tokens
  known : ∀ t ∈ c.tokens, T t

/-- From the tokens `before` a step leads to the tokens `after` with a result of a kind, or it fails
with a fault of a kind. -/
def Ends (T : Token → Prop) (F : Faults) (p : Read α) (before after : List Seen)
    (P : α → Prop) : Prop :=
  ∀ (s : Source) (c : Cursor), Stands T before s c →
    (∃ a d, p s c = .ok (a, d) ∧ Stands T after s d ∧ P a) ∨
      ∃ fault found line, p s c = .error (.grammar fault found line) ∧ F fault found line

variable {T : Token → Prop} {F : Faults}

theorem Stands.mono {U : Token → Prop} {tokens : List Seen} {s : Source} {c : Cursor}
    (h : Stands T tokens s c) (hTU : ∀ t, T t → U t) : Stands U tokens s c :=
  ⟨h.eof, h.seen, fun t ht => hTU t (h.known t ht)⟩

theorem Ends.mono {p : Read α} {before after : List Seen} {P Q : α → Prop}
    (h : Ends T F p before after P) (hPQ : ∀ a, P a → Q a) : Ends T F p before after Q := by
  intro s c hc
  rcases h s c hc with ⟨a, d, hrun, hd, ha⟩ | hfault
  · exact .inl ⟨a, d, hrun, hd, hPQ a ha⟩
  · exact .inr hfault

theorem bind_of_error {p : Read α} {q : α → Read β} {s : Source} {c : Cursor} {fault : Fault}
    (h : p s c = .error fault) : (p >>= q) s c = .error fault := by
  have hbind : (p >>= q) s c = (p s c >>= fun r => q r.1 s r.2) := rfl
  rw [hbind, h]
  rfl

theorem bind_of_ok {p : Read α} {q : α → Read β} {s : Source} {c d : Cursor} {a : α}
    (h : p s c = .ok (a, d)) : (p >>= q) s c = q a s d := by
  have hbind : (p >>= q) s c = (p s c >>= fun r => q r.1 s r.2) := rfl
  rw [hbind, h]
  rfl

theorem Ends.bind {p : Read α} {q : α → Read β} {before middle after : List Seen}
    {P : α → Prop} {Q : β → Prop} (hp : Ends T F p before middle P)
    (hq : ∀ a, P a → Ends T F (q a) middle after Q) : Ends T F (p >>= q) before after Q := by
  intro s c hc
  rcases hp s c hc with ⟨a, d, hrun, hd, ha⟩ | ⟨fault, found, line, hrun, hF⟩
  · rw [bind_of_ok hrun]
    exact hq a ha s d hd
  · exact .inr ⟨fault, found, line, bind_of_error hrun, hF⟩

theorem ends_pure (a : α) (tokens : List Seen) : Ends T F (pure a) tokens tokens (· = a) :=
  fun _ c hc => .inl ⟨a, c, rfl, hc, rfl⟩

theorem Ends.bind_pure {p : Read α} {f : α → β} {before after : List Seen} {P : α → Prop}
    (h : Ends T F p before after P) :
    Ends T F (p >>= fun a => pure (f a)) before after fun b => ∃ a, P a ∧ b = f a :=
  h.bind fun a ha => (ends_pure (f a) after).mono fun _ hb => ⟨a, ha, hb⟩

theorem Stands.exists_cons {t : Seen} {rest : List Seen} {s : Source} {c : Cursor}
    (h : Stands T (t :: rest) s c) :
    ∃ u others, c.tokens = u :: others ∧ u.seen = t ∧ others.map Token.seen = rest :=
  List.map_eq_cons_iff.mp h.seen

/-- Where a step fails at the token that comes next, what would follow does not matter. -/
theorem ends_fail {fault : GrammarFault} {t : Seen} (hF : F fault t.lexeme t.line)
    (rest after : List Seen) (P : α → Prop) : Ends T F (fail fault) (t :: rest) after P := by
  intro s c hc
  obtain ⟨u, others, htokens, rfl, -⟩ := hc.exists_cons
  exact .inr ⟨fault, u.lexeme, u.line, by simp [fail, htokens], hF⟩

/-! ### Tokens and questions -/

/-- What the tokens that come next say of the first of them. -/
def Starts (tokens : List Seen) (t : Token) : Prop :=
  t.lexeme = Seen.next tokens ∧ t.spaced = Seen.nextSpaced tokens ∧
    ∀ first ∈ tokens.head?, t.line = first.line

theorem starts_headD {s : Source} {c : Cursor} {tokens : List Seen} (heof : s.eof.IsEnd)
    (hc : c.tokens.map Token.seen = tokens) : Starts tokens (c.tokens.headD s.eof) := by
  subst hc
  cases c.tokens with
  | nil => exact ⟨heof.1, heof.2, by simp⟩
  | cons t rest => exact ⟨rfl, rfl, by simp [Token.seen]⟩

/-- What is known of a token that comes first. -/
def Opens (T : Token → Prop) (tokens : List Seen) (t : Token) : Prop :=
  Starts tokens t ∧ (tokens ≠ [] → T t)

theorem opens_headD {s : Source} {c : Cursor} {tokens : List Seen} (hc : Stands T tokens s c) :
    Opens T tokens (c.tokens.headD s.eof) := by
  refine ⟨starts_headD hc.eof hc.seen, fun hne => ?_⟩
  cases htokens : c.tokens with
  | nil => exact absurd (hc.seen.symm.trans (by simp [htokens])) hne
  | cons t rest => exact hc.known t (by simp [htokens])

theorem ends_current (tokens : List Seen) : Ends T F current tokens tokens (Opens T tokens) :=
  fun _ c hc => .inl ⟨_, c, rfl, hc, opens_headD hc⟩

theorem ends_advance (t : Seen) (rest : List Seen) :
    Ends T F advance (t :: rest) rest (Opens T (t :: rest)) := by
  intro s c hc
  obtain ⟨u, others, htokens, -, hothers⟩ := hc.exists_cons
  have hbehind : (c.behindNext s.eof).tokens = others := by simp [Cursor.behindNext, htokens]
  have hknown : ∀ t ∈ others, T t := fun t ht =>
    hc.known t (by simpa [htokens] using Or.inr ht)
  exact .inl ⟨_, _, rfl, ⟨hc.eof, by rw [hbehind, hothers], by rwa [hbehind]⟩, opens_headD hc⟩

theorem ends_atOperator (ops : List String) (tokens : List Seen) :
    Ends T F (atOperator ops) tokens tokens (· = (Seen.next tokens).isOneOf ops) := by
  refine (ends_current tokens).bind_pure.mono ?_
  rintro _ ⟨t, ht, rfl⟩
  rw [ht.1.1]

theorem ends_atWord (words : List String) (tokens : List Seen) :
    Ends T F (atWord words) tokens tokens (· = (Seen.next tokens).isWordOf words) := by
  refine (ends_current tokens).bind_pure.mono ?_
  rintro _ ⟨t, ht, rfl⟩
  rw [ht.1.1]

theorem ends_atAttached (op : String) (tokens : List Seen) :
    Ends T F (atAttached op) tokens tokens
      (· = ((Seen.next tokens).isOperator op && !Seen.nextSpaced tokens)) := by
  refine (ends_current tokens).bind_pure.mono ?_
  rintro _ ⟨t, ht, rfl⟩
  rw [ht.1.1, ht.1.2.1]

section Question

variable {question : Read Bool} {yes no : Read α} {before after : List Seen} {P : α → Prop}

/-- A question whose answer is known decides what is read. -/
theorem Ends.ask {answer : Bool} (hask : Ends T F question before before (· = answer))
    (h : Ends T F (if answer then yes else no) before after P) :
    Ends T F (question >>= fun b => if b then yes else no) before after P := by
  refine hask.bind ?_
  rintro _ rfl
  exact h

theorem Ends.onYes (hask : Ends T F question before before (· = true))
    (h : Ends T F yes before after P) :
    Ends T F (question >>= fun b => if b then yes else no) before after P :=
  hask.ask (by simpa using h)

theorem Ends.onNo (hask : Ends T F question before before (· = false))
    (h : Ends T F no before after P) :
    Ends T F (question >>= fun b => if b then yes else no) before after P :=
  hask.ask (by simpa using h)

theorem Ends.onOperator {ops : List String} (hops : (Seen.next before).isOneOf ops = true)
    (h : Ends T F yes before after P) :
    Ends T F (atOperator ops >>= fun b => if b then yes else no) before after P :=
  .onYes (hops ▸ ends_atOperator ops before) h

theorem Ends.noOperator {ops : List String} (hops : (Seen.next before).isOneOf ops = false)
    (h : Ends T F no before after P) :
    Ends T F (atOperator ops >>= fun b => if b then yes else no) before after P :=
  .onNo (hops ▸ ends_atOperator ops before) h

theorem Ends.onWord {words : List String} (hwords : (Seen.next before).isWordOf words = true)
    (h : Ends T F yes before after P) :
    Ends T F (atWord words >>= fun b => if b then yes else no) before after P :=
  .onYes (hwords ▸ ends_atWord words before) h

theorem Ends.noWord {words : List String} (hwords : (Seen.next before).isWordOf words = false)
    (h : Ends T F no before after P) :
    Ends T F (atWord words >>= fun b => if b then yes else no) before after P :=
  .onNo (hwords ▸ ends_atWord words before) h

theorem Ends.noAttached {op : String} (hop : (Seen.next before).isOperator op = false)
    (h : Ends T F no before after P) :
    Ends T F (atAttached op >>= fun b => if b then yes else no) before after P := by
  refine .onNo ?_ h
  have hanswer := ends_atAttached (T := T) (F := F) op before
  rw [hop, Bool.false_and] at hanswer
  exact hanswer

end Question

theorem ends_expectOperator {op : String} {t : Seen} (rest : List Seen)
    (h : t.lexeme.isOneOf [op]) :
    Ends T F (expectOperator op) (t :: rest) rest (Opens T (t :: rest)) :=
  .onOperator h (ends_advance t rest)

theorem ends_expectOperator_other {op : String} {t : Seen}
    (h : t.lexeme.isOneOf [op] = false) (hF : F (.expected op) t.lexeme t.line)
    (rest after : List Seen) (P : Token → Prop) :
    Ends T F (expectOperator op) (t :: rest) after P :=
  .noOperator h (ends_fail hF rest after P)

theorem ends_expectWord {word : String} {t : Seen} (rest : List Seen)
    (h : t.lexeme.isWordOf [word]) :
    Ends T F (expectWord word) (t :: rest) rest (Opens T (t :: rest)) :=
  .onWord h (ends_advance t rest)

/-- Line breaks and semicolons that come next. -/
def breaks (tokens : List Seen) : List Seen :=
  tokens.dropWhile fun t => t.lexeme == .newline || t.lexeme == .operator ";"

theorem breaks_breaks (tokens : List Seen) : breaks (breaks tokens) = breaks tokens := by
  induction tokens with
  | nil => rfl
  | cons t rest ih =>
    unfold breaks at ih ⊢
    rw [List.dropWhile_cons]
    split
    · exact ih
    · rename_i hother
      exact List.dropWhile_cons_of_neg hother

theorem seen_behindBreaks (tokens : List Token) (lastEnd : Nat) :
    (Cursor.behindBreaks tokens lastEnd).tokens.map Token.seen =
      breaks (tokens.map Token.seen) := by
  induction tokens generalizing lastEnd with
  | nil => rfl
  | cons t rest ih =>
    rw [Cursor.behindBreaks]
    split
    · rename_i hnewline
      rw [ih, breaks, breaks, List.map_cons, List.dropWhile_cons_of_pos]
      simp [Token.seen, hnewline]
    · rename_i hsemicolon
      rw [ih, breaks, breaks, List.map_cons, List.dropWhile_cons_of_pos]
      simp [Token.seen, hsemicolon]
    · rename_i hnewline hsemicolon
      rw [breaks, List.map_cons, List.dropWhile_cons_of_neg]
      simpa [Token.seen] using ⟨hnewline, hsemicolon⟩

theorem mem_behindBreaks {tokens : List Token} {lastEnd : Nat} {t : Token}
    (h : t ∈ (Cursor.behindBreaks tokens lastEnd).tokens) : t ∈ tokens := by
  induction tokens generalizing lastEnd with
  | nil => exact h
  | cons u rest ih =>
    rw [Cursor.behindBreaks] at h
    split at h
    · exact List.mem_cons_of_mem _ (ih h)
    · exact List.mem_cons_of_mem _ (ih h)
    · exact h

theorem ends_skipBreaks (tokens : List Seen) :
    Ends T F skipBreaks tokens (breaks tokens) fun _ => True := by
  intro s c hc
  refine .inl ⟨(), _, rfl, ⟨hc.eof, ?_, fun t ht => hc.known t (mem_behindBreaks ht)⟩, trivial⟩
  rw [seen_behindBreaks, hc.seen]

/-- Where no break comes next, none is skipped. -/
theorem ends_skipBreaks_none {tokens : List Seen} (h : breaks tokens = tokens) :
    Ends T F skipBreaks tokens tokens fun _ => True := by
  have hskip := ends_skipBreaks (T := T) (F := F) tokens
  rw [h] at hskip
  exact hskip

theorem ends_skipNewlines (tokens : List Seen) :
    Ends T F skipNewlines tokens (tokens.dropWhile fun t => t.lexeme == .newline)
      fun _ => True := by
  intro s c hc
  refine .inl ⟨(), _, rfl, ⟨hc.eof, ?_, fun t ht => hc.known t ?_⟩, trivial⟩
  · rw [← hc.seen, List.dropWhile_map]
    rfl
  · exact (List.dropWhile_sublist _).mem ht

theorem ends_sourceFrom (start : Nat) (tokens : List Seen) :
    Ends T F (sourceFrom start) tokens tokens fun _ => True :=
  fun _ c hc => .inl ⟨_, c, rfl, hc, trivial⟩

theorem ends_extentFrom (t : Token) (tokens : List Seen) :
    Ends T F (extentFrom t) tokens tokens
      fun e => ∃ source, e = { line := some (t.line : Int), source } := by
  refine (ends_sourceFrom t.start tokens).bind_pure.mono ?_
  rintro _ ⟨source, -, rfl⟩
  exact ⟨source, rfl⟩

/-! ### Repetition -/

theorem turns_again {step : σ → Read (Turn σ β)} {state next : σ} {s : Source} {c d : Cursor}
    (h : step state s c = .ok (.again next, d)) (count : Nat) :
    turns step (count + 1) state s c = turns step count next s d := by
  simp only [turns, bind, ReaderT.bind, StateT.bind, h, Except.bind]

theorem turns_finished {step : σ → Read (Turn σ β)} {state : σ} {s : Source} {c d : Cursor}
    {b : β} (h : step state s c = .ok (.finished b, d)) (count : Nat) :
    turns step (count + 1) state s c = .ok (b, d) := by
  simp only [turns, bind, ReaderT.bind, StateT.bind, h, Except.bind]
  rfl

theorem turns_error {step : σ → Read (Turn σ β)} {state : σ} {s : Source} {c : Cursor}
    {fault : Fault} (h : step state s c = .error fault) (count : Nat) :
    turns step (count + 1) state s c = .error fault := by
  simp only [turns, bind, ReaderT.bind, StateT.bind, h, Except.bind]

theorem turns_mono {step : σ → Read (Turn σ β)} {state : σ} {s : Source} {c : Cursor}
    {found : β × Cursor} {count more : Nat} (hle : count ≤ more)
    (h : turns step count state s c = .ok found) : turns step more state s c = .ok found := by
  induction count generalizing state c more with
  | zero => cases h
  | succ count ih =>
    cases more with
    | zero => omega
    | succ more =>
      cases hrun : step state s c with
      | error fault =>
        rw [turns_error hrun] at h
        cases h
      | ok r =>
        obtain ⟨turn, d⟩ := r
        cases turn with
        | again next =>
          rw [turns_again hrun] at h ⊢
          exact ih (Nat.le_of_succ_le_succ hle) h
        | finished result =>
          rw [turns_finished hrun] at h ⊢
          exact h

/-- The turns behind one that took a token are enough to start over from the tokens left. -/
theorem repeated_again {step : σ → Read (Turn σ β)} {state next : σ} {s : Source} {c d : Cursor}
    {found : β × Cursor} (h : step state s c = .ok (.again next, d))
    (hless : d.tokens.length < c.tokens.length) (hfound : repeated step next s d = .ok found) :
    repeated step state s c = .ok found :=
  (turns_again h c.tokens.length).trans (turns_mono hless hfound)

theorem turns_fault {step : σ → Read (Turn σ β)} {state : σ} {s : Source} {c : Cursor}
    {fault : GrammarFault} {found : Lexeme} {line count more : Nat} (hle : count ≤ more)
    (h : turns step count state s c = .error (.grammar fault found line)) :
    turns step more state s c = .error (.grammar fault found line) := by
  induction count generalizing state c more with
  | zero => cases h
  | succ count ih =>
    obtain ⟨more, rfl⟩ := Nat.exists_eq_add_of_le' (Nat.lt_of_lt_of_le (Nat.succ_pos _) hle)
    cases hrun : step state s c with
    | error other =>
      rw [turns_error hrun] at h ⊢
      exact h
    | ok r =>
      obtain ⟨turn, d⟩ := r
      cases turn with
      | again next =>
        rw [turns_again hrun] at h ⊢
        exact ih (Nat.le_of_succ_le_succ hle) h
      | finished result =>
        rw [turns_finished hrun] at h
        cases h

section Repeated

variable {step : σ → Read (Turn σ β)} {state : σ} {before middle after : List Seen}
  {Q : σ → Prop} {P : β → Prop}

theorem Ends.finish
    (h : Ends T F (step state) before after fun turn => ∃ b, turn = .finished b ∧ P b) :
    Ends T F (repeated step state) before after P := by
  intro s c hc
  rcases h s c hc with ⟨_, d, hrun, hd, b, rfl, hb⟩ | ⟨fault, found, line, hrun, hF⟩
  · exact .inl ⟨b, d, turns_finished hrun c.tokens.length, hd, hb⟩
  · exact .inr ⟨fault, found, line, turns_error hrun c.tokens.length, hF⟩

/-! A repeated step that takes a token and goes on, unless it fails. -/

variable
  (hstep : Ends T F (step state) before middle fun turn => ∃ next, turn = .again next ∧ Q next)
  (hless : middle.length < before.length)
include hstep hless

theorem Ends.exists_again {s : Source} {c : Cursor} (hc : Stands T before s c) :
    (∃ next d, step state s c = .ok (.again next, d) ∧ Stands T middle s d ∧
      d.tokens.length < c.tokens.length ∧ Q next) ∨
    ∃ fault found line, repeated step state s c = .error (.grammar fault found line) ∧
      F fault found line := by
  rcases hstep s c hc with ⟨_, d, hrun, hd, next, rfl, hnext⟩ | ⟨fault, found, line, hrun, hF⟩
  · refine .inl ⟨next, d, hrun, hd, ?_, hnext⟩
    have hbefore := congrArg List.length hc.seen
    have hmiddle := congrArg List.length hd.seen
    simp only [List.length_map] at hbefore hmiddle
    omega
  · exact .inr ⟨fault, found, line, turns_error hrun c.tokens.length, hF⟩

theorem Ends.again
    (hrest : ∀ next, Q next → Ends T F (repeated step next) middle after P) :
    Ends T F (repeated step state) before after P := by
  intro s c hc
  rcases hstep.exists_again hless hc with ⟨next, d, hrun, hd, hfewer, hnext⟩ | hfault
  · rcases hrest next hnext s d hd with ⟨b, e, hrest, he, hb⟩ | ⟨fault, found, line, hrest, hF⟩
    · exact .inl ⟨b, e, repeated_again hrun hfewer hrest, he, hb⟩
    · refine .inr ⟨fault, found, line, ?_, hF⟩
      exact (turns_again hrun c.tokens.length).trans (turns_fault hfewer hrest)
  · exact .inr hfault

/-- What follows the repetition may depend on how it ends. -/
theorem Ends.again_bind {q : β → Read α} {R : α → Prop}
    (hrest : ∀ next, Q next → Ends T F (repeated step next >>= q) middle after R) :
    Ends T F (repeated step state >>= q) before after R := by
  intro s c hc
  rcases hstep.exists_again hless hc with
    ⟨next, d, hrun, hd, hfewer, hnext⟩ | ⟨fault, found, line, hrun, hF⟩
  · have hbehind := hrest next hnext s d hd
    cases hfound : repeated step next s d with
    | ok r =>
      rwa [bind_of_ok (repeated_again hrun hfewer hfound), ← bind_of_ok (q := q) hfound]
    | error other =>
      rw [bind_of_error hfound] at hbehind
      rcases hbehind with ⟨_, _, hok, -⟩ | ⟨fault, found, line, herror, hF⟩
      · cases hok
      · obtain rfl := Except.error.inj herror
        have hagain := (turns_again hrun c.tokens.length).trans (turns_fault hfewer hfound)
        exact .inr ⟨fault, found, line, bind_of_error hagain, hF⟩
  · exact .inr ⟨fault, found, line, bind_of_error hrun, hF⟩

end Repeated

end Read
end ViewSchema.Template
