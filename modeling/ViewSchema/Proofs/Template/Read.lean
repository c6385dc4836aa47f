import ViewSchema.Proofs.Template.Ends

/-!
Steps of reading that succeed. A step leads from some tokens to others with a result of some kind
when it does so wherever exactly those tokens come next: it ends there, and no fault is of the kind
that it may end with.
-/

namespace ViewSchema.Template.Read

variable {α β σ : Type}

/-- From the tokens `before` a step leads to the tokens `after`, with a result of a kind. -/
def Leads (p : Read α) (before after : List Seen) (P : α → Prop) : Prop :=
  ∀ (s : Source) (c : Cursor), s.eof.IsEnd → c.tokens.map Token.seen = before →
    ∃ a d, p s c = .ok (a, d) ∧ d.tokens.map Token.seen = after ∧ P a

section Ends

variable {p : Read α} {before after : List Seen} {P : α → Prop}

/-- Where nothing more is known of the tokens, a step that leads somewhere ends there. -/
theorem Leads.ends {F : Faults} (h : Leads p before after P) :
    Ends (fun _ => True) F p before after P := by
  intro s c hc
  obtain ⟨a, d, hrun, hd, ha⟩ := h s c hc.eof hc.seen
  exact .inl ⟨a, d, hrun, ⟨hc.eof, hd, fun _ _ => trivial⟩, ha⟩

theorem Ends.leads (h : Ends (fun _ => True) (fun _ _ _ => False) p before after P) :
    Leads p before after P := by
  intro s c heof hc
  rcases h s c ⟨heof, hc, fun _ _ => trivial⟩ with ⟨a, d, hrun, hd, ha⟩ | ⟨_, _, _, _, hfalse⟩
  · exact ⟨a, d, hrun, hd.seen, ha⟩
  · exact hfalse.elim

end Ends

theorem Leads.mono {p : Read α} {before after : List Seen} {P Q : α → Prop}
    (h : Leads p before after P) (hPQ : ∀ a, P a → Q a) : Leads p before after Q :=
  (h.ends.mono hPQ).leads

theorem Leads.bind {p : Read α} {q : α → Read β} {before middle after : List Seen}
    {P : α → Prop} {Q : β → Prop} (hp : Leads p before middle P)
    (hq : ∀ a, P a → Leads (q a) middle after Q) : Leads (p >>= q) before after Q :=
  (hp.ends.bind fun a ha => (hq a ha).ends).leads

theorem leads_pure (a : α) (tokens : List Seen) : Leads (pure a) tokens tokens (· = a) :=
  (ends_pure a tokens).leads

/-- A last step that only puts a result into another form. -/
theorem Leads.bind_pure {p : Read α} {f : α → β} {before after : List Seen} {P : α → Prop}
    (h : Leads p before after P) :
    Leads (p >>= fun a => pure (f a)) before after fun b => ∃ a, P a ∧ b = f a :=
  h.ends.bind_pure.leads

theorem leads_current (tokens : List Seen) : Leads current tokens tokens (Starts tokens) :=
  (ends_current tokens).leads.mono fun _ h => h.1

theorem leads_advance (t : Seen) (rest : List Seen) :
    Leads advance (t :: rest) rest (Starts (t :: rest)) :=
  (ends_advance t rest).leads.mono fun _ h => h.1

theorem leads_atOperator (ops : List String) (tokens : List Seen) :
    Leads (atOperator ops) tokens tokens (· = (Seen.next tokens).isOneOf ops) :=
  (ends_atOperator ops tokens).leads

section Question

variable {yes no : Read α} {before after : List Seen} {P : α → Prop}

theorem Leads.onNo {question : Read Bool} (hask : Leads question before before (· = false))
    (h : Leads no before after P) :
    Leads (question >>= fun b => if b then yes else no) before after P :=
  (Ends.onNo hask.ends h.ends).leads

theorem Leads.onOperator {ops : List String} (hops : (Seen.next before).isOneOf ops = true)
    (h : Leads yes before after P) :
    Leads (atOperator ops >>= fun b => if b then yes else no) before after P :=
  (Ends.onOperator hops h.ends).leads

theorem Leads.noOperator {ops : List String} (hops : (Seen.next before).isOneOf ops = false)
    (h : Leads no before after P) :
    Leads (atOperator ops >>= fun b => if b then yes else no) before after P :=
  (Ends.noOperator hops h.ends).leads

theorem Leads.onWord {words : List String} (hwords : (Seen.next before).isWordOf words = true)
    (h : Leads yes before after P) :
    Leads (atWord words >>= fun b => if b then yes else no) before after P :=
  (Ends.onWord hwords h.ends).leads

theorem Leads.noWord {words : List String} (hwords : (Seen.next before).isWordOf words = false)
    (h : Leads no before after P) :
    Leads (atWord words >>= fun b => if b then yes else no) before after P :=
  (Ends.noWord hwords h.ends).leads

end Question

theorem leads_expectWord {word : String} {t : Seen} (rest : List Seen)
    (h : t.lexeme.isWordOf [word]) :
    Leads (expectWord word) (t :: rest) rest (Starts (t :: rest)) :=
  (ends_expectWord rest h).leads.mono fun _ ht => ht.1

theorem leads_expectOperator {op : String} {t : Seen} (rest : List Seen)
    (h : t.lexeme.isOneOf [op]) :
    Leads (expectOperator op) (t :: rest) rest (Starts (t :: rest)) :=
  (ends_expectOperator rest h).leads.mono fun _ ht => ht.1

theorem leads_skipBreaks (tokens : List Seen) :
    Leads skipBreaks tokens (breaks tokens) fun _ => True :=
  (ends_skipBreaks tokens).leads

theorem leads_skipNewlines (tokens : List Seen) :
    Leads skipNewlines tokens (tokens.dropWhile fun t => t.lexeme == .newline)
      fun _ => True :=
  (ends_skipNewlines tokens).leads

theorem leads_sourceFrom (start : Nat) (tokens : List Seen) :
    Leads (sourceFrom start) tokens tokens fun _ => True :=
  (ends_sourceFrom start tokens).leads

theorem leads_extentFrom (t : Token) (tokens : List Seen) :
    Leads (extentFrom t) tokens tokens fun e => e.line = some t.line := by
  apply (ends_extentFrom t tokens).leads.mono
  rintro _ ⟨source, rfl⟩
  rfl

section Repeated

variable {step : σ → Read (Turn σ β)} {state : σ} {before middle after : List Seen}
  {Q : σ → Prop} {P : β → Prop}

theorem Leads.finish
    (h : Leads (step state) before after fun turn => ∃ b, turn = .finished b ∧ P b) :
    Leads (repeated step state) before after P :=
  (Ends.finish h.ends).leads

/-- A repeated step that takes a token and goes on. -/
theorem Leads.again
    (hstep : Leads (step state) before middle fun turn => ∃ next, turn = .again next ∧ Q next)
    (hless : middle.length < before.length)
    (hrest : ∀ next, Q next → Leads (repeated step next) middle after P) :
    Leads (repeated step state) before after P :=
  (Ends.again hstep.ends hless fun next hnext => (hrest next hnext).ends).leads

/-- A repeated step that takes a token and goes on, with a step behind the repetition. -/
theorem Leads.again_bind {q : β → Read α} {R : α → Prop}
    (hstep : Leads (step state) before middle fun turn => ∃ next, turn = .again next ∧ Q next)
    (hless : middle.length < before.length)
    (hrest : ∀ next, Q next → Leads (repeated step next >>= q) middle after R) :
    Leads (repeated step state >>= q) before after R :=
  (Ends.again_bind hstep.ends hless fun next hnext => (hrest next hnext).ends).leads

end Repeated

end ViewSchema.Template.Read
