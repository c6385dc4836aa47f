import ViewSchema.Proofs.Template.Ensures
import ViewSchema.Proofs.Template.Sound

/-!
The rules for arguments, hashes, blocks and calls: each ends well with sound nodes and fewer tokens
to come, or fails with a fault of grammar. A rule turns to one of the four through which the grammar
refers to itself only when it has taken a token, so the four need to work for fewer tokens only.
-/

namespace ViewSchema.Template

open Node (AllSound allSound_nil PairsSound pairsSound_nil)

namespace Read

/-- A sound node is read, from at least one token. -/
def ReadsNode (p : Read Node) (c : Cursor) : Prop :=
  Ensures p c fun n d => n.Sound ∧ d.left < c.left

/-- Sound nodes are read. -/
def ReadsNodes (p : Read (List Node)) (c : Cursor) : Prop :=
  Ensures p c fun nodes d => AllSound nodes ∧ d.left ≤ c.left

end Read

/-- The four rules work wherever fewer tokens are to come than some number. -/
structure Grammar.Works (g : Grammar) (bound : Nat) : Prop where
  statements : ∀ words op c, c.left < bound → (g.statements words op).ReadsNodes c
  expression : ∀ command noDo c, c.left < bound → (g.expression command noDo).ReadsNode c
  ternary : ∀ command noDo c, c.left < bound → (g.ternary command noDo).ReadsNode c
  unary : ∀ command noDo c, c.left < bound → (g.unary command noDo).ReadsNode c

namespace Read

variable {g : Grammar} {bound : Nat}

theorem reads_argument (hg : g.Works bound) (noDo : Bool) {c : Cursor} (hc : c.left < bound) :
    (argument g noDo).ReadsNode c :=
  (asks_atWord ["not"] c).decide (fun _ => hg.expression false noDo c hc)
    (hg.ternary false noDo c hc)

/-- A node behind a sign or a word that is passed over makes an expression. -/
theorem reads_prefixed (t : Token) {inner : Read Node} {c : Cursor} (hleft : 0 < c.left)
    (hinner : ∀ d : Cursor, d.left < c.left → inner.ReadsNode d) :
    ReadsNode (do
      let _ ← advance
      let node ← inner
      return Node.expression [node] (← extentFrom t)) c := by
  refine (ensures_advance c).bind ?_
  rintro _ d ⟨hd, -⟩
  refine (hinner d (by omega)).bind ?_
  rintro node e ⟨hnode, he⟩
  refine (ensures_extentFrom t e).bind ?_
  rintro extent _ ⟨rfl, hextent⟩
  exact ensures_pure ⟨.expression (AllSound.single hnode) hextent, by omega⟩

theorem asks_atClosing (closing : Option String) (c : Cursor) : Asks (atClosing closing) c := by
  cases closing with
  | none => exact ensures_pure ⟨rfl, nofun⟩
  | some op => exact asks_atOperator [op] c

/-- The arguments and pairs of a list are sound, and where there is a pair the first token of the
first is known. -/
structure ArgumentList.Sound (a : ArgumentList) : Prop where
  args : AllSound a.args
  pairs : PairsSound a.pairs
  opening : a.opening = none → a.pairs = []

theorem ArgumentList.Sound.add {a : ArgumentList} (h : a.Sound) {n : Node} (hn : n.Sound) :
    (a.add n).Sound where
  args := h.args.cons hn
  pairs := h.pairs
  opening := h.opening

theorem ArgumentList.Sound.addPair {a : ArgumentList} (h : a.Sound) (t : Token) {key value : Node}
    (hkey : key.Sound) (hvalue : value.Sound) : (a.addPair t key value).Sound where
  args := h.args
  pairs := .cons hkey hvalue h.pairs
  opening hnone := absurd hnone (by cases h : a.opening <;> simp [ArgumentList.addPair, h])

theorem ensures_listed (hg : g.Works bound) (closing : Option String) (noDo : Bool)
    {a : ArgumentList} (ha : a.Sound) {c : Cursor} (hc : c.left < bound) :
    Ensures (listed g closing noDo a) c fun a' d => a'.Sound ∧ d.left < c.left := by
  refine (ensures_current c).bind ?_
  rintro t _ ⟨rfl, hcomes⟩
  split
  · rename_i hlabel
    have hleft := hcomes.left (by intro h; simp [h, Lexeme.isLabel] at hlabel)
    refine (ensures_advance c).bind ?_
    rintro _ d ⟨hd, -⟩
    refine (ensures_skipBreaks d).bind ?_
    intro _ e he
    refine (asks_atOperator [","] e).bind ?_
    rintro comma _ ⟨rfl, -⟩
    refine (asks_atClosing closing e).bind ?_
    rintro closes _ ⟨rfl, -⟩
    split
    · exact ensures_pure ⟨ha.addPair t (sound_keyOf t) (sound_nameOf t), by omega⟩
    · refine (reads_argument hg noDo (by omega)).bind ?_
      rintro value f ⟨hvalue, hf⟩
      exact ensures_pure ⟨ha.addPair t (sound_keyOf t) hvalue, by omega⟩
  · split
    · rename_i hspread
      have hleft := hcomes.left (by intro h; simp [h, Lexeme.isOperator] at hspread)
      refine (ensures_advance c).bind ?_
      rintro _ d ⟨hd, -⟩
      refine (reads_argument hg noDo (by omega)).bind ?_
      rintro value e ⟨hvalue, he⟩
      exact ensures_pure ⟨ha.addPair t (sound_spreadKey t) hvalue, by omega⟩
    · refine (reads_argument hg noDo hc).bind ?_
      rintro value d ⟨hvalue, hd⟩
      refine (asks_atOperator ["=>"] d).decide (fun _ => ?_) ?_
      · refine (ensures_advance d).bind ?_
        rintro _ e ⟨he, -⟩
        refine (ensures_skipBreaks e).bind ?_
        intro _ f hf
        refine (reads_argument hg noDo (by omega)).bind ?_
        rintro second i ⟨hsecond, hi⟩
        exact ensures_pure ⟨ha.addPair t hvalue hsecond, by omega⟩
      · exact ensures_pure ⟨ha.add hvalue, hd⟩

theorem turns_list (hg : g.Works bound) (closing : Option String) (noDo : Bool)
    {most : Nat} (hmost : most < bound) :
    TurnEnsures (listTurn g closing noDo) most ArgumentList.Sound ArgumentList.Sound := by
  intro a c ha hc
  unfold listTurn
  extract_lets join
  have hjoin : ∀ d : Cursor, d.left ≤ c.left →
      Ensures (join ()) d (Turned c ArgumentList.Sound ArgumentList.Sound) := by
    intro d hd
    refine (asks_atClosing closing d).decide (fun _ => ensures_finished ha hd) ?_
    refine (ensures_listed hg closing noDo ha (by omega)).bind ?_
    rintro a' e ⟨ha', he⟩
    refine (asks_atOperator [","] e).decide (fun _ => ?_) (ensures_finished ha' (by omega))
    refine (ensures_advance e).bind ?_
    rintro _ f ⟨hf, -⟩
    exact ensures_again ha' (by omega)
  split
  · exact (ensures_skipBreaks c).bind fun _ d hd => hjoin d hd
  · exact hjoin c (Nat.le_refl _)

theorem reads_arguments (hg : g.Works bound) (closing : Option String) (noDo : Bool)
    {c : Cursor} (hc : c.left < bound) : (arguments g closing noDo).ReadsNodes c := by
  have hnone : ArgumentList.Sound {} := ⟨allSound_nil, pairsSound_nil, fun _ => rfl⟩
  refine (ensures_repeated (turns_list hg closing _ hc) hnone).bind ?_
  rintro a d ⟨ha, hd⟩
  extract_lets join
  have hjoin : ∀ e : Cursor, e.left ≤ c.left → (join ()).Ensures e fun nodes f =>
      AllSound nodes ∧ f.left ≤ c.left := by
    intro e he
    simp only [join]
    split
    · rename_i t ht
      refine (ensures_extentFrom t e).bind ?_
      rintro extent _ ⟨rfl, hextent⟩
      exact ensures_pure ⟨ha.args.reverse.append (.single (ha.pairs.hash hextent)), he⟩
    · exact ensures_pure ⟨ha.args.reverse, he⟩
  cases closing with
  | none => exact hjoin d hd
  | some op =>
    refine (ensures_skipBreaks d).bind fun _ e he => ?_
    refine (ensures_expectOperator op e).bind fun _ f hf => ?_
    exact hjoin f (by omega)

theorem ensures_hashPair (hg : g.Works bound) {c : Cursor} (hc : c.left < bound) :
    Ensures (hashPair g) c fun p d => p.1.Sound ∧ p.2.Sound ∧ d.left < c.left := by
  refine (ensures_current c).bind ?_
  rintro t _ ⟨rfl, hcomes⟩
  split
  · rename_i hlabel
    have hleft := hcomes.left (by intro h; simp [h, Lexeme.isLabel] at hlabel)
    refine (ensures_advance c).bind ?_
    rintro _ d ⟨hd, -⟩
    refine (ensures_skipBreaks d).bind ?_
    intro _ e he
    refine (asks_atOperator [",", "\x7d"] e).decide (fun _ => ?_) ?_
    · exact ensures_pure ⟨sound_keyOf t, sound_nameOf t, by omega⟩
    · refine (reads_argument hg false (by omega)).bind ?_
      rintro value f ⟨hvalue, hf⟩
      exact ensures_pure ⟨sound_keyOf t, hvalue, by omega⟩
  split
  · rename_i hspread
    have hleft := hcomes.left (by intro h; simp [h, Lexeme.isOperator] at hspread)
    refine (ensures_advance c).bind ?_
    rintro _ d ⟨hd, -⟩
    refine (reads_argument hg false (by omega)).bind ?_
    rintro value e ⟨hvalue, he⟩
    exact ensures_pure ⟨sound_spreadKey t, hvalue, by omega⟩
  · refine (ensures_peek 1 c).bind ?_
    rintro colon _ rfl
    split
    · refine (ensures_advance c).bind ?_
      rintro _ d ⟨hd, -⟩
      refine (ensures_advance d).bind ?_
      rintro _ e ⟨he, -⟩
      refine (reads_argument hg false (by omega)).bind ?_
      rintro value f ⟨hvalue, hf⟩
      exact ensures_pure ⟨sound_keyOf t, hvalue, by omega⟩
    · refine (reads_argument hg false hc).bind ?_
      rintro key d ⟨hkey, hd⟩
      refine (ensures_skipBreaks d).bind fun _ e he => ?_
      refine (ensures_expectOperator "=>" e).bind fun _ f hf => ?_
      refine (ensures_skipBreaks f).bind fun _ i hi => ?_
      refine (reads_argument hg false (by omega)).bind ?_
      rintro value j ⟨hvalue, hj⟩
      exact ensures_pure ⟨hkey, hvalue, by omega⟩

theorem turns_hash (hg : g.Works bound) {most : Nat} (hmost : most < bound) :
    TurnEnsures (hashTurn g) most PairsSound PairsSound := by
  intro pairs c hpairs hc
  refine (ensures_skipBreaks c).bind fun _ d hd => ?_
  refine (asks_atOperator ["\x7d"] d).decide (fun _ => ensures_finished hpairs hd) ?_
  refine (ensures_hashPair hg (by omega)).bind ?_
  rintro ⟨key, value⟩ e ⟨hkey, hvalue, he⟩
  refine (ensures_skipBreaks e).bind fun _ f hf => ?_
  refine (asks_atOperator [","] f).decide (fun _ => ?_) ?_
  · refine (ensures_advance f).bind ?_
    rintro _ i ⟨hi, -⟩
    exact ensures_again (.cons hkey hvalue hpairs) (by omega)
  · exact ensures_finished (.cons hkey hvalue hpairs) (by omega)

theorem reads_hash (hg : g.Works bound) {c : Cursor} (hc : c.left ≤ bound) :
    (hash g).ReadsNode c := by
  refine (ensures_expectOperator "\x7b" c).bind fun t d hd => ?_
  refine (ensures_repeated (turns_hash hg (by omega)) pairsSound_nil).bind ?_
  rintro pairs e ⟨hpairs, he⟩
  refine (ensures_expectOperator "\x7d" e).bind fun _ f hf => ?_
  refine (ensures_extentFrom t f).bind ?_
  rintro extent _ ⟨rfl, hextent⟩
  exact ensures_pure ⟨hpairs.hash hextent, by omega⟩

theorem turns_blockParameter (hg : g.Works bound) {most : Nat} (hmost : most < bound) :
    TurnEnsures (blockParameterTurn g) most (fun _ => True) fun _ => True := by
  intro params c _ hc
  refine (asks_atOperator ["|"] c).decide (fun _ => ?_) ?_
  · refine (ensures_advance c).bind ?_
    rintro _ d ⟨hd, -⟩
    exact ensures_finished trivial (by omega)
  · refine (ensures_advance c).bind ?_
    rintro t d ⟨hd, hcomes⟩
    split
    · exact ensures_fail _ _ _
    · rename_i word hlexeme
      have hleft := hcomes.left (by simp [hlexeme])
      exact ensures_again trivial (by omega)
    · rename_i word hlexeme
      have hleft := hcomes.left (by simp [hlexeme])
      refine (asks_atOperator [",", "|"] d).bind ?_
      rintro ends _ ⟨rfl, -⟩
      extract_lets join
      split
      · refine (hg.ternary false true d (by omega)).bind ?_
        rintro _ e ⟨-, he⟩
        exact ensures_again trivial (by omega)
      · exact ensures_again trivial (by omega)
    · rename_i hlexeme
      have hleft := hcomes.left (by simp [hlexeme])
      refine (hg.ternary false true d (by omega)).bind ?_
      rintro _ e ⟨-, he⟩
      exact ensures_again trivial (by omega)
    · rename_i hend _ _ _
      have hleft := hcomes.left hend
      exact ensures_again trivial (by omega)

theorem ensures_blockParameters (hg : g.Works bound) {c : Cursor} (hc : c.left < bound) :
    Ensures (blockParameters g) c fun _ d => d.left ≤ c.left := by
  refine (ensures_skipNewlines c).bind fun _ d hd => ?_
  refine (asks_atOperator ["||"] d).decide (fun _ => ?_) ?_
  · refine (ensures_advance d).bind ?_
    rintro _ e ⟨he, -⟩
    exact ensures_pure (by omega)
  refine (asks_atOperator ["|"] d).decide (fun _ => ?_) (ensures_pure hd)
  refine (ensures_advance d).bind ?_
  rintro _ e ⟨he, -⟩
  refine (ensures_repeated (turns_blockParameter hg (by omega)) trivial).bind ?_
  rintro params f ⟨-, hf⟩
  exact ensures_pure (by omega)

/-- A call with one more argument. -/
theorem Sound.withArgument {call : Call} (hcall : (Node.call call).Sound) {last : Node}
    (hlast : last.Sound) (source : String) :
    (Node.call { call with
      args := .list (call.args.toList ++ [last])
      extent := { call.extent with source } }).Sound := by
  cases hcall with
  | call method hreceiver hargs hline =>
    exact .call method hreceiver (AllSound.append hargs (.single hlast)) hline

theorem ensures_withBlock (hg : g.Works bound) {call : Call} (hcall : (Node.call call).Sound)
    (start : Nat) (noDo : Bool) {c : Cursor} (hc : c.left ≤ bound) :
    Ensures (withBlock g call start noDo) c fun n d => n.Sound ∧ d.left ≤ c.left := by
  refine (asks_atOperator ["\x7b"] c).decide (fun hleft => ?_) ?_
  · refine (ensures_atHash c).bind ?_
    rintro isHash _ rfl
    split
    · refine (reads_hash hg hc).bind ?_
      rintro last d ⟨hlast, hd⟩
      refine (ensures_sourceFrom start d).bind ?_
      rintro source _ rfl
      exact ensures_pure ⟨Sound.withArgument hcall hlast source, by omega⟩
    · refine (ensures_advance c).bind ?_
      rintro _ d ⟨hd, -⟩
      refine (ensures_blockParameters hg (by omega)).bind fun params e he => ?_
      refine (hg.statements [] (some "\x7d") e (by omega)).bind ?_
      rintro body f ⟨hbody, hf⟩
      refine (ensures_expectOperator "\x7d" f).bind fun _ i hi => ?_
      refine (ensures_sourceFrom start i).bind ?_
      rintro source _ rfl
      exact ensures_pure ⟨.block params hcall hbody hcall.line, by omega⟩
  · refine (asks_atWord ["do"] c).bind ?_
    rintro yes _ ⟨rfl, hyes⟩
    split
    · rename_i hdo
      have hleft := hyes (Bool.and_eq_true_iff.mp hdo).1
      refine (ensures_advance c).bind ?_
      rintro _ d ⟨hd, -⟩
      refine (ensures_blockParameters hg (by omega)).bind fun params e he => ?_
      refine (hg.statements ["end"] none e (by omega)).bind ?_
      rintro body f ⟨hbody, hf⟩
      refine (ensures_expectWord "end" f).bind fun _ i hi => ?_
      refine (ensures_sourceFrom start i).bind ?_
      rintro source _ rfl
      exact ensures_pure ⟨.block params hcall hbody hcall.line, by omega⟩
    · exact ensures_pure ⟨hcall, Nat.le_refl _⟩

/-- A call reads its arguments and its block behind its name. -/
theorem ensures_callOf (hg : g.Works bound) {receiver : Option Node}
    (hreceiver : ∀ n ∈ receiver, n.Sound) (method : String) {line : Option Int}
    (hline : line.isSome) (start : Nat) (command noDo : Bool) {c : Cursor} (hc : c.left < bound) :
    Ensures (callOf g receiver method line start command noDo) c fun n d =>
      n.Sound ∧ d.left ≤ c.left := by
  refine (asks_atAttached "(" c).bind ?_
  rintro opens _ ⟨rfl, -⟩
  refine (ensures_atCommandArgument c).bind ?_
  rintro argument _ rfl
  extract_lets join
  have hjoin : ∀ args d, AllSound args → d.left ≤ c.left →
      Ensures (join args) d fun n e => n.Sound ∧ e.left ≤ c.left := by
    intro args d hargs hd
    refine (ensures_sourceFrom start d).bind ?_
    rintro source _ rfl
    have hcall : (Node.call
        { receiver, method := some method, args := .list args
          extent := { line, source } }).Sound := .call method hreceiver hargs hline
    refine (ensures_withBlock hg hcall start noDo (by omega)).mono ?_
    rintro n e ⟨hn, he⟩
    exact ⟨hn, by omega⟩
  split
  · refine (ensures_advance c).bind ?_
    rintro _ d ⟨hd, -⟩
    refine (reads_arguments hg (some ")") false (by omega)).bind ?_
    rintro args e ⟨hargs, he⟩
    exact hjoin args e hargs (by omega)
  split
  · refine (reads_arguments hg none true hc).bind ?_
    rintro args e ⟨hargs, he⟩
    exact hjoin args e hargs he
  · exact hjoin [] c allSound_nil (Nat.le_refl _)

theorem turns_lambdaParameter (most : Nat) :
    TurnEnsures lambdaParameterTurn most (fun _ => True) fun _ => True := by
  intro params c _ hc
  refine (asks_atOperator [")"] c).decide (fun _ => ?_) ?_
  · refine (ensures_advance c).bind ?_
    rintro _ d ⟨hd, -⟩
    exact ensures_finished trivial (by omega)
  · refine (ensures_advance c).bind ?_
    rintro t d ⟨hd, hcomes⟩
    split
    · exact ensures_fail _ _ _
    · rename_i word hlexeme
      have hleft := hcomes.left (by simp [hlexeme])
      exact ensures_again trivial (by omega)
    · rename_i word hlexeme
      have hleft := hcomes.left (by simp [hlexeme])
      exact ensures_again trivial (by omega)
    · rename_i hend _ _
      have hleft := hcomes.left hend
      exact ensures_again trivial (by omega)

theorem reads_lambda (hg : g.Works bound) {c : Cursor} (hc : c.left ≤ bound) :
    (lambda g).ReadsNode c := by
  refine (ensures_expectOperator "->" c).bind fun t d hd => ?_
  refine (asks_atOperator ["("] d).bind ?_
  rintro opens _ ⟨rfl, -⟩
  extract_lets call join
  have hcall : (Node.call call).Sound := .call "lambda" sound_none allSound_nil rfl
  have hjoin : ∀ (params : List String) (e : Cursor), e.left ≤ d.left →
      Ensures (join params) e fun n f => n.Sound ∧ f.left < c.left := by
    intro params e he
    refine (ensures_withBlock hg hcall t.start false (by omega)).bind ?_
    rintro n f ⟨hn, hf⟩
    split
    · cases hn with
      | block inner hinner hbody hline =>
        exact ensures_pure ⟨.block _ hinner hbody hline, by omega⟩
    · exact ensures_pure ⟨hn, by omega⟩
  split
  · refine (ensures_advance d).bind ?_
    rintro _ e ⟨he, -⟩
    refine (ensures_repeated (turns_lambdaParameter e.left) trivial).bind ?_
    rintro params f ⟨-, hf⟩
    exact hjoin params.reverse f (by omega)
  · exact hjoin [] d (Nat.le_refl _)

end Read

end ViewSchema.Template
