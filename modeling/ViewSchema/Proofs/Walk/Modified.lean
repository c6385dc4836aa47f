import ViewSchema.Proofs.Template.Modifier
import ViewSchema.Proofs.Walk.Result
import ViewSchema.Proofs.Walk.Transparent

/-!
What trailing modifiers do to the nodes of a statement. A conditional gathers the nodes of what it
wraps. An expression is only walked for blocks and conditionals among its parts, so a modifier that
makes an expression loses the nodes of any other statement, and no later modifier brings them back.
-/

namespace ViewSchema

open Template

/-- The node is walked where it is a part of an expression. -/
def Template.Node.isWalkedPart : Node → Bool
  | .block .. | .conditional .. => true
  | _ => false

namespace Template.Modifier

/-- Modifiers keep the nodes of a statement when each of them makes a conditional, or stands right
behind something that is walked as a part of an expression. -/
def keep (walked : Bool) : List Modifier → Bool
  | [] => true
  | m :: rest => if m.isConditional then keep true rest else walked && keep false rest

/-- The nodes of a statement behind modifiers that keep them: gathered by a conditional. -/
def gathered (mods : List Modifier) (nodes : List Shape) : List Shape :=
  if mods.any isConditional then Shape.addMembers [] nodes else nodes

theorem gathered_of_distinct (mods : List Modifier) {nodes : List Shape}
    (h : (nodes.filterMap Shape.name).Nodup) : gathered mods nodes = nodes := by
  unfold gathered
  split
  · exact Shape.addMembers_of_distinct h
  · rfl

theorem gathered_addMembers (mods : List Modifier) (nodes : List Shape) :
    gathered mods (Shape.addMembers [] nodes) = Shape.addMembers [] nodes :=
  gathered_of_distinct mods (Shape.distinct_addMembers List.nodup_nil)

theorem gathered_nil (mods : List Modifier) : gathered mods [] = [] :=
  gathered_of_distinct mods List.nodup_nil

end Template.Modifier

/-- A change of the result that does nothing to the result there is. -/
theorem Walk.bind_pure_of_result {α : Type} {w : Walk α} {f : α → α}
    (h : ∀ a, w.result = .ok a → f a = a) : (w >>= fun a => pure (f a)) = w := by
  obtain ⟨result, account⟩ := w
  cases result with
  | error failure => rfl
  | ok a =>
    have hsame : f a = a := h a rfl
    change Walk.andThen _ _ = _
    simp only [andThen, hsame]
    exact congrArg (Walk.mk (.ok a)) account.append_nil

namespace Site

variable {site : Site} {includer : Includer}

/-- A conditional of one statement gathers its nodes. -/
theorem silent_conditional_single {keyword : String} {condition : Option Node} {s : Node}
    {extent : Extent} (hmarks : site.comments.marks extent.line = false) :
    (site.statement includer (.conditional keyword condition [[s]] extent)).silent =
      (site.statement includer s).silent >>= fun nodes => pure (Shape.addMembers [] nodes) := by
  rw [statement, hmarks]
  simp only [Site.branches, Walk.silent_bind, Walk.silent_pure, bind_assoc, pure_bind,
    silent_statements_singleton, List.append_nil, Bool.false_eq_true, if_false]

/-- An expression of a statement and a name is walked for the statement or for nothing. -/
theorem statement_expression_name (s : Node) (name : String) (place extent : Extent) :
    site.statement includer (.expression [s, .name name place] extent) =
      if s.isWalkedPart then site.statement includer s else pure [] := by
  rw [statement]
  cases s <;>
    simp only [Site.parts, Node.isWalkedPart, pure_bind, List.append_nil, bind_pure,
      Bool.false_eq_true, if_false, if_true]

/-- The nodes of a statement behind modifiers. The induction is on the modifiers, the first of them
innermost. -/
theorem silent_modified {line : Option Int} {mods : List Modifier} {s n : Node}
    (h : Modified line mods s n) (hmarks : site.comments.marks line = false) :
    (site.statement includer n).silent =
      if Modifier.keep s.isWalkedPart mods then
        (site.statement includer s).silent >>= fun nodes => pure (Modifier.gathered mods nodes)
      else pure [] := by
  induction h with
  | none s =>
    simp only [Modifier.keep, Modifier.gathered, List.any_nil, Bool.false_eq_true, if_false,
      if_true, bind_pure]
  | @more m rest s middle n hfirst _ ih =>
    rw [ih]
    cases hfirst with
    | conditional hkind condition extent hline =>
      have hgathered : ∀ nodes,
          Modifier.gathered (m :: rest) nodes = Shape.addMembers [] nodes := fun nodes => by
        simp only [Modifier.gathered, List.any_cons, hkind, Bool.true_or, if_true]
      rw [silent_conditional_single (hline ▸ hmarks)]
      simp only [Modifier.keep, hkind, if_true, Node.isWalkedPart, bind_assoc, pure_bind,
        Modifier.gathered_addMembers, hgathered]
    | expression hkind name place extent =>
      have hgathered : ∀ nodes,
          Modifier.gathered (m :: rest) nodes = Modifier.gathered rest nodes := fun nodes => by
        simp only [Modifier.gathered, List.any_cons, hkind, Bool.false_or]
      rw [statement_expression_name]
      cases hwalked : s.isWalkedPart with
      | true =>
        simp only [Modifier.keep, hkind, Bool.false_eq_true, if_false, if_true, Bool.true_and,
          Node.isWalkedPart, hgathered]
      | false =>
        simp only [Modifier.keep, hkind, Bool.false_eq_true, if_false, Bool.false_and,
          Walk.silent_pure, pure_bind, Modifier.gathered_nil, ite_self]

/-- A statement with trailing modifiers is read as the statement they are put behind, wrapped by
them. On a line without a marker its nodes are those of that statement exactly as long as each
modifier that makes no conditional stands right behind a block or a conditional; a conditional
gathers them, which changes nothing when their names are distinct. Otherwise nothing is left of the
statement. -/
theorem statement_modified {depth : Nat} {source : Source} {c d : Cursor} {s : Node}
    {mods : List Modifier} {front rest : List Token} (heof : source.eof.IsEnd)
    (hdepth : c.left ≤ depth) (hreaches : Read.Reaches (grammar depth) source c s d)
    (htokens : d.tokens = front ++ rest)
    (hfront : front.map Token.lexeme = mods.flatMap Modifier.lexemes)
    (hrest : Read.stops (rest.map Token.seen))
    (hend : (Seen.next (rest.map Token.seen)).isWordOf modifierWords = false) :
    ∃ n e, Read.statement (grammar depth) source c = .ok (n, e) ∧
      e.tokens.map Token.seen = rest.map Token.seen ∧
      ∀ (site : Site) (includer : Includer),
        site.comments.marks (some ((c.tokens.headD source.eof).line : Int)) = false →
        (site.statement includer n).silent =
            (if Modifier.keep s.isWalkedPart mods then
              (site.statement includer s).silent >>= fun nodes =>
                pure (Modifier.gathered mods nodes)
            else pure []) ∧
          (Modifier.keep s.isWalkedPart mods →
            (∀ nodes, (site.statement includer s).result = .ok nodes →
              (nodes.filterMap Shape.name).Nodup) →
            (site.statement includer n).silent = (site.statement includer s).silent) := by
  have hseen : (front.map Token.seen).map Seen.lexeme = mods.flatMap Modifier.lexemes := by
    rw [← hfront, List.map_map]
    rfl
  obtain ⟨n, e, hrun, he, hmodified⟩ :=
    Read.leads_modifiers (grammar depth) (c.tokens.headD source.eof) s mods hseen hrest hend
      source d heof (by rw [htokens, List.map_append])
  refine ⟨n, e, hreaches.statement (works_grammar depth) heof.1 hdepth hrun, he, ?_⟩
  intro site includer hmarks
  have hsilent := @silent_modified site includer _ _ _ _ hmodified hmarks
  refine ⟨hsilent, fun hkeep hdistinct => ?_⟩
  rw [hsilent, if_pos hkeep]
  exact Walk.bind_pure_of_result fun nodes hnodes =>
    Modifier.gathered_of_distinct mods (hdistinct nodes hnodes)

/-- The reading of a text's first statement as far as it goes without modifiers: the text, where
the statement starts, its node, and the place behind it. -/
def openingStatement (text : String) : Option (Source × Cursor × Node × Cursor) := do
  let scanned ← (scan text.toList).toOption
  let source : Source := { text := text.toList, eof := scanned.eof }
  let c : Cursor := { tokens := scanned.tokens }
  let (s, d) ← (Read.unmodified (grammar scanned.tokens.length) (c.tokens.headD source.eof) source
    c).toOption
  return (source, c, s, d)

theorem reaches_of_openingStatement {text : String} {source : Source} {c d : Cursor} {s : Node}
    (h : openingStatement text = some (source, c, s, d)) :
    Read.Reaches (grammar c.left) source c s d := by
  obtain ⟨scanned, -, h⟩ := Option.bind_eq_some_iff.mp h
  obtain ⟨⟨n, e⟩, hrun, h⟩ := Option.bind_eq_some_iff.mp h
  cases h
  exact .unmodified (Walk.eq_of_toOption hrun)

/-- A title on a condition, with a loop around the condition. -/
def readyTitle : String := "json.title @post.title if ready while shown\n"

def readyTitleModifiers : List Modifier :=
  [⟨"if", "ready", by decide, by decide⟩, ⟨"while", "shown", by decide, by decide⟩]

def bareSite : Site :=
  { path := .ofString "/views/post.json.jbuilder", settings := {}, comments := {} }

/-- The names of the nodes of a statement that includes nothing. -/
def bareNames (s : Node) : Option (List String) :=
  (bareSite.statement (fun _ _ _ => return []) s).result.toOption.map fun nodes =>
    nodes.filterMap Shape.name

theorem marks_bareSite (line : Nat) : bareSite.comments.marks (some (line : Int)) = false := by
  cases line <;> rfl

theorem statement_modified_readyTitle :
    ∃ source c s d n e, openingStatement readyTitle = some (source, c, s, d) ∧
      Read.statement (grammar c.left) source c = .ok (n, e) ∧
      Modifier.keep s.isWalkedPart readyTitleModifiers ∧ bareNames s = some ["title"] ∧
      (bareSite.statement (fun _ _ _ => return []) n).silent =
        (bareSite.statement (fun _ _ _ => return []) s).silent := by
  have hopening : (openingStatement readyTitle).any (fun (source, _, s, d) =>
      source.eof.lexeme == .endOfText && !source.eof.spaced &&
        (d.tokens.take 4).map Token.lexeme == readyTitleModifiers.flatMap Modifier.lexemes &&
        Read.stops ((d.tokens.drop 4).map Token.seen) &&
        !(Seen.next ((d.tokens.drop 4).map Token.seen)).isWordOf modifierWords &&
        Modifier.keep s.isWalkedPart readyTitleModifiers && bareNames s == some ["title"]) := by
    decide +kernel
  obtain ⟨⟨source, c, s, d⟩, hopened, hchecks⟩ := (Option.any_eq_true _ _).mp hopening
  simp only [Bool.and_eq_true, Bool.not_eq_true', beq_iff_eq] at hchecks
  obtain ⟨⟨⟨⟨⟨⟨hlexeme, hspaced⟩, hfront⟩, hrest⟩, hend⟩, hkeep⟩, hnames⟩ := hchecks
  obtain ⟨n, e, hrun, -, hnodes⟩ := statement_modified ⟨hlexeme, hspaced⟩ (Nat.le_refl _)
    (reaches_of_openingStatement hopened) (List.take_append_drop 4 d.tokens).symm hfront hrest hend
  refine ⟨source, c, s, d, n, e, hopened, hrun, hkeep, hnames, ?_⟩
  refine (hnodes bareSite _ (marks_bareSite _)).2 hkeep fun nodes hresult => ?_
  have hdistinct : nodes.filterMap Shape.name = ["title"] := by
    simpa [bareNames, hresult, Except.toOption] using hnames
  rw [hdistinct]
  decide

/-- A title for which there may be a substitute, and the title alone. -/
def rescuedTitle : String := "json.title @post.title rescue untitled\n"

def plainTitle : String := "json.title @post.title\n"

/-- The names of the nodes of a text of one statement. -/
def onlyNames (text : String) : Option (List String) := do
  let template ← (Template.read text.toList).toOption
  match template.body with
  | [n] => bareNames n
  | _ => none

theorem exists_of_onlyNames {text : String} {names : List String}
    (h : onlyNames text = some names) :
    ∃ template n, Template.read text.toList = .ok template ∧ template.body = [n] ∧
      bareNames n = some names := by
  obtain ⟨template, htemplate, h⟩ := Option.bind_eq_some_iff.mp h
  refine ⟨template, ?_⟩
  split at h
  · rename_i n hbody
    exact ⟨n, Walk.eq_of_toOption htemplate, hbody, h⟩
  · cases h

/-- A modifier that makes no conditional loses the property it is put behind. -/
theorem exists_lost_rescuedTitle :
    ∃ (plain rescued : ViewSchema.Template) (s n : Node),
      Template.read plainTitle.toList = .ok plain ∧ plain.body = [s] ∧
      Template.read rescuedTitle.toList = .ok rescued ∧ rescued.body = [n] ∧
      bareNames s = some ["title"] ∧ bareNames n = some [] := by
  have hplain : onlyNames plainTitle = some ["title"] := by decide +kernel
  have hrescued : onlyNames rescuedTitle = some [] := by decide +kernel
  obtain ⟨plain, s, hplain, hs, hkept⟩ := exists_of_onlyNames hplain
  obtain ⟨rescued, n, hrescued, hn, hlost⟩ := exists_of_onlyNames hrescued
  exact ⟨plain, rescued, s, n, hplain, hs, hrescued, hn, hkept, hlost⟩

end Site
end ViewSchema
