import ViewSchema.Proofs.Template.Arguments

/-!
The rules for compound statements. The branches of a statement are read one after another, each
with sound nodes, up to the word that ends the statement.
-/

namespace ViewSchema.Template.Read

open Node (AllSound)

variable {g : Grammar} {bound : Nat}

theorem ensures_skipThen (c : Cursor) : Ensures skipThen c fun _ d => d.left ≤ c.left := by
  refine (asks_atWord ["then"] c).bind ?_
  rintro yes _ ⟨rfl, -⟩
  extract_lets join
  split
  · refine (ensures_advance c).bind ?_
    rintro _ d ⟨hd, -⟩
    refine (ensures_skipBreaks d).mono fun _ e he => ?_
    omega
  · exact ensures_skipBreaks c

/-- Every branch holds sound nodes. -/
def BranchesSound (branches : List (List Node)) : Prop := ∀ b ∈ branches, AllSound b

theorem branchesSound_nil : BranchesSound [] := nofun

theorem branchesSound_single {branch : List Node} (h : AllSound branch) : BranchesSound [branch] :=
  List.forall_mem_singleton.mpr h

theorem BranchesSound.cons {branch : List Node} {branches : List (List Node)}
    (hbranch : AllSound branch) (h : BranchesSound branches) : BranchesSound (branch :: branches) :=
  List.forall_mem_cons.mpr ⟨hbranch, h⟩

theorem turns_elsif (hg : g.Works bound) {most : Nat} (hmost : most ≤ bound) :
    TurnEnsures (elsifTurn g) most BranchesSound BranchesSound := by
  intro branches c hbranches hc
  refine (asks_atWord ["elsif"] c).decide (fun hleft => ?_)
    (ensures_finished hbranches (Nat.le_refl _))
  refine (ensures_advance c).bind ?_
  rintro _ d ⟨hd, -⟩
  refine (hg.expression true true d (by omega)).bind ?_
  rintro _ e ⟨-, he⟩
  refine (ensures_skipThen e).bind fun _ f hf => ?_
  refine (hg.statements ["elsif", "else", "end"] none f (by omega)).bind ?_
  rintro body i ⟨hbody, hi⟩
  exact ensures_again (.cons hbody hbranches) (by omega)

theorem ensures_elseBranch (hg : g.Works bound) {branches : List (List Node)}
    (hbranches : BranchesSound branches) {c : Cursor} (hc : c.left ≤ bound) :
    Ensures (elseBranch g branches) c fun b d => BranchesSound b ∧ d.left ≤ c.left := by
  refine (asks_atWord ["else"] c).decide (fun hleft => ?_)
    (ensures_pure ⟨hbranches, Nat.le_refl _⟩)
  refine (ensures_advance c).bind ?_
  rintro _ d ⟨hd, -⟩
  refine (hg.statements ["end"] none d (by omega)).bind ?_
  rintro body e ⟨hbody, he⟩
  exact ensures_pure ⟨.cons hbody hbranches, by omega⟩

theorem ensures_compound (t : Token) (keyword : String) {condition : Option Node}
    (hcondition : ∀ n ∈ condition, n.Sound) {branches : List (List Node)}
    (hbranches : BranchesSound branches) (c : Cursor) :
    (compound t keyword condition branches).ReadsNode c := by
  refine (ensures_expectWord "end" c).bind fun _ d hd => ?_
  refine (ensures_extentFrom t d).bind ?_
  rintro extent _ ⟨rfl, hextent⟩
  refine ensures_pure ⟨.conditional keyword hcondition (fun b hb => ?_) hextent, hd⟩
  exact hbranches b (List.mem_reverse.mp hb)

theorem turns_when (hg : g.Works bound) {most : Nat} (hmost : most ≤ bound) :
    TurnEnsures (whenTurn g) most BranchesSound BranchesSound := by
  intro branches c hbranches hc
  refine (asks_atWord ["when", "in"] c).decide (fun hleft => ?_)
    (ensures_finished hbranches (Nat.le_refl _))
  refine (ensures_advance c).bind ?_
  rintro _ d ⟨hd, -⟩
  refine (reads_arguments hg none true (by omega)).bind ?_
  rintro _ e ⟨-, he⟩
  refine (ensures_skipThen e).bind fun _ f hf => ?_
  refine (hg.statements ["when", "in", "else", "end"] none f (by omega)).bind ?_
  rintro body i ⟨hbody, hi⟩
  exact ensures_again (.cons hbody hbranches) (by omega)

theorem turns_rescue (hg : g.Works bound) {most : Nat} (hmost : most ≤ bound) :
    TurnEnsures (rescueTurn g) most BranchesSound BranchesSound := by
  intro branches c hbranches hc
  refine (asks_atWord ["rescue", "else", "ensure"] c).decide (fun hleft => ?_)
    (ensures_finished hbranches (Nat.le_refl _))
  refine (ensures_advance c).bind ?_
  rintro t d ⟨hd, -⟩
  extract_lets join
  have hjoin : ∀ e : Cursor, e.left ≤ d.left →
      Ensures (join ()) e (Turned c BranchesSound BranchesSound) := by
    intro e he
    refine (hg.statements ["rescue", "else", "ensure", "end"] none e (by omega)).bind ?_
    rintro body f ⟨hbody, hf⟩
    exact ensures_again (.cons hbody hbranches) (by omega)
  split
  · exact (ensures_skipLine d).bind fun _ e he => hjoin e he
  · exact hjoin d (Nat.le_refl _)

section Compound

variable (hg : g.Works bound) {c : Cursor} (hleft : 0 < c.left) (hc : c.left ≤ bound)

include hg hleft hc

theorem reads_ifStatement : (ifStatement g).ReadsNode c := by
  refine (ensures_advance c).bind ?_
  rintro t d ⟨hd, -⟩
  refine (hg.expression true true d (by omega)).bind ?_
  rintro condition e ⟨hcondition, he⟩
  refine (ensures_skipThen e).bind fun _ f hf => ?_
  refine (hg.statements ["elsif", "else", "end"] none f (by omega)).bind ?_
  rintro first i ⟨hfirst, hi⟩
  refine (ensures_repeated (turns_elsif hg (by omega)) (branchesSound_single hfirst)).bind ?_
  rintro branches j ⟨hbranches, hj⟩
  refine (ensures_elseBranch hg hbranches (by omega)).bind ?_
  rintro all k ⟨hall, hk⟩
  refine (ensures_compound t _ (sound_some hcondition) hall k).mono ?_
  rintro n l ⟨hn, hl⟩
  exact ⟨hn, by omega⟩

theorem reads_loopStatement : (loopStatement g).ReadsNode c := by
  refine (ensures_advance c).bind ?_
  rintro t d ⟨hd, -⟩
  refine (hg.expression true true d (by omega)).bind ?_
  rintro condition e ⟨hcondition, he⟩
  refine (asks_atWord ["do"] e).bind ?_
  rintro opens _ ⟨rfl, -⟩
  extract_lets join
  have hjoin : ∀ f : Cursor, f.left < d.left →
      Ensures (join ()) f fun n i => n.Sound ∧ i.left < c.left := by
    intro f hf
    refine (hg.statements ["end"] none f (by omega)).bind ?_
    rintro body i ⟨hbody, hi⟩
    refine (ensures_compound t _ (sound_some hcondition) (branchesSound_single hbody) i).mono ?_
    rintro n j ⟨hn, hj⟩
    exact ⟨hn, by omega⟩
  split
  · refine (ensures_advance e).bind ?_
    rintro _ f ⟨hf, -⟩
    exact hjoin f (by omega)
  · exact hjoin e he

theorem reads_caseStatement : (caseStatement g).ReadsNode c := by
  refine (ensures_advance c).bind ?_
  rintro t d ⟨hd, -⟩
  refine (ensures_current d).bind ?_
  rintro next _ ⟨rfl, -⟩
  extract_lets join
  have hjoin : ∀ (subject : Option Node) (e : Cursor), (∀ n ∈ subject, n.Sound) →
      e.left ≤ d.left → Ensures (join subject) e fun n f => n.Sound ∧ f.left < c.left := by
    intro subject e hsubject he
    refine (ensures_skipBreaks e).bind fun _ f hf => ?_
    refine (ensures_repeated (turns_when hg (by omega)) branchesSound_nil).bind ?_
    rintro branches i ⟨hbranches, hi⟩
    refine (ensures_elseBranch hg hbranches (by omega)).bind ?_
    rintro all j ⟨hall, hj⟩
    refine (ensures_compound t _ hsubject hall j).mono ?_
    rintro n k ⟨hn, hk⟩
    exact ⟨hn, by omega⟩
  split
  · exact hjoin none d sound_none (Nat.le_refl _)
  · refine (hg.expression true false d (by omega)).bind ?_
    rintro subject e ⟨hsubject, he⟩
    exact hjoin (some subject) e (sound_some hsubject) (by omega)

theorem reads_beginStatement : (beginStatement g).ReadsNode c := by
  refine (ensures_advance c).bind ?_
  rintro t d ⟨hd, -⟩
  refine (hg.statements ["rescue", "else", "ensure", "end"] none d (by omega)).bind ?_
  rintro first e ⟨hfirst, he⟩
  refine (ensures_repeated (turns_rescue hg (by omega)) (branchesSound_single hfirst)).bind ?_
  rintro branches f ⟨hbranches, hf⟩
  refine (ensures_compound t _ sound_none hbranches f).mono ?_
  rintro n i ⟨hn, hi⟩
  exact ⟨hn, by omega⟩

end Compound

end ViewSchema.Template.Read
