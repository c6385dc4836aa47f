import Mathlib.Logic.Relation
import ViewSchema.Proofs.Template.Step

/-!
Runs of scanning. The states that scanning a text reaches split the text into what has been read
and what is to come. A run ends in a state that it reaches, or fails at a step from one.
-/

namespace ViewSchema.Template

namespace Scan

/-- Scanning gets from one state to another by some steps. -/
abbrev Reaches : Scan → Scan → Prop := Relation.ReflTransGen Step

theorem run_of_step {s t : Scan} (h : s.Step t) : s.run = t.run := by
  obtain ⟨first, rest, hs, hnext⟩ := h
  exact run_of_next hs hnext

theorem Reaches.run_eq {s t : Scan} (h : s.Reaches t) : s.run = t.run := by
  induction h with
  | refl => rfl
  | tail _ hstep ih => rw [ih, run_of_step hstep]

theorem Reaches.takes {s t : Scan} (h : s.Reaches t) : ∃ piece, s.Takes t piece := by
  induction h with
  | refl => exact ⟨[], .refl s⟩
  | tail _ hstep ih =>
    obtain ⟨front, hfront⟩ := ih
    obtain ⟨piece, -, hpiece⟩ := hstep.move.takes
    exact ⟨front ++ piece, hfront.trans hpiece⟩

/-- A state that scanning a text reaches: what has been read, backwards, and what is to come make
the text. -/
theorem Reaches.split {text : List Char} {t : Scan} (h : (start text).Reaches t) :
    t.before.reverse ++ t.ahead = text ∧ t.position = t.before.length := by
  obtain ⟨piece, htakes⟩ := h.takes
  have hbefore : t.before = piece.reverse := by simpa [start] using htakes.before
  have hposition : t.position = piece.length := by simpa [start] using htakes.position
  refine ⟨?_, by rw [hposition, hbefore, List.length_reverse]⟩
  rw [hbefore, List.reverse_reverse]
  exact htakes.ahead.symm

theorem Reaches.take_position {text : List Char} {s : Scan} (h : (start text).Reaches s) :
    text.take s.position = s.before.reverse := by
  obtain ⟨hsplit, hposition⟩ := h.split
  rw [← hsplit, hposition, ← List.length_reverse, List.take_left]

theorem Reaches.drop_position {text : List Char} {s : Scan} (h : (start text).Reaches s) :
    text.drop s.position = s.ahead := by
  obtain ⟨hsplit, hposition⟩ := h.split
  rw [← hsplit, hposition, ← List.length_reverse, List.drop_left]

/-- The tokens of a text lie in it. -/
theorem Reaches.spans {text : List Char} {s : Scan} (h : (start text).Reaches s) :
    ∀ t ∈ s.tokens, t.start < t.stop ∧ t.stop ≤ s.position := by
  induction h with
  | refl => exact nofun
  | @tail u v _ hstep ih =>
    obtain ⟨piece, -, htakes⟩ := hstep.move.takes
    have hposition := htakes.position
    have hearlier : ∀ t ∈ u.tokens, t.start < t.stop ∧ t.stop ≤ v.position := by
      intro t ht
      have hspan := ih t ht
      omega
    rcases hstep.move.tokens with hsame | ⟨w, hcons, hstart, hspan, hstop⟩
    · rwa [hsame]
    · rw [hcons]
      exact List.forall_mem_cons.mpr ⟨⟨hspan, Nat.le_of_eq hstop⟩, hearlier⟩

theorem Reaches.lines {text : List Char} {s : Scan} (h : (start text).Reaches s) :
    (∀ c ∈ s.comments, c.1 ≤ s.line) ∧ ∀ l ∈ s.trailing, l ≤ s.line := by
  induction h with
  | refl => exact ⟨nofun, nofun⟩
  | @tail u v _ hstep ih =>
    obtain ⟨hline, hcomments, htrailing⟩ := hstep.move.lines
    refine ⟨fun c hc => ?_, fun l hl => ?_⟩
    · rcases hcomments c hc with hold | hnew
      · exact Nat.le_trans (ih.1 c hold) hline
      · exact hnew ▸ hline
    · rcases htrailing l hl with hold | hnew
      · exact Nat.le_trans (ih.2 l hold) hline
      · exact hnew ▸ hline

/-- Scanning goes no further: the text is used up, or the template ends. -/
def Ends (s : Scan) : Prop :=
  ∀ first rest, s.ahead = first :: rest → s.next first rest = .ok none

theorem run_of_ends {s : Scan} (h : s.Ends) : s.run = .ok s := by
  rw [run]
  split
  · rfl
  · rename_i hs
    split
    · rename_i hnext
      rw [h _ _ hs] at hnext
      cases hnext
    · rfl
    · rename_i hnext
      rw [h _ _ hs] at hnext
      cases hnext

/-- Scanning fails at its next step. -/
def Fails (s : Scan) (fault : Fault) : Prop :=
  ∃ first rest, s.ahead = first :: rest ∧ s.next first rest = .error fault

theorem run_of_fails {s : Scan} {fault : Fault} (h : s.Fails fault) : s.run = .error fault := by
  obtain ⟨first, rest, hs, hnext⟩ := h
  rw [run]
  split
  · rename_i hnil
    rw [hnil] at hs
    cases hs
  · rename_i hcons
    obtain ⟨rfl, rfl⟩ := List.cons.inj (hs.symm.trans hcons)
    split <;> simp_all

/-- Every run comes to an end, well or not. -/
theorem exists_end (s : Scan) :
    (∃ t, s.Reaches t ∧ t.Ends) ∨ ∃ t fault, s.Reaches t ∧ t.Fails fault := by
  induction hlength : s.ahead.length using Nat.strongRecOn generalizing s with
  | ind length ih =>
    subst hlength
    cases hs : s.ahead with
    | nil => exact .inl ⟨s, .refl, fun first rest h => by rw [hs] at h; cases h⟩
    | cons first rest =>
      cases hnext : s.next first rest with
      | error fault => exact .inr ⟨s, fault, .refl, first, rest, hs, hnext⟩
      | ok found =>
        cases found with
        | none =>
          refine .inl ⟨s, .refl, fun first' rest' h => ?_⟩
          obtain ⟨rfl, rfl⟩ := List.cons.inj (hs.symm.trans h)
          exact hnext
        | some t =>
          have hstep : s.Step t := ⟨first, rest, hs, hnext⟩
          rcases ih _ (length_next hs hnext) t rfl with
            ⟨u, hreach, hends⟩ | ⟨u, fault, hreach, hfails⟩
          · exact .inl ⟨u, .head hstep hreach, hends⟩
          · exact .inr ⟨u, fault, .head hstep hreach, hfails⟩

theorem run_eq_ok {s t : Scan} (h : s.run = .ok t) : s.Reaches t ∧ t.Ends := by
  rcases exists_end s with ⟨u, hreach, hends⟩ | ⟨u, fault, hreach, hfails⟩
  · rw [hreach.run_eq, run_of_ends hends] at h
    cases h
    exact ⟨hreach, hends⟩
  · rw [hreach.run_eq, run_of_fails hfails] at h
    cases h

/-- The line break that scanning puts behind the last token. -/
def endBreak (s : Scan) : Token :=
  { lexeme := .newline, line := s.line, start := s.position, stop := s.position }

/-- What scanning has found where it ends. -/
def scanning (s : Scan) : Scanning where
  tokens := (s.endBreak :: s.tokens).reverse
  eof := { s.endBreak with lexeme := .endOfText }
  comments := s.comments.reverse
  trailing := s.trailing.reverse

theorem finish_eq (s : Scan) :
    s.finish =
      match s.brackets with
      | c :: _ => .error (.scan (.unclosed c) s.line)
      | [] => .ok s.scanning := rfl

end Scan

theorem scan_of_reaches {text : List Char} {s : Scan} (h : (Scan.start text).Reaches s) :
    scan text = s.run >>= Scan.finish := by
  rw [scan, h.run_eq]

theorem scan_eq_ok {text : List Char} {r : Scanning} (h : scan text = .ok r) :
    ∃ t, (Scan.start text).Reaches t ∧ t.Ends ∧ t.brackets = [] ∧ r = t.scanning := by
  unfold scan at h
  cases hrun : (Scan.start text).run with
  | error fault =>
    rw [hrun] at h
    cases h
  | ok t =>
    obtain ⟨hreach, hends⟩ := Scan.run_eq_ok hrun
    rw [hrun] at h
    change t.finish = .ok r at h
    rw [Scan.finish_eq] at h
    split at h
    · cases h
    · rename_i hclosed
      cases h
      exact ⟨t, hreach, hends, hclosed, rfl⟩

end ViewSchema.Template
