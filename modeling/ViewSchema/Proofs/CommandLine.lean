import ViewSchema.CommandLine

/-!
Arguments in their plain order: switches, then templates whose names do not open with a hyphen. Such
arguments ask for what they spell out.
-/

namespace ViewSchema

namespace Word

theorem of?_operand {text : List Char} (h : text.head? ≠ some '-') :
    of? text = some (.operand (String.ofList text)) := by
  unfold of?
  split
  · simp at h
  · simp at h
  · simp at h
  · rfl

/-- Words that open with something other than a hyphen are operands. -/
theorem ofArguments?_operands {texts : List String} (h : ∀ s ∈ texts, s.toList.head? ≠ some '-') :
    ofArguments? texts = some (texts.map .operand) := by
  induction texts with
  | nil => rfl
  | cons s rest ih =>
    obtain ⟨hs, hrest⟩ := List.forall_mem_cons.mp h
    rw [ofArguments?, of?_operand hs, ih hrest, String.ofList_toList]
    rfl

theorem ofArguments?_switches {a : String} {given : List Switch}
    (h : of? a.toList = some (.switches given)) (rest : List String) :
    ofArguments? (a :: rest) = (ofArguments? rest).map (.switches given :: ·) := by
  rw [ofArguments?, h]

end Word

/-- Operands are templates as long as no switch has closed their run. -/
theorem Draft.foldlM_operands {d : Draft} (h : d.closed = false) (texts : List String) :
    (texts.map Word.operand).foldlM Draft.heed d =
      .ok { d with templates := d.templates ++ texts } := by
  induction texts generalizing d with
  | nil => simp [pure, Except.pure]
  | cons s rest ih =>
    have hheed : d.heed (.operand s) = .ok { d with templates := d.templates ++ [s] } := by
      simp [heed, h]
    rw [List.map_cons, List.foldlM_cons, hheed]
    refine (ih (d := { d with templates := d.templates ++ [s] }) h).trans ?_
    simp

/-- The switches that ask for a mode. -/
def Mode.switches : Mode → List String
  | .response => []
  | .properties => ["--properties"]
  | .stubs => ["--stubs"]
  | .components => ["--components"]

/-- The words of a mode's switches put the mode into a draft. -/
theorem Mode.exists_words (mode : Mode) : ∃ words asked,
    (∀ rest, Word.ofArguments? (mode.switches ++ rest) =
      (Word.ofArguments? rest).map (words ++ ·)) ∧
    (∀ verbose, words.foldlM Draft.heed { verbose } = .ok { mode := asked, verbose }) ∧
    asked.getD .response = mode := by
  have hswitch : ∀ (a : String) (m : Mode), Word.of? a.toList = some (.switches [.only m]) →
      ∀ rest, Word.ofArguments? ([a] ++ rest) =
        (Word.ofArguments? rest).map ([.switches [.only m]] ++ ·) :=
    fun a m h => Word.ofArguments?_switches h
  cases mode with
  | response => exact ⟨[], none, fun rest => by simp [switches], fun _ => rfl, rfl⟩
  | properties => exact ⟨_, some _, hswitch _ _ (by decide +kernel), fun _ => rfl, rfl⟩
  | stubs => exact ⟨_, some _, hswitch _ _ (by decide +kernel), fun _ => rfl, rfl⟩
  | components => exact ⟨_, some _, hswitch _ _ (by decide +kernel), fun _ => rfl, rfl⟩

namespace Request

/-- The switches of a request. -/
def switches (request : Request) : List String :=
  (if request.verbose then ["-v"] else []) ++ request.mode.switches

/-- The arguments of a request: its switches and then its templates. -/
def arguments (request : Request) : List String := request.switches ++ request.templates

/-- The words of the switches leave a draft of the request without its templates. -/
theorem exists_switchWords (request : Request) : ∃ words asked,
    (∀ rest, Word.ofArguments? (request.switches ++ rest) =
      (Word.ofArguments? rest).map (words ++ ·)) ∧
    words.foldlM Draft.heed {} = .ok { mode := asked, verbose := request.verbose } ∧
    asked.getD .response = request.mode := by
  obtain ⟨templates, mode, verbose⟩ := request
  obtain ⟨words, asked, hwords, hdraft, hmode⟩ := mode.exists_words
  cases verbose with
  | false => exact ⟨words, asked, hwords, hdraft false, hmode⟩
  | true =>
    have hverbose : Word.of? "-v".toList = some (.switches [.verbose]) := by decide +kernel
    refine ⟨.switches [.verbose] :: words, asked, ?_, hdraft true, hmode⟩
    intro rest
    change Word.ofArguments? ("-v" :: (mode.switches ++ rest)) = _
    rw [Word.ofArguments?_switches hverbose, hwords, Option.map_map]
    rfl

/-- The arguments of a request ask for it, but for a request without templates. -/
theorem ofArguments_arguments (request : Request)
    (h : ∀ s ∈ request.templates, s.toList.head? ≠ some '-') :
    ofArguments request.arguments =
      if request.templates.isEmpty then .error .misuse else .ok request := by
  obtain ⟨words, mode, hwords, hdraft, hmode⟩ := exists_switchWords request
  have hfold := Draft.foldlM_operands (d := { mode, verbose := request.verbose }) rfl
    request.templates
  rw [ofArguments, arguments, hwords, Word.ofArguments?_operands h]
  dsimp only [Option.map_some]
  rw [List.foldlM_append, hdraft]
  dsimp only [bind, Except.bind]
  rw [hfold]
  dsimp only
  rw [Draft.finish, hmode]
  simp

end Request
end ViewSchema
