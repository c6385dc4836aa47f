import ViewSchema.Inference

/-!
What comes of asking for an included template, told by what the machine answers about its path. The
chain of files over which it is included decides only whether it closes a cycle.
-/

namespace ViewSchema.Inference

open Template

variable {files : Files} {settings : Settings}

/-- Wrapping an error leaves every success as it is. -/
theorem mapError_eq_ok_iff {α β γ : Type} {e : Except α γ} {f : α → β} {c : γ} :
    e.mapError f = .ok c ↔ e = .ok c := by
  cases e with
  | error _ => exact ⟨nofun, nofun⟩
  | ok _ => constructor <;> rintro ⟨⟩ <;> rfl

theorem mapError_eq_error_iff {α β γ : Type} {e : Except α γ} {f : α → β} {d : β} :
    e.mapError f = .error d ↔ ∃ c, e = .error c ∧ f c = d := by
  cases e with
  | ok _ => exact ⟨nofun, by rintro ⟨_, ⟨⟩, -⟩⟩
  | error b =>
    constructor
    · rintro ⟨⟩
      exact ⟨b, rfl, rfl⟩
    · rintro ⟨_, ⟨⟩, rfl⟩
      rfl

theorem load_ok {path : Path} {template : ViewSchema.Template}
    (h : load files settings path = .ok template) :
    ∃ text, files.read path settings.encoding = .ok text ∧
      Template.read text.toList = .ok template := by
  unfold load at h
  split at h
  · cases h
  · rename_i text hread
    exact ⟨text, hread, mapError_eq_ok_iff.mp h⟩

/-- A file gives no template because of the file or because of its text. -/
theorem load_error {path : Path} {failure : Failure}
    (h : load files settings path = .error failure) :
    (∃ fault, failure = .file fault ∧ files.read path settings.encoding = .error fault) ∨
      ∃ fault text, failure = .template fault ∧ files.read path settings.encoding = .ok text ∧
        Template.read text.toList = .error fault := by
  unfold load at h
  split at h
  · rename_i fault hread
    cases h
    exact .inl ⟨fault, rfl, hread⟩
  · rename_i text hread
    obtain ⟨fault, hfault, rfl⟩ := mapError_eq_error_iff.mp h
    exact .inr ⟨fault, text, rfl, hread, hfault⟩

theorem load_of_read_error {path : Path} {fault : FileFault}
    (h : files.read path settings.encoding = .error fault) :
    load files settings path = .error (.file fault) := by
  unfold load
  rw [h]

theorem load_of_template_error {path : Path} {text : String} {fault : Fault}
    (hread : files.read path settings.encoding = .ok text)
    (h : Template.read text.toList = .error fault) :
    load files settings path = .error (.template fault) := by
  unfold load
  rw [hread]
  dsimp only
  rw [h]
  rfl

/-- Why a template is refused to what includes it over a chain of files. -/
inductive Refusal (files : Files) (settings : Settings) (chain : List Location) (target : Path) :
    Failure → Prop where
  /-- The path cannot be followed. -/
  | unresolved {fault : PathFault} (h : files.resolve target = .error fault) :
    Refusal files settings chain target (.file (.path fault))
  | cyclic {l : Location} (hresolve : files.resolve target = .ok l) (h : l ∈ chain) :
    Refusal files settings chain target (.cyclic (chain ++ [l]))
  /-- It cannot be told whether a file is there. -/
  | unseen {l : Location} {fault : SystemFault} (hresolve : files.resolve target = .ok l)
    (hfresh : l ∉ chain) (h : files.isFile target = .error fault) :
    Refusal files settings chain target (.file (.path (.system fault)))
  /-- The file is there and cannot be read, for a reason that no run is prepared for. -/
  | unread {l : Location} {fault : FileFault} (henters : Enters files chain target l)
    (h : files.read target settings.encoding = .error fault)
    (hunforeseen : fault.isForeseen = false) :
    Refusal files settings chain target (.file fault)
  /-- The file is there and holds no template. -/
  | faulty {l : Location} {text : String} {fault : Fault} (henters : Enters files chain target l)
    (hread : files.read target settings.encoding = .ok text)
    (h : Template.read text.toList = .error fault) :
    Refusal files settings chain target (.template fault)

theorem access_eq_refused_iff {chain : List Location} {target : Path} {failure : Failure} :
    access files settings chain target = .refused failure ↔
      Refusal files settings chain target failure := by
  constructor
  · intro h
    unfold access at h
    split at h
    · cases h
      exact .unresolved ‹_›
    rename_i l hresolve
    split at h
    · cases h
      exact .cyclic hresolve ‹_›
    rename_i hfresh
    split at h
    · cases h
      exact .unseen hresolve hfresh ‹_›
    · cases h
    rename_i hfile
    have henters : Enters files chain target l := ⟨hresolve, hfresh, hfile⟩
    split at h
    · rename_i fault hload
      split at h <;> cases h
      rename_i hunforeseen
      obtain ⟨_, hsame, hread⟩ | ⟨_, _, hsame, -⟩ := load_error hload <;> cases hsame
      exact .unread henters hread (Bool.eq_false_iff.mpr hunforeseen)
    · rename_i hother hload
      cases h
      obtain ⟨fault, rfl, -⟩ | ⟨fault, text, rfl, hread, htext⟩ := load_error hload
      · exact (hother fault rfl).elim
      · exact .faulty henters hread htext
    · cases h
  · intro h
    unfold access
    cases h with
    | unresolved h => simp [h]
    | cyclic hresolve h => simp [hresolve, h]
    | unseen hresolve hfresh h => simp [hresolve, hfresh, h]
    | unread henters h hunforeseen =>
      simp [henters.resolve, henters.fresh, henters.isFile, load_of_read_error h, hunforeseen]
    | faulty henters hread h =>
      simp [henters.resolve, henters.fresh, henters.isFile, load_of_template_error hread h]

/-- A shorter chain refuses less: what is to be had over a chain is had over part of it too. -/
theorem access_of_subset {chain shorter : List Location} (h : shorter ⊆ chain) {target : Path}
    (hheld : ∀ failure, access files settings chain target ≠ .refused failure) :
    access files settings shorter target = access files settings chain target := by
  unfold access at hheld ⊢
  cases hresolve : files.resolve target with
  | error fault => rfl
  | ok l =>
    by_cases honChain : l ∈ chain
    · simp [hresolve, honChain] at hheld
    · have hfresh : l ∉ shorter := fun hmem => honChain (h hmem)
      simp only [honChain, hfresh, if_false]

end ViewSchema.Inference
