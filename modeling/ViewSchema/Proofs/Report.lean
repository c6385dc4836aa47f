import ViewSchema.Proofs.CommandLine
import ViewSchema.Proofs.Inference.Failure
import ViewSchema.Proofs.Note
import ViewSchema.Report

/-!
A run over several templates against runs over each of them alone. A template that fails is reported
and the others are reported on as they would be alone. Three things end the whole run instead: a
file that cannot be got at for a reason that no run is prepared for, a whole number of too many
digits, and a word in the place of the attributes of an operation.
-/

namespace ViewSchema

open Template Inference

namespace Report

theorem exitCode_eq_one_iff (r : Report) : r.exitCode = 1 ↔ r.failed := by
  unfold exitCode
  cases r.failed <;> simp

theorem exitCode_join (reports : List Report) :
    (join reports).exitCode = 1 ↔ ∃ r ∈ reports, r.exitCode = 1 := by
  simp only [exitCode_eq_one_iff, join, List.any_eq_true]

theorem join_singleton (r : Report) : join [r] = r := by
  simp [join, String.join]

end Report

namespace Request

variable {request : Request} {files : Files} {settings : Settings}

/-- The same of one template alone. -/
def alone (request : Request) (template : String) : Request :=
  { request with templates := [template] }

/-- What ends the whole run at a template. -/
inductive Stops (mode : Mode) (files : Files) (settings : Settings) (path : Path) : Prop where
  /-- The path of the template cannot be followed, and it is not the system that refuses it. -/
  | path (message : String) (h : files.resolve path = .error (.improper message))
  /-- Its file cannot be read, for a reason that no run is prepared for: its encoding has no codec,
  the decoder does not point at what it cannot decode, or the path is none that could be opened. -/
  | file (here : Location) (fault : FileFault) (hresolve : files.resolve path = .ok here)
    (hread : files.read path settings.encoding = .error fault)
    (hunforeseen : fault.isForeseen = false)
  /-- A template that is included on the way is refused for a reason of these kinds. -/
  | inclusion (v : Visit) (target : Path) (fault : FileFault) (hmade : v.Made files settings path)
    (hincludes : v.Includes files settings target)
    (hrefusal : Refusal files settings v.chain target (.file fault))
    (hunforeseen : fault.isForeseen = false)
  /-- Scanning a template, or one that is included on the way, comes to a whole number of too many
  digits. -/
  | numeral (v : Visit) (text : String) (s : Scan) (hmade : v.Made files settings path)
    (hread : files.read v.path settings.encoding = .ok text)
    (hscan : (Scan.start text.toList).Reaches s) (hlong : s.AtLongInteger)
  /-- The remark that comes first about the operation is one about a field, with a word under the
  key, and the response asks for attributes. -/
  | operation (found : Inference) (word : String) (hmode : mode = .response)
    (hinfer : (infer files settings path).1 = .ok found)
    (hword : found.operation = some (.text word)) (hsome : word ≠ "")

/-- Reporting on templates one after the other gives a report on each. -/
theorem mapM_reportOn_iff {templates : List String} {reports : List Report} :
    templates.mapM (request.reportOn files settings) = .ok reports ↔
      List.Forall₂ (fun t r => request.reportOn files settings t = .ok r) templates reports := by
  induction templates generalizing reports with
  | nil => cases reports <;> simp [pure, Except.pure]
  | cons t rest ih =>
    rw [List.mapM_cons]
    cases hfirst : request.reportOn files settings t with
    | error failure => cases reports <;> simp [bind, Except.bind, hfirst]
    | ok r =>
      cases hrest : rest.mapM (request.reportOn files settings) with
      | error failure => cases reports <;> simp [bind, Except.bind, ← ih, hfirst, hrest]
      | ok others =>
        cases reports <;> simp [bind, Except.bind, pure, Except.pure, ← ih, hfirst, hrest]

theorem exists_reports_iff {templates : List String} :
    (∃ reports, List.Forall₂ (fun t r => request.reportOn files settings t = .ok r) templates
        reports) ↔
      ∀ t ∈ templates, ∃ r, request.reportOn files settings t = .ok r := by
  induction templates with
  | nil => simp
  | cons t rest ih =>
    rw [List.forall_mem_cons, ← ih]
    constructor
    · rintro ⟨reports, hreports⟩
      cases hreports with
      | cons hfirst hrest => exact ⟨⟨_, hfirst⟩, _, hrest⟩
    · rintro ⟨⟨r, hfirst⟩, reports, hrest⟩
      exact ⟨r :: reports, .cons hfirst hrest⟩

/-- A run gives the reports on its templates, put together. -/
theorem run_eq_ok_iff {report : Report} :
    request.run files settings = .ok report ↔
      ∃ reports, List.Forall₂ (fun t r => request.reportOn files settings t = .ok r)
        request.templates reports ∧ Report.join reports = report := by
  simp only [← mapM_reportOn_iff]
  unfold run
  cases request.templates.mapM (request.reportOn files settings) <;>
    simp [bind, Except.bind, pure, Except.pure]

theorem run_alone (t : String) (r : Report) :
    (request.alone t).run files settings = .ok r ↔ request.reportOn files settings t = .ok r := by
  rw [run_eq_ok_iff]
  constructor
  · rintro ⟨reports, hreports, rfl⟩
    cases hreports with
    | cons hfirst hrest =>
      cases hrest
      rw [Report.join_singleton]
      exact hfirst
  · intro h
    exact ⟨[r], .cons h .nil, Report.join_singleton r⟩

/-- The document of an inference cannot be made exactly when a response is asked for and the
operation is a word. -/
theorem exists_document_iff {mode : Mode} {path : Path} {found : Inference}
    (h : (infer files settings path).1 = .ok found) :
    (∃ document, mode.document found = .ok document) ↔
      ¬ (mode = .response ∧ ∃ word, found.operation = some (.text word) ∧ word ≠ "") := by
  obtain ⟨-, template, -, -, -, -, -, hoperation⟩ := parts_of_infer h
  cases mode with
  | properties => simp [Mode.document]
  | stubs => simp [Mode.document]
  | components => simp [Mode.document]
  | response =>
    cases hfound : found.operation with
    | none => simp [Mode.document, Shape.response?, hfound, Value.isTruthy]
    | some v =>
      rcases Comments.operation?_cases (hoperation ▸ hfound) with
        ⟨attributes, rfl⟩ | ⟨word, rfl⟩
      · simp [Mode.document, Shape.response?, hfound]
      · by_cases hword : word = ""
        · simp [Mode.document, Shape.response?, hfound, Value.isTruthy, hword]
        · simp [Mode.document, Shape.response?, hfound, Value.isTruthy, hword]

/-- An inference fails by a file for an unforeseen reason exactly in three ways. -/
theorem stops_of_file {mode : Mode} {path : Path} {fault : FileFault}
    (h : (infer files settings path).1 = .error (.file fault))
    (hunforeseen : fault.isForeseen = false) :
    Stops mode files settings path := by
  rcases infer_eq_file_iff.mp h with ⟨cause, hresolve, rfl⟩ | ⟨here, hresolve, hread⟩ |
    ⟨v, target, hmade, hincludes, hrefusal⟩
  · cases cause with
    | system _ => cases hunforeseen
    | improper message => exact .path message hresolve
  · exact .file here fault hresolve hread hunforeseen
  · exact .inclusion v target fault hmade hincludes hrefusal hunforeseen

/-- All causes but the last make the inference fail, each in its own way. -/
theorem Stops.cases {mode : Mode} {path : Path} (h : Stops mode files settings path) :
    (∃ fault, (infer files settings path).1 = .error (.file fault) ∧ fault.isForeseen = false) ∨
      (infer files settings path).1 = .error (.template .longInteger) ∨
      mode = .response ∧ ∃ found word, (infer files settings path).1 = .ok found ∧
        found.operation = some (.text word) ∧ word ≠ "" := by
  cases h with
  | path message hresolve =>
    exact .inl ⟨_, infer_eq_file_iff.mpr (.inl ⟨_, hresolve, rfl⟩), rfl⟩
  | file here fault hresolve hread hunforeseen =>
    exact .inl ⟨fault, infer_eq_file_iff.mpr (.inr (.inl ⟨here, hresolve, hread⟩)), hunforeseen⟩
  | inclusion v target fault hmade hincludes hrefusal hunforeseen =>
    exact .inl ⟨fault, infer_eq_file_iff.mpr (.inr (.inr ⟨v, target, hmade, hincludes, hrefusal⟩)),
      hunforeseen⟩
  | numeral v text s hmade hread hscan hlong =>
    have htext := (read_eq_longInteger_iff text.toList).mpr ⟨s, hscan, hlong⟩
    exact .inr (.inl (infer_eq_fault_iff.mpr ⟨v, hmade, load_of_template_error hread htext⟩))
  | operation found word hmode hinfer hword hsome =>
    exact .inr (.inr ⟨hmode, found, word, hinfer, hword, hsome⟩)

/-- A failure is reported exactly when nothing ends the run. -/
theorem isReported_iff {mode : Mode} {path : Path} {failure : Failure}
    (h : (infer files settings path).1 = .error failure) :
    failure.isReported ↔ ¬ Stops mode files settings path := by
  constructor
  · intro hreported hstops
    rcases hstops.cases with ⟨fault, hfile, hunforeseen⟩ | hnumeral | ⟨-, found, word, hinfer, -⟩
    · cases h.symm.trans hfile
      rw [Failure.isReported, hunforeseen] at hreported
      cases hreported
    · cases h.symm.trans hnumeral
      cases hreported
    · cases h.symm.trans hinfer
  · intro hstops
    rcases infer_error h with ⟨fault, rfl⟩ | ⟨fault, rfl⟩ | ⟨cycle, rfl⟩ | ⟨malformation, line, rfl⟩
    · by_contra hunreported
      exact hstops (stops_of_file h (Bool.eq_false_iff.mpr hunreported))
    · cases fault with
      | longInteger =>
        obtain ⟨v, hmade, hload⟩ := infer_eq_fault_iff.mp h
        rcases load_error hload with ⟨_, hfile, -⟩ | ⟨_, text, hfault, hread, htext⟩
        · cases hfile
        · cases hfault
          obtain ⟨s, hscan, hlong⟩ := (read_eq_longInteger_iff text.toList).mp htext
          exact absurd (.numeral v text s hmade hread hscan hlong) hstops
      | _ => rfl
    · rfl
    · rfl

/-- An inference that does not fail ends the run only by its operation. -/
theorem stops_iff_of_ok {mode : Mode} {path : Path} {found : Inference}
    (h : (infer files settings path).1 = .ok found) :
    Stops mode files settings path ↔
      mode = .response ∧ ∃ word, found.operation = some (.text word) ∧ word ≠ "" := by
  constructor
  · intro hstops
    rcases hstops.cases with ⟨fault, hfile, -⟩ | hnumeral | ⟨hmode, other, word, hinfer, hword⟩
    · cases h.symm.trans hfile
    · cases h.symm.trans hnumeral
    · cases h.symm.trans hinfer
      exact ⟨hmode, word, hword⟩
  · rintro ⟨hmode, word, hword, hsome⟩
    exact .operation found word hmode h hword hsome

/-- There is a report on a template exactly when nothing ends the run at it. -/
theorem exists_report_iff (t : String) :
    (∃ report, request.reportOn files settings t = .ok report) ↔
      ¬ Stops request.mode files settings (.ofString t) := by
  unfold reportOn
  cases hinfer : infer files settings (.ofString t) with
  | mk result log =>
    have hresult : (infer files settings (.ofString t)).1 = result := by rw [hinfer]
    cases result with
    | error failure =>
      rw [← isReported_iff hresult]
      cases hreported : failure.isReported <;> simp [hreported]
    | ok found =>
      rw [stops_iff_of_ok hresult, ← exists_document_iff hresult]
      dsimp only
      cases request.mode.document found <;> simp [bind, Except.bind, pure, Except.pure]

/-- A template never stops or changes what is told of the others, unless it ends the whole run. The
arguments of a request without switches among its templates ask for it. The run ends well exactly
when none of its templates ends it; its documents are then those of the runs over each template
alone, in order, and it fails exactly when one of these does. -/
theorem run_batch (request : Request) (files : Files) (environment : List (String × String))
    (hnames : ∀ t ∈ request.templates, t.toList.head? ≠ some '-') :
    let settings := Settings.ofEnvironment environment
    (ofArguments request.arguments =
      if request.templates.isEmpty then .error .misuse else .ok request) ∧
    ((∃ report, request.run files settings = .ok report) ↔
      ∀ t ∈ request.templates, ¬ Stops request.mode files settings (.ofString t)) ∧
    ∀ report, request.run files settings = .ok report →
      ∃ reports,
        List.Forall₂ (fun t r => (request.alone t).run files settings = .ok r)
          request.templates reports ∧
        report.output = String.join (reports.map Report.output) ∧
        (report.exitCode = 1 ↔ ∃ r ∈ reports, r.exitCode = 1) := by
  intro settings
  refine ⟨ofArguments_arguments request hnames, ?_, ?_⟩
  · simp only [← exists_report_iff, run_eq_ok_iff]
    constructor
    · rintro ⟨report, reports, hreports, -⟩
      exact exists_reports_iff.mp ⟨reports, hreports⟩
    · intro h
      obtain ⟨reports, hreports⟩ := exists_reports_iff.mpr h
      exact ⟨_, reports, hreports, rfl⟩
  · intro report hrun
    obtain ⟨reports, hreports, rfl⟩ := run_eq_ok_iff.mp hrun
    simp only [run_alone]
    exact ⟨reports, hreports, rfl, Report.exitCode_join reports⟩

/-- Templates of which only the last can be read: the first is missing, the second has an `end` too
much and the third includes itself. -/
def brokenPosts : Files :=
  .ofPaths
    [("/views/edit.json.jbuilder", .text "json.title 1\nend\n"),
      ("/views/_tree.json.jbuilder", .text "json.partial! 'tree'\n"),
      ("/views/post.json.jbuilder", .text "# @openapi title:\njson.title 1\n")]

theorem run_batch_brokenPosts :
    let request : Request :=
      { templates := ["/views/none.json.jbuilder", "/views/edit.json.jbuilder",
          "/views/_tree.json.jbuilder", "/views/post.json.jbuilder"] }
    (∀ t ∈ request.templates, t.toList.head? ≠ some '-') ∧
    ∃ report, request.run brokenPosts (Settings.ofEnvironment []) = .ok report ∧
      report.exitCode = 1 ∧
      ∃ reports,
        List.Forall₂
          (fun t r =>
            (request.alone t).run brokenPosts (Settings.ofEnvironment []) = .ok r)
          request.templates reports ∧
        report.output = String.join (reports.map Report.output) ∧
        ∃ r ∈ reports, r.exitCode = 1 := by
  intro request
  have hnames : ∀ t ∈ request.templates, t.toList.head? ≠ some '-' := by decide +kernel
  have hexit : (request.run brokenPosts (Settings.ofEnvironment [])).toOption.map
      Report.exitCode = some 1 := by
    decide +kernel
  obtain ⟨-, -, hreports⟩ := run_batch request brokenPosts [] hnames
  cases hrun : request.run brokenPosts (Settings.ofEnvironment []) with
  | error failure =>
    rw [hrun] at hexit
    cases hexit
  | ok report =>
    rw [hrun] at hexit
    have hexit : report.exitCode = 1 := Option.some.inj hexit
    obtain ⟨reports, halone, houtput, hiff⟩ := hreports report hrun
    exact ⟨hnames, report, rfl, hexit, reports, halone, houtput, hiff.mp hexit⟩

/-- A post whose remark about the title has a word under `operation`, and a user. -/
def retitledPost : Files :=
  .ofPaths
    [("/views/post.json.jbuilder", .text "# @openapi title:string operation:show\njson.title 1\n"),
      ("/views/user.json.jbuilder", .text "# @openapi name:string\njson.name 1\n")]

/-- The word ends the whole run, also for the user, on whom there is a report alone. -/
theorem exists_stopped_retitledPost :
    ∃ request : Request,
      ofArguments ["/views/post.json.jbuilder", "/views/user.json.jbuilder"] = .ok request ∧
      request.run retitledPost (Settings.ofEnvironment []) = .error .noAttributes ∧
      ∃ report,
        (request.alone "/views/user.json.jbuilder").run retitledPost (Settings.ofEnvironment []) =
          .ok report := by
  let request : Request :=
    { templates := ["/views/post.json.jbuilder", "/views/user.json.jbuilder"] }
  refine ⟨request, by decide +kernel, by decide +kernel, ?_⟩
  have hexit : ((request.alone "/views/user.json.jbuilder").run retitledPost
      (Settings.ofEnvironment [])).toOption.map Report.exitCode = some 0 := by
    decide +kernel
  cases hrun : (request.alone "/views/user.json.jbuilder").run retitledPost
      (Settings.ofEnvironment []) with
  | error failure =>
    rw [hrun] at hexit
    cases hexit
  | ok report => exact ⟨report, rfl⟩

end Request
end ViewSchema
