import ViewSchema.CommandLine
import ViewSchema.Shape.Schema
import ViewSchema.Stub
import ViewSchema.Value.Json

/-!
What the program tells of templates: a document for each on one stream, messages and a summary
line on the other. A template that fails is reported and the next one follows. Only failures that
no template is meant to cause end the run.
-/

namespace ViewSchema

/-- What a run leaves behind. -/
structure Report where
  /-- The documents. -/
  output : String := ""
  /-- The messages and summaries. -/
  messages : String := ""
  /-- Some template failed. -/
  failed : Bool := false
  deriving Repr, DecidableEq, Inhabited

namespace Report

def join (reports : List Report) : Report :=
  { output := String.join (reports.map output)
    messages := String.join (reports.map messages)
    failed := reports.any failed }

def exitCode (r : Report) : Nat := if r.failed then 1 else 0

end Report

/-- The run goes on after a failure of this kind. -/
def Failure.isReported : Failure → Bool
  | .malformed .. | .cyclic _ => true
  | .template fault => fault != .longInteger
  | .file fault => fault.isForeseen
  | .sourceless | .noAttributes => false

/-- The lines of the messages that are shown; those about details only on request. -/
def shownLog (verbose : Bool) (log : List LogEntry) : String :=
  String.join ((log.filter fun e => verbose || e.level != .debug).map LogEntry.line)

/-- The stub of an operation that a template lacks. -/
def operationStub : Value := .ofText? (CommentLine.operation [("summary", .text "TODO")])

/-- The comment lines that a template lacks: one for its operation, and one for each line of
properties without a remark. -/
def Inference.stubRecord (found : Inference) : Record :=
  (if found.operation.isNone then [("operation", operationStub)] else []) ++
    found.root.stubs.map fun s => (toString s.line, .text s.comment)

namespace Mode

def document (mode : Mode) (found : Inference) : Except Failure Value :=
  match mode with
  | .properties => .ok (.list (found.root.properties.map fun p => .map p.toRecord))
  | .stubs => .ok (.map found.stubRecord)
  | .components => .ok (.map (componentSchemas found.components))
  | .response =>
    match found.root.response? (found.operation.getD .null) with
    | some entry => .ok (.map entry)
    | none => .error .noAttributes

/-- The messages that arise when the document is made. -/
def warnings (mode : Mode) (found : Inference) : List LogEntry :=
  match mode with
  | .response => found.root.warnings
  | .components => componentWarnings found.components
  | .properties | .stubs => []

end Mode

def Inference.summary (found : Inference) (template : String) : String :=
  "Parsed " ++ template ++ " (" ++ toString found.root.properties.length ++ " properties, " ++
    toString found.root.missing.length ++ " missing comments, " ++
    toString found.inclusions.length ++ " partials)\n"

namespace Request

def reportOn (request : Request) (files : Files) (settings : Settings) (template : String) :
    Except Failure Report :=
  let (result, log) := infer files settings (Path.ofString template)
  let told := shownLog request.verbose log
  match result with
  | .error failure =>
    if failure.isReported then
      let entry : LogEntry := ⟨.error, .program, template ++ ": " ++ failure.message⟩
      .ok { messages := told ++ entry.line, failed := true }
    else .error failure
  | .ok found => do
    let document ← request.mode.document found
    return {
      output := (Value.map [(template, document)]).jsonDocument ++ "\n"
      messages :=
        told ++ shownLog request.verbose (request.mode.warnings found) ++ found.summary template }

def run (request : Request) (files : Files) (settings : Settings) : Except Failure Report := do
  return Report.join (← request.templates.mapM (request.reportOn files settings))

end Request
end ViewSchema
