import ViewSchema.CommandLine
import ViewSchema.Report

/-!
The command line. A template is reported on with the files that its inclusions lead to: the machine
is asked about them one round after the other, until a walk over the template asks for no further
path.
-/

namespace ViewSchema

/-- What the machine answers about a path. -/
structure Answer where
  /-- Where the path leads, as it is written. -/
  resolved : Except PathFault String
  isFile : Except SystemFault Bool
  content : Except PathFault Content

/-- The files that answers about paths tell of. At a path that was not asked about there is none. -/
def Files.ofAnswers (answers : List (Path × Answer)) : Files where
  resolve p :=
    match answers.lookup p with
    | some answer => answer.resolved.map fun s => (Path.ofString s).location
    | none => .ok p.location
  isFile p := ((answers.lookup p).map Answer.isFile).getD (.ok false)
  content p :=
    ((answers.lookup p).map Answer.content).getD (.error (.system (.missing p.toString)))
  codec? := Codec.builtin?
  locations := answers.filterMap fun e =>
    (e.2.resolved.map fun s => (Path.ofString s).location).toOption
  mem_locations := by
    intro p l hresolve hfile
    cases hanswer : answers.lookup p with
    | none => simp [hanswer] at hfile
    | some answer =>
      obtain ⟨before, after, rfl, -⟩ := List.lookup_eq_some_iff.mp hanswer
      simp only [hanswer] at hresolve
      exact List.mem_filterMap.mpr ⟨(p, answer), by simp, by rw [hresolve]; rfl⟩
  isNormal_resolve := by
    intro p l hclean hresolve
    cases hanswer : answers.lookup p with
    | none =>
      simp only [hanswer] at hresolve
      cases hresolve
      exact hclean.isNormal_location
    | some answer =>
      simp only [hanswer] at hresolve
      cases hresolved : answer.resolved with
      | error fault =>
        rw [hresolved] at hresolve
        cases hresolve
      | ok s =>
        rw [hresolved] at hresolve
        cases hresolve
        exact (Path.isClean_ofString s).isNormal_location
  codec?_utf8 := Codec.builtin?_utf8

def systemFault (path : Path) : IO.Error → SystemFault
  | .noFileOrDirectory .. => .missing path.toString
  | .permissionDenied .. => .denied path.toString
  | e => .other (toString e)

/-- Where a path leads. The links of what exists are followed from segment to segment; a segment
that does not exist is taken by its name. -/
def resolvedAt (path : Path) : IO String := do
  let start ← IO.FS.realPath (if path.isAbsolute then "/" else ".")
  let mut here := start.toString
  for segment in path.segments do
    let next := Location.toString (Path.walkTo (Path.ofString here).location segment)
    here ← try pure (← IO.FS.realPath next).toString catch _ => pure next
  return here

/-- Ask the machine about a path. -/
def answerAt (path : Path) : IO Answer := do
  if path.segments.any fun s => s.toList.contains '\x00' then
    let fault : PathFault := .improper "embedded null byte"
    return { resolved := .error fault, isFile := .ok false, content := .error fault }
  let resolved ← resolvedAt path
  try
    let _ ← IO.FS.realPath path.toString
  catch e =>
    let fault := systemFault path e
    let isFile := match fault with
      | .missing _ => .ok false
      | _ => .error fault
    return { resolved := .ok resolved, isFile, content := .error (.system fault) }
  try
    let bytes ← IO.FS.readBinFile path.toString
    return { resolved := .ok resolved, isFile := .ok true, content := .ok (.bytes bytes.toList) }
  catch e =>
    let fault := systemFault path e
    let isDenied := match fault with
      | .denied _ => true
      | _ => false
    return { resolved := .ok resolved, isFile := .ok isDenied, content := .error (.system fault) }

/-- Ask about those of the paths that have no answer yet. -/
def askAll (answers : List (Path × Answer)) (paths : List Path) : IO (List (Path × Answer)) :=
  paths.foldlM (fun known path => do
    if (known.lookup path).isSome then return known
    return (path, ← answerAt path) :: known) answers

/-- The answers that a template needs, those known already among them. -/
partial def neededAnswers (settings : Settings) (template : Path)
    (known : List (Path × Answer)) : IO (List (Path × Answer)) := do
  let unresolved := Inference.unresolvedPaths (Files.ofAnswers known) settings template
  let answers ← askAll known (template :: unresolved)
  if answers.length == known.length then return answers
  neededAnswers settings template answers

def environmentSettings : IO Settings := do
  let environment ← Settings.variables.filterMapM fun name => do
    return (← IO.getEnv name).map fun value => (name, value)
  return Settings.ofEnvironment environment

def usage : String :=
  "usage: jbuilder_openapi [-h] [--properties | --stubs | --components] [-v] " ++
    "TEMPLATE [TEMPLATE ...]\n"

/-- Report on the templates of a request; the result is the exit code. -/
def perform (request : Request) (settings : Settings) : IO UInt32 := do
  let mut failed := false
  for template in request.templates do
    let answers ← neededAnswers settings (Path.ofString template) []
    match request.reportOn (Files.ofAnswers answers) settings template with
    | .ok report =>
      IO.print report.output
      IO.eprint report.messages
      failed := failed || report.failed
    | .error failure =>
      IO.eprintln failure.message
      return 1
  return if failed then 1 else 0

end ViewSchema

open ViewSchema in
/-- Print what is asked for of the given templates. -/
def main (arguments : List String) : IO UInt32 := do
  match Request.ofArguments arguments with
  | .ok request => perform request (← environmentSettings)
  | .error .help =>
    IO.print usage
    return 0
  | .error .misuse =>
    IO.eprint usage
    return 2
