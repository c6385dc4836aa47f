import ViewSchema.Partial
import ViewSchema.Template.Grammar
import ViewSchema.Walk.Statement

/-!
Inferring the shape of a document from its template and all templates it includes. An included
template that is missing, or cannot be read for a reason that a run is prepared for, gives no nodes
and leaves a warning. One that is no template fails the whole inference, and so do one that is
already being walked, a path that leads nowhere, and a file that cannot be read for any other
reason.

The files being walked form a chain without repetition, each one existing, so the chain cannot
grow beyond the number of files and every inference ends.
-/

namespace ViewSchema

open Template

/-- What is known of a template. -/
structure Inference where
  path : Path
  root : Shape
  operation : Option Value
  inclusions : List Inclusion
  components : Components
  deriving Inhabited

namespace Inference

/-- Where files are that are not on a chain. -/
def offChain (files : Files) (chain : List Location) : List Location :=
  files.locations.filter fun l => !chain.contains l

/-- With one more location on the chain, the files there are left out. -/
theorem offChain_append_singleton (files : Files) (chain : List Location) (l : Location) :
    offChain files (chain ++ [l]) = (offChain files chain).filter (· != l) := by
  simp only [offChain, List.filter_filter]
  congr 1
  funext m
  by_cases onChain : m ∈ chain <;> by_cases same : m = l <;> simp [onChain, same]

/-- The template at a path. -/
def load (files : Files) (settings : Settings) (path : Path) : Except Failure Template :=
  match files.read path settings.encoding with
  | .error fault => .error (.file fault)
  | .ok text => (Template.read text.toList).mapError .template

/-- What comes of asking for an included template. -/
inductive Access where
  | refused (failure : Failure)
  /-- No template is to be had, for want of a file or for a fault in reading it. -/
  | vacant (fault? : Option FileFault)
  | entered (location : Location) (template : Template)

/-- Ask for the template at a path, included over a chain of files. -/
def access (files : Files) (settings : Settings) (chain : List Location) (target : Path) :
    Access :=
  match files.resolve target with
  | .error fault => .refused (.file (.path fault))
  | .ok location =>
    if location ∈ chain then .refused (.cyclic (chain ++ [location]))
    else
      match files.isFile target with
      | .error fault => .refused (.file (.path (.system fault)))
      | .ok false => .vacant none
      | .ok true =>
        match load files settings target with
        | .error (.file fault) =>
          if fault.isForeseen then .vacant (some fault) else .refused (.file fault)
        | .error failure => .refused failure
        | .ok template => .entered location template

/-- A path leads over a chain to a file that exists and is not on it. -/
structure Enters (files : Files) (chain : List Location) (target : Path) (l : Location) : Prop where
  resolve : files.resolve target = .ok l
  fresh : l ∉ chain
  isFile : files.isFile target = .ok true

/-- Entering a file leaves fewer files off the chain. -/
theorem Enters.length_offChain_lt {files : Files} {chain : List Location} {target : Path}
    {l : Location} (h : Enters files chain target l) :
    (offChain files (chain ++ [l])).length < (offChain files chain).length := by
  rw [offChain_append_singleton]
  have off : l ∈ offChain files chain := by
    simp [offChain, files.mem_locations h.resolve h.isFile, h.fresh]
  exact List.length_filter_lt_length_iff_exists.2 ⟨l, off, by simp⟩

theorem access_eq_entered_iff {files : Files} {settings : Settings} {chain : List Location}
    {target : Path} {l : Location} {template : Template} :
    access files settings chain target = .entered l template ↔
      Enters files chain target l ∧ load files settings target = .ok template := by
  unfold access
  constructor
  · intro h
    repeat' split at h
    all_goals cases h
    exact ⟨⟨‹_›, ‹_›, ‹_›⟩, ‹_›⟩
  · rintro ⟨henters, hload⟩
    simp [henters.resolve, henters.fresh, henters.isFile, hload]

theorem length_offChain_of_entered {files : Files} {settings : Settings} {chain : List Location}
    {target : Path} {l : Location} {template : Template}
    (h : access files settings chain target = .entered l template) :
    (offChain files (chain ++ [l])).length < (offChain files chain).length :=
  (access_eq_entered_iff.1 h).1.length_offChain_lt

/-- The shape of an included template as a component: its last root array, or else an object of
all its nodes. -/
def component (nodes : List Shape) : Shape :=
  match (nodes.filter Shape.isArrayRoot).getLast? with
  | some root => root
  | none => .ofMembers {} nodes

/-- The account of a template that was included and walked, and its nodes as the including
template sees them. -/
def resolved (inclusion : Inclusion) (walk : Walk (List Shape)) : Walk (List Shape) :=
  match walk.result with
  | .error failure => ⟨.error failure, walk.account⟩
  | .ok nodes =>
    let done := { inclusion with resolved := true, entries := nodes.map Entry.of }
    let own : Components := [(Partial.componentName inclusion.template, component nodes)]
    { result := .ok (nodes.map Shape.asForeign)
      account :=
        { walk.account with
          inclusions := done :: walk.account.inclusions
          components := walk.account.components.merge own } }

/-- The message about an included template that is not to be had: it does not exist, or it cannot be
read. -/
def vacancyMessage (place name target : String) : Option FileFault → String
  | none => place ++ ": partial " ++ Text.quotedString name ++ " not found at " ++ target
  | some fault => place ++ ": cannot read partial " ++ target ++ ": " ++ fault.message

/-- The nodes of the template of a name, seen from a template that was reached over a chain of
files. -/
def nodesOf (files : Files) (settings : Settings) (chain : List Location) (current : Path)
    (name : String) (bindings : Record) (line : Option Int) : Walk (List Shape) :=
  let target := Partial.path name current settings
  let inclusion : Inclusion := { template := name, path := target, line, bindings }
  match _entered : access files settings chain target with
  | .refused failure => Walk.fail failure
  | .vacant fault? => do
    let place := current.toString ++ ":" ++ Site.shownLine line
    Walk.say .warning (vacancyMessage place name target.toString fault?)
    Walk.unresolved inclusion
    return []
  | .entered location template =>
    let site : Site := { path := target, settings, comments := template.comments }
    resolved inclusion
      (site.statements
        (fun n b l => nodesOf files settings (chain ++ [location]) target n b l) []
        template.body)
termination_by (offChain files chain).length
decreasing_by exact length_offChain_of_entered _entered

/-- The includer of a template at the top of a chain, whose path leads to a location. -/
def includer (files : Files) (settings : Settings) (here : Location) (path : Path) : Includer :=
  nodesOf files settings [here] path

/-- The document that the top nodes of a template make: its last root array, which then replaces
all other nodes, or else an object of them. -/
def document (path : Path) (nodes : List Shape) : Walk Shape := do
  match (nodes.filter Shape.isArrayRoot).getLast? with
  | some root =>
    if 1 < nodes.length then
      Walk.say .debug
        (path.toString ++ ": array root replaces " ++ toString (nodes.length - 1) ++
          " sibling node(s)")
    return root
  | none => return .ofMembers {} nodes

/-- The document that the body of a template makes whose path leads to a location. -/
def rootOf (files : Files) (here : Location) (site : Site) (body : List Node) : Walk Shape := do
  document site.path
    (← site.statements (includer files site.settings here site.path) [] body)

/-- Where the path of a template leads. -/
def locate (files : Files) (path : Path) : Except Failure Location :=
  (files.resolve path).mapError fun fault => .file (.path fault)

def walk (files : Files) (settings : Settings) (path : Path) : Walk (Shape × Option Value) := do
  let here ← Walk.ofExcept (locate files path)
  let template ← Walk.ofExcept (load files settings path)
  let site : Site := { path, settings, comments := template.comments }
  return (← rootOf files here site template.body, template.comments.operation?)

/-- The paths of included templates that a walk did not find among the files, or could not read. -/
def unresolvedPaths (files : Files) (settings : Settings) (path : Path) : List Path :=
  ((walk files settings path).account.inclusions.filter fun i => !i.resolved).map Inclusion.path

end Inference

/-- Infer what is known of the template at a path; with the messages left on the way, also when
the inference fails. -/
def infer (files : Files) (settings : Settings) (path : Path) :
    Except Failure Inference × List LogEntry :=
  let w := Inference.walk files settings path
  (w.result.map fun found =>
      { path
        root := found.1
        operation := found.2
        inclusions := w.account.inclusions
        components := w.account.components },
    w.account.log)

end ViewSchema
