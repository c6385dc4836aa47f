import ViewSchema.Files
import ViewSchema.Log
import ViewSchema.Shape
import ViewSchema.Template.CallKind
import ViewSchema.Template.Fault

/-!
What a walk over a template leaves behind besides the nodes it finds: messages, the partial
templates that were included, and the shapes of those as components. Accounts are put together in
the order of the walk, and of two components with one name the first stays.

A root array that a partial template emits has no name until an enclosing property gives it one.
Until then the account of its inclusion keeps a place open for it.
-/

namespace ViewSchema

/-- Why a template has no shape. -/
inductive Failure where
  | malformed (malformation : Template.Malformation) (line : Option Int)
  | template (fault : Template.Fault)
  /-- A template includes itself; the files on the way, up to the one met again. -/
  | cyclic (chain : List Location)
  | file (fault : FileFault)
  /-- An alien value stands where the source of a node is needed. -/
  | sourceless
  /-- The operation of a template holds no attributes. -/
  | noAttributes
  deriving Repr, DecidableEq, Inhabited

def Failure.message : Failure → String
  | malformed malformation line =>
    match line with
    | some n => Template.onLine n malformation.message
    | none => malformation.message
  | template fault => fault.message
  | cyclic chain =>
    "cyclic partial inclusion: " ++ " -> ".intercalate (chain.map Location.toString)
  | file fault => fault.message
  | sourceless => "a value that is no node has no source"
  | noAttributes => "an operation without attributes"

/-- The name under which a top node of an included template enters the document. -/
inductive Entry where
  | named (name : String)
  | unnamed
  /-- A root array whose name is not settled. -/
  | unsettled
  deriving Repr, DecidableEq, Inhabited

def Entry.of (s : Shape) : Entry :=
  match s.name with
  | some name => .named name
  | none => if s.isArrayRoot then .unsettled else .unnamed

/-- The entry once a root array has got a name, or none. -/
def Entry.settle (name : Option String) : Entry → Entry
  | .unsettled => match name with
    | some s => .named s
    | none => .unnamed
  | entry => entry

/-- The inclusion of a partial template. -/
structure Inclusion where
  template : String
  path : Path
  line : Option Int
  bindings : Record
  resolved : Bool := false
  entries : List Entry := []
  deriving Repr, Inhabited

/-- The names under which the nodes of the included template stand in the document. -/
def Inclusion.names (i : Inclusion) : List String :=
  i.entries.filterMap fun entry => match entry with
    | .named name => some name
    | _ => none

/-- Shapes of included templates by component name, in the order of registration. -/
abbrev Components := List (String × Shape)

/-- The components of two registers; those of the first stay. -/
def Components.merge (a b : Components) : Components :=
  a ++ b.filter fun c => !(a.any fun d => d.1 == c.1)

/-- What a walk leaves behind. -/
structure Account where
  log : List LogEntry := []
  inclusions : List Inclusion := []
  components : Components := []
  deriving Inhabited

namespace Account

/-- Two accounts, one after the other. -/
def append (a b : Account) : Account :=
  { log := a.log ++ b.log
    inclusions := a.inclusions ++ b.inclusions
    components := a.components.merge b.components }

/-- The account once its unsettled root arrays have got a name, or none. -/
def settle (name : Option String) (a : Account) : Account :=
  { a with
    inclusions := a.inclusions.map fun i =>
      { i with entries := i.entries.map (Entry.settle name) } }

end Account

/-- A part of a walk: its result or why it failed, and its account up to then. -/
structure Walk (α : Type) where
  result : Except Failure α
  account : Account := {}

namespace Walk

/-- Go on with the result of a part, unless it failed. -/
def andThen {α β : Type} (w : Walk α) (next : α → Walk β) : Walk β :=
  match w.result with
  | .error failure => ⟨.error failure, w.account⟩
  | .ok a =>
    let rest := next a
    ⟨rest.result, w.account.append rest.account⟩

instance : Monad Walk where
  pure a := ⟨.ok a, {}⟩
  bind := andThen

def fail {α : Type} (failure : Failure) : Walk α := ⟨.error failure, {}⟩

def ofExcept {α : Type} (result : Except Failure α) : Walk α := ⟨result, {}⟩

def say (level : Level) (message : String) : Walk Unit :=
  ⟨.ok (), { log := [⟨level, .walker, message⟩] }⟩

def unresolved (inclusion : Inclusion) : Walk Unit :=
  ⟨.ok (), { inclusions := [inclusion] }⟩

/-- The walk with the unsettled root arrays of its account named. -/
def settle {α : Type} (name : Option String) (w : Walk α) : Walk α :=
  { w with account := w.account.settle name }

end Walk
end ViewSchema
