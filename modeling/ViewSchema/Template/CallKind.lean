import ViewSchema.Template.Node

/-!
What a call means for the document. Methods of the document builder with an exclamation mark are
directives of various kinds; any other method of the builder names a property. A receiver stands
for the builder when it is missing, or is the builder's name.

The questions about single kinds can be asked of any call. Only a call with a method name and an
argument list has a kind.
-/

namespace ViewSchema.Template

/-- The kinds of calls. -/
inductive CallKind where
  | array
  | inclusion
  | extraction
  | directive
  | property
  | other
  deriving Repr, DecidableEq, Inhabited

def cacheMethods : List String := ["cache!", "cache_if!", "cache_root!"]

def keyFormatMethods : List String := ["key_format!", "deep_format_keys!"]

def nullMethods : List String := ["ignore_nil!", "nil!", "null!"]

def manipulationMethods : List String := ["merge!", "set!", "child!", "attributes!", "target!"]

def reservedMethods : List String :=
  cacheMethods ++ keyFormatMethods ++ nullMethods ++ manipulationMethods ++
    ["extract!", "call", "array!", "partial!"]

namespace Call

def isNamed (c : Call) (names : List String) : Bool := c.method.any names.contains

def isOnBuilder (c : Call) (builder : String) : Bool :=
  match c.receiver with
  | none => true
  | some (.name identifier _) => identifier == builder
  | some (.call inner) =>
    inner.receiver.isNone && inner.method == some builder && inner.args.isEmpty
  | some _ => false

def isArray (c : Call) (builder : String) : Bool :=
  c.isNamed ["array!"] && c.isOnBuilder builder

/-- The call includes a partial template, whatever its receiver. -/
def isInclusion (c : Call) : Bool := c.isNamed ["partial!"]

def isCache (c : Call) (builder : String) : Bool :=
  c.isNamed cacheMethods && c.isOnBuilder builder

def isKeyFormat (c : Call) (builder : String) : Bool :=
  c.isNamed keyFormatMethods && c.isOnBuilder builder

def isNullHandling (c : Call) (builder : String) : Bool :=
  c.isNamed nullMethods && c.isOnBuilder builder

def isManipulation (c : Call) (builder : String) : Bool :=
  c.isNamed manipulationMethods && c.isOnBuilder builder

def isDirective (c : Call) (builder : String) : Bool :=
  c.isCache builder || c.isKeyFormat builder || c.isNullHandling builder ||
    c.isManipulation builder

/-- The call extracts attributes. Without a name it does so only on an explicit builder. -/
def isExtraction (c : Call) (builder : String) : Bool :=
  if c.isNamed ["call"] then c.receiver.isSome && c.isOnBuilder builder
  else c.isNamed ["extract!"] && c.isOnBuilder builder

def isProperty (c : Call) (builder : String) : Bool :=
  match c.method with
  | none => false
  | some method =>
    !reservedMethods.contains method && !(c.receiver.isNone && method == builder) &&
      c.isOnBuilder builder

/-- Some hash among the arguments has the key `partial`. -/
def hasPartialKey (c : Call) : Bool :=
  c.args.toList.any fun n =>
    match n.hashPairs? with
    | some pairs => pairs.any fun p => p.1.staticText? == some "partial"
    | none => false

/-- The kind of a call. The first that fits counts. -/
def kind (c : Call) (builder : String) : CallKind :=
  if c.isArray builder then .array
  else if c.isInclusion then .inclusion
  else if c.isExtraction builder then .extraction
  else if c.isDirective builder then .directive
  else if c.isProperty builder then .property
  else .other

end Call

/-- Why a node is no usable call. -/
inductive Malformation where
  | noCall (found : String)
  | noMethod
  | noArguments (method : String)
  deriving Repr, DecidableEq, Inhabited

def Malformation.message : Malformation → String
  | noCall found => "expected a call node, got " ++ found
  | noMethod => "call node has no method name"
  | noArguments method => "call to " ++ Text.quotedString method ++ " has no argument list"

/-- The name of a kind of node in messages. -/
def Node.kindName : Node → String
  | .name .. => "Name"
  | .literal .. => "Literal"
  | .hash .. => "HashLiteral"
  | .array .. => "ArrayLiteral"
  | .expression .. => "Expression"
  | .call .. => "Call"
  | .block .. => "Block"
  | .conditional .. => "Conditional"
  | .alien .null => "NoneType"
  | .alien (.bool _) => "bool"
  | .alien (.int _) => "int"
  | .alien (.float _) => "float"
  | .alien (.text _) => "str"
  | .alien (.list _) => "list"
  | .alien (.map _) => "dict"

/-- A call that can be walked: it has a method name and an argument list. -/
structure Invocation where
  receiver : Option Node
  method : String
  args : List Node
  line : Option Int

def Invocation.call (i : Invocation) : Call :=
  { receiver := i.receiver, method := some i.method, args := .list i.args
    extent := { line := i.line } }

/-- The invocation that a node is, or why it is none, with its line. -/
def Node.invocation (n : Node) : Except (Malformation × Option Int) Invocation :=
  match n with
  | .call c =>
    match c.method, c.args with
    | none, _ | some "", _ => .error (.noMethod, c.extent.line)
    | some method, .list args =>
      .ok { receiver := c.receiver, method, args, line := c.extent.line }
    | some method, _ => .error (.noArguments method, c.extent.line)
  | other => .error (.noCall other.kindName, other.line?)

end ViewSchema.Template
