import ViewSchema.Value

/-!
The call tree of a template: calls with their receivers and arguments, blocks with their bodies,
conditionals with their branches, and literals. All else is kept as an expression with its parts.

A tree may be malformed: a call may lack its method name or its argument list, and an alien value
may stand where a node belongs. A tree that was read from text never is.
-/

namespace ViewSchema.Template

/-- Where a node begins and how it is written. -/
structure Extent where
  line : Option Int := some 1
  source : String := ""
  deriving Repr, DecidableEq, Inhabited

/-- The kinds of literals. -/
inductive LiteralKind where
  | text
  | symbol
  | integer
  | decimal
  | yes
  | no
  | nothing
  deriving Repr, DecidableEq, Inhabited

/-- What stands in the place of a call's argument list. -/
inductive Arguments (α : Type) where
  | list (items : List α)
  | absent
  | stray (s : String)
  deriving Inhabited

/-- A call. -/
structure CallForm (α : Type) where
  receiver : Option α
  method : Option String
  args : Arguments α
  extent : Extent
  deriving Inhabited

/-- A node of the call tree. -/
inductive Node where
  /-- An identifier, a variable, a constant, or the receiver of the surrounding method. -/
  | name (identifier : String) (extent : Extent)
  /-- A literal. A dynamic text keeps the code it holds as it is written. -/
  | literal (kind : LiteralKind) (value : Value) (dynamic : Bool) (extent : Extent)
  | hash (pairs : List (Node × Node)) (extent : Extent)
  | array (elements : List Node) (extent : Extent)
  /-- Anything with no meaning of its own here; its parts can still hold blocks. -/
  | expression (parts : List Node) (extent : Extent)
  | call (call : CallForm Node)
  | block (call : Node) (params : List String) (body : List Node) (extent : Extent)
  /-- A conditional or a loop, with the body of every branch in order. -/
  | conditional (keyword : String) (condition : Option Node) (branches : List (List Node))
      (extent : Extent)
  /-- No node at all. -/
  | alien (value : Value)
  deriving Inhabited

abbrev Call := CallForm Node

/-- The arguments of a call, none when it has no argument list. -/
def Arguments.toList {α : Type} : Arguments α → List α
  | .list items => items
  | .absent | .stray _ => []

/-- There is neither an argument nor anything in the place of the list. -/
def Arguments.isEmpty {α : Type} : Arguments α → Bool
  | .list items => items.isEmpty
  | .absent => true
  | .stray s => s == ""

namespace Node

/-- The extent of a node; an alien value has none. -/
def extent? : Node → Option Extent
  | .name _ e | .literal _ _ _ e | .hash _ e | .array _ e | .expression _ e | .block _ _ _ e
  | .conditional _ _ _ e => some e
  | .call c => some c.extent
  | .alien _ => none

def line? (n : Node) : Option Int := n.extent?.bind Extent.line

def source (n : Node) : String := (n.extent?.map Extent.source).getD ""

def hashPairs? : Node → Option (List (Node × Node))
  | .hash pairs _ => some pairs
  | _ => none

/-- The text of a text or symbol literal that is not dynamic. -/
def staticText? : Node → Option String
  | .literal .text v false _ | .literal .symbol v false _ => some v.asText
  | _ => none

/-- A node that is there: the null value is none. -/
def present? : Node → Option Node
  | .alien .null => none
  | n => some n

end Node

/-- The value under a key of a hash: that of the first pair with the key. -/
def pairValue? (key : String) (pairs : List (Node × Node)) : Option Node :=
  (pairs.find? fun p => p.1.staticText? == some key).bind fun p => p.2.present?

/-- The comments of a template by line, and the lines whose comment trails. -/
structure Comments where
  entries : List (Nat × String) := []
  trailing : List Nat := []
  deriving Repr, Inhabited

namespace Comments

def on (c : Comments) (line : Nat) : Option String := c.entries.lookup line

/-- The comment of a line, unless it trails. -/
def alone (c : Comments) (line : Nat) : Option String :=
  if c.trailing.contains line then none else c.on line

end Comments
end ViewSchema.Template

namespace ViewSchema

open Template in
/-- A template: its statements and its comments. -/
structure Template where
  body : List Node
  comments : Comments := {}
  deriving Inhabited

end ViewSchema
