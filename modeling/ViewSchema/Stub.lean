import ViewSchema.Inference
import ViewSchema.Shape.Property

/-!
Stubs: for each line with properties that no remark speaks of, the comment line that one could
write there. Nodes from included files are left out, since their lines are lines of other files.
-/

namespace ViewSchema

/-- A comment line for a line of the template. -/
structure Stub where
  line : Int
  comment : String
  deriving Repr, DecidableEq, Inhabited

/-- The stub of a named node, unless a remark speaks of it or it comes from another file. -/
def Shape.stub? (path : String) (s : Shape) : Option Stub :=
  match s.facts.line with
  | none => none
  | some line =>
    if s.note.annotated || s.facts.foreign then none
    else some { line, comment := CommentLine.property (s.property path).toRecord }

/-- Stubs with one to a line, the first. -/
def firstStubs (stubs : List Stub) : List Stub :=
  stubs.foldl
    (fun kept s => if kept.any fun k => k.line == s.line then kept else kept ++ [s]) []

/-- The stubs of a document, in the order of lines. -/
def Shape.stubs (s : Shape) : List Stub :=
  (firstStubs ((s.named "").filterMap fun e => e.2.stub? e.1)).mergeSort
    fun a b => decide (a.line ≤ b.line)

end ViewSchema
