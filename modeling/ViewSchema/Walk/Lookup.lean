import ViewSchema.Note
import ViewSchema.Template.Node

/-!
Remarks by line. A statement is spoken of by the comment that trails on its line, or else by the
comment that has the line above to itself; comments about the response do not count. Attributes
that are extracted together are spoken of by the whole run of comments above their line, in which
the nearest comment about an attribute counts, and by the comment on the line itself only for
attributes that the run leaves out.
-/

namespace ViewSchema

open Template

def Remark.ofComment? (comment : Option String) : Option Remark :=
  comment.bind fun s => Remark.of? s.toList

namespace Template.Comments

/-- The comment on a line that may be unknown. -/
def here (c : Comments) (line : Option Int) : Option String :=
  match line with
  | some (.ofNat n) => c.on n
  | _ => none

/-- The comment that has the line above to itself. -/
def above (c : Comments) (line : Option Int) : Option String :=
  match line with
  | some (.ofNat (n + 1)) => c.alone n
  | _ => none

/-- The remark that speaks of a statement on a line. -/
def remarkFor (c : Comments) (line : Option Int) : Option Remark :=
  ((Remark.ofComment? (c.here line)).filter Remark.isOfField).or
    ((Remark.ofComment? (c.above line)).filter Remark.isOfField)

def noteFor (c : Comments) (line : Option Int) : Note := Note.ofRemark? (c.remarkFor line)

/-- The line carries the marker of a conditional branch. -/
def marks (c : Comments) (line : Option Int) : Bool :=
  match c.remarkFor line with
  | some .marker => true
  | _ => false

/-- The comments right above a line that have lines to themselves, the nearest first. -/
def run (c : Comments) : Nat → List String
  | 0 => []
  | line + 1 =>
    match c.alone line with
    | some comment => comment :: run c line
    | none => []

/-- The field that a comment speaks of, and the note it makes. -/
def fieldNote? (comment : String) : Option (String × Note) :=
  (Remark.of? comment.toList).bind fun remark =>
    match remark.toRecord.get "field_name" with
    | .text name => if name == "" then none else some (name, Note.ofRecord remark.toRecord)
    | _ => none

/-- The comments that can speak of attributes extracted on a line, the first to count first. -/
def fieldComments (c : Comments) (line : Option Int) : List String :=
  (line.map fun l => c.run l.toNat).getD [] ++ (c.here line).toList

/-- The note on an attribute extracted on a line. -/
def attributeNote (c : Comments) (line : Option Int) (name : String) : Note :=
  (((c.fieldComments line).filterMap fieldNote?).lookup name).getD .blank

/-- What the first remark about the response, by line, gives for the operation. -/
def operation? (c : Comments) : Option Value :=
  (c.entries.mergeSort fun a b => decide (a.1 ≤ b.1)).findSome? fun e =>
    (Remark.of? e.2.toList).bind Remark.operation?

end Template.Comments
end ViewSchema
