import ViewSchema.Proofs.Template.Lexer
import ViewSchema.Value

/-!
Sketches of templates: properties, blocks and conditionals in any nesting. A sketch is printed in
rows, each of which is a property, the header of a statement or of an arm, or a terminator, and
stands on a line of its own.
-/

namespace ViewSchema

namespace Sketch

/-- The name of a method, a parameter or a condition. -/
structure Name where
  text : String
  small : Text.isSmallName text.toList
  free : Template.keywords.contains text = false

/-- A whole number as it is written: digits, behind a minus sign or not. -/
structure Number where
  negative : Bool
  first : Char
  more : List Char
  digits : (first :: more).all Text.isAsciiDigit

def Number.text (n : Number) : String :=
  (if n.negative then "-" else "") ++ String.ofList (n.first :: n.more)

/-- The number has no more digits than a whole number may have. -/
def Number.isShort (n : Number) : Bool := decide ((n.first :: n.more).length ≤ Numeral.maxDigits)

/-- What a block stands in: `do` and `end`, or braces. -/
inductive Enclosure where
  | words
  | braces

/-- The conditionals, by what tells their arms apart: a condition each, or a number each. -/
inductive Fork where
  | conditions
  | numbers

/-- What an arm is told apart by. -/
def Fork.Head : Fork → Type
  | .conditions => Name
  | .numbers => Number

/-- The keyword of an arm. -/
def Fork.word : Fork → String
  | .conditions => "elsif"
  | .numbers => "when"

end Sketch

mutual

/-- A statement of a template. -/
inductive Sketch : Type where
  | property (name : Sketch.Name)
  /-- A call with a block. Between `do` and `end`, a block with parameters is one over a
  collection. -/
  | block (enclosure : Sketch.Enclosure) (name : Sketch.Name) (params : List Sketch.Name)
      (body : List Sketch)
  /-- A condition that holds, or one that does not, and arms for other conditions. -/
  | condition (negated : Bool) (test : Sketch.Name) (body : List Sketch)
      (arms : Sketch.Arms .conditions)
  /-- A subject and arms for its values. -/
  | choice (subject : Sketch.Name) (arms : Sketch.Arms .numbers)

/-- The arms of a conditional, with an arm for all other cases or without. -/
inductive Sketch.Arms : Sketch.Fork → Type where
  | done {f : Sketch.Fork} : Sketch.Arms f
  | otherwise {f : Sketch.Fork} (body : List Sketch) : Sketch.Arms f
  | arm {f : Sketch.Fork} (head : f.Head) (body : List Sketch) (others : Sketch.Arms f) :
      Sketch.Arms f

end

namespace Sketch

/-- What stands on a line. -/
inductive Row where
  | property (name : Name)
  | opening (enclosure : Enclosure) (name : Name) (params : List Name)
  | condition (negated : Bool) (test : Name)
  | choice (subject : Name)
  | arm {f : Fork} (head : f.Head)
  | otherwise
  | closing (enclosure : Enclosure)

mutual

def rows : Sketch → List Row
  | .property name => [.property name]
  | .block enclosure name params body =>
    .opening enclosure name params :: (blockRows body ++ [.closing enclosure])
  | .condition negated test body arms =>
    .condition negated test :: (blockRows body ++ arms.rows ++ [.closing .words])
  | .choice subject arms => .choice subject :: (arms.rows ++ [.closing .words])

/-- The rows of a body, statement by statement. -/
def blockRows : List Sketch → List Row
  | [] => []
  | s :: rest => s.rows ++ blockRows rest

def Arms.rows : {f : Fork} → Arms f → List Row
  | _, .done => []
  | _, .otherwise body => .otherwise :: blockRows body
  | _, .arm head body others => .arm head :: (blockRows body ++ others.rows)

end

/-- The collection that a block with parameters goes over, between `do` and `end`. -/
def Enclosure.collection : Enclosure → List Name → String
  | .words, _ :: _ => " @xs"
  | _, _ => ""

def Enclosure.opener : Enclosure → String
  | .words => " do"
  | .braces => " \x7b"

def Enclosure.closer : Enclosure → String
  | .words => "end"
  | .braces => "\x7d"

/-- Further parameters, each behind a comma. -/
def listed : List Name → String
  | [] => ""
  | p :: rest => ", " ++ p.text ++ listed rest

/-- The parameters of a block between bars, if it has any. -/
def parameters : List Name → String
  | [] => ""
  | p :: rest => " |" ++ p.text ++ listed rest ++ "|"

def Fork.headText : {f : Fork} → f.Head → String
  | .conditions, test => Name.text test
  | .numbers, n => Number.text n

def conditionWord (negated : Bool) : String := if negated then "unless" else "if"

def Row.text : Row → String
  | .property name => "json." ++ name.text ++ " 1"
  | .opening enclosure name params =>
    "json." ++ name.text ++ enclosure.collection params ++ enclosure.opener ++ parameters params
  | .condition negated test => conditionWord negated ++ " " ++ test.text
  | .choice subject => "case " ++ subject.text
  | .arm (f := f) head => f.word ++ " " ++ Fork.headText head
  | .otherwise => "else"
  | .closing enclosure => enclosure.closer

/-- Rows as they are printed from a line on, each behind as many blanks as its line has. -/
def printed (margin : Nat → Nat) (line : Nat) : List Row → String
  | [] => ""
  | r :: rest => String.ofList (List.replicate (margin line) ' ') ++ r.text ++ "\n" ++
      printed margin (line + 1) rest

/-- The template of a list of statements. -/
def template (margin : Nat → Nat) (body : List Sketch) : String :=
  printed margin 1 (blockRows body)

/-- No number in front of an arm is too long. -/
def Row.isShort : Row → Bool
  | .arm (f := .numbers) n => Number.isShort n
  | _ => true

/-- No number in a body is too long. -/
def areShort (body : List Sketch) : Bool := (blockRows body).all Row.isShort

example : template (fun line => if line = 2 then 2 else 0)
    [.block .words ⟨"tracks", by decide, by decide⟩ [⟨"track", by decide, by decide⟩]
      [.property ⟨"title", by decide, by decide⟩],
    .choice ⟨"kind", by decide, by decide⟩
      (.arm (f := .numbers) ⟨true, '1', [], by decide⟩ [] (.otherwise []))] =
    "json.tracks @xs do |track|\n" ++
    "  json.title 1\n" ++
    "end\n" ++
    "case kind\n" ++
    "when -1\n" ++
    "else\n" ++
    "end\n" := by decide

end Sketch
end ViewSchema
