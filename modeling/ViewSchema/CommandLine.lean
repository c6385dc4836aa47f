import ViewSchema.Text.Letter

/-!
The arguments of the program: of which templates something is to be printed, what, and whether the
details of the run are told.

Words that open with a hyphen are switches, long ones by a unique opening of their name, letters
also several together. No switch takes a value, but an equals sign between the first letter and
further ones is passed over. The templates are the first unbroken run of other
words: a further one behind a later switch belongs nowhere and makes the arguments wrong. Words are
heeded from the left, so help that is asked for before a wrong word is given; only a word that
could be several switches is noticed before all others.
-/

namespace ViewSchema

/-- What is printed of a template. -/
inductive Mode where
  | response
  | properties
  | stubs
  | components
  deriving Repr, DecidableEq, Inhabited

/-- What the arguments ask for. -/
structure Request where
  templates : List String
  mode : Mode := .response
  verbose : Bool := false
  deriving Repr, DecidableEq, Inhabited

/-- Why nothing is run. -/
inductive Halt where
  | help
  | misuse
  deriving Repr, DecidableEq, Inhabited

/-- The exit code of a program that runs nothing. -/
def Halt.exitCode : Halt → Nat
  | .help => 0
  | .misuse => 2

/-- What a switch asks for. -/
inductive Switch where
  | help
  | verbose
  | only (mode : Mode)
  deriving Repr, DecidableEq, Inhabited

namespace Switch

/-- The names of switches, behind two hyphens. -/
def names : List (String × Switch) :=
  [("help", .help), ("properties", .only .properties), ("stubs", .only .stubs),
    ("components", .only .components), ("verbose", .verbose)]

def opening (text : List Char) : List Switch :=
  (names.filter fun n => text.isPrefixOf n.1.toList).map Prod.snd

/-- The switch of a letter, behind one hyphen. -/
def ofLetter? : Char → Option Switch
  | 'h' => some .help
  | 'v' => some .verbose
  | _ => none

end Switch

/-- An argument by its form. -/
inductive Word where
  | operand (text : String)
  /-- The mark behind which every word is an operand. -/
  | separator
  /-- Switches in their order. -/
  | switches (given : List Switch)
  | unknown
  /-- A switch that is given a value, or letters not all of which are switches. -/
  | faulty
  deriving Repr, DecidableEq, Inhabited

namespace Word

/-- Digits of any script, one at least. -/
def isDigits (text : List Char) : Bool := !text.isEmpty && text.all Text.isDecimal

/-- The text behind the hyphen of a negative number: digits, or a point with digits behind it. A
final line break does not count. -/
def isMagnitude (text : List Char) : Bool :=
  let plain := if text.getLast? == some '\n' then text.dropLast else text
  isDigits plain ||
    (match plain.dropWhile Text.isDecimal with
      | '.' :: rest => isDigits rest
      | _ => false)

/-- A word that opens with a hyphen without being a switch: negative numbers and words with a space
are operands. -/
def other (text : List Char) : Word :=
  if text.contains ' ' || isMagnitude (text.drop 1) then .operand (String.ofList text)
  else .unknown

def ofLetters (letters : List Char) : Word :=
  match letters.mapM Switch.ofLetter? with
  | some given => .switches given
  | none => .faulty

/-- What stands behind the first letter, without an equals sign before further letters. -/
def furtherLetters : List Char → List Char
  | '=' :: c :: rest => c :: rest
  | rest => rest

/-- The word of an argument that stands before any separator; none when it could be several
switches. -/
def of? (text : List Char) : Option Word :=
  match text with
  | ['-', '-'] => some .separator
  | '-' :: '-' :: rest =>
    match Switch.opening (rest.takeWhile (· != '=')) with
    | [] => some (other text)
    | [s] => some (if rest.contains '=' then .faulty else .switches [s])
    | _ => none
  | '-' :: c :: rest =>
    if (Switch.ofLetter? c).isSome then some (ofLetters (c :: furtherLetters rest))
    else some (other text)
  | _ => some (.operand (String.ofList text))

def ofArguments? : List String → Option (List Word)
  | [] => some []
  | a :: rest =>
    match of? a.toList with
    | none => none
    | some .separator => some (.separator :: rest.map .operand)
    | some w => (ofArguments? rest).map (w :: ·)

end Word

/-- What is known of a request while its words are read. -/
structure Draft where
  templates : List String := []
  /-- The run of templates has ended. -/
  closed : Bool := false
  mode : Option Mode := none
  verbose : Bool := false
  /-- There was a word that belongs nowhere. -/
  surplus : Bool := false
  deriving Repr, DecidableEq, Inhabited

namespace Draft

/-- The draft at a switch, which ends the run of templates if it has begun. -/
def close (d : Draft) : Draft := { d with closed := !d.templates.isEmpty }

/-- Heed a switch. Of the modes only one may be asked for, but that repeatedly. -/
def heedSwitch (d : Draft) : Switch → Except Halt Draft
  | .help => .error .help
  | .verbose => .ok { d with verbose := true }
  | .only mode =>
    match d.mode with
    | some earlier => if earlier == mode then .ok d else .error .misuse
    | none => .ok { d with mode := some mode }

def heed (d : Draft) : Word → Except Halt Draft
  | .operand text =>
    .ok (if d.closed then { d with surplus := true }
      else { d with templates := d.templates ++ [text] })
  | .separator => .ok (if d.closed then { d with surplus := true } else d)
  | .switches given => given.foldlM heedSwitch d.close
  | .unknown => .ok { d.close with surplus := true }
  | .faulty => .error .misuse

def finish (d : Draft) : Except Halt Request :=
  if d.templates.isEmpty || d.surplus then .error .misuse
  else
    .ok
      { templates := d.templates, mode := d.mode.getD .response, verbose := d.verbose }

end Draft

def Request.ofArguments (arguments : List String) : Except Halt Request :=
  match Word.ofArguments? arguments with
  | none => .error .misuse
  | some words => words.foldlM Draft.heed {} >>= Draft.finish

end ViewSchema
