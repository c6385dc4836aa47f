/-!
Messages that a run leaves behind, in the order in which they arise.
-/

namespace ViewSchema

/-- How much a message matters. -/
inductive Level where
  | debug
  | warning
  | error
  deriving Repr, DecidableEq, Inhabited

/-- The name of a level in front of a message. -/
def Level.label : Level → String
  | .debug => "DEBUG"
  | .warning => "WARNING"
  | .error => "ERROR"

/-- The part of the program that speaks. -/
inductive Speaker where
  | program
  | walker
  | compiler
  deriving Repr, DecidableEq, Inhabited

/-- The name of a speaker in front of a message. -/
def Speaker.label : Speaker → String
  | .program => "jbuilder_openapi"
  | .walker => "jbuilder_openapi.walker"
  | .compiler => "jbuilder_openapi.compiler"

/-- A message. -/
structure LogEntry where
  level : Level
  speaker : Speaker
  message : String
  deriving Repr, DecidableEq, Inhabited

def LogEntry.line (e : LogEntry) : String :=
  e.level.label ++ " " ++ e.speaker.label ++ ": " ++ e.message ++ "\n"

end ViewSchema
