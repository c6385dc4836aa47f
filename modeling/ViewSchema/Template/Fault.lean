import ViewSchema.Template.Token

/-!
Why a text is no template. Faults of scanning and of grammar carry the line they were met on and
have a message; a whole number of too many digits has neither.
-/

namespace ViewSchema.Template

/-- What scanning cannot get past. -/
inductive ScanFault where
  | unclosed (bracket : Char)
  | unbalanced (bracket : Char)
  | endlessComment
  | endlessHeredoc (mark : String)
  | endlessText
  | endlessInterpolation
  | endlessPercentLiteral
  | endlessRegexp
  | badInstanceVariable
  | badGlobalVariable
  | badSymbol
  | strayCharacter (c : Char)
  deriving Repr, DecidableEq, Inhabited

/-- What the grammar asks for and does not find. -/
inductive GrammarFault where
  | expected (word : String)
  | strayToken
  | strayKeyword
  | strayLabel
  | unsupported (word : String)
  | endOfTemplate
  | endOfStatement
  | constantOrMethod
  | methodName
  | endlessBlockParameters
  | endlessLambdaParameters
  deriving Repr, DecidableEq, Inhabited

/-- Why a text is no template. -/
inductive Fault where
  | scan (fault : ScanFault) (line : Nat)
  | grammar (fault : GrammarFault) (found : Lexeme) (line : Nat)
  | longInteger
  /-- The reader was given too few steps. -/
  | exhausted
  deriving Repr, DecidableEq, Inhabited

def quotedCharacter (c : Char) : String := String.ofList (Text.quoted [c])

def ScanFault.message : ScanFault → String
  | unclosed c => "unclosed " ++ quotedCharacter c
  | unbalanced c => "unbalanced " ++ quotedCharacter c
  | endlessComment => "unterminated =begin comment"
  | endlessHeredoc mark => "unterminated heredoc " ++ mark
  | endlessText => "unterminated string"
  | endlessInterpolation => "unterminated interpolation"
  | endlessPercentLiteral => "unterminated percent literal"
  | endlessRegexp => "unterminated regexp"
  | badInstanceVariable => "bad instance variable"
  | badGlobalVariable => "bad global variable"
  | badSymbol => "bad symbol"
  | strayCharacter c => "unexpected character " ++ quotedCharacter c

def GrammarFault.message : GrammarFault → String
  | expected word => "expected " ++ Text.quotedString word
  | strayToken => "unexpected token"
  | strayKeyword => "unexpected keyword"
  | strayLabel => "unexpected label"
  | unsupported word => "'" ++ word ++ "' is not supported in templates"
  | endOfTemplate => "unexpected end of template"
  | endOfStatement => "expected end of statement"
  | constantOrMethod => "expected constant or method name"
  | methodName => "expected method name"
  | endlessBlockParameters => "unterminated block parameters"
  | endlessLambdaParameters => "unterminated lambda parameters"

def Lexeme.described : Lexeme → String
  | endOfText => "end of input"
  | lexeme => String.ofList lexeme.value.shown

def onLine (line : Int) (message : String) : String :=
  "line " ++ toString line ++ ": " ++ message

def Fault.line? : Fault → Option Nat
  | scan _ line | grammar _ _ line => some line
  | longInteger | exhausted => none

def Fault.message : Fault → String
  | scan fault line => onLine line fault.message
  | grammar fault found line => onLine line (fault.message ++ ", found " ++ found.described)
  | longInteger => "integer of too many digits"
  | exhausted => "too few steps"

end ViewSchema.Template
