import ViewSchema.Value

/-!
Tokens of a template. A token says what it stands for, the span of the text it was read from and
whether white space came before it. Its line is the line reached when it had been read, so a token
over several lines carries the last of them.
-/

namespace ViewSchema.Template

/-- What a token stands for. -/
inductive Lexeme where
  | identifier (word : String)
  | constant (word : String)
  | instanceVariable (name : String)
  | globalVariable (name : String)
  /-- A word with a colon right behind it, as in front of a hash value. -/
  | label (word : String)
  | text (value : String)
  | symbol (value : String)
  | integer (n : Nat)
  | decimal (d : Double)
  | words (items : List String)
  | symbols (items : List String)
  | operator (op : String)
  | newline
  | endOfText
  deriving Repr, DecidableEq, Inhabited

/-- A token. -/
structure Token where
  lexeme : Lexeme
  line : Nat
  start : Nat
  stop : Nat
  spaced : Bool := false
  /-- Part of the value is only known when the template runs. -/
  dynamic : Bool := false
  deriving Repr, DecidableEq, Inhabited

/-- Words with a meaning of their own. -/
def keywords : List String :=
  ["alias", "and", "begin", "break", "case", "class", "def", "defined?", "do",
    "else", "elsif", "end", "ensure", "false", "for", "if", "in", "module",
    "next", "nil", "not", "or", "redo", "rescue", "retry", "return", "self",
    "super", "then", "true", "undef", "unless", "until", "when", "while", "yield"]

/-- The operators, longer ones first. -/
def operators : List String :=
  ["**=", "<=>", "===", "...", "&&=", "||=", "<<=", ">>=",
    "**", "==", "!=", ">=", "<=", "&&", "||", "<<", ">>", "=~", "!~",
    "..", "+=", "-=", "*=", "/=", "%=", "|=", "&=", "^=", "::", "=>", "->", "&.",
    "+", "-", "*", "/", "%", "=", "<", ">", "!", "&", "|", "^", "~",
    "?", ":", ",", ".", "(", ")", "[", "]", "\x7b", "\x7d", ";"]

/-- Operators and words after which a statement goes on in the next line. -/
def continuations : List String :=
  [",", ".", "&.", "::", "=>", "&&", "||", "+", "-", "*", "/", "%", "**",
    "=", "==", "!=", "<", ">", "<=", ">=", "+=", "-=", "*=", "||=", "&&=",
    "?", ":", "<<", "and", "or", "not"]

namespace Lexeme

def value : Lexeme → Value
  | identifier s | constant s | instanceVariable s | globalVariable s | label s | text s
  | symbol s | operator s => .text s
  | integer n => .int n
  | decimal d => .float d
  | words items | symbols items => .list (items.map .text)
  | newline => .text "\n"
  | endOfText => .null

/-- The lexeme ends an operand, so that a sign or a slash behind it joins two operands. -/
def endsOperand : Lexeme → Bool
  | identifier s =>
    !keywords.contains s || ["end", "self", "true", "false", "nil"].contains s
  | constant _ | instanceVariable _ | globalVariable _ | integer _ | decimal _ | text _ | symbol _
  | words _ | symbols _ => true
  | operator s => [")", "]", "\x7d"].contains s
  | label _ | newline | endOfText => false

/-- A statement cannot end behind the lexeme. -/
def continues : Lexeme → Bool
  | label _ => true
  | operator s | identifier s => continuations.contains s
  | _ => false

def isIdentifier : Lexeme → Bool
  | identifier _ => true
  | _ => false

def isOperator (op : String) : Lexeme → Bool
  | operator s => s == op
  | _ => false

def isOneOf (ops : List String) : Lexeme → Bool
  | operator s => ops.contains s
  | _ => false

def isWordOf (words : List String) : Lexeme → Bool
  | identifier s => words.contains s
  | _ => false

end Lexeme
end ViewSchema.Template
