import ViewSchema.Template.Read
import ViewSchema.Template.Scan

/-!
The grammar of templates, by recursive descent. Statements are expressions with trailing
modifiers; expressions are calls with and without parentheses, chains of calls, blocks, hashes and
literals joined by operators whose precedence does not matter here.

The rules refer to each other in a circle. Each is written on its own over the four rules through
which every circle passes, and `grammar` closes the circle to a given depth. Wherever a rule turns
to one of the four it has taken a token before, so a depth above the number of tokens is enough.
-/

namespace ViewSchema.Template

/-- The rules through which the grammar refers to itself. The first flag of an expression allows
arguments without parentheses, the second keeps `do` for an enclosing call or loop. -/
structure Grammar where
  /-- Statements up to a closing word or a closing operator, which is left to come. -/
  statements (closingWords : List String) (closingOperator : Option String) : Read (List Node)
  expression (command noDo : Bool) : Read Node
  ternary (command noDo : Bool) : Read Node
  unary (command noDo : Bool) : Read Node

def binaryOperators : List String :=
  ["**", "*", "/", "%", "+", "-", "<<", ">>", "&", "|", "^", "<", ">", "<=",
    ">=", "<=>", "==", "===", "!=", "=~", "!~", "&&", "||", "..", "..."]

def assignmentOperators : List String :=
  ["=", "+=", "-=", "*=", "/=", "%=", "**=", "||=", "&&=", "|=", "&=", "^=", "<<=", ">>="]

def nonArgumentWords : List String :=
  ["do", "end", "if", "unless", "while", "until", "and", "or", "then", "else",
    "elsif", "rescue", "ensure", "when", "in"]

def Lexeme.written (l : Lexeme) : String := l.value.asText

def nameOf (t : Token) : Node :=
  .name t.lexeme.written { line := some t.line, source := t.lexeme.written }

def keyOf (t : Token) : Node :=
  .literal .symbol (.text t.lexeme.written) false
    { line := some t.line, source := t.lexeme.written }

/-- The key that stands for a hash spread into another. -/
def spreadKey (t : Token) : Node :=
  .literal .symbol (.text "**") false { line := some t.line, source := "**" }

def Lexeme.isLabel : Lexeme → Bool
  | .label _ => true
  | _ => false

def Lexeme.isText : Lexeme → Bool
  | .text _ => true
  | _ => false

/-- The lexeme can open an argument whatever follows it. -/
def Lexeme.opensArgument : Lexeme → Bool
  | .identifier word => !nonArgumentWords.contains word
  | .operator _ | .newline | .endOfText => false
  | _ => true

namespace Read

/-- An argument without parentheses comes next: white space before it and something that opens an
operand, a sign only when it is glued to its operand. -/
def atCommandArgument : Read Bool := do
  let t ← current
  if !t.spaced then return false
  match t.lexeme with
  | .operator op =>
    if ["[", "(", "->", "!", "::"].contains op then return true
    else if ["-", "*", "&", "**", ":"].contains op then return !(← peek 1).spaced
    else return false
  | lexeme => return lexeme.opensArgument

/-- No operand comes next, so a range has no end. -/
def atOperandEnd : Read Bool := do
  let t ← current
  match t.lexeme with
  | .newline | .endOfText => return true
  | .operator op => return [")", "]", "\x7d", ",", ";", "=>"].contains op
  | .identifier word => return nonArgumentWords.contains word
  | _ => return false

/-- The token behind a brace and any line breaks shows that the brace opens a hash: it is a label,
or a text or symbol before an arrow. -/
def atHash : Read Bool := fun s c =>
  match (c.tokens.drop 1).dropWhile fun t => t.lexeme == .newline with
  | [] => .ok (s.eof.lexeme.isLabel, c)
  | t :: rest =>
    let arrow := (rest.headD s.eof).lexeme.isOperator "=>"
    match t.lexeme with
    | .label _ => .ok (true, c)
    | .text _ | .symbol _ => .ok (arrow, c)
    | _ => .ok (false, c)

def argument (g : Grammar) (noDo : Bool) : Read Node := do
  if ← atWord ["not"] then g.expression false noDo else g.ternary false noDo

/-- Arguments read so far, the latest first. -/
structure ArgumentList where
  args : List Node := []
  pairs : List (Node × Node) := []
  /-- The first token of the first pair. -/
  opening : Option Token := none

def ArgumentList.add (a : ArgumentList) (n : Node) : ArgumentList := { a with args := n :: a.args }

def ArgumentList.addPair (a : ArgumentList) (t : Token) (key value : Node) : ArgumentList :=
  { a with pairs := (key, value) :: a.pairs, opening := a.opening.or (some t) }

def atClosing (closing : Option String) : Read Bool :=
  match closing with
  | some op => atOperator [op]
  | none => return false

def listed (g : Grammar) (closing : Option String) (noDo : Bool) (a : ArgumentList) :
    Read ArgumentList := do
  let t ← current
  if t.lexeme.isLabel then
    let _ ← advance
    skipBreaks
    if (← atOperator [","]) || (← atClosing closing) then return a.addPair t (keyOf t) (nameOf t)
    else return a.addPair t (keyOf t) (← argument g noDo)
  else if t.lexeme.isOperator "**" then
    let _ ← advance
    return a.addPair t (spreadKey t) (← argument g noDo)
  else
    let value ← argument g noDo
    if ← atOperator ["=>"] then
      let _ ← advance
      skipBreaks
      return a.addPair t value (← argument g noDo)
    else return a.add value

/-- One turn through a list: an argument or pair, and whether a comma follows. -/
def listTurn (g : Grammar) (closing : Option String) (noDo : Bool) (a : ArgumentList) :
    Read (Turn ArgumentList ArgumentList) := do
  if closing.isSome then skipBreaks
  if ← atClosing closing then return .finished a
  let a ← listed g closing noDo a
  if ← atOperator [","] then
    let _ ← advance
    return .again a
  else return .finished a

/-- Arguments up to and with a closing operator, or as far as commas go. All pairs, wherever they
stand, make one hash behind the other arguments. -/
def arguments (g : Grammar) (closing : Option String) (noDo : Bool) : Read (List Node) := do
  let a ← repeated (listTurn g closing (closing.isNone && noDo)) {}
  match closing with
  | some op =>
    skipBreaks
    let _ ← expectOperator op
  | none => pure ()
  match a.opening with
  | some t => return a.args.reverse ++ [.hash a.pairs.reverse (← extentFrom t)]
  | none => return a.args.reverse

def hashPair (g : Grammar) : Read (Node × Node) := do
  let t ← current
  if t.lexeme.isLabel then
    let _ ← advance
    skipBreaks
    if ← atOperator [",", "\x7d"] then return (keyOf t, nameOf t)
    else return (keyOf t, ← argument g false)
  else if t.lexeme.isOperator "**" then
    let _ ← advance
    return (spreadKey t, ← argument g false)
  else
    let colon ← peek 1
    if t.lexeme.isText && colon.lexeme.isOperator ":" && !colon.spaced then
      let _ ← advance
      let _ ← advance
      return (keyOf t, ← argument g false)
    else
      let key ← argument g false
      skipBreaks
      let _ ← expectOperator "=>"
      skipBreaks
      return (key, ← argument g false)

def hashTurn (g : Grammar) (pairs : List (Node × Node)) :
    Read (Turn (List (Node × Node)) (List (Node × Node))) := do
  skipBreaks
  if ← atOperator ["\x7d"] then return .finished pairs
  let pair ← hashPair g
  skipBreaks
  if ← atOperator [","] then
    let _ ← advance
    return .again (pair :: pairs)
  else return .finished (pair :: pairs)

def hash (g : Grammar) : Read Node := do
  let t ← expectOperator "\x7b"
  let pairs ← repeated (hashTurn g) []
  let _ ← expectOperator "\x7d"
  return .hash pairs.reverse (← extentFrom t)

def blockParameterTurn (g : Grammar) (params : List String) :
    Read (Turn (List String) (List String)) := do
  if ← atOperator ["|"] then
    let _ ← advance
    return .finished params
  let t ← advance
  match t.lexeme with
  | .endOfText => fail .endlessBlockParameters
  | .identifier word => return .again (word :: params)
  | .label word =>
    if !(← atOperator [",", "|"]) then
      let _ ← g.ternary false true
    return .again (word :: params)
  | .operator "=" =>
    let _ ← g.ternary false true
    return .again params
  | _ => return .again params

/-- The parameters of a block between bars, if there are any. -/
def blockParameters (g : Grammar) : Read (List String) := do
  skipNewlines
  if ← atOperator ["||"] then
    let _ ← advance
    return []
  else if ← atOperator ["|"] then
    let _ ← advance
    return (← repeated (blockParameterTurn g) []).reverse
  else return []

/-- A call with the block that follows it, if one does. A brace that opens a hash gives the call
one more argument instead. -/
def withBlock (g : Grammar) (call : Call) (start : Nat) (noDo : Bool) : Read Node := do
  if ← atOperator ["\x7b"] then
    if ← atHash then
      let last ← hash g
      let extent : Extent := { call.extent with source := ← sourceFrom start }
      return .call { call with args := .list (call.args.toList ++ [last]), extent }
    else
      let _ ← advance
      let params ← blockParameters g
      let body ← g.statements [] (some "\x7d")
      let _ ← expectOperator "\x7d"
      return .block (.call call) params body
        { line := call.extent.line, source := ← sourceFrom start }
  else if (← atWord ["do"]) && !noDo then
    let _ ← advance
    let params ← blockParameters g
    let body ← g.statements ["end"] none
    let _ ← expectWord "end"
    return .block (.call call) params body
      { line := call.extent.line, source := ← sourceFrom start }
  else return .call call

/-- A call of a method whose name has been taken, with its arguments and its block. -/
def callOf (g : Grammar) (receiver : Option Node) (method : String) (line : Option Int)
    (start : Nat) (command noDo : Bool) : Read Node := do
  let args ←
    if ← atAttached "(" then do
      let _ ← advance
      arguments g (some ")") false
    else if command && (← atCommandArgument) then arguments g none true
    else pure []
  let extent : Extent := { line, source := ← sourceFrom start }
  withBlock g { receiver, method := some method, args := .list args, extent } start noDo

def lambdaParameterTurn (params : List String) : Read (Turn (List String) (List String)) := do
  if ← atOperator [")"] then
    let _ ← advance
    return .finished params
  let t ← advance
  match t.lexeme with
  | .endOfText => fail .endlessLambdaParameters
  | .identifier word | .label word => return .again (word :: params)
  | _ => return .again params

/-- A lambda: a call named for it, with the parameters and the body of its block. -/
def lambda (g : Grammar) : Read Node := do
  let t ← expectOperator "->"
  let params ←
    if ← atOperator ["("] then do
      let _ ← advance
      pure (← repeated lambdaParameterTurn []).reverse
    else pure []
  let call : Call :=
    { receiver := none, method := some "lambda", args := .list []
      extent := { line := some t.line, source := "->" } }
  match ← withBlock g call t.start false with
  | .block call inner body extent =>
    return .block call (if params.isEmpty then inner else params) body extent
  | node => return node

/-- The word `then`, if it comes next, and line breaks. -/
def skipThen : Read Unit := do
  if ← atWord ["then"] then
    let _ ← advance
  skipBreaks

def elsifTurn (g : Grammar) (branches : List (List Node)) :
    Read (Turn (List (List Node)) (List (List Node))) := do
  if ← atWord ["elsif"] then
    let _ ← advance
    let _ ← g.expression true true
    skipThen
    return .again ((← g.statements ["elsif", "else", "end"] none) :: branches)
  else return .finished branches

/-- The branch behind `else`, if there is one, in front of the others. -/
def elseBranch (g : Grammar) (branches : List (List Node)) : Read (List (List Node)) := do
  if ← atWord ["else"] then
    let _ ← advance
    return (← g.statements ["end"] none) :: branches
  else return branches

/-- The end of a compound statement that opened with a token. -/
def compound (t : Token) (keyword : String) (condition : Option Node)
    (branches : List (List Node)) : Read Node := do
  let _ ← expectWord "end"
  return .conditional keyword condition branches.reverse (← extentFrom t)

def ifStatement (g : Grammar) : Read Node := do
  let t ← advance
  let condition ← g.expression true true
  skipThen
  let first ← g.statements ["elsif", "else", "end"] none
  let branches ← repeated (elsifTurn g) [first]
  compound t t.lexeme.written (some condition) (← elseBranch g branches)

def whenTurn (g : Grammar) (branches : List (List Node)) :
    Read (Turn (List (List Node)) (List (List Node))) := do
  if ← atWord ["when", "in"] then
    let _ ← advance
    let _ ← arguments g none true
    skipThen
    return .again ((← g.statements ["when", "in", "else", "end"] none) :: branches)
  else return .finished branches

def caseStatement (g : Grammar) : Read Node := do
  let t ← advance
  let subject ←
    if (← current).lexeme == .newline then pure none
    else pure (some (← g.expression true false))
  skipBreaks
  let branches ← repeated (whenTurn g) []
  compound t "case" subject (← elseBranch g branches)

/-- A loop: a conditional of one branch. -/
def loopStatement (g : Grammar) : Read Node := do
  let t ← advance
  let condition ← g.expression true true
  if ← atWord ["do"] then
    let _ ← advance
  let body ← g.statements ["end"] none
  compound t t.lexeme.written (some condition) [body]

def rescueTurn (g : Grammar) (branches : List (List Node)) :
    Read (Turn (List (List Node)) (List (List Node))) := do
  if ← atWord ["rescue", "else", "ensure"] then
    let t ← advance
    if t.lexeme.isWordOf ["rescue"] then skipLine
    return .again ((← g.statements ["rescue", "else", "ensure", "end"] none) :: branches)
  else return .finished branches

def beginStatement (g : Grammar) : Read Node := do
  let t ← advance
  let first ← g.statements ["rescue", "else", "ensure", "end"] none
  let branches ← repeated (rescueTurn g) [first]
  compound t "begin" none branches

/-- One more of the texts that stand side by side and make one. -/
def textTurn (state : String × Bool) : Read (Turn (String × Bool) (String × Bool)) := do
  let t ← current
  match t.lexeme with
  | .text more =>
    let _ ← advance
    return .again (state.1 ++ more, state.2 || t.dynamic)
  | _ => return .finished state

/-- A word that leaves the surrounding body, with what it hands over. -/
def leaving (g : Grammar) (t : Token) (noDo : Bool) : Read Node := do
  let _ ← advance
  let parts ←
    if ← atAttached "(" then do
      let _ ← advance
      arguments g (some ")") false
    else if ← atCommandArgument then arguments g none noDo
    else pure []
  return .expression parts (← extentFrom t)

/-- What opens with an identifier: a keyword's statement, a call, or a name. -/
def wordOperand (g : Grammar) (t : Token) (word : String) (command noDo : Bool) : Read Node := do
  let plain (kind : LiteralKind) (v : Value) : Read Node := do
    let _ ← advance
    return .literal kind v false { line := some t.line, source := word }
  if word == "nil" then plain .nothing .null
  else if word == "true" then plain .yes (.bool true)
  else if word == "false" then plain .no (.bool false)
  else if word == "self" then
    let _ ← advance
    return nameOf t
  else if word == "if" || word == "unless" then ifStatement g
  else if word == "case" then caseStatement g
  else if word == "while" || word == "until" then loopStatement g
  else if word == "begin" then beginStatement g
  else if ["return", "next", "break", "yield", "super"].contains word then leaving g t noDo
  else if ["def", "class", "module", "for", "alias", "undef"].contains word then
    fail (.unsupported word)
  else if keywords.contains word then fail .strayKeyword
  else
    let _ ← advance
    if (← atAttached "(") || (command && (← atCommandArgument)) then
      callOf g none word (some t.line) t.start command noDo
    else if (← atOperator ["\x7b"]) || ((← atWord ["do"]) && !noDo) then
      callOf g none word (some t.line) t.start command noDo
    else return nameOf t

def operatorOperand (g : Grammar) (t : Token) (op : String) (noDo : Bool) : Read Node := do
  match op with
  | "(" =>
    let _ ← advance
    let body ← g.statements [] (some ")")
    let _ ← expectOperator ")"
    match body with
    | [only] => return only
    | _ => return .expression body (← extentFrom t)
  | "[" =>
    let _ ← advance
    let elements ← arguments g (some "]") false
    return .array elements (← extentFrom t)
  | "\x7b" => hash g
  | "->" => lambda g
  | ".." | "..." =>
    let _ ← advance
    let bound ← g.unary false noDo
    return .expression [bound] (← extentFrom t)
  | _ => fail .strayToken

def literalToken (t : Token) (kind : LiteralKind) : Read Node := do
  let _ ← advance
  return .literal kind t.lexeme.value t.dynamic (← extentFrom t)

/-- A list of words as an array of literals. -/
def wordArray (t : Token) (kind : LiteralKind) (items : List String) : Read Node := do
  let _ ← advance
  let elements := items.map fun w =>
    Node.literal kind (.text w) false { line := some t.line, source := w }
  return .array elements (← extentFrom t)

/-- An operand without signs before it or calls behind it. -/
def operand (g : Grammar) (command noDo : Bool) : Read Node := do
  let t ← current
  match t.lexeme with
  | .identifier word => wordOperand g t word command noDo
  | .constant word =>
    let _ ← advance
    if ← atAttached "(" then callOf g none word (some t.line) t.start command noDo
    else return nameOf t
  | .instanceVariable _ | .globalVariable _ =>
    let _ ← advance
    return nameOf t
  | .text first =>
    let _ ← advance
    let all ← repeated textTurn (first, t.dynamic)
    return .literal .text (.text all.1) all.2 (← extentFrom t)
  | .symbol _ => literalToken t .symbol
  | .integer _ => literalToken t .integer
  | .decimal _ => literalToken t .decimal
  | .words items => wordArray t .text items
  | .symbols items => wordArray t .symbol items
  | .label _ => fail .strayLabel
  | .operator op => operatorOperand g t op noDo
  | .newline | .endOfText => fail .strayToken

/-- A node with the constant that follows it in its name space. -/
def constantIn (scope : Node) (constant : String) (start : Nat) : Read Node := do
  let outer := match scope with
    | .name identifier _ => identifier
    | other => other.source
  return .name (outer ++ "::" ++ constant) { line := scope.line?, source := ← sourceFrom start }

/-- One more link of a chain that opened at an offset: a call, a constant or an index. -/
def chainTurn (g : Grammar) (start : Nat) (command noDo : Bool) (node : Node) :
    Read (Turn Node Node) := do
  if ← atOperator [".", "&."] then
    let _ ← advance
    skipBreaks
    if ← atOperator ["("] then
      return .again (← callOf g (some node) "call" node.line? start command noDo)
    let t ← advance
    match t.lexeme with
    | .identifier word | .constant word =>
      return .again (← callOf g (some node) word node.line? start command noDo)
    | _ => fail .methodName
  else if ← atAttached "::" then
    let _ ← advance
    let t ← advance
    match t.lexeme with
    | .constant word =>
      if ← atAttached "(" then
        return .again (← callOf g (some node) word node.line? start command noDo)
      else return .again (← constantIn node word start)
    | .identifier word =>
      return .again (← callOf g (some node) word node.line? start command noDo)
    | _ => fail .constantOrMethod
  else if ← atAttached "[" then
    let _ ← advance
    let index ← arguments g (some "]") false
    return .again
      (.expression (node :: index) { line := node.line?, source := ← sourceFrom start })
  else return .finished node

/-- An operand with the signs before it and the chain behind it. -/
def unary (g : Grammar) (command noDo : Bool) : Read Node := do
  let t ← current
  if ← atOperator ["!", "-", "+", "~", "*", "**", "&", "::"] then
    let _ ← advance
    let inner ← g.unary command noDo
    return .expression [inner] (← extentFrom t)
  else if ← atWord ["defined?"] then
    let _ ← advance
    let inner ← g.unary false noDo
    return .expression [inner] (← extentFrom t)
  else
    let node ← operand g command noDo
    repeated (chainTurn g t.start command noDo) node

/-- One more operand behind a binary operator. A range may lack its end. -/
def binaryTurn (g : Grammar) (t : Token) (noDo : Bool) (node : Node) : Read (Turn Node Node) := do
  if ← atOperator binaryOperators then
    let op ← advance
    if op.lexeme.isOneOf ["..", "..."] && (← atOperandEnd) then
      return .again (.expression [node] (← extentFrom t))
    else
      let right ← unary g false noDo
      return .again (.expression [node, right] (← extentFrom t))
  else return .finished node

def binary (g : Grammar) (command noDo : Bool) : Read Node := do
  let t ← current
  let first ← unary g command noDo
  repeated (binaryTurn g t noDo) first

/-- A choice between two values, or a binary expression. -/
def ternary (g : Grammar) (command noDo : Bool) : Read Node := do
  let t ← current
  let condition ← binary g command noDo
  if ← atOperator ["?"] then
    let _ ← advance
    let first ← g.ternary false noDo
    skipBreaks
    let next ← current
    let yes ←
      if next.lexeme.isLabel then do
        let _ ← advance
        pure (nameOf next)
      else do
        let _ ← expectOperator ":"
        pure first
    let no ← g.ternary false noDo
    return .expression [condition, yes, no] (← extentFrom t)
  else return condition

/-- An assignment, or what could be its target. -/
def assignment (g : Grammar) (command noDo : Bool) : Read Node := do
  let t ← current
  let target ← ternary g command noDo
  if ← atOperator assignmentOperators then
    let _ ← advance
    let value ← g.expression true noDo
    return .expression [target, value] (← extentFrom t)
  else return target

/-- One more assignment joined by `and` or `or`. -/
def junctionTurn (g : Grammar) (t : Token) (command noDo : Bool) (node : Node) :
    Read (Turn Node Node) := do
  if ← atWord ["and", "or"] then
    let _ ← advance
    skipBreaks
    let right ← assignment g command noDo
    return .again (.expression [node, right] (← extentFrom t))
  else return .finished node

def expression (g : Grammar) (command noDo : Bool) : Read Node := do
  let t ← current
  if ← atWord ["not"] then
    let _ ← advance
    let inner ← g.expression command noDo
    return .expression [inner] (← extentFrom t)
  else
    let first ← assignment g command noDo
    repeated (junctionTurn g t command noDo) first

def targetTurn (g : Grammar) (targets : List Node) : Read (Turn (List Node) (List Node)) := do
  if ← atOperator [","] then
    let _ ← advance
    return .again ((← unary g false false) :: targets)
  else return .finished targets

/-- An assignment to several targets, of which the first has been read. -/
def multipleAssignment (g : Grammar) (t : Token) (first : Node) : Read Node := do
  let targets ← repeated (targetTurn g) [first]
  let _ ← expectOperator "="
  skipBreaks
  let values ← arguments g none false
  return .expression (targets.reverse ++ values) (← extentFrom t)

/-- One more trailing modifier. Conditions make a conditional, other modifiers an expression. -/
def modifierTurn (g : Grammar) (t : Token) (node : Node) : Read (Turn Node Node) := do
  if ← atWord ["if", "unless", "while", "until", "rescue"] then
    let keyword ← advance
    let condition ← expression g true false
    if keyword.lexeme.isWordOf ["if", "unless"] then
      return .again
        (.conditional keyword.lexeme.written (some condition) [[node]] (← extentFrom t))
    else return .again (.expression [node, condition] (← extentFrom t))
  else return .finished node

def statement (g : Grammar) : Read Node := do
  let t ← current
  let first ← expression g true false
  let node ←
    if ← atOperator [","] then multipleAssignment g t first
    else pure first
  repeated (modifierTurn g t) node

/-- One more statement, the latest first. A stray handler inside a body that an `end` closes is
passed over with its line. -/
def statementTurn (g : Grammar) (closingWords : List String) (closingOperator : Option String)
    (body : List Node) : Read (Turn (List Node) (List Node)) := do
  skipBreaks
  let t ← current
  if t.lexeme == .endOfText then
    if !closingWords.isEmpty || closingOperator.isSome then fail .endOfTemplate
    else return .finished body
  else if (← atClosing closingOperator) || t.lexeme.isWordOf closingWords then
    return .finished body
  else if t.lexeme.isWordOf ["rescue", "ensure"] && closingWords.contains "end" then
    skipLine
    return .again body
  else
    let node ← statement g
    let next ← current
    let ends := match next.lexeme with
      | .newline | .endOfText => true
      | .operator op => op == ";" || op == "\x7d" || closingOperator == some op
      | .identifier word => closingWords.contains word
      | _ => false
    if ends then return .again (node :: body) else fail .endOfStatement

/-- Statements up to a closing word or operator, or to the end of the text. -/
def statements (g : Grammar) (closingWords : List String) (closingOperator : Option String) :
    Read (List Node) := do
  return (← repeated (statementTurn g closingWords closingOperator) []).reverse

end Read

/-- The grammar, good for texts of fewer tokens than its depth. -/
def grammar : Nat → Grammar
  | 0 =>
    { statements := fun _ _ => Read.exhausted
      expression := fun _ _ => Read.exhausted
      ternary := fun _ _ => Read.exhausted
      unary := fun _ _ => Read.exhausted }
  | depth + 1 =>
    { statements := fun words op => Read.statements (grammar depth) words op
      expression := fun command noDo => Read.expression (grammar depth) command noDo
      ternary := fun command noDo => Read.ternary (grammar depth) command noDo
      unary := fun command noDo => Read.unary (grammar depth) command noDo }

/-- Read all tokens of a scanned template as statements. -/
def Scanning.template (s : Scanning) (text : List Char) : Except Fault Template := do
  let source : Source := { text, eof := s.eof }
  let depth := s.tokens.length + 1
  let (body, c) ← (Read.statements (grammar depth) [] none) source { tokens := s.tokens }
  match c.tokens with
  | [] => return { body, comments := { entries := s.comments, trailing := s.trailing } }
  | t :: _ => .error (.grammar .strayToken t.lexeme t.line)

def read (text : List Char) : Except Fault Template := do (← scan text).template text

end ViewSchema.Template
