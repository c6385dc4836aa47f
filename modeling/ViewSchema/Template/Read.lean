import ViewSchema.Template.Fault
import ViewSchema.Template.Node

/-!
Reading a list of tokens: where reading stands, the steps that look at the next tokens and take
them, and repetition. The end of the text is no token of the list; it is what one finds when the
list is used up, and it cannot be taken.
-/

namespace ViewSchema.Template

/-- What is read: the text, for the sources of nodes, and the token at its end. -/
structure Source where
  text : List Char
  eof : Token

/-- Where reading stands. -/
structure Cursor where
  /-- The tokens to come. -/
  tokens : List Token
  /-- The end of the latest token that is not a line break. -/
  lastEnd : Nat := 0

namespace Cursor

def behindNext (c : Cursor) (eof : Token) : Cursor :=
  match c.tokens with
  | [] => { c with lastEnd := eof.stop }
  | t :: rest => { tokens := rest, lastEnd := if t.lexeme == .newline then c.lastEnd else t.stop }

def behindBreaks : List Token → Nat → Cursor
  | [], lastEnd => { tokens := [], lastEnd }
  | t :: rest, lastEnd =>
    match t.lexeme with
    | .newline => behindBreaks rest lastEnd
    | .operator ";" => behindBreaks rest t.stop
    | _ => { tokens := t :: rest, lastEnd }

def behindNewlines (c : Cursor) : Cursor :=
  { c with tokens := c.tokens.dropWhile fun t => t.lexeme == .newline }

def atLineEnd : List Token → Nat → Cursor
  | [], lastEnd => { tokens := [], lastEnd }
  | t :: rest, lastEnd =>
    if t.lexeme == .newline then { tokens := t :: rest, lastEnd } else atLineEnd rest t.stop

end Cursor

/-- A step of reading. -/
abbrev Read := ReaderT Source (StateT Cursor (Except Fault))

namespace Read

def current : Read Token := fun s c => .ok (c.tokens.headD s.eof, c)

def peek (offset : Nat) : Read Token := fun s c => .ok ((c.tokens.drop offset).headD s.eof, c)

def advance : Read Token := fun s c => .ok (c.tokens.headD s.eof, c.behindNext s.eof)

def fail {α : Type} (fault : GrammarFault) : Read α := fun s c =>
  let t := c.tokens.headD s.eof
  .error (.grammar fault t.lexeme t.line)

def exhausted {α : Type} : Read α := fun _ _ => .error .exhausted

def atOperator (ops : List String) : Read Bool := return (← current).lexeme.isOneOf ops

def atWord (words : List String) : Read Bool := return (← current).lexeme.isWordOf words

/-- The next token is the operator, with nothing between it and the token before. -/
def atAttached (op : String) : Read Bool := do
  let t ← current
  return t.lexeme.isOperator op && !t.spaced

def expectOperator (op : String) : Read Token := do
  if ← atOperator [op] then advance else fail (.expected op)

def expectWord (word : String) : Read Token := do
  if ← atWord [word] then advance else fail (.expected word)

/-- Take all line breaks and semicolons that come next. -/
def skipBreaks : Read Unit := fun _ c => .ok ((), Cursor.behindBreaks c.tokens c.lastEnd)

def skipNewlines : Read Unit := fun _ c => .ok ((), c.behindNewlines)

/-- Take all tokens up to the next line break. -/
def skipLine : Read Unit := fun _ c => .ok ((), Cursor.atLineEnd c.tokens c.lastEnd)

/-- The text from an offset to the end of the latest token. -/
def sourceFrom (start : Nat) : Read String := fun s c =>
  .ok (String.ofList ((s.text.drop start).take (c.lastEnd - start)), c)

/-- The extent of what was read from a token on. -/
def extentFrom (t : Token) : Read Extent :=
  return { line := some t.line, source := ← sourceFrom t.start }

/-- What a repeated step came to. -/
inductive Turn (σ β : Type) where
  | again (state : σ)
  | finished (result : β)

/-- Repeat a step, at most so many times. -/
def turns {σ β : Type} (step : σ → Read (Turn σ β)) : Nat → σ → Read β
  | 0, _ => exhausted
  | count + 1, state => do
    match ← step state with
    | .again next => turns step count next
    | .finished result => return result

/-- Repeat a step until it finishes. A step that does not finish takes a token, so there are at
most as many such steps as tokens. -/
def repeated {σ β : Type} (step : σ → Read (Turn σ β)) (state : σ) : Read β := fun s c =>
  turns step (c.tokens.length + 1) state s c

end Read
end ViewSchema.Template
