import ViewSchema.Template.Lexer

/-!
Scanning a template from left to right into tokens and comments. A comment is kept by the line it
stands on, without the blanks around it; it trails when something other than blanks stands before
it on its line.

A line break makes a token only where a statement can end: not inside round or square brackets,
not behind a line without tokens, not behind an operator, word or label that asks for more, and not
before a line that opens with a dot. The texts of heredocs lie behind the line break that follows
them and are passed over.
-/

namespace ViewSchema.Template

open Text

/-- The state of scanning. Lists that grow hold the latest first. -/
structure Scan where
  /-- What has been read, the last character first. -/
  before : List Char := []
  ahead : List Char
  position : Nat := 0
  line : Nat := 1
  spaced : Bool := true
  tokens : List Token := []
  comments : List (Nat × String) := []
  trailing : List Nat := []
  brackets : List Char := []
  /-- Marks of the heredocs whose texts are still to come, in order. -/
  heredocs : List String := []

namespace Scan

def consume (s : Scan) (count : Nat) : Scan :=
  { s with
    before := (s.ahead.take count).reverse ++ s.before
    ahead := s.ahead.drop count
    position := s.position + count }

def last (s : Scan) : Option Lexeme := s.tokens.head?.map Token.lexeme

def atLineStart (s : Scan) : Bool := s.before.head?.all (· == '\n')

/-- Put a comment under its line, in place of an earlier one on that line. -/
def putComment (comments : List (Nat × String)) (line : Nat) (text : String) :
    List (Nat × String) :=
  (line, text) :: comments.filter fun c => c.1 != line

/-- Read a comment up to the end of its line. -/
def comment (s : Scan) : Scan :=
  let text := s.ahead.takeWhile (· != '\n')
  let trails := (s.before.takeWhile (· != '\n')).any (!isBlank ·)
  { s.consume text.length with
    comments := putComment s.comments s.line (String.ofList (trim text))
    trailing := if trails && !s.trailing.contains s.line then s.line :: s.trailing else s.trailing }

/-- What follows the opening of a block comment up to the end of its last line, if it has one. -/
def blockComment? (s : Scan) : Option Scan :=
  (cutAt? "\n=end".toList s.ahead).map fun found =>
    let length := found.1.length + 5 + (found.2.takeWhile (· != '\n')).length
    { s.consume length with line := s.line + found.1.count '\n' + 1 }

/-- The next lines, if they open with a dot after blanks and comments, go on with the statement.
The flag says that a comment is being passed over. -/
def opensWithDot : Bool → List Char → Bool
  | _, [] => false
  | true, c :: rest => opensWithDot (c != '\n') rest
  | false, c :: rest =>
    if c == ' ' || c == '\t' || c == '\r' || c == '\n' then opensWithDot false rest
    else if c == '#' then opensWithDot true rest
    else if c == '&' then rest.head? == some '.'
    else c == '.' && rest.head? != some '.'

/-- The lines of a text. A last line without a line break counts if it is not empty. -/
def textLines (text : List Char) : List (List Char) :=
  let found := pieces (· == '\n') text
  if found.getLast? == some [] then found.dropLast else found

/-- How many lines the texts of heredocs take; each ends with the line that holds its mark. When a
mark is missing, that mark and the lines there are. -/
def heredocLines : List String → List (List Char) → Except (String × Nat) Nat
  | [], _ => .ok 0
  | mark :: _, [] => .error (mark, 0)
  | mark :: others, line :: rest =>
    let ends := String.ofList (trim line) == mark
    match heredocLines (if ends then others else mark :: others) rest with
    | .ok count => .ok (count + 1)
    | .error (missing, count) => .error (missing, count + 1)

/-- How many characters the first lines of a text take. -/
def lengthOfLines (text : List Char) (count : Nat) : Nat :=
  min text.length (((textLines text).take count).foldl (fun n l => n + l.length + 1) 0)

def heredocTexts (s : Scan) : Except Fault Scan :=
  if s.heredocs.isEmpty then .ok s
  else match heredocLines s.heredocs (textLines s.ahead) with
  | .error (mark, count) => .error (.scan (.endlessHeredoc mark) (s.line + count))
  | .ok count =>
    .ok
      { s.consume (lengthOfLines s.ahead count) with
        line := s.line + count
        heredocs := [] }

/-- A statement can end where scanning stands, at the start of a line. -/
def canEndStatement (s : Scan) : Bool :=
  !(s.brackets.head?.any fun c => c == '(' || c == '[') &&
    (match s.last with
      | none | some .newline => false
      | some lexeme => !lexeme.continues) &&
    !opensWithDot false s.ahead

def lineBreak (s : Scan) : Except Fault Scan := do
  let s := { s.consume 1 with line := s.line + 1, spaced := true }
  let s ← s.heredocTexts
  if s.canEndStatement then
    let token : Token :=
      { lexeme := .newline, line := s.line, start := s.position - 1, stop := s.position }
    return { s with tokens := token :: s.tokens }
  else return s

def nested (brackets : List Char) (op : String) : Except ScanFault (List Char) :=
  match op with
  | "(" => .ok ('(' :: brackets)
  | "[" => .ok ('[' :: brackets)
  | "\x7b" => .ok ('\x7b' :: brackets)
  | ")" => close '(' ')'
  | "]" => close '[' ']'
  | "\x7d" => close '\x7b' '\x7d'
  | _ => .ok brackets
where
  /-- Close the innermost bracket. -/
  close (opener closer : Char) : Except ScanFault (List Char) :=
    match brackets with
    | c :: rest => if c == opener then .ok rest else .error (.unbalanced closer)
    | [] => .error (.unbalanced closer)

def token (s : Scan) (first : Char) (rest : List Char) : Except Fault Scan :=
  match Lexer.token s.last s.spaced first rest with
  | .error (none, _) => .error .longInteger
  | .error (some fault, lines) => .error (.scan fault (s.line + lines))
  | .ok found =>
    let brackets := match found.lexeme with
      | .operator op => nested s.brackets op
      | _ => .ok s.brackets
    match brackets with
    | .error fault => .error (.scan fault s.line)
    | .ok brackets =>
      let line := s.line + found.lines
      let token : Token :=
        { lexeme := found.lexeme
          line
          start := s.position
          stop := s.position + found.more + 1
          spaced := s.spaced
          dynamic := found.dynamic }
      .ok
        { s.consume (found.more + 1) with
          line
          spaced := false
          tokens := token :: s.tokens
          brackets
          heredocs := s.heredocs ++ found.heredoc.toList }

/-- Scan on by one step, with at least one character to come; none when the template ends here. -/
def next (s : Scan) (first : Char) (rest : List Char) : Except Fault (Option Scan) :=
  if first == ' ' || first == '\t' || first == '\r' then
    .ok (some { s.consume 1 with spaced := true })
  else if first == '\\' && rest.head? == some '\n' then
    .ok (some { s.consume 2 with line := s.line + 1, spaced := true })
  else if first == '\n' then s.lineBreak.map some
  else if first == '#' then .ok (some s.comment)
  else if s.atLineStart && "=begin".toList.isPrefixOf s.ahead then
    match s.blockComment? with
    | some t => .ok (some t)
    | none => .error (.scan .endlessComment s.line)
  else if s.atLineStart && "__END__".toList.isPrefixOf s.ahead then .ok none
  else (s.token first rest).map some

@[simp] theorem ahead_consume (s : Scan) (count : Nat) :
    (s.consume count).ahead = s.ahead.drop count := rfl

theorem length_heredocTexts {s t : Scan} (h : s.heredocTexts = .ok t) :
    t.ahead.length ≤ s.ahead.length := by
  unfold heredocTexts at h
  split at h
  · cases h
    exact Nat.le_refl _
  · split at h
    · cases h
    · cases h
      simp

theorem length_lineBreak {s t : Scan} (h : s.lineBreak = .ok t) :
    t.ahead.length ≤ s.ahead.length - 1 := by
  simp only [lineBreak, bind, Except.bind] at h
  split at h
  · cases h
  · rename_i u hu
    have shorter := length_heredocTexts hu
    simp only [ahead_consume, List.length_drop] at shorter
    split at h <;> cases h <;> exact shorter

theorem length_token {s t : Scan} {first : Char} {rest : List Char}
    (h : s.token first rest = .ok t) : t.ahead.length ≤ s.ahead.length - 1 := by
  simp only [token] at h
  split at h
  · cases h
  · cases h
  · split at h
    · cases h
    · cases h
      simp only [ahead_consume, List.length_drop]
      omega

/-- Every step reads at least one character. -/
theorem length_next {s t : Scan} {first : Char} {rest : List Char}
    (hs : s.ahead = first :: rest) (h : s.next first rest = .ok (some t)) :
    t.ahead.length < s.ahead.length := by
  have positive : 0 < s.ahead.length := by simp [hs]
  simp only [next] at h
  split at h
  · cases h
    simp only [ahead_consume, List.length_drop]
    omega
  split at h
  · cases h
    simp only [ahead_consume, List.length_drop]
    omega
  split at h
  · cases hu : s.lineBreak with
    | error fault => simp [hu, Except.map] at h
    | ok u =>
      obtain rfl : u = t := by simpa [hu, Except.map] using h
      have shorter := length_lineBreak hu
      omega
  split at h
  · rename_i hash
    cases h
    have noBreak : (first != '\n') = true := by
      obtain rfl : first = '#' := by simpa using hash
      decide
    simp only [comment, ahead_consume, hs, List.takeWhile_cons, noBreak, if_true, List.length_cons,
      List.length_drop]
    omega
  split at h
  · split at h
    · rename_i u hu
      obtain rfl : u = t := by simpa using h
      obtain ⟨found, -, rfl⟩ := Option.map_eq_some_iff.1 hu
      simp only [ahead_consume, List.length_drop]
      omega
    · cases h
  split at h
  · cases h
  · cases hu : s.token first rest with
    | error fault => simp [hu, Except.map] at h
    | ok u =>
      obtain rfl : u = t := by simpa [hu, Except.map] using h
      have shorter := length_token hu
      omega

def run (s : Scan) : Except Fault Scan :=
  match _ahead : s.ahead with
  | [] => .ok s
  | first :: rest =>
    match _next : s.next first rest with
    | .error fault => .error fault
    | .ok none => .ok s
    | .ok (some t) => run t
termination_by s.ahead.length
decreasing_by exact length_next _ahead _next

def start (text : List Char) : Scan := { ahead := text }

end Scan

/-- The tokens and comments of a template. -/
structure Scanning where
  /-- All tokens up to the last line break, which scanning adds. -/
  tokens : List Token
  /-- The end of the text. -/
  eof : Token
  comments : List (Nat × String)
  /-- Lines whose comment trails. -/
  trailing : List Nat

/-- Close scanning: a line break and the end of the text follow the last token. -/
def Scan.finish (s : Scan) : Except Fault Scanning :=
  match s.brackets with
  | c :: _ => .error (.scan (.unclosed c) s.line)
  | [] =>
    let mark (lexeme : Lexeme) : Token :=
      { lexeme, line := s.line, start := s.position, stop := s.position }
    .ok
      { tokens := (mark .newline :: s.tokens).reverse
        eof := mark .endOfText
        comments := s.comments.reverse
        trailing := s.trailing.reverse }

def scan (text : List Char) : Except Fault Scanning := (Scan.start text).run >>= Scan.finish

end ViewSchema.Template
