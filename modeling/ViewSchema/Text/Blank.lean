/-!
Blank characters, and the operations that cut text at them. A text is handled as the list of its
code points.
-/

namespace ViewSchema.Text

/-- White space of any script, together with the four information separators U+001C to U+001F
and the next-line control. -/
def isBlank (c : Char) : Bool :=
  let n := c.toNat
  (9 ≤ n && n ≤ 13) || (28 ≤ n && n ≤ 32) || n == 0x85 || n == 0xa0 || n == 0x1680 ||
    (0x2000 ≤ n && n ≤ 0x200a) || n == 0x2028 || n == 0x2029 || n == 0x202f || n == 0x205f ||
    n == 0x3000

/-- The text from its first character that fails the test on. -/
def trimStart (test : Char → Bool) (text : List Char) : List Char := text.dropWhile test

/-- The text up to its last character that fails the test. -/
def trimEnd (test : Char → Bool) : List Char → List Char
  | [] => []
  | c :: rest =>
    match trimEnd test rest with
    | [] => if test c then [] else [c]
    | kept => c :: kept

/-- The text without the characters passing the test at either end. -/
def trimBy (test : Char → Bool) (text : List Char) : List Char := trimEnd test (trimStart test text)

def trim (text : List Char) : List Char := trimBy isBlank text

/-- The pieces between the characters passing the test, empty ones included: always one more
piece than there are such characters. -/
def pieces (test : Char → Bool) : List Char → List (List Char)
  | [] => [[]]
  | c :: rest =>
    if test c then [] :: pieces test rest
    else
      match pieces test rest with
      | [] => [[c]]
      | first :: others => (c :: first) :: others

/-- The non-empty pieces between the characters passing the test. -/
def fields (test : Char → Bool) (text : List Char) : List (List Char) :=
  (pieces test text).filter fun piece => !piece.isEmpty

/-- The words of a text: its non-empty pieces between blanks. -/
def words (text : List Char) : List (List Char) := fields isBlank text

def join (separator : List Char) : List (List Char) → List Char
  | [] => []
  | [piece] => piece
  | piece :: others => piece ++ separator ++ join separator others

/-- The second list is a beginning of the first; what follows it. -/
def after? : List Char → List Char → Option (List Char)
  | [], text => some text
  | _ :: _, [] => none
  | c :: head, d :: text => if c == d then after? head text else none

/-- The text before the first place where `mark` occurs, and the text that follows the mark
there. -/
def cutAt? (mark : List Char) : List Char → Option (List Char × List Char)
  | [] => if mark.isEmpty then some ([], []) else none
  | c :: rest =>
    match after? mark (c :: rest) with
    | some tail => some ([], tail)
    | none => (cutAt? mark rest).map fun found => (c :: found.1, found.2)

/-- The text ends with `tail`. -/
def endsWith (text tail : List Char) : Bool := tail.reverse.isPrefixOf text.reverse

end ViewSchema.Text
