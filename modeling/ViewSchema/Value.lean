import ViewSchema.Number.Double
import ViewSchema.Number.Shortest
import ViewSchema.Text.Quoted

/-!
Values of open type: what an author may write in a comment, and what a schema is made of. A
record is a list of entries in the order of their first insertion. Two values are the same when
they agree up to the order of record entries and the kind of number, true being one and false
zero.
-/

namespace ViewSchema

/-- A value. -/
inductive Value where
  | null
  | bool (b : Bool)
  | int (n : Int)
  | float (d : Double)
  | text (s : String)
  | list (items : List Value)
  | map (entries : List (String × Value))
  deriving Repr, Inhabited

/-- Named values in the order of their first insertion. -/
abbrev Record := List (String × Value)

namespace Record

def find? (r : Record) (key : String) : Option Value := r.lookup key

/-- The value under a key, null when there is none. -/
def get (r : Record) (key : String) : Value := (r.find? key).getD .null

def has (r : Record) (key : String) : Bool := (r.find? key).isSome

/-- Put a value under a key: in the key's place when it has one, else at the end. -/
def insert : Record → String → Value → Record
  | [], key, v => [(key, v)]
  | (k, w) :: rest, key, v =>
    if k == key then (k, v) :: rest else (k, w) :: insert rest key v

/-- The record of a list of entries, inserted one by one. -/
def ofEntries (entries : List (String × Value)) : Record :=
  entries.foldl (fun r e => insert r e.1 e.2) []

/-- The keys, in order. -/
def keys (r : Record) : List String := r.map Prod.fst

end Record

namespace Value

/-- The value is neither null, false, a zero nor empty. -/
def isTruthy : Value → Bool
  | .null => false
  | .bool b => b
  | .int n => n != 0
  | .float d => !d.isZero
  | .text s => s != ""
  | .list items => !items.isEmpty
  | .map entries => !entries.isEmpty

def number? : Value → Option Double
  | .bool b => some (.ofInt (if b then 1 else 0))
  | .int n => some (.ofInt n)
  | .float d => some d
  | _ => none

/-- Numbers of equal value. -/
def sameNumber (a b : Value) : Bool :=
  match a.number?, b.number? with
  | some x, some y => x.sameValue y
  | _, _ => false

mutual

/-- Equality up to the order of record entries and the kind of number. -/
def same : Value → Value → Bool
  | .null, .null => true
  | .text s, .text t => s == t
  | .list xs, .list ys => sameItems xs ys
  | .map xs, .map ys => xs.length == ys.length && sameEntries xs ys
  | .bool a, b => sameNumber (.bool a) b
  | .int a, b => sameNumber (.int a) b
  | .float a, b => sameNumber (.float a) b
  | _, _ => false

/-- Lists of the same length whose items are the same one by one. -/
def sameItems : List Value → List Value → Bool
  | [], [] => true
  | x :: xs, y :: ys => same x y && sameItems xs ys
  | _, _ => false

/-- Every entry has its counterpart in the other record. -/
def sameEntries : List (String × Value) → List (String × Value) → Bool
  | [], _ => true
  | (key, x) :: xs, ys =>
    (match ys.lookup key with
      | some y => same x y
      | none => false) && sameEntries xs ys

end

mutual

/-- A value as it is shown inside a list or a record: texts in quotes. -/
def shown : Value → List Char
  | .null => "None".toList
  | .bool true => "True".toList
  | .bool false => "False".toList
  | .int n => (toString n).toList
  | .float d => d.text
  | .text s => Text.quoted s.toList
  | .list items => '[' :: (shownItems items ++ [']'])
  | .map entries => '\x7b' :: (shownEntries entries ++ ['\x7d'])

/-- Items with a comma and a space between each two. -/
def shownItems : List Value → List Char
  | [] => []
  | [x] => shown x
  | x :: y :: rest => shown x ++ ',' :: ' ' :: shownItems (y :: rest)

/-- Entries with a comma and a space between each two. -/
def shownEntries : List (String × Value) → List Char
  | [] => []
  | [(key, x)] => Text.quoted key.toList ++ ':' :: ' ' :: shown x
  | (key, x) :: e :: rest =>
    Text.quoted key.toList ++ ':' :: ' ' :: shown x ++ ',' :: ' ' :: shownEntries (e :: rest)

end

mutual

/-- The value with an origin for each not-a-number in it that has none yet. -/
def withOrigin (origin : Nat) : Value → Value
  | .float d => .float (d.withOrigin origin)
  | .list items => .list (itemsWithOrigin origin items)
  | .map entries => .map (entriesWithOrigin origin entries)
  | v => v

def itemsWithOrigin (origin : Nat) : List Value → List Value
  | [] => []
  | x :: rest => withOrigin origin x :: itemsWithOrigin origin rest

/-- Entries with an origin for each not-a-number. -/
def entriesWithOrigin (origin : Nat) : List (String × Value) → List (String × Value)
  | [] => []
  | (key, x) :: rest => (key, withOrigin origin x) :: entriesWithOrigin origin rest

end

/-- A value as text: a text stands for itself, anything else is shown. -/
def asText : Value → String
  | .text s => s
  | v => String.ofList v.shown

/-- A text, or null when there is none. -/
def ofText? : Option String → Value
  | some s => .text s
  | none => .null

/-- A number, or null when there is none. -/
def ofInt? : Option Int → Value
  | some n => .int n
  | none => .null

def text? : Value → Option String
  | .text s => some s
  | _ => none

end Value
end ViewSchema
