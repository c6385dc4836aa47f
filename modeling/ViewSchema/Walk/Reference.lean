import ViewSchema.Walk.Account

/-!
What a call says about the partial template it includes: its name, and the values that it binds
inside, by how they are written. Options come from the first hash among the arguments.
-/

namespace ViewSchema.Template.Invocation

def optionKeys : List String :=
  ["partial", "locals", "as", "collection", "cached", "object", "spacer_template"]

/-- The options of a call: the pairs of the first hash among its arguments. -/
def options? (i : Invocation) : Option (List (Node × Node)) := i.args.findSome? Node.hashPairs?

def option? (i : Invocation) (key : String) : Option Node := i.options?.bind (pairValue? key)

/-- The name of the partial template, when it is written as a plain text. -/
def partialName? (i : Invocation) : Option String :=
  let first := if i.method == "partial!" then i.args.head?.bind Node.staticText? else none
  first.or ((i.option? "partial").bind Node.staticText?)

def sourceOf (n : Node) : Except Failure String :=
  match n.extent? with
  | some extent => .ok extent.source
  | none => .error .sourceless

/-- Bind the values of the pairs whose keys are plain texts passing the test. -/
def bindPairs (test : String → Bool) (bound : Record) :
    List (Node × Node) → Except Failure Record
  | [] => .ok bound
  | (key, value) :: rest =>
    match key.staticText? with
    | some name =>
      if test name then do
        bindPairs test (bound.insert name (.text (← sourceOf value))) rest
      else bindPairs test bound rest
    | none => bindPairs test bound rest

/-- What is iterated over: an option, or the first argument of a call that is no plain inclusion. -/
def collection? (i : Invocation) : Option Node :=
  (i.option? "collection").or
    (if i.method == "partial!" then none
    else i.args.head?.bind fun first =>
      if first.hashPairs?.isSome then none else first.present?)

/-- The values bound inside the partial template: the local values, then the other options, then
the name of the item. -/
def bindings (i : Invocation) : Except Failure Record :=
  match i.options? with
  | none => .ok []
  | some pairs => do
    let locals := ((i.option? "locals").bind Node.hashPairs?).getD []
    let bound ← bindPairs (fun _ => true) [] locals
    let bound ← bindPairs (fun name => !optionKeys.contains name) bound pairs
    match (i.option? "as").bind Node.staticText?, i.collection? with
    | some name, some collection => return bound.insert name (.text (← sourceOf collection))
    | _, _ => return bound

end ViewSchema.Template.Invocation
