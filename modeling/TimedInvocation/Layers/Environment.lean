import TimedInvocation.Layers.Node

/-!
# The environment as a layer

Environment variables whose names start with `PROCTOR_`, in any case, set the keys that their names
turn into: in lower case and with a dot in place of each underscore. Their values are texts.
-/

namespace TimedInvocation.Layers

/-- Environment variables: those of the process, in the order in which they were set, or given ones,
which are taken in the order of their names. -/
inductive Environment where
  | process (bindings : List (String × String))
  | given (bindings : List (String × String))

namespace Environment

/-- The lower case of a letter, as far as it leads to ASCII: the Kelvin sign counts as a `k`. Keys
with other characters lead nowhere, so that their case does not matter. -/
def lowerLetter (c : Char) : Char :=
  if c = '\u212a' then 'k' else c.toLower

/-- What the names of variables start with, in lower case. -/
def start : String := "proctor_"

/-- The key that a variable sets, if it sets one. -/
def keyOf? (name : String) : Option String :=
  let lowered := name.toList.map lowerLetter
  if start.toList.isPrefixOf lowered then
    some (String.ofList (lowered.map fun c => if c = '_' then '.' else c))
  else none

/-- The variables with one of them set, in the place that it had. -/
def set (name value : String) : List (String × String) → List (String × String)
  | [] => [(name, value)]
  | (other, old) :: rest =>
    if other = name then (name, value) :: rest else (other, old) :: set name value rest

/-- The variables, ordered by name, with one of them set. -/
def setSorted (name value : String) : List (String × String) → List (String × String)
  | [] => [(name, value)]
  | (other, old) :: rest =>
    if other = name then (name, value) :: rest
    else if name < other then (name, value) :: (other, old) :: rest
    else (other, old) :: setSorted name value rest

/-- The variables, each of them once, with the value that it was given last. -/
def bindings : Environment → List (String × String)
  | process list => list.foldl (fun known (name, value) => set name value known) []
  | given list => list.foldl (fun known (name, value) => setSorted name value known) []

/-- The layer of some variables. Of several variables for a key the last one counts. -/
def layerOf (bindings : List (String × String)) : List (String × Node) :=
  bindings.foldl (fun layer (name, value) =>
    match keyOf? name with
    | none => layer
    | some key => Node.putMember key (.text value) layer) []

def layer (environment : Environment) : List (String × Node) :=
  layerOf environment.bindings

end Environment

end TimedInvocation.Layers
