/-!
# Namespaces and keys

Every entry of a store is found under a namespace, which is a list of parts, and a name. Namespaces
are compared part by part; how they are shown plays no role in telling them apart.
-/

namespace TimedInvocation

/-- A partition of the entries of a store. -/
structure Namespace where
  parts : List String
  deriving DecidableEq

namespace Namespace

def global : Namespace :=
  ⟨[]⟩

def append (n : Namespace) (part : String) : Namespace :=
  ⟨n.parts ++ [part]⟩

def describe (n : Namespace) : String :=
  if n.parts.isEmpty then "global namespace" else "namespace `" ++ "/".intercalate n.parts ++ "`"

/-- The order of two lists of parts: by the first part in which they differ, a list before every
longer list that starts with it. -/
def compareParts : List String → List String → Ordering
  | [], [] => .eq
  | [], _ :: _ => .lt
  | _ :: _, [] => .gt
  | a :: as, b :: bs => if a < b then .lt else if a = b then compareParts as bs else .gt

def compare (m n : Namespace) : Ordering :=
  compareParts m.parts n.parts

end Namespace

/-- The place of an entry within a store. -/
structure Key where
  scope : Namespace
  name : String
  deriving DecidableEq

def Key.describe (k : Key) : String :=
  "`" ++ k.name ++ "` in " ++ k.scope.describe

end TimedInvocation
