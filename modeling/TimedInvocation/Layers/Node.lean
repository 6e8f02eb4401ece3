import TimedInvocation.Number.Binary64

/-!
# Layered values

What a layer holds: a tree of tables and lists with scalars at its leaves. Only scalars have a text.
-/

namespace TimedInvocation.Layers

/-- A value of a layer. A table lists its members in the order in which they were added. -/
inductive Node where
  | absent
  | boolean (b : Bool)
  | integer (n : Int)
  | float (x : Binary64)
  | text (s : String)
  | list (items : List Node)
  | table (members : List (String × Node))

namespace Node

def text? : Node → Option String
  | boolean b => some (toString b)
  | integer n => some (toString n)
  | float x => some x.text
  | text s => some s
  | absent | list _ | table _ => none

/-- The members of a table; anything else has none. -/
def members : Node → List (String × Node)
  | table members => members
  | _ => []

/-- The items of a list; anything else has none. -/
def items : Node → List Node
  | list items => items
  | _ => []

def member? (node : Node) (name : String) : Option Node :=
  node.members.lookup name

/-- A list of members with the one of a name replaced, or with a new one at the end. -/
def putMember (name : String) (node : Node) : List (String × Node) → List (String × Node)
  | [] => [(name, node)]
  | (other, old) :: rest =>
    if other = name then (name, node) :: rest else (other, old) :: putMember name node rest

/-- The table with a member replaced or added. Anything that is no table is replaced by one. -/
def withMember (node : Node) (name : String) (member : Node) : Node :=
  table (putMember name member node.members)

/-- The place in a list of a length that an index means, counted from the end if it is negative:
either a place, which may lie beyond the end, or how many items are missing at the front. -/
def place (index : Int) (length : Nat) : Nat ⊕ Nat :=
  if 0 ≤ index then .inl index.toNat
  else if (-index).toNat ≤ length then .inl (length - (-index).toNat)
  else .inr ((-index).toNat - length)

def item? (node : Node) (index : Int) : Option Node :=
  match place index node.items.length with
  | .inl i => node.items[i]?
  | .inr _ => none

/-- The list with room at an index, and the place of the index in it. Anything that is no list is
replaced by one; missing items are absent values. -/
def withRoom (node : Node) (index : Int) : List Node × Nat :=
  match place index node.items.length with
  | .inl i => (node.items ++ List.replicate (i + 1 - node.items.length) absent, i)
  | .inr missing => (List.replicate missing absent ++ node.items, 0)

end Node

end TimedInvocation.Layers
