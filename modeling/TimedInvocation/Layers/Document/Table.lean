import TimedInvocation.Layers.Node

/-!
# Tables of a document

A table of a document comes about in one of four ways, which decide what may still be added to it. A
table with a header of its own, or within braces, is complete where it is written; one that only
stands on the way to a header may get a header or dotted keys later; one that dotted keys have made,
or added to, may only get further dotted keys.
-/

namespace TimedInvocation.Layers.Document

/-- How a table came about. -/
inductive Style where
  | explicit
  | implicit
  | dotted
  | inline
  deriving DecidableEq

/-- A part of a document. -/
inductive Item where
  | scalar (node : Node)
  | array (items : List Item)
  | tables (items : List Item)
  | table (style : Style) (members : List (String × Item))

/-- Named items, in the order in which they were added. -/
abbrev Members := List (String × Item)

namespace Members

def replace (members : Members) (name : String) (item : Item) : Members :=
  members.map fun member => if member.1 = name then (name, item) else member

def erase (members : Members) (name : String) : Members :=
  members.filter fun member => member.1 ≠ name

end Members

/-- A change of the members of a table, which may be refused. -/
abbrev Change := Style → Members → Option Members

/-- Applies a change to the table at the end of a way. Missing tables on the way are made. The way
leads on through the last table of a list of tables, but not through tables in braces, and dotted keys
do not lead through tables that have a header. Any other table at the end of their way becomes one that
they have made. -/
def descend (byDots : Bool) (change : Change) : List String → Change
  | [], style, members => change style members
  | name :: rest, _, members =>
    match members.lookup name with
    | none =>
      let style := if byDots then .dotted else .implicit
      (descend byDots change rest style []).map fun inner =>
        members ++ [(name, .table style inner)]
    | some (.table style inner) =>
      if style = .inline ∨ (byDots ∧ style = .explicit) then none
      else
        let style := if byDots ∧ rest = [] then .dotted else style
        (descend byDots change rest style inner).map fun inner =>
          members.replace name (.table style inner)
    | some (.tables items) =>
      match items.getLast? with
      | some (.table style inner) =>
        (descend byDots change rest style inner).map fun inner =>
          members.replace name (.tables (items.dropLast ++ [.table style inner]))
      | _ => none
    | some _ => none

/-- Adds an item under a name that is not taken. A single name goes into a table with a header or
braces, the last name of a dotted key into a table that dotted keys have made. -/
def addItem (dotted : Bool) (name : String) (item : Item) : Change := fun style members =>
  if (style = .dotted) ≠ (dotted = true) ∨ (members.lookup name).isSome then none
  else some (members ++ [(name, item)])

def addKey (key : List String) (item : Item) : Change :=
  match key.reverse with
  | [] => fun _ _ => none
  | name :: way => descend true (addItem (!way.isEmpty) name item) way.reverse

/-- Opens the table of a header: a new one, or one that stood only on the way so far. -/
def openTable (name : String) : Change := fun _ members =>
  match members.lookup name with
  | none => some (members ++ [(name, .table .explicit [])])
  | some (.table .implicit inner) => some (members.erase name ++ [(name, .table .explicit inner)])
  | some _ => none

def openListed (name : String) : Change := fun _ members =>
  match members.lookup name with
  | none => some (members ++ [(name, .tables [.table .explicit []])])
  | some (.tables items) => some (members.replace name (.tables (items ++ [.table .explicit []])))
  | some _ => none

def openHeader (listed : Bool) (key : List String) : Change :=
  match key.reverse with
  | [] => fun _ _ => none
  | name :: way => descend false (if listed then openListed name else openTable name) way.reverse

mutual

def Item.node : Item → Node
  | .scalar node => node
  | .array items => .list (nodes items)
  | .tables items => .list (nodes items)
  | .table _ members => .table (memberNodes members)

def nodes : List Item → List Node
  | [] => []
  | item :: rest => item.node :: nodes rest

def memberNodes : List (String × Item) → List (String × Node)
  | [] => []
  | (name, item) :: rest => (name, item.node) :: memberNodes rest

end

end TimedInvocation.Layers.Document
