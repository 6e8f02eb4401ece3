import TimedInvocation.Layers.Node
import TimedInvocation.Number.Word
import TimedInvocation.Text.Digits

/-!
# Paths

A path leads through tables and lists: a name, then further names after dots and indices in
brackets. Looking a path up follows it; setting one clears the way, so that whatever is no table or
no list where the path needs one is replaced. Tables that are set are merged member by member.
-/

namespace TimedInvocation.Layers

/-- A step of a path. -/
inductive PathStep where
  | name (s : String)
  | index (i : Int)
  deriving DecidableEq

/-- A path: a name and what follows it. -/
structure Path where
  root : String
  steps : List PathStep
  deriving DecidableEq

namespace Path

def isNameChar (c : Char) : Bool :=
  c.isAlphanum || c = '_' || c = '-'

def skipGaps (s : List Char) : List Char :=
  s.dropWhile fun c => c = ' ' || c = '\t'

/-- Reads an index, which fits into 64 bits with a sign, and gives what follows it. -/
def readIndex? (s : List Char) : Option (Int × List Char) :=
  let (negative, s) := match s with
    | '-' :: rest => (true, rest)
    | rest => (false, rest)
  let digits := s.takeWhile Char.isDigit
  let size : Int := Text.ofDigits 10 digits
  let value := if negative then -size else size
  if digits = [] ∨ ¬ fitsSigned value then none else some (value, s.dropWhile Char.isDigit)

/-- Reads one step of a path and gives what follows it. -/
def readStep? : List Char → Option (PathStep × List Char)
  | '.' :: rest =>
    match rest.takeWhile isNameChar with
    | [] => none
    | letters => some (.name (String.ofList letters), rest.dropWhile isNameChar)
  | '[' :: rest =>
    match readIndex? (skipGaps rest) with
    | none => none
    | some (i, rest) =>
      match skipGaps rest with
      | ']' :: rest => some (.index i, rest)
      | _ => none
  | _ => none

/-- Reads the steps of a path up to the end of the text, given an upper bound of their number. -/
def readSteps? : Nat → List Char → Option (List PathStep)
  | _, [] => some []
  | 0, _ => none
  | fuel + 1, s =>
    match readStep? s with
    | none => none
    | some (step, rest) => (readSteps? fuel rest).map (step :: ·)

def read? (s : String) : Option Path :=
  match s.toList.takeWhile isNameChar with
  | [] => none
  | letters =>
    let rest := s.toList.dropWhile isNameChar
    (readSteps? rest.length rest).map fun steps => ⟨String.ofList letters, steps⟩

/-- The path of a single name, whatever characters it has. -/
def single (name : String) : Path :=
  ⟨name, []⟩

end Path

namespace Node

def follow? : Node → List PathStep → Option Node
  | node, [] => some node
  | node, .name s :: rest => (node.member? s).bind fun node => follow? node rest
  | node, .index i :: rest => (node.item? i).bind fun node => follow? node rest

def get? (node : Node) (path : Path) : Option Node :=
  node.follow? (.name path.root :: path.steps)

/-- Changes what some steps lead to. The way is cleared for them. -/
def alter (change : Node → Node) : List PathStep → Node → Node
  | [], node => change node
  | .name s :: rest, node =>
      node.withMember s (alter change rest ((node.member? s).getD absent))
  | .index i :: rest, node =>
      let (items, place) := node.withRoom i
      list (items.modify place (alter change rest))

mutual

/-- One value merged into another: a table is merged member by member into a table, and anything else
replaces what was there. -/
def merge (old : Node) : Node → Node
  | table members => mergeMembers (table old.members) members
  | new => new

/-- Several members merged into a value one after the other. -/
def mergeMembers (old : Node) : List (String × Node) → Node
  | [] => old
  | (name, new) :: rest =>
      mergeMembers (old.withMember name (merge ((old.member? name).getD absent) new)) rest

end

/-- The value with another one merged into what a path leads to. -/
def set (node : Node) (path : Path) (new : Node) : Node :=
  alter (fun old => merge old new) (.name path.root :: path.steps) node

def lookup? (node : Node) (key : String) : Option String :=
  ((Path.read? key).bind node.get?).bind text?

end Node

end TimedInvocation.Layers
