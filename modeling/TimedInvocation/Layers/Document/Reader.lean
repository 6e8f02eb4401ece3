import TimedInvocation.Layers.Document.Moment
import TimedInvocation.Layers.Document.Number
import TimedInvocation.Layers.Document.Table
import TimedInvocation.Layers.Document.Text

/-!
# Reading a document

A document is a sequence of lines: headers, each of which opens a table, and keys with values, which
go into the table opened last. Lists and tables in braces are values that may extend over several
lines.
-/

namespace TimedInvocation.Layers.Document

/-- Whether a character may belong to a number, a word or a moment. -/
def isScalarChar (c : Char) : Bool :=
  c.isAlphanum || c = '_' || c = '+' || c = '-' || c = '.' || c = ':'

def word? (s : List Char) : Option Node :=
  if s = "true".toList then some (.boolean true)
  else if s = "false".toList then some (.boolean false)
  else number? s

/-- A value without quotes. A date may be followed by a space and a time. -/
def bare? (s : List Char) : Option (Node × List Char) :=
  let chars := s.takeWhile isScalarChar
  let rest := s.dropWhile isScalarChar
  match word? chars with
  | some node => some (node, rest)
  | none =>
    match date? chars, rest with
    | some (_, []), ' ' :: c :: more =>
      if c.isDigit then
        let time := (c :: more).takeWhile isScalarChar
        (moment? (chars ++ ' ' :: time)).map fun moment =>
          (.text moment, (c :: more).dropWhile isScalarChar)
      else (moment? chars).map fun moment => (.text moment, rest)
    | _, _ => (moment? chars).map fun moment => (.text moment, rest)

/-- The text without the gaps, comments and line ends in front. -/
def skipAll (s : List Char) : List Char :=
  skipBlanks s.length s

/-- The separator between the elements of a list or a table in braces, or its end: whether more
elements may follow, and the rest. -/
def separator? (close : Char) (s : List Char) : Option (Bool × List Char) :=
  match skipAll s with
  | c :: rest =>
    if c = close then some (false, rest) else if c = ',' then some (true, rest) else none
  | [] => none

def scalar? (s : List Char) : Option (Item × List Char) :=
  if s.head? = some '"' ∨ s.head? = some '\'' then
    (string? s).map fun (chars, rest) => (.scalar (.text (String.ofList chars)), rest)
  else (bare? s).map fun (node, rest) => (.scalar node, rest)

/-- A key and the sign after it, with gaps of a kind around the sign. -/
def assigned? (gaps : List Char → List Char) (s : List Char) : Option (List String × List Char) :=
  match key? s with
  | none => none
  | some (key, rest) =>
    match gaps rest with
    | '=' :: rest => some (key, gaps rest)
    | _ => none

mutual

/-- A value with a number of nested lists and tables at most. -/
def value? : Nat → Nat → List Char → Option (Item × List Char)
  | 0, _, _ => none
  | fuel + 1, room, s =>
    match s, room with
    | '[' :: rest, room + 1 =>
      (elements? fuel room rest).map fun (items, rest) => (.array items, rest)
    | '\x7b' :: rest, room + 1 =>
      (pairs? fuel room [] rest).map fun (members, rest) => (.table .inline members, rest)
    | s, _ => scalar? s

/-- The elements of a list, up to its end. -/
def elements? : Nat → Nat → List Char → Option (List Item × List Char)
  | 0, _, _ => none
  | fuel + 1, room, s =>
    match skipAll s with
    | ']' :: rest => some ([], rest)
    | s => do
      let (item, rest) ← value? fuel room s
      let (more, rest) ← separator? ']' rest
      if more then (elements? fuel room rest).map fun (items, rest) => (item :: items, rest)
      else some ([item], rest)

/-- The members of a table in braces, up to its end, added to those before them. -/
def pairs? : Nat → Nat → Members → List Char → Option (Members × List Char)
  | 0, _, _, _ => none
  | fuel + 1, room, members, s =>
    match skipAll s with
    | '\x7d' :: rest => some (members, rest)
    | s => do
      let (key, rest) ← assigned? skipAll s
      let (item, rest) ← value? fuel room rest
      let members ← addKey key item .explicit members
      let (more, rest) ← separator? '\x7d' rest
      if more then pairs? fuel room members rest else some (members, rest)

end

def pair? (s : List Char) : Option (List String × Item × List Char) := do
  let (key, rest) ← assigned? skipGaps s
  let (item, rest) ← value? (rest.length + 1) maxDepth rest
  some (key, item, rest)

/-- A document that is being read: the table that was opened last, and all members. -/
structure Draft where
  header : List String
  members : Members

namespace Draft

def empty : Draft :=
  ⟨[], []⟩

def addHeader (draft : Draft) (listed : Bool) (key : List String) : Option Draft :=
  (openHeader listed key .explicit draft.members).map fun members => ⟨key, members⟩

/-- The document with a further value in the table that was opened last. -/
def addPair (draft : Draft) (key : List String) (item : Item) : Option Draft :=
  (descend false (addKey key item) draft.header .explicit draft.members).map fun members =>
    { draft with members := members }

/-- Reads a header, after its first bracket. -/
def readHeader? (draft : Draft) (s : List Char) : Option (Draft × List Char) :=
  match s with
  | '[' :: rest =>
    match key? rest with
    | some (key, ']' :: ']' :: rest) => (draft.addHeader true key).map fun draft => (draft, rest)
    | _ => none
  | s =>
    match key? s with
    | some (key, ']' :: rest) => (draft.addHeader false key).map fun draft => (draft, rest)
    | _ => none

def readLine? (draft : Draft) (s : List Char) : Option (Draft × List Char) :=
  match s with
  | '[' :: rest => draft.readHeader? rest
  | s => do
      let (key, item, rest) ← pair? s
      (draft.addPair key item).map fun draft => (draft, rest)

/-- Reads all lines, of which there are fewer than `fuel`. -/
def readLines? : Nat → Draft → List Char → Option Draft
  | 0, _, _ => none
  | fuel + 1, draft, s =>
    match skipAll s with
    | [] => some draft
    | s => do
      let (draft, rest) ← draft.readLine? s
      let rest ← lineEnd? rest
      readLines? fuel draft rest

end Draft

def withoutMark : List Char → List Char
  | '\ufeff' :: rest => rest
  | s => s

def read? (s : List Char) : Option (List (String × Node)) :=
  let chars := withoutMark s
  (Draft.readLines? (chars.length + 1) .empty chars).map fun draft => memberNodes draft.members

/-- Reads the document that a file holds. The file may start with a byte order mark of its own. -/
def ofFile? (text : String) : Option (List (String × Node)) :=
  read? (withoutMark text.toList)

end TimedInvocation.Layers.Document
