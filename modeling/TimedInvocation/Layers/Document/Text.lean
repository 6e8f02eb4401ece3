import TimedInvocation.Text.Digits

/-!
# Gaps, keys and strings of a document

A configuration document is TOML 1.1 text. The readers here take what they read off the front of the
text and give the rest; they fail if the front is not what they read.
-/

namespace TimedInvocation.Layers.Document

/-- Whether a character may stand in a comment or a string as it is. -/
def isPlain (c : Char) : Bool :=
  c = '\t' || (' ' ≤ c && c.toNat ≠ 0x7F)

def isGap (c : Char) : Bool :=
  c = ' ' || c = '\t'

def skipGaps (s : List Char) : List Char :=
  s.dropWhile isGap

def newline? : List Char → Option (List Char)
  | '\n' :: rest => some rest
  | '\r' :: '\n' :: rest => some rest
  | _ => none

/-- The text without the comment in front, if there is one. -/
def skipComment : List Char → List Char
  | '#' :: rest => rest.dropWhile isPlain
  | s => s

/-- What follows the end of a line: gaps, perhaps a comment, and a line end or nothing more. -/
def lineEnd? (s : List Char) : Option (List Char) :=
  match skipComment (skipGaps s) with
  | [] => some []
  | s => newline? s

/-- The text without the gaps, comments and line ends in front, of which there are no more than
`fuel`. -/
def skipBlanks : Nat → List Char → List Char
  | 0, s => s
  | fuel + 1, s =>
    let s := skipComment (skipGaps s)
    match newline? s with
    | none => s
    | some rest => skipBlanks fuel rest

/-- The character of a code point, if it is one. -/
def charOf? (digits : List Char) : Option Char :=
  let n := Text.ofDigits 16 digits
  if h : digits.all Text.isHexDigit ∧ n.isValidChar then some (Char.ofNatAux n h.2) else none

/-- A character given by its code point in a number of hexadecimal digits. -/
def coded? (count : Nat) (s : List Char) : Option (Char × List Char) :=
  if s.length < count then none else (charOf? (s.take count)).map fun c => (c, s.drop count)

/-- The character of an escape, after its backslash. -/
def escape? : List Char → Option (Char × List Char)
  | 'b' :: rest => some ('\x08', rest)
  | 't' :: rest => some ('\t', rest)
  | 'n' :: rest => some ('\n', rest)
  | 'f' :: rest => some ('\x0c', rest)
  | 'r' :: rest => some ('\r', rest)
  | 'e' :: rest => some ('\x1b', rest)
  | '"' :: rest => some ('"', rest)
  | '\\' :: rest => some ('\\', rest)
  | 'x' :: rest => coded? 2 rest
  | 'u' :: rest => coded? 4 rest
  | 'U' :: rest => coded? 8 rest
  | _ => none

def withChar (c : Char) (read : Option (List Char × List Char)) :
    Option (List Char × List Char) :=
  read.map fun (chars, rest) => (c :: chars, rest)

/-- The rest of a string in double quotes, up to the closing quote. -/
def basic? : Nat → List Char → Option (List Char × List Char)
  | _, '"' :: rest => some ([], rest)
  | fuel + 1, '\\' :: rest =>
    match escape? rest with
    | none => none
    | some (c, rest) => withChar c (basic? fuel rest)
  | fuel + 1, c :: rest => if isPlain c then withChar c (basic? fuel rest) else none
  | _, _ => none

/-- The rest of a string in single quotes, up to the closing quote. -/
def literal? : List Char → Option (List Char × List Char)
  | '\'' :: rest => some ([], rest)
  | c :: rest => if isPlain c then withChar c (literal? rest) else none
  | [] => none

/-- What a run of quotes means inside a string of several lines: three of them close it, and up to
two before those belong to it. -/
def closing? (quote : Char) (s : List Char) : Option (List Char × List Char) :=
  let count := min (s.takeWhile (· = quote)).length 5
  if count < 3 then none else some (List.replicate (count - 3) quote, s.drop count)

/-- The text without the gaps and line ends in front. -/
def skipLines : List Char → List Char
  | '\r' :: '\n' :: rest => skipLines rest
  | c :: rest => if isGap c || c = '\n' then skipLines rest else c :: rest
  | [] => []

/-- What follows a backslash that continues a line: all gaps and line ends after it. -/
def continuation? (s : List Char) : Option (List Char) :=
  (newline? (skipGaps s)).map skipLines

/-- Whether the first character of a text may stand in a string of several lines as it is. A carriage
return belongs to a line end. -/
def isPlainInBlock : List Char → Bool
  | '\r' :: rest => rest.head? = some '\n'
  | c :: _ => c = '\n' || isPlain c
  | [] => false

/-- The rest of a string of several lines. Line ends stay as they are written; backslashes start an
escape only between double quotes. -/
def block? (quote : Char) : Nat → List Char → Option (List Char × List Char)
  | 0, _ => none
  | fuel + 1, s =>
    match closing? quote s, s with
    | some closed, _ => some closed
    | none, [] => none
    | none, c :: rest =>
      if quote = '"' ∧ c = '\\' then
        match continuation? rest with
        | some rest => block? quote fuel rest
        | none =>
          match escape? rest with
          | none => none
          | some (c, rest) => withChar c (block? quote fuel rest)
      else if isPlainInBlock (c :: rest) then withChar c (block? quote fuel rest)
      else none

/-- A string of several lines, after its opening quotes. A line end right after them is left out. -/
def openBlock? (quote : Char) (s : List Char) : Option (List Char × List Char) :=
  let s := (newline? s).getD s
  block? quote (s.length + 1) s

def line? : List Char → Option (List Char × List Char)
  | '"' :: rest => basic? rest.length rest
  | '\'' :: rest => literal? rest
  | _ => none

def string? : List Char → Option (List Char × List Char)
  | '"' :: '"' :: '"' :: rest => openBlock? '"' rest
  | '\'' :: '\'' :: '\'' :: rest => openBlock? '\'' rest
  | s => line? s

/-- Whether a character may stand in a key without quotes. -/
def isBare (c : Char) : Bool :=
  c.isAlphanum || c = '_' || c = '-'

def keyPart? (s : List Char) : Option (String × List Char) :=
  match s.takeWhile isBare with
  | [] => (line? s).map fun (chars, rest) => (String.ofList chars, rest)
  | letters => some (String.ofList letters, s.dropWhile isBare)

/-- How many parts a key may have, and how deep lists and tables in braces may be nested. -/
def maxDepth : Nat := 80

def parts? : Nat → List Char → Option (List String × List Char)
  | 0, _ => none
  | room + 1, s =>
    match keyPart? (skipGaps s) with
    | none => none
    | some (part, rest) =>
      match skipGaps rest with
      | '.' :: rest => (parts? room rest).map fun (parts, rest) => (part :: parts, rest)
      | rest => some ([part], rest)

/-- A key: parts with dots and gaps between them. The rest starts after the gaps behind the key. -/
def key? (s : List Char) : Option (List String × List Char) :=
  parts? maxDepth s

end TimedInvocation.Layers.Document
