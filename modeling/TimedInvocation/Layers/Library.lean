import TimedInvocation.Layers.Document.Reader
import TimedInvocation.Layers.Path

/-!
# Libraries of layered values

What building layered parameters is left to: how a document and a key are read, how a value is merged into
what a path leads to, and which text a key has in the end.
-/

namespace TimedInvocation.Layers

/-- A way to read documents and keys, to merge values and to look keys up. -/
structure Library where
  document? : String → Option (List (String × Node))
  path? : String → Option Path
  put : Node → Path → Node → Node
  text? : Node → String → Option String

namespace Library

/-- Documents, paths and tables as they are defined here. -/
def standard : Library :=
  ⟨Document.ofFile?, Path.read?, Node.set, Node.lookup?⟩

/-- The path that a key of a layer stands for; a key that is no path stands for a single name. -/
def pathOf (lib : Library) (key : String) : Path :=
  (lib.path? key).getD (.single key)

end Library

end TimedInvocation.Layers
