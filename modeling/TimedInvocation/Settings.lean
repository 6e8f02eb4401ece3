/-!
# Settings in memory

Configuration parameters held as a table from names to values.
-/

namespace TimedInvocation

/-- A table of named values, in which no name occurs twice. -/
structure Settings where
  entries : List (String × String)
  deriving DecidableEq

namespace Settings

def empty : Settings :=
  ⟨[]⟩

def get (settings : Settings) (name : String) : Option String :=
  settings.entries.lookup name

def erase (settings : Settings) (name : String) : Settings :=
  ⟨settings.entries.filter fun entry => entry.1 ≠ name⟩

/-- The table with a value for a name, in place of the one it had. -/
def insert (settings : Settings) (name value : String) : Settings :=
  ⟨(settings.erase name).entries ++ [(name, value)]⟩

/-- The table of a list of named values. Of several values for a name the last one counts. -/
def ofList (entries : List (String × String)) : Settings :=
  entries.foldl (fun settings entry => settings.insert entry.1 entry.2) empty

end Settings

end TimedInvocation
