import TimedInvocation.Layers.Disk
import TimedInvocation.Layers.Environment
import TimedInvocation.Layers.Library

/-!
# Layered parameters

Configuration parameters from a file, from the environment and from explicit overrides, a later layer
over an earlier one. Each layer is a table whose keys are taken as paths; all layers are merged into
one table when the parameters are built.
-/

namespace TimedInvocation.Layers

/-- A configuration file: its path and whether it must exist. -/
structure ConfigFile where
  path : String
  required : Bool
  deriving DecidableEq

/-- The layers that parameters are to be built from. -/
structure Builder where
  file : Option ConfigFile
  environment : Option Environment
  overrides : List (String × String)

/-- Why parameters could not be built: a key that is no path, or a file that cannot be read. -/
inductive BuildError where
  | badKey
  | badFile (path : String)
  deriving DecidableEq

namespace BuildError

def file? : BuildError → Option String
  | badKey => none
  | badFile path => some path

def message : BuildError → String
  | badKey => "failed to build proctor config"
  | badFile path => "failed to parse proctor config at `" ++ path ++ "`"

end BuildError

def joinPath (directory path : String) : String :=
  match directory.toList.getLast? with
  | none => path
  | some '/' => directory ++ path
  | some _ => directory ++ "/" ++ path

namespace Builder

def empty : Builder :=
  ⟨none, none, []⟩

/-- Reads a file, which must exist. -/
def setConfigFile (b : Builder) (path : String) : Builder :=
  { b with file := some ⟨path, true⟩ }

/-- Reads the file of a workspace, if it exists. -/
def setWorkspaceRoot (b : Builder) (root : String) : Builder :=
  { b with file := some ⟨joinPath root ".config/proctor.toml", false⟩ }

def setEnvironment (b : Builder) (environment : Environment) : Builder :=
  { b with environment := some environment }

def setOverride (b : Builder) (key value : String) : Builder :=
  { b with overrides := b.overrides ++ [(key, value)] }

/-- Several paths with values, with one of them set in the place that it had. -/
def putPath (path : Path) (value : String) : List (Path × String) → List (Path × String)
  | [] => [(path, value)]
  | (other, old) :: rest =>
    if other = path then (path, value) :: rest else (other, old) :: putPath path value rest

def environmentLayer (b : Builder) : List (String × Node) :=
  match b.environment with
  | none => []
  | some environment => environment.layer

section Library

variable (lib : Library)

/-- The paths that the overrides set, each of them once, added to those before them. -/
def pathsOf (known : List (Path × String)) :
    List (String × String) → Except BuildError (List (Path × String))
  | [] => .ok known
  | (key, value) :: rest =>
    match lib.path? key with
    | none => .error .badKey
    | some path => pathsOf (putPath path value known) rest

def fileLayer (disk : Disk) : Option ConfigFile → Except BuildError (List (String × Node))
  | none => .ok []
  | some file =>
    match disk.find? ".toml" file.path with
    | none => if file.required then .error (.badFile file.path) else .ok []
    | some text =>
      match lib.document? text with
      | none => .error (.badFile file.path)
      | some layer => .ok layer

/-- A layer merged into a value. -/
def addLayer (node : Node) (layer : List (String × Node)) : Node :=
  layer.foldl (fun node (key, value) => lib.put node (lib.pathOf key) value) node

def addOverrides (node : Node) (overrides : List (Path × String)) : Node :=
  overrides.foldl (fun node (path, value) => lib.put node path (.text value)) node

/-- Builds the parameters: one table, in which keys are looked up. -/
def buildWith (b : Builder) (disk : Disk) : Except BuildError Node :=
  match pathsOf lib [] b.overrides with
  | .error e => .error e
  | .ok overrides =>
    match fileLayer lib disk b.file with
    | .error e => .error e
    | .ok layer => .ok (addOverrides lib
        (addLayer lib (addLayer lib (.table []) layer) b.environmentLayer) overrides)

end Library

def build (b : Builder) (disk : Disk) : Except BuildError Node :=
  b.buildWith .standard disk

end Builder

end TimedInvocation.Layers
