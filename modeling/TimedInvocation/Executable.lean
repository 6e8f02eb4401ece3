import TimedInvocation.Value

/-!
# Executables

A method or constructor as far as invocations are concerned: its declaring type, its name and its
parameters. The declared type of a parameter decides which values are accepted in its place.
-/

namespace TimedInvocation

/-- The declared type of a parameter. A primitive one must have a value. -/
inductive ParameterType where
  | any
  | primitive (t : Ty)
  | reference (t : Ty)
  deriving DecidableEq

namespace ParameterType

/-- The type that values must have, if it is restricted. -/
def ty? : ParameterType → Option Ty
  | any => none
  | primitive t => some t
  | reference t => some t

def isPrimitive : ParameterType → Bool
  | primitive _ => true
  | any | reference _ => false

/-- Whether the declared type is restricted to a type. -/
def is (p : ParameterType) (t : Ty) : Bool :=
  p.ty? = some t

def name (p : ParameterType) : String :=
  (p.ty?.map Ty.name).getD "any"

/-- Whether a value, or the absence of one, may be passed. -/
def accepts (p : ParameterType) (value : Option Value) : Bool :=
  match p, value with
  | any, _ => true
  | primitive _, none => false
  | reference _, none => true
  | primitive t, some v => v.is t
  | reference t, some v => v.is t

end ParameterType

/-- A declared parameter. Its annotations are sorted and without repetitions. -/
structure Parameter where
  name : String
  type : ParameterType
  annotations : List String
  deriving DecidableEq

namespace Parameter

/-- A text put into its place in a sorted list, unless it is there already. -/
def insertSorted (s : String) : List String → List String
  | [] => [s]
  | t :: rest => if s < t then s :: t :: rest else if s = t then t :: rest else t :: insertSorted s rest

/-- A parameter with annotations given in any order. -/
def new (name : String) (type : ParameterType) (annotations : List String) : Parameter :=
  ⟨name, type, annotations.foldl (fun sorted s => insertSorted s sorted) []⟩

def isAnnotated (p : Parameter) (label : String) : Bool :=
  p.annotations.contains label

def describe (p : Parameter) : String :=
  p.name ++ ": " ++ p.type.name

end Parameter

/-- The two kinds of executables. -/
inductive ExecutableKind where
  | method
  | constructor
  deriving DecidableEq

def ExecutableKind.name : ExecutableKind → String
  | method => "method"
  | constructor => "constructor"

/-- A method or a constructor. -/
structure Executable where
  kind : ExecutableKind
  declaringType : String
  name : String
  parameters : List Parameter
  deriving DecidableEq

namespace Executable

def method (declaringType name : String) (parameters : List Parameter) : Executable :=
  ⟨.method, declaringType, name, parameters⟩

/-- A constructor of a type; all of them are called `new`. -/
def constructor (declaringType : String) (parameters : List Parameter) : Executable :=
  ⟨.constructor, declaringType, "new", parameters⟩

def signature (x : Executable) : String :=
  x.declaringType ++ "::" ++ x.name ++ "(" ++
    ", ".intercalate (x.parameters.map Parameter.describe) ++ ")"

def describe (x : Executable) : String :=
  x.kind.name ++ " [" ++ x.signature ++ "]"

end Executable

end TimedInvocation
