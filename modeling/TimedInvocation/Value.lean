import TimedInvocation.Text.Quoted

/-!
# Values

Resolvers, stores and bodies exchange values whose type is known only at run time. A datum is what a
value holds; a value is one shared occurrence of a datum, so two values are the same exactly when
their identities are, however equal their data may be.
-/

namespace TimedInvocation

/-- The index of a timeout configuration among those that were created. -/
abbrev ConfigurationId := Nat

/-- The types of whole numbers. -/
inductive IntegerType where
  | i8
  | i32
  | i64
  | u8
  | u32
  | u64
  deriving DecidableEq

def IntegerType.name : IntegerType → String
  | i8 => "i8"
  | i32 => "i32"
  | i64 => "i64"
  | u8 => "u8"
  | u32 => "u32"
  | u64 => "u64"

/-- The types of data. Resources are the closeable things of an embedder, told apart by name. -/
inductive Ty where
  | unit
  | bool
  | integer (type : IntegerType)
  | char
  | text
  | slice
  | integers (type : IntegerType)
  | optionalText
  | resource (name : String)
  | configuration
  deriving DecidableEq

namespace Ty

def name : Ty → String
  | unit => "()"
  | bool => "bool"
  | integer type => type.name
  | char => "char"
  | text => "alloc::string::String"
  | slice => "&str"
  | integers type => "alloc::vec::Vec<" ++ type.name ++ ">"
  | optionalText => "core::option::Option<alloc::string::String>"
  | resource name => name
  | configuration => "proctor_runner::config::timeout::TimeoutConfiguration"

end Ty

/-- What a value holds. -/
inductive Datum where
  | unit
  | bool (b : Bool)
  | integer (type : IntegerType) (n : Int)
  | char (c : Char)
  | text (s : String)
  | slice (s : String)
  | integers (type : IntegerType) (ns : List Int)
  | optionalText (s : Option String)
  | resource (type name : String)
  | configuration (id : ConfigurationId)
  deriving DecidableEq

def Datum.ty : Datum → Ty
  | unit => .unit
  | bool _ => .bool
  | integer type _ => .integer type
  | char _ => .char
  | text _ => .text
  | slice _ => .slice
  | integers type _ => .integers type
  | optionalText _ => .optionalText
  | resource type _ => .resource type
  | configuration _ => .configuration

/-- A datum of a given type. -/
abbrev DatumOf (t : Ty) := { d : Datum // d.ty = t }

/-- One shared occurrence of a datum. -/
structure Value where
  id : Nat
  datum : Datum
  deriving DecidableEq

namespace Value

def ty (v : Value) : Ty :=
  v.datum.ty

def is (v : Value) (t : Ty) : Bool :=
  v.ty = t

/-- The value seen as one of a type, if it is one. -/
def downcast (v : Value) (t : Ty) : Option Value :=
  if v.ty = t then some v else none

def same (v w : Value) : Bool :=
  v.id = w.id

def describe (v : Value) : String :=
  "Value \x7b type: " ++ Text.quote v.ty.name ++ ", .. \x7d"

end Value

/-- The arguments of an invocation: a value or nothing for each parameter. -/
abbrev Arguments := List (Option Value)

namespace Arguments

/-- The value at an index, if there is one. -/
def value (a : Arguments) (index : Nat) : Option Value :=
  (a[index]?).join

/-- The value at an index seen as one of a type, if there is one of that type. -/
def get (a : Arguments) (index : Nat) (t : Ty) : Option Value :=
  (value a index).bind fun v => v.downcast t

end Arguments

end TimedInvocation
