import TimedInvocation.Program

/-!
# Programs in direct style

A script is a piece of a program that gives an answer and leaves open how the program goes on. Scripts
are put together one after the other and closed into a program by what it replies.
-/

namespace TimedInvocation

/-- A piece of a program that gives an answer of a type. -/
def Script (H : Host) (α : Type) : Type :=
  ∀ r : Reply, (α → Program H r) → Program H r

namespace Script

variable {H : Host} {α : Type}

instance : Monad (Script H) where
  pure a := fun _ next => next a
  bind script rest := fun r next => script r fun a => rest a r next

/-- The program that runs a script and replies what it answers. -/
def reply {r : Reply} (script : Script H (r.Carrier H)) : Program H r :=
  script r .finish

def panic (payload : Panic) : Script H α := fun _ _ =>
  .panic payload

/-- Runs a program, whatever becomes of it. -/
def attempt {s : Reply} (body : Program H s) : Script H (Outcome (s.Carrier H)) := fun _ next =>
  .attempt body next

def look (f : H.State → α) : Script H α := fun _ next =>
  .look fun state => next (f state)

def change (f : H.State → H.State) : Script H Unit := fun _ next =>
  .look fun state => .change (f state) (next ())

def call (request : Request H) : Script H request.Answer := fun _ next =>
  .call request next

/-- Puts a datum with a cleanup action for its value. -/
def putWithCleanup (store : StoreId) (key : Key) (datum : Datum)
    (cleanup : Value → Program H .done) : Script H (Except StoreError (Option Value)) :=
  fun _ next => .putWithCleanup store key datum cleanup next

/-- Looks a key up and computes its value if there is none. -/
def compute (store : StoreId) (key : Key) (type : Ty) (factory : Program H (.datum type)) :
    Script H (Except StoreError Value) := fun _ next =>
  .compute store key type factory next

/-- Looks a key up and computes its value, which is to be closed, if there is none. -/
def computeCloseable (store : StoreId) (key : Key) (type : Ty) (factory : Program H (.datum type))
    (close : Value → Program H .done) : Script H (Except StoreError Value) := fun _ next =>
  .computeCloseable store key type factory close next

def newExtension (plan : ExtensionPlan (Program H)) : Script H ExtensionId := fun _ next =>
  .newExtension plan next

def invoke (enforcer : EnforcerId) (request : InvocationRequest)
    (body : Arguments → TokenId → Program H .result) : Script H (Report H.Result) := fun _ next =>
  .invoke enforcer request body next

def run (enforcer : EnforcerId) (kind : Kind) (timeout : Option EffectiveTimeout)
    (body : TokenId → Program H .result) : Script H (Except InvocationError H.Result) :=
  fun _ next => .run enforcer kind timeout body next

end Script

end TimedInvocation
