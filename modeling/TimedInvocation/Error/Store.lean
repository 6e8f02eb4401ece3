import TimedInvocation.Failure
import TimedInvocation.Namespace
import TimedInvocation.Value

/-!
# Errors of stores

An access fails because the store is closed or because the value found has another type. Closing a
store fails with all the cleanup actions that failed, in the order in which they ran.
-/

namespace TimedInvocation

/-- Why an access to a store failed. -/
inductive StoreError where
  | closed (key : Key)
  | typeMismatch (key : Key) (expected actual : Ty)
  deriving DecidableEq

namespace StoreError

def code : StoreError → String
  | closed _ => "closed"
  | typeMismatch _ _ _ => "type-mismatch"

def message : StoreError → String
  | closed key => "store is closed: cannot access " ++ key.describe
  | typeMismatch key expected actual =>
      "value for " ++ key.describe ++ " has type `" ++ actual.name ++ "`, but `" ++ expected.name ++
        "` was requested"

def chain (e : StoreError) : ErrorChain :=
  .single e.message

end StoreError

/-- A cleanup action that failed, and why. -/
structure CleanupError where
  key : Key
  cause : ErrorChain
  deriving DecidableEq

namespace CleanupError

def message (e : CleanupError) : String :=
  "cleanup for " ++ e.key.describe ++ " failed"

def chain (e : CleanupError) : ErrorChain :=
  .under e.message e.cause

def ofPanic (key : Key) (payload : Panic) : CleanupError :=
  ⟨key, .single ("cleanup panicked: " ++ payload.message?.getD "(non-string payload)")⟩

end CleanupError

/-- The cleanup actions that failed when a store was closed. There is at least one. -/
structure StoreCloseError where
  errors : List CleanupError
  deriving DecidableEq

namespace StoreCloseError

/-- The lines for one of several errors: the error and its causes. -/
private def lines (e : CleanupError) : String :=
  "\n  * " ++ e.message ++ String.join (e.cause.messages.map ("\n      caused by: " ++ ·))

/-- The text of the error: that of the single failure, or a list of all of them. -/
def message (e : StoreCloseError) : String :=
  match e.errors with
  | [error] => error.message
  | errors =>
      toString errors.length ++ " cleanup actions failed while closing store:" ++
        String.join (errors.map lines)

/-- The error and its causes: a single failure is the cause, several are listed in the text. -/
def chain (e : StoreCloseError) : ErrorChain :=
  match e.errors with
  | [error] => .under e.message error.chain
  | _ => .single e.message

end StoreCloseError

end TimedInvocation
