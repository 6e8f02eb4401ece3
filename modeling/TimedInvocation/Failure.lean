/-!
# Failures of user code

User code ends in one of three ways: with a result, with an error or with a panic. An error is a
message followed by the messages of its causes. A panic carries a payload, which may hold a message.
-/

namespace TimedInvocation

/-- An error: its own message and those of its causes, from the nearest to the last. -/
structure ErrorChain where
  message : String
  causes : List String
  deriving DecidableEq

namespace ErrorChain

/-- All messages of an error, its own first. -/
def messages (e : ErrorChain) : List String :=
  e.message :: e.causes

/-- An error with a new message, caused by this one. -/
def under (message : String) (e : ErrorChain) : ErrorChain :=
  ⟨message, e.messages⟩

def single (message : String) : ErrorChain :=
  ⟨message, []⟩

end ErrorChain

/-- The payload of a panic: a fixed text, a text made at run time, or something without a message. -/
inductive Panic where
  | literal (message : String)
  | text (message : String)
  | other
  deriving DecidableEq

namespace Panic

/-- The message of a payload, if it is a text. -/
def message? : Panic → Option String
  | literal message => some message
  | text message => some message
  | other => none

end Panic

/-- How a piece of code ended: it returned, or it panicked. -/
inductive Outcome (α : Type) where
  | returned (a : α)
  | panicked (payload : Panic)

end TimedInvocation
