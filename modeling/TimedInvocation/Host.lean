/-!
# Hosts

What an embedder brings along: a state of its own, the results of the bodies that it runs, and its
sources of configuration parameters. Reading a parameter, asking for a debugger and starting a worker
thread depend on the embedder's state and may change it, so an answer may differ from the one before.
-/

namespace TimedInvocation

/-- An embedder. -/
structure Host where
  /-- Whatever the embedder keeps between two pieces of its code. -/
  State : Type
  /-- What a body returns. -/
  Result : Type
  /-- The sources of configuration parameters. -/
  Source : Type
  /-- The answer of a source for the name of a parameter. -/
  read : Source → String → State → Option String × State
  /-- Whether a debugger is attached to the process. -/
  debugger : State → Bool × State
  /-- Starting a worker thread: the error if it cannot be started. -/
  spawn : State → Option String × State

end TimedInvocation
