import TimedInvocation.Invocation

/-!
# Execution of programs

What a program does, as an act. Every piece of a program is paid for with one unit of fuel, so that a
program that asks for itself without end never gets to an end; whatever happens before fuel runs out
does not depend on its amount.
-/

namespace TimedInvocation

namespace Routine

variable {H : Host}

/-- Answers a request, on a worker or on the thread that everything starts on. -/
def answer (worker : Option Nat) : (request : Request H) → Routine H request.Answer
  | .allocate datum => allocate datum
  | .newStore parent => newStore parent
  | .get s k t => get s k t
  | .put s k datum => put s k datum none
  | .remove s k t => remove s k t
  | .close s => close s
  | .isClosed s => view fun w => w.heap.isClosed s
  | .newToken => newToken
  | .cancel t => cancel t
  | .isCancelled t => isCancelled t
  | .wait t nanos => wait t nanos
  | .sleep nanos => sleep nanos
  | .await condition nanos => await (fun w => condition w.state) nanos
  | .currentWorker => pure worker
  | .extension e => view fun w => w.viewExtension e
  | .newRegistry parent extensions => newRegistry parent extensions
  | .registry r => view fun w => w.viewRegistry r
  | .stream r c => view fun w => (w.stream r c).map Extension.id
  | .newScope place displayName extensions => newScope place displayName extensions
  | .scope s => view fun w => w.viewScope s
  | .closeScope s => closeScope s
  | .parameter s name => parameter s name
  | .newConfiguration source probe => newConfiguration source probe
  | .configuration s => configurationOf s
  | .isDisabled c => isDisabled c
  | .timeoutFor c kind => timeoutFor c kind
  | .defaultThreadMode c => defaultThreadMode c
  | .effectiveTimeout c kind declared => effectiveTimeout c kind declared
  | .resolve s x target outer => resolveArguments s x target outer
  | .newEnforcer stop signals => newEnforcer stop signals
  | .signal s => signal s

end Routine

/-- Runs a program with an amount of fuel, on a worker or on the thread that everything starts on. -/
def Program.exec {H : Host} :
    Nat → Option Nat → {r : Reply} → Program H r → Act H (r.Carrier H)
  | 0, _, _, _ => .forever
  | _ + 1, _, _, .finish reply => pure reply
  | _ + 1, _, _, .panic payload => .panic payload
  | fuel + 1, worker, _, .attempt body next => do
      exec fuel worker (next (← Act.attempt (exec fuel worker body)))
  | fuel + 1, worker, _, .look next => do
      exec fuel worker (next (← Act.view World.state))
  | fuel + 1, worker, _, .change state next => do
      Act.change fun w => { w with state := state }
      exec fuel worker next
  | fuel + 1, worker, _, .call request next => do
      exec fuel worker (next (← (Routine.answer worker request).play (exec fuel worker)))
  | fuel + 1, worker, _, .putWithCleanup s k datum cleanup next => do
      exec fuel worker (next (← (Routine.put s k datum (some cleanup)).play (exec fuel worker)))
  | fuel + 1, worker, _, .compute s k t factory next => do
      exec fuel worker
        (next (← (Routine.compute s k t (.run factory) none).play (exec fuel worker)))
  | fuel + 1, worker, _, .computeCloseable s k t factory close next => do
      exec fuel worker
        (next (← (Routine.compute s k t (.run factory) (some close)).play (exec fuel worker)))
  | fuel + 1, worker, _, .newExtension plan next => do
      exec fuel worker (next (← (Routine.newExtension plan).play (exec fuel worker)))
  | fuel + 1, worker, _, .invoke e request body next => do
      exec fuel worker (next (← (Routine.invoke e request body).play (exec fuel worker)))
  | fuel + 1, worker, _, .run e kind timeout body next => do
      exec fuel worker (next (← (Routine.runWithTimeout e kind timeout body).play (exec fuel worker)))

end TimedInvocation
