import TimedInvocation.Execution

/-!
# The machine

Several threads act in one world: the one that everything starts on, and one for each worker. The first
one goes on as long as it need not wait; while it waits, the threads of the workers take turns in the
order in which they were started, each of them up to its end or its next wait. When every thread has to
wait, the clock moves to the next time at which a wait or an alarm ends. A worker whose caller was
released therefore goes on while the first thread waits for something else, now or later.
-/

namespace TimedInvocation

/-- The thread of a worker, with what it still has to do. -/
structure Thread (H : Host) where
  worker : WorkerId
  act : Act H (Except Failure H.Result)

/-- The world, the threads of the workers that have not ended, and the number of workers that have got
a thread. -/
structure Machine (H : Host) where
  world : World H
  threads : List (Thread H)
  started : Nat

namespace Thread

variable {H : Host}

/-- A turn of a thread, up to its next wait or to its end, at which the result of its worker becomes
available and the thread is gone. -/
def turn (thread : Thread H) (w : World H) : Option (Thread H) × World H :=
  match thread.act.advance w with
  | (.ended outcome, w) => (none, w.deliver thread.worker outcome)
  | (act, w) => (some ⟨thread.worker, act⟩, w)

/-- A turn of the first of several threads that need not wait, if there is one. -/
def turnOfFirst : List (Thread H) → World H → Option (List (Thread H) × World H)
  | [], _ => none
  | thread :: rest, w =>
    if thread.act.isReady w then
      let (left, w) := thread.turn w
      some (left.toList ++ rest, w)
    else (turnOfFirst rest w).map fun (rest, w) => (thread :: rest, w)

end Thread

namespace Machine

variable {H : Host} {α : Type}

def initial (state : H.State) : Machine H :=
  ⟨.initial state, [], 0⟩

def startThreads (fuel : Nat) (m : Machine H) : Machine H :=
  let fresh := (m.world.workers.zipIdx.drop m.started).map fun (worker, id) =>
    ⟨id, worker.body.exec fuel (some worker.number)⟩
  ⟨m.world, m.threads ++ fresh, m.world.workers.length⟩

/-- A turn of the first worker that need not wait, if there is one. -/
def turn? (m : Machine H) : Option (Machine H) :=
  (Thread.turnOfFirst m.threads m.world).map fun (threads, w) => ⟨w, threads, m.started⟩

/-- The next time at which a wait or an alarm ends, while the first thread is in an act. -/
def nextTime? (act : Act H α) (m : Machine H) : Option Nat :=
  (act.deadline?.toList ++ m.threads.filterMap (fun thread => thread.act.deadline?) ++
    m.world.alarms.map Alarm.time).min?

/-- Lets the first thread act up to its end, in a number of rounds at most. There is no end if every
thread waits for ever. -/
def drive (fuel : Nat) : Nat → Act H α → Machine H → Option (Outcome α × Machine H)
  | 0, _, _ => none
  | rounds + 1, act, m =>
    match act.advance m.world with
    | (.ended outcome, w) => some (outcome, ⟨w, m.threads, m.started⟩)
    | (act, w) =>
      let m := startThreads fuel ⟨w, m.threads, m.started⟩
      match m.turn? with
      | some m => drive fuel rounds act m
      | none =>
        match m.nextTime? act with
        | none => none
        | some time => drive fuel rounds act ⟨m.world.moveTo time, m.threads, m.started⟩

/-- Runs a program on the first thread with an amount of fuel. -/
def run {r : Reply} (fuel : Nat) (program : Program H r) (m : Machine H) :
    Option (Outcome (r.Carrier H) × Machine H) :=
  drive fuel fuel (program.exec fuel none) m

end Machine

end TimedInvocation
