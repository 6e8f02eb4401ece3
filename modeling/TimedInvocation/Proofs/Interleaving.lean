import TimedInvocation.Proofs.Store.Computation

/-!
# Threads in the middle of a routine

When several threads take turns, each of them is in the middle of a routine: in the routine's own part,
or in a call of user code. Their steps are those of the acts that they play, with the routine's own
steps told apart from those of the user code.
-/

namespace TimedInvocation

open World

variable {H : Host} {α : Type}

/-- A thread in the middle of a routine: in the routine's own part, or in a call of user code. -/
inductive Party (H : Host) (α : Type) where
  | own (routine : Routine H α)
  | away {r : Reply} (act : Act H (r.Carrier H)) (next : Outcome (r.Carrier H) → Routine H α)

namespace Party

variable {runner : Runner H}
  {allowed : Heap (Program H .done) → List StoreOccurrence → Heap (Program H .done) → Prop}
  {party party' : Party H α} {w w' : World H} {added : List StoreOccurrence}

/-- The thread is in a call of user code. -/
def isAway : Party H α → Bool
  | own _ => false
  | away _ _ => true

/-- What the thread does from here on. -/
def act (runner : Runner H) : Party H α → Act H α
  | own routine => routine.play @runner
  | away act next => act.attempt.andThen fun outcome => (next outcome).play @runner

/-- One step of a thread in a world, with what it adds to the history. The routine's own part adds what
it adds to that of the heap. The steps of user code change the heap, and add to the history, in ways
that are allowed. -/
inductive Step (runner : Runner H)
    (allowed : Heap (Program H .done) → List StoreOccurrence → Heap (Program H .done) → Prop) :
    Party H α → World H → List StoreOccurrence → Party H α → World H → Prop where
  | own {pause : Pause H} {change : World H → World H} {next : World H → Routine H α} {w : World H}
      (hover : pause.isOver w = true) :
      Step @runner allowed (.own (.step pause change next)) w (w.heap.since (change w).heap)
        (.own (next w)) (change w)
  | leave {r : Reply} {program : Program H r} {next : Outcome (r.Carrier H) → Routine H α}
      {w : World H} :
      Step @runner allowed (.own (.call program next)) w [] (.away (runner program) next) w
  | user {r : Reply} {pause : Pause H} {change : World H → World H}
      {act : World H → Act H (r.Carrier H)} {next : Outcome (r.Carrier H) → Routine H α} {w : World H}
      {added : List StoreOccurrence} (hover : pause.isOver w = true)
      (hallowed : allowed w.heap added (change w).heap) :
      Step @runner allowed (.away (.step pause change act) next) w added (.away (act w) next)
        (change w)
  | back {r : Reply} {outcome : Outcome (r.Carrier H)} {next : Outcome (r.Carrier H) → Routine H α}
      {w : World H} :
      Step @runner allowed (.away (.ended outcome) next) w [] (.own (next outcome)) w

/-- A step of the thread is a step of the act that it plays, or only says where in the act it is. -/
theorem Step.act_step (hstep : Step @runner allowed party w added party' w') :
    (party'.act @runner = party.act @runner ∧ w' = w) ∨
      ∃ (pause : Pause H) (change : World H → World H) (next : World H → Act H α),
        party.act @runner = .step pause change next ∧ pause.isOver w = true ∧
          party'.act @runner = next w ∧ w' = change w := by
  cases hstep with
  | own hover => exact .inr ⟨_, _, _, rfl, hover, rfl, rfl⟩
  | leave => exact .inl ⟨rfl, rfl⟩
  | user hover _ => exact .inr ⟨_, _, _, rfl, hover, rfl, rfl⟩
  | back => exact .inl ⟨rfl, rfl⟩

/-- The thread takes a step after which an act is left, possibly after others that only say where in the
act it is. -/
inductive Takes (runner : Runner H)
    (allowed : Heap (Program H .done) → List StoreOccurrence → Heap (Program H .done) → Prop)
    (w : World H) (left : Act H α) (w' : World H) : Party H α → Prop where
  | now {party party' : Party H α} {added : List StoreOccurrence}
      (hstep : party.Step @runner allowed w added party' w') (hleft : party'.act @runner = left) :
      Takes @runner allowed w left w' party
  | later {party party' : Party H α} (hstep : party.Step @runner allowed w [] party' w)
      (hrest : Takes @runner allowed w left w' party') : Takes @runner allowed w left w' party

section Playing

variable {pause : Pause H} {change : World H → World H} {left : World H → Act H α}

theorem takes_away (hover : pause.isOver w = true) (hallowed : allowed w.heap added (change w).heap)
    {r : Reply} {act : Act H (r.Carrier H)} {next : Outcome (r.Carrier H) → Routine H α}
    (hnext : ∀ outcome, (next outcome).play @runner = .step pause change left →
      (own (next outcome)).Takes @runner allowed w (left w) (change w))
    (hact : (away act next).act @runner = .step pause change left) :
    (away act next).Takes @runner allowed w (left w) (change w) := by
  cases act with
  | ended outcome => exact .later .back (hnext outcome hact)
  | step pause' change' act' =>
      cases hact
      exact .now (.user hover hallowed) rfl

theorem takes_own (hover : pause.isOver w = true) (hallowed : allowed w.heap added (change w).heap)
    (routine : Routine H α) (hact : routine.play @runner = .step pause change left) :
    (own routine).Takes @runner allowed w (left w) (change w) := by
  induction routine with
  | ended outcome => cases hact
  | step pause' change' next _ =>
      cases hact
      exact .now (.own hover) rfl
  | call program next ih => exact .later .leave (takes_away hover hallowed ih hact)

/-- Every step of the act that a thread plays is a step of the thread, as long as it is allowed. -/
theorem takes_of_act (hact : party.act @runner = .step pause change left)
    (hover : pause.isOver w = true) (hallowed : allowed w.heap added (change w).heap) :
    party.Takes @runner allowed w (left w) (change w) := by
  cases party with
  | own routine => exact takes_own hover hallowed routine hact
  | away act next =>
      exact takes_away hover hallowed (fun outcome => takes_own hover hallowed (next outcome)) hact

end Playing

/-- The answer of a thread that has ended by returning one. -/
def answer? : Party H α → Option α
  | own (.ended (.returned answer)) => some answer
  | _ => none

theorem eq_of_answer? {answer : α} (hanswer : party.answer? = some answer) :
    party = .own (.ended (.returned answer)) := by
  unfold answer? at hanswer
  split at hanswer
  · cases hanswer
    rfl
  · cases hanswer

/-- The next step of a thread, unless it is one of user code, has to wait, or the thread has ended: what
it adds to the history, the thread and the world. -/
def next? (runner : Runner H) :
    Party H α → World H → Option (List StoreOccurrence × Party H α × World H)
  | own (.step pause change next), w =>
    if pause.isOver w then some (w.heap.since (change w).heap, own (next w), change w) else none
  | own (.call program next), w => some ([], away (runner program) next, w)
  | away (.ended outcome) next, w => some ([], own (next outcome), w)
  | own (.ended _), _ | away (.step _ _ _) _, _ => none

theorem step_of_next? (hnext : party.next? @runner w = some (added, party', w')) :
    party.Step @runner allowed w added party' w' := by
  unfold next? at hnext
  split at hnext
  · split at hnext
    · next hover =>
      cases hnext
      exact .own hover
    · cases hnext
  · cases hnext
    exact .leave
  · cases hnext
    exact .back
  · cases hnext
  · cases hnext

end Party

end TimedInvocation
