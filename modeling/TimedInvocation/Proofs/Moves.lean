import TimedInvocation.Machine
import TimedInvocation.Proofs.Runs

/-!
# Moves of the world

Everything that can happen to the world in one step, said once. Plain moves are those that leave
alone what a computation or the closing of a store is in the middle of; the others are the sections of
computations and closings, and what the machine does between the steps of threads.

Acts whose steps are moves keep whatever moves keep. Waiting is no obstacle to them as long as other
moves can end it. A move is quiet unless it delivers the result of a worker, which only the machine does
and no step of an act.
-/

namespace TimedInvocation

open Relation

variable {H : Host} {α β : Type}

namespace World

/-- The steps of routines, those of computations and closings apart. -/
inductive Plain : World H → World H → Prop where
  | unchanged (w : World H) : Plain w w
  | state (w : World H) (state : H.State) : Plain w { w with state := state }
  | logged (w : World H) (e : Event) : Plain w (w.logged e)
  | recorded (w : World H) (o : Occurrence) : Plain w (w.recorded o)
  | allocated (w : World H) (datum : Datum) : Plain w (w.allocate datum).2
  | storeMade (w : World H) (parent : Option StoreId) : Plain w (w.newStore parent).2
  | put (w : World H) (s : StoreId) (k : Key) (datum : Datum)
      (cleanup : Option (Value → Program H .done)) : Plain w (w.put s k datum cleanup).2
  | removed (w : World H) (s : StoreId) (k : Key) (t : Ty) : Plain w (w.remove s k t).2
  | tokenMade (w : World H) : Plain w w.newToken.2
  | cancelled (w : World H) (t : TokenId) : Plain w (w.cancel t)
  | alarmSet (w : World H) (t : TokenId) (time : Nat) : Plain w (w.setAlarm t time)
  | alarmsCleared (w : World H) (t : TokenId) : Plain w (w.clearAlarm t)
  | extensionMade (w : World H) (plan : ExtensionPlan (Program H)) : Plain w (w.newExtension plan).2
  | registryMade (w : World H) (parent : Option RegistryId) (extensions : List ExtensionId) :
      Plain w (w.newRegistry parent extensions).2
  | scopeMade (w : World H) (place : ScopePlace H.Source) (displayName : Option String)
      (extensions : List ExtensionId) : Plain w (w.newScope place displayName extensions).2
  | parameterRead (w : World H) (s : ScopeId) (name : String) : Plain w (w.parameter s name).2
  | configurationMade (w : World H) (source : H.Source) (probe : H.State → Bool × H.State) :
      Plain w (w.newConfiguration source probe).2
  | consulted {α : Type} (w : World H) (c : ConfigurationId) (default : α)
      (f : Consultation H.Source H.State → α × Consultation H.Source H.State) :
      Plain w (w.consult c default f).2
  | enforcerMade (w : World H) (stop : TokenId) (signals : Bool) :
      Plain w (w.newEnforcer stop signals).2
  | workerCounted (w : World H) (e : EnforcerId) : Plain w (w.nextWorker e).2
  | spawned (w : World H) : Plain w w.spawn.2
  | workerStarted (w : World H) (number : Nat) (token : TokenId)
      (body : TokenId → Program H .result) : Plain w (w.startWorker number token body).2

/-- Everything that can happen to the world in one step. -/
inductive Move : World H → World H → Prop where
  | plain {w w' : World H} (hplain : Plain w w') : Move w w'
  | reserved (w : World H) (s : StoreId) (k : Key) : Move w (w.reserve s k).2
  | claimed (w : World H) (s : StoreId) (i : SlotId) (hsettled : w.heap.isSettled i = true) :
      Move w (w.claim s i).2
  | vacated (w : World H) (i : SlotId) : Move w (w.vacate i)
  | filled (w : World H) (s : StoreId) (i : SlotId) (datum : Datum)
      (cleanup : Option (Value → Program H .done)) : Move w (w.fill s i datum cleanup).2
  | cleanupTaken (w : World H) (i : SlotId) : Move w (w.takeCleanup i).2
  | closeBegun (w : World H) (s : StoreId) : Move w (w.beginClose s).2
  | delivered (w : World H) (id : WorkerId) (result : Outcome (Except Failure H.Result)) :
      Move w (w.deliver id result)
  | moved (w : World H) (time : Nat) : Move w (w.moveTo time)

/-- The clock does not go back, and tokens and workers are only added. -/
structure Onward (w w' : World H) : Prop where
  clock : w.clock ≤ w'.clock
  tokens : w.tokens.length ≤ w'.tokens.length
  workers : w.workers <+: w'.workers

/-- A move that delivers no result. -/
def Quiet (w w' : World H) : Prop :=
  Move w w' ∧ w.Onward w'

/-- What may happen to the world while a thread waits for its next step. -/
abbrev Meanwhile : World H → World H → Prop :=
  ReflTransGen Move

/-- The worlds that moves lead to from one in which nothing has been made. -/
def Reachable (w : World H) : Prop :=
  ∃ state, Meanwhile (initial state) w

end World

open World

/-- An embedder that keeps nothing and never gets in the way. -/
def Host.bare : Host where
  State := Unit
  Result := Unit
  Source := Unit
  read _ _ _ := (none, ())
  debugger _ := (false, ())
  spawn _ := (none, ())

/-- Quiet moves of others can end the wait. -/
def Pause.CanEnd (pause : Pause H) : Prop :=
  ∀ w, ∃ w₁, ReflTransGen World.Quiet w w₁ ∧ pause.isOver w₁ = true

theorem World.meanwhile_of_quiet {w w' : World H} (hwait : ReflTransGen World.Quiet w w') : Meanwhile w w' :=
  ReflTransGen.mono (fun _ _ hquiet => hquiet.1) _ _ hwait

theorem Pause.canEnd_none : (Pause.none : Pause H).CanEnd := fun w =>
  ⟨w, .refl, rfl⟩

theorem World.clock_foldl_cancel (tokens : List TokenId) (w : World H) :
    (tokens.foldl World.cancel w).clock = w.clock := by
  induction tokens generalizing w with
  | nil => rfl
  | cons t rest ih => simp only [List.foldl_cons, ih]; rfl

theorem World.le_clock_moveTo (w : World H) (time : Nat) : time ≤ (w.moveTo time).clock := by
  simp only [World.moveTo, World.clock_foldl_cancel]
  exact Nat.le_max_right _ _

section Quiet

variable {w w' : World H}

theorem World.Onward.of_eq (hclock : w'.clock = w.clock) (htokens : w'.tokens = w.tokens)
    (hworkers : w'.workers = w.workers) : w.Onward w' :=
  ⟨Nat.le_of_eq hclock.symm, by simp [htokens], by simp [hworkers]⟩

theorem World.onward_newScope (w : World H) (place : ScopePlace H.Source)
    (displayName : Option String) (extensions : List ExtensionId) :
    w.Onward (w.newScope place displayName extensions).2 := by
  cases place with
  | root uniqueId source => exact .of_eq rfl rfl rfl
  | child parent segment =>
      simp only [World.newScope]
      split <;> exact .of_eq rfl rfl rfl

theorem World.tokens_foldl_cancel (tokens : List TokenId) (w : World H) :
    (tokens.foldl World.cancel w).tokens.length = w.tokens.length := by
  induction tokens generalizing w with
  | nil => rfl
  | cons t rest ih => simp [ih, World.cancel]

theorem World.workers_foldl_cancel (tokens : List TokenId) (w : World H) :
    (tokens.foldl World.cancel w).workers = w.workers := by
  induction tokens generalizing w with
  | nil => rfl
  | cons t rest ih => simp only [List.foldl_cons, ih]; rfl

theorem World.heap_foldl_cancel (tokens : List TokenId) (w : World H) :
    (tokens.foldl World.cancel w).heap = w.heap := by
  induction tokens generalizing w with
  | nil => rfl
  | cons t rest ih => exact ih _

theorem World.heap_moveTo (w : World H) (time : Nat) : (w.moveTo time).heap = w.heap :=
  heap_foldl_cancel _ _

theorem World.onward_moveTo (w : World H) (time : Nat) : w.Onward (w.moveTo time) := by
  refine ⟨?_, ?_, ?_⟩
  · simp only [World.moveTo, World.clock_foldl_cancel]
    exact Nat.le_max_left _ _
  · simp only [World.moveTo, World.tokens_foldl_cancel]
    exact Nat.le_refl _
  · simp only [World.moveTo, World.workers_foldl_cancel]
    exact List.prefix_rfl

theorem World.Plain.onward (hplain : Plain w w') : w.Onward w' := by
  cases hplain with
  | storeMade _ parent => cases parent <;> exact .of_eq rfl rfl rfl
  | put _ s k datum cleanup =>
      simp only [World.put]
      split <;> exact .of_eq rfl rfl rfl
  | removed _ s k t =>
      simp only [World.remove]
      split <;> exact .of_eq rfl rfl rfl
  | tokenMade => exact ⟨Nat.le_refl _, by simp [World.newToken], List.prefix_rfl⟩
  | cancelled _ t => exact ⟨Nat.le_refl _, by simp [World.cancel], List.prefix_rfl⟩
  | scopeMade _ place displayName extensions => exact w.onward_newScope place displayName extensions
  | parameterRead _ s name =>
      simp only [World.parameter]
      split <;> exact .of_eq rfl rfl rfl
  | consulted _ c default f =>
      simp only [World.consult]
      split <;> exact .of_eq rfl rfl rfl
  | workerStarted _ number token body =>
      exact ⟨Nat.le_refl _, Nat.le_refl _, List.prefix_append _ _⟩
  | unchanged | state | logged | recorded | allocated | alarmSet | alarmsCleared | extensionMade
  | registryMade | configurationMade | enforcerMade | workerCounted | spawned =>
      exact .of_eq rfl rfl rfl

/-- What a plain move does to the heap, if anything: there is a further store, with nothing above it or below
one that there was, or something is put into a store or taken out of it. -/
inductive World.HeapEffect (w w' : World H) : Prop where
  | same (hheap : w'.heap = w.heap)
  | storeMade (ancestors : List StoreId)
      (habove : ancestors = [] ∨
        ∃ p < w.heap.stores.length, ancestors = p :: (w.heap.store p).ancestors)
      (hheap : w'.heap = { w.heap with stores := w.heap.stores ++ [⟨ancestors, false, []⟩] })
  | put {s : StoreId} {k : Key} {stored : Stored (Program H .done)} {previous : Option Value}
      (hput : w.heap.put s k stored = .ok (previous, w'.heap))
  | removed {s : StoreId} {k : Key} {t : Ty} {taken : Option Value}
      (hremove : w.heap.remove s k t = .ok (taken, w'.heap))

theorem World.heapEffect_of_newStore (parent : Option StoreId) (hheap : w'.heap = (w.newStore parent).2.heap) :
    w.HeapEffect w' := by
  cases parent with
  | none => exact .storeMade [] (.inl rfl) hheap
  | some p =>
      refine .storeMade _ ?_ hheap
      split
      · exact .inl rfl
      · next above habove =>
        refine .inr ⟨p, (List.getElem?_eq_some_iff.mp habove).1, ?_⟩
        rw [Heap.store, habove]
        rfl

theorem World.Plain.heapEffect (hplain : Plain w w') : w.HeapEffect w' := by
  cases hplain with
  | storeMade _ parent => exact heapEffect_of_newStore parent rfl
  | put _ s k datum cleanup =>
      simp only [World.put]
      split
      · exact .same rfl
      · next hput => exact .put hput
  | removed _ s k t =>
      simp only [World.remove]
      split
      · exact .same rfl
      · next hremove => exact .removed hremove
  | scopeMade _ place displayName extensions =>
      cases place with
      | root uniqueId source => exact heapEffect_of_newStore none rfl
      | child parent segment =>
          simp only [World.newScope]
          split
          · exact .same rfl
          · next above _ => exact heapEffect_of_newStore (some above.store) rfl
  | consulted _ c default f =>
      simp only [World.consult]
      split <;> exact .same rfl
  | parameterRead _ s name =>
      simp only [World.parameter]
      split <;> exact .same rfl
  | _ => exact .same rfl

theorem World.Plain.quiet (hplain : Plain w w') : w.Quiet w' :=
  ⟨.plain hplain, hplain.onward⟩

theorem World.quiet_beginClose (w : World H) (s : StoreId) : w.Quiet (w.beginClose s).2 := by
  refine ⟨.closeBegun w s, ?_⟩
  simp only [World.beginClose]
  split <;> exact .of_eq rfl rfl rfl

/-- A move that delivers no result is quiet. -/
theorem World.Move.quiet_or_delivered (hmove : Move w w') :
    w.Quiet w' ∨ ∃ id result, w' = w.deliver id result := by
  cases hmove with
  | plain hplain => exact .inl hplain.quiet
  | claimed s i hsettled => exact .inl ⟨.claimed w s i hsettled, .of_eq rfl rfl rfl⟩
  | reserved s k => exact .inl ⟨.reserved w s k, .of_eq rfl rfl rfl⟩
  | vacated i => exact .inl ⟨.vacated w i, .of_eq rfl rfl rfl⟩
  | filled s i datum cleanup => exact .inl ⟨.filled w s i datum cleanup, .of_eq rfl rfl rfl⟩
  | cleanupTaken i => exact .inl ⟨.cleanupTaken w i, .of_eq rfl rfl rfl⟩
  | closeBegun s => exact .inl (w.quiet_beginClose s)
  | moved time => exact .inl ⟨.moved w time, w.onward_moveTo time⟩
  | delivered id result => exact .inr ⟨id, result, rfl⟩

theorem World.Move.clock_le (hmove : Move w w') : w.clock ≤ w'.clock := by
  rcases hmove.quiet_or_delivered with hquiet | ⟨id, result, rfl⟩
  · exact hquiet.2.clock
  · exact Nat.le_refl _

theorem World.Move.tokens_le (hmove : Move w w') : w.tokens.length ≤ w'.tokens.length := by
  rcases hmove.quiet_or_delivered with hquiet | ⟨id, result, rfl⟩
  · exact hquiet.2.tokens
  · exact Nat.le_refl _

theorem World.Meanwhile.clock_le (hmoves : Meanwhile w w') : w.clock ≤ w'.clock := by
  induction hmoves with
  | refl => exact Nat.le_refl _
  | tail _ hmove ih => exact Nat.le_trans ih hmove.clock_le

theorem World.Meanwhile.tokens_le (hmoves : Meanwhile w w') :
    w.tokens.length ≤ w'.tokens.length := by
  induction hmoves with
  | refl => exact Nat.le_refl _
  | tail _ hmove ih => exact Nat.le_trans ih hmove.tokens_le

end Quiet

/-- A wait with a deadline ends when the clock gets there. -/
theorem Pause.canEnd_of_deadline (condition : World H → Bool) (time : Nat) :
    (Pause.mk condition (some time)).CanEnd := by
  intro w
  refine ⟨w.moveTo time, .single ⟨.moved w time, w.onward_moveTo time⟩, ?_⟩
  simp [Pause.isOver, World.le_clock_moveTo]

/-- A wait for a slot ends when the slot is left vacant. -/
theorem Pause.canEnd_isSettled (i : SlotId) :
    (Pause.mk (fun w : World H => w.heap.isSettled i) .none).CanEnd := by
  intro w
  refine ⟨w.vacate i, .single ⟨.vacated w i, .of_eq rfl rfl rfl⟩, ?_⟩
  have hvacant : (w.vacate i).heap.slot i = .vacant := by
    simp only [World.vacate, Heap.vacate, Heap.setSlot, Heap.slot, List.getElem?_set]
    split
    · split <;> rfl
    · contradiction
  simp [Pause.isOver, Heap.isSettled, hvacant]

/-- Every step of the act is a move. -/
def Act.Moves : Act H α → Prop
  | .ended _ => True
  | .step pause change next =>
      (∀ w, pause.isOver w = true → Move w (change w)) ∧ ∀ w, (next w).Moves

/-- Every step of the act is a move that delivers no result. -/
def Act.Quiet : Act H α → Prop
  | .ended _ => True
  | .step pause change next =>
      (∀ w, pause.isOver w = true → World.Quiet w (change w)) ∧ ∀ w, (next w).Quiet

/-- Whatever the runner runs moves the world. -/
def Runner.Moves (runner : Runner H) : Prop :=
  ∀ {r : Reply} (program : Program H r), (runner program).Moves

/-- Every step of the routine is a move that others can let happen. -/
def Routine.Moves : Routine H α → Prop
  | .ended _ => True
  | .step pause change next =>
      ((∀ w, pause.isOver w = true → Move w (change w)) ∧ pause.CanEnd) ∧ ∀ w, (next w).Moves
  | .call _ next => ∀ outcome, (next outcome).Moves

/-- Every step of the routine is a move that delivers no result and that others can let happen. -/
def Routine.Quiet : Routine H α → Prop
  | .ended _ => True
  | .step pause change next =>
      ((∀ w, pause.isOver w = true → World.Quiet w (change w)) ∧ pause.CanEnd) ∧
        ∀ w, (next w).Quiet
  | .call _ next => ∀ outcome, (next outcome).Quiet

namespace Act

theorem Quiet.moves {act : Act H α} (hact : act.Quiet) : act.Moves := by
  induction act with
  | ended outcome => trivial
  | step pause change next ih =>
      exact ⟨fun w hover => (hact.1 w hover).1, fun w => ih w (hact.2 w)⟩

theorem Quiet.andThen {act : Act H α} {rest : α → Act H β} (hact : act.Quiet)
    (hrest : ∀ a, (rest a).Quiet) : (act.andThen rest).Quiet := by
  induction act with
  | ended outcome =>
      cases outcome with
      | returned a => exact hrest a
      | panicked payload => trivial
  | step pause change next ih => exact ⟨hact.1, fun w => ih w (hact.2 w)⟩

theorem Quiet.attempt {act : Act H α} (hact : act.Quiet) : act.attempt.Quiet := by
  induction act with
  | ended outcome => trivial
  | step pause change next ih => exact ⟨hact.1, fun w => ih w (hact.2 w)⟩

theorem Quiet.advance {act : Act H α} (hact : act.Quiet) (w : World H) :
    (act.advance w).1.Quiet := by
  induction act generalizing w with
  | ended outcome => trivial
  | step pause change next ih =>
      rw [Act.advance]
      split
      · exact ih w (hact.2 w) (change w)
      · exact hact

/-- What an act of moves does up to its end, or to a step that has to wait, moves the world. -/
theorem Moves.advance {act : Act H α} (hact : act.Moves) (w : World H) :
    Meanwhile w (act.advance w).2 := by
  induction act generalizing w with
  | ended outcome => exact .refl
  | step pause change next ih =>
      rw [Act.advance]
      by_cases hover : pause.isOver w = true
      · rw [if_pos hover]
        exact .head (hact.1 w hover) (ih w (hact.2 w) (change w))
      · rw [if_neg hover]

/-- An act of moves, among others who make moves, moves the world. -/
theorem Moves.meanwhile {act : Act H α} (hact : act.Moves) {w w' : World H} {outcome : Outcome α}
    (hends : act.Ends Move w outcome w') : Meanwhile w w' := by
  induction hends with
  | ended hwait => exact hwait
  | step hwait hover _ ih => exact (hwait.tail (hact.1 _ hover)).trans (ih (hact.2 _))

end Act

namespace Routine

variable {runner : Runner H}

theorem Quiet.moves {routine : Routine H α} (hroutine : routine.Quiet) : routine.Moves := by
  induction routine with
  | ended outcome => trivial
  | step pause change next ih =>
      exact ⟨⟨fun w hover => (hroutine.1.1 w hover).1, hroutine.1.2⟩, fun w => ih w (hroutine.2 w)⟩
  | call program next ih => exact fun outcome => ih outcome (hroutine outcome)

theorem Quiet.bind {routine : Routine H α} {rest : α → Routine H β} (hroutine : routine.Quiet)
    (hrest : ∀ a, (rest a).Quiet) : (routine >>= rest).Quiet := by
  change (routine.andThen rest).Quiet
  induction routine with
  | ended outcome =>
      cases outcome with
      | returned a => exact hrest a
      | panicked payload => trivial
  | step pause change next ih => exact ⟨hroutine.1, fun w => ih w (hroutine.2 w)⟩
  | call program next ih => exact fun outcome => ih outcome (hroutine outcome)

theorem Quiet.attempt {routine : Routine H α} (hroutine : routine.Quiet) :
    routine.attempt.Quiet := by
  induction routine with
  | ended outcome => trivial
  | step pause change next ih => exact ⟨hroutine.1, fun w => ih w (hroutine.2 w)⟩
  | call program next ih => exact fun outcome => ih outcome (hroutine outcome)

theorem Quiet.play {routine : Routine H α} (hroutine : routine.Quiet)
    (hrunner : ∀ {r : Reply} (program : Program H r), (runner program).Quiet) :
    (routine.play @runner).Quiet := by
  induction routine with
  | ended outcome => trivial
  | step pause change next ih => exact ⟨hroutine.1.1, fun w => ih w (hroutine.2 w)⟩
  | call program next ih =>
      exact (hrunner program).attempt.andThen fun outcome => ih outcome (hroutine outcome)

theorem Moves.meanwhile {routine : Routine H α} (hroutine : routine.Moves)
    (hrunner : Runner.Moves @runner) {w w' : World H} {marks : List (Mark H)}
    {outcome : Outcome α} (hruns : routine.Runs Move @runner w marks outcome w') :
    Meanwhile w w' := by
  induction hruns with
  | ended hwait => exact hwait
  | step hwait hover _ ih => exact (hwait.tail (hroutine.1.1 _ hover)).trans (ih (hroutine.2 _))
  | call hwait hcall _ ih =>
      exact (hwait.trans ((hrunner _).meanwhile hcall)).trans (ih (hroutine _))

theorem Moves.canGoOn {routine : Routine H α} (hroutine : routine.Moves) :
    routine.CanGoOn Move := by
  induction routine with
  | ended outcome => trivial
  | step pause change next ih =>
      refine ⟨fun w => ?_, fun w => ih w (hroutine.2 w)⟩
      obtain ⟨w₁, hwait, hover⟩ := hroutine.1.2 w
      exact ⟨w₁, meanwhile_of_quiet hwait, hover⟩
  | call program next ih => exact fun outcome => ih outcome (hroutine outcome)

/-- A routine of moves gets to its end, unless it calls user code that does not end. -/
theorem Moves.runs_or_hangs {routine : Routine H α} (hroutine : routine.Moves) (w : World H) :
    (∃ marks outcome w', routine.Runs Move @runner w marks outcome w') ∨
      routine.Hangs Move @runner w :=
  hroutine.canGoOn.runs_or_hangs w

end Routine

end TimedInvocation
