import TimedInvocation.Proofs.Interleaving

/-!
# The stations of computations and closings

Between any two of its steps, a thread that computes a key or closes a store is at one of a few
stations. From each of them, the sections of the store that come next, and the stations that they lead
to, are known, whatever other threads have done to the heap in the meantime.
-/

namespace TimedInvocation

open World

variable {H : Host} {α β : Type} {C : Type}

namespace Routine

variable {Q : Outcome α → Prop} {R : Outcome β → Prop} {slots slots' : List SlotId}

/-- The routine takes the cleanup actions that some slots owe, in order, and ends in `Q` once they are
taken. Otherwise its own steps leave the heap alone. -/
def Cleans (Q : Outcome α → Prop) : Routine H α → List SlotId → Prop
  | .ended outcome, slots => Q outcome ∧ slots = []
  | .step _ change next, slots => ∀ w : World H,
      ((change w).heap = w.heap ∧ (next w).Cleans Q slots) ∨
        ∃ i rest, slots = i :: rest ∧ (change w).heap = (w.heap.takeCleanup i).2 ∧
          (next w).Cleans Q rest
  | .call _ next, slots => ∀ outcome, (next outcome).Cleans Q slots

theorem Cleans.bind {routine : Routine H α} {rest : α → Routine H β}
    (hroutine : routine.Cleans (fun outcome => ∃ a, outcome = .returned a) slots)
    (hrest : ∀ a, (rest a).Cleans R slots') : (routine >>= rest).Cleans R (slots ++ slots') := by
  change (routine.andThen rest).Cleans R (slots ++ slots')
  induction routine generalizing slots with
  | ended outcome =>
      obtain ⟨⟨a, rfl⟩, rfl⟩ := hroutine
      exact hrest a
  | step pause change next ih =>
      intro w
      rcases hroutine w with ⟨hheap, hnext⟩ | ⟨i, later, rfl, hheap, hnext⟩
      · exact .inl ⟨hheap, ih w hnext⟩
      · exact .inr ⟨i, later ++ slots', rfl, hheap, ih w hnext⟩
  | call program next ih => exact fun outcome => ih outcome (hroutine outcome)

theorem cleans_pure {a : α} (hQ : Q (.returned a)) : (pure a : Routine H α).Cleans Q [] :=
  ⟨hQ, rfl⟩

theorem cleans_log_bind {e : Event} {rest : Unit → Routine H α} (hrest : (rest ()).Cleans Q slots) :
    (log e >>= rest).Cleans Q slots :=
  fun _ => .inl ⟨rfl, hrest⟩

theorem cleans_cleanSlot (k : Key) (i : SlotId) :
    (cleanSlot k i : Routine H _).Cleans (fun outcome => ∃ a, outcome = .returned a) [i] := by
  intro w
  refine .inr ⟨i, [], rfl, rfl, ?_⟩
  simp only [pure, Routine.andThen]
  cases (w.takeCleanup i).1 with
  | none => exact ⟨⟨none, rfl⟩, rfl⟩
  | some cleanup => exact fun outcome => ⟨⟨_, rfl⟩, rfl⟩

theorem cleans_cleanEntries (entries : List (Key × SlotId)) :
    (cleanEntries entries : Routine H _).Cleans (fun outcome => ∃ a, outcome = .returned a)
      (entries.map Prod.snd) := by
  induction entries with
  | nil => exact cleans_pure ⟨[], rfl⟩
  | cons entry rest ih =>
      apply (cleans_cleanSlot entry.1 entry.2).bind
      intro error
      rw [← List.append_nil (rest.map Prod.snd)]
      exact ih.bind fun errors => cleans_pure ⟨_, rfl⟩

/-- Someone who finds the store closed cleans the slot and is refused. -/
theorem cleans_late (k : Key) (i : SlotId) :
    (do
      match ← cleanSlot k i with
      | none => pure ()
      | some e => log (lateCleanupEvent e)
      return .error (.closed k) : Routine H (Except StoreError Value)).Cleans
        (· = .returned (.error (.closed k))) [i] := by
  apply (cleans_cleanSlot k i).bind
  intro error
  cases error with
  | none => exact cleans_pure rfl
  | some e => exact cleans_log_bind (cleans_pure rfl)

end Routine

namespace Party

variable {runner : Runner H}
  {allowed : Heap (Program H .done) → List StoreOccurrence → Heap (Program H .done) → Prop}
  {party party' : Party H α} {w w' : World H} {added : List StoreOccurrence}
  {Q : Outcome α → Prop} {slots : List SlotId}

/-- The thread has some slots to clean, and then ends in `Q`. -/
inductive Cleaning (Q : Outcome α → Prop) : Party H α → List SlotId → Prop where
  | own {routine : Routine H α} {slots : List SlotId} (hcleans : routine.Cleans Q slots) :
      Cleaning Q (.own routine) slots
  | away {r : Reply} {act : Act H (r.Carrier H)} {next : Outcome (r.Carrier H) → Routine H α}
      {slots : List SlotId} (hcleans : ∀ outcome, (next outcome).Cleans Q slots) :
      Cleaning Q (.away act next) slots

/-- With a step, the thread takes the cleanup action of the slot that is next, or it has the same slots
to clean as before. -/
theorem Cleaning.step (hallowed : ∀ h, allowed h [] h) (hcleaning : party.Cleaning Q slots)
    (hstep : party.Step @runner allowed w added party' w') :
    (party'.Cleaning Q slots ∧ allowed w.heap added w'.heap) ∨
      ∃ i rest, slots = i :: rest ∧ party'.Cleaning Q rest ∧
        w'.heap = (w.heap.takeCleanup i).2 ∧ added = w.heap.since w'.heap := by
  cases hcleaning with
  | own hcleans =>
      cases hstep with
      | own hover =>
          rcases hcleans w with ⟨hheap, hnext⟩ | ⟨i, rest, rfl, hheap, hnext⟩
          · refine .inl ⟨.own hnext, ?_⟩
            rw [hheap, Heap.since_self]
            exact hallowed _
          · exact .inr ⟨i, rest, rfl, .own hnext, hheap, rfl⟩
      | leave => exact .inl ⟨.away hcleans, hallowed _⟩
  | away hcleans =>
      cases hstep with
      | user hover hchange => exact .inl ⟨.away hcleans, hchange⟩
      | back => exact .inl ⟨.own (hcleans _), hallowed _⟩

end Party

/-- Someone who computes a key: the type asked for, the factory, and the way in which the value is to be
closed. -/
structure Caller (H : Host) where
  type : Ty
  factory : Program H (.datum type)
  close : Value → Program H .done

namespace Caller

variable {runner : Runner H}
  {allowed : Heap (Program H .done) → List StoreOccurrence → Heap (Program H .done) → Prop}
  {s : StoreId} {k : Key} {caller : Caller H}

/-- The computation of a key in a store. -/
def routine (caller : Caller H) (s : StoreId) (k : Key) : Routine H (Except StoreError Value) :=
  .compute s k caller.type (.run caller.factory) (some caller.close)

/-- How it goes on when it has been given a slot. -/
def waiting (caller : Caller H) (s : StoreId) (k : Key) (i : SlotId) :
    Routine H (Except StoreError Value) := do
  Routine.useSlot s k caller.type i (← Routine.fillSlot s i (.run caller.factory) (some caller.close))

/-- How it goes on when the factory has ended. -/
def resume (caller : Caller H) (s : StoreId) (k : Key) (i : SlotId)
    (outcome : Outcome (DatumOf caller.type)) : Routine H (Except StoreError Value) := do
  let v ← match outcome with
    | .panicked payload => do
      Routine.change fun w => w.vacate i
      Routine.panic payload
    | .returned datum => Routine.update fun w => w.fill s i datum.val (some caller.close)
  Routine.useSlot s k caller.type i v

/-- How it goes on when a value was found in the slot. -/
def checking (caller : Caller H) (s : StoreId) (k : Key) (i : SlotId) (v : Value) :
    Routine H (Except StoreError Value) :=
  .useSlot s k caller.type i v

/-- How it goes on after the first section. -/
def admitted (caller : Caller H) (s : StoreId) (k : Key) :
    Heap.Admission → Routine H (Except StoreError Value)
  | .refused => return .error (.closed k)
  | .inherited v => return Heap.cast k caller.type v
  | .slot i => caller.waiting s k i

/-- How it goes on once its slot is settled. -/
def claimed (caller : Caller H) (s : StoreId) (k : Key) (i : SlotId) :
    Option Value → Routine H (Except StoreError Value)
  | some v => caller.checking s k i v
  | none => .call caller.factory (caller.resume s k i)

/-- How it goes on after the check whether the store has been closed. -/
def checked (caller : Caller H) (k : Key) (i : SlotId) (v : Value) :
    Bool → Routine H (Except StoreError Value)
  | true => do
    match ← Routine.cleanSlot k i with
    | none => pure ()
    | some e => Routine.log (Routine.lateCleanupEvent e)
    return .error (.closed k)
  | false => return Heap.cast k caller.type v

theorem routine_eq (caller : Caller H) (s : StoreId) (k : Key) :
    caller.routine s k = .step .none (fun w => (w.reserve s k).2) fun w =>
      caller.admitted s k (w.heap.reserve s k).1 :=
  congrArg (Routine.step _ _) <| funext fun w => by
    change Routine.andThen (pure (w.heap.reserve s k).1) _ = _
    cases (w.heap.reserve s k).1 <;> rfl

theorem waiting_eq (caller : Caller H) (s : StoreId) (k : Key) (i : SlotId) :
    caller.waiting s k i = .step ⟨fun w => w.heap.isSettled i, none⟩ (fun w => (w.claim s i).2)
      fun w => caller.claimed s k i (w.heap.claim s i).1 :=
  congrArg (Routine.step _ _) <| funext fun w => by
    change Routine.andThen (Routine.andThen (pure (w.heap.claim s i).1) _) _ = _
    cases (w.heap.claim s i).1 with
    | some v => rfl
    | none => exact congrArg (Routine.call _) <| funext fun outcome => by cases outcome <;> rfl

theorem checking_eq (caller : Caller H) (s : StoreId) (k : Key) (i : SlotId) (v : Value) :
    caller.checking s k i v = .step .none id fun w => caller.checked k i v (w.heap.isClosed s) :=
  congrArg (Routine.step _ _) <| funext fun w => by
    change Routine.andThen (pure (w.heap.isClosed s)) _ = _
    cases w.heap.isClosed s <;> rfl

/-- Where someone who computes a key is between two steps. -/
inductive Station where
  /-- Before the first section. -/
  | arriving
  /-- With a slot, before it is marked or its value is found. -/
  | waiting (i : SlotId)
  /-- In the factory, or before the section that makes its end known. -/
  | computing (i : SlotId)
  /-- With a value, before the check whether the store has been closed. -/
  | checking (i : SlotId) (v : Value)
  /-- After finding the store closed, with slots to be cleaned. -/
  | leaving (slots : List SlotId)
  | done (outcome : Outcome (Except StoreError Value))

/-- Someone at the station may be in a call of user code. -/
def Station.Calls : Station → Prop
  | computing _ | leaving _ => True
  | _ => False

/-- The thread is at the station. -/
inductive At (caller : Caller H) (s : StoreId) (k : Key) :
    Party H (Except StoreError Value) → Station → Prop where
  | arriving : At caller s k (.own (caller.routine s k)) .arriving
  | waiting (i : SlotId) : At caller s k (.own (caller.waiting s k i)) (.waiting i)
  | calling (i : SlotId) :
      At caller s k (.own (.call caller.factory (caller.resume s k i))) (.computing i)
  | away (i : SlotId) (act : Act H (DatumOf caller.type)) :
      At caller s k (.away (r := .datum caller.type) act (caller.resume s k i)) (.computing i)
  | back (i : SlotId) (outcome : Outcome (DatumOf caller.type)) :
      At caller s k (.own (caller.resume s k i outcome)) (.computing i)
  | checking (i : SlotId) (v : Value) :
      At caller s k (.own (caller.checking s k i v)) (.checking i v)
  | leaving {party : Party H (Except StoreError Value)} {slots : List SlotId}
      (hcleaning : party.Cleaning (· = .returned (.error (.closed k))) slots) :
      At caller s k party (.leaving slots)
  | done (outcome : Outcome (Except StoreError Value)) :
      At caller s k (.own (.ended outcome)) (.done outcome)

/-- The sections of the store by which someone who computes a key gets from station to station. -/
inductive Advance (caller : Caller H) (s : StoreId) (k : Key) :
    Station → Heap (Program H .done) → Station → Heap (Program H .done) → Prop where
  | refused {h : Heap (Program H .done)} (hclosed : h.isClosed s = true) :
      Advance caller s k .arriving h (.leaving []) h
  | inherited {h : Heap (Program H .done)} {v : Value} (hopen : h.isClosed s = false)
      (hslot : (h.store s).slot? k = none) (hvalue : h.inherited? s k = some v) :
      Advance caller s k .arriving h (.done (.returned (Heap.cast k caller.type v))) h
  | joined {h : Heap (Program H .done)} {i : SlotId} (hopen : h.isClosed s = false)
      (hslot : (h.store s).slot? k = some i) : Advance caller s k .arriving h (.waiting i) h
  | made {h : Heap (Program H .done)} (hopen : h.isClosed s = false)
      (hslot : (h.store s).slot? k = none) :
      Advance caller s k .arriving h (.waiting h.slots.length) (h.addEntry s k .vacant).2
  | found {h : Heap (Program H .done)} {i : SlotId} {v : Value}
      (hvalue : (h.slot i).value? = some v) : Advance caller s k (.waiting i) h (.checking i v) h
  | marked {h : Heap (Program H .done)} {i : SlotId} (hvalue : (h.slot i).value? = none)
      (hsettled : h.isSettled i = true) :
      Advance caller s k (.waiting i) h (.computing i) (h.claim s i).2
  | panicked {h : Heap (Program H .done)} {i : SlotId} (payload : Panic) :
      Advance caller s k (.computing i) h (.done (.panicked payload)) (h.vacate i)
  | filled {h : Heap (Program H .done)} {i : SlotId} (v : Value) :
      Advance caller s k (.computing i) h (.checking i v) (h.fill s i ⟨v, some (caller.close v)⟩)
  | passed {h : Heap (Program H .done)} {i : SlotId} {v : Value} (hopen : h.isClosed s = false) :
      Advance caller s k (.checking i v) h (.done (.returned (Heap.cast k caller.type v))) h
  | failed {h : Heap (Program H .done)} {i : SlotId} {v : Value} (hclosed : h.isClosed s = true) :
      Advance caller s k (.checking i v) h (.leaving [i]) h
  | cleaned {h : Heap (Program H .done)} {i : SlotId} {slots : List SlotId} :
      Advance caller s k (.leaving (i :: slots)) h (.leaving slots) (h.takeCleanup i).2

/-- The first section of a computation gets it to a slot, or to its end. -/
theorem At.of_reservation (caller : Caller H) {h h' : Heap (Program H .done)} {admission : Heap.Admission}
    (hreserve : h.Reservation s k admission h') :
    ∃ b, caller.At s k (.own (caller.admitted s k admission)) b ∧
      caller.Advance s k .arriving h b h' := by
  cases hreserve with
  | refused hclosed => exact ⟨_, .leaving (.own ⟨rfl, rfl⟩), .refused hclosed⟩
  | present hopen hslot => exact ⟨_, .waiting _, .joined hopen hslot⟩
  | inherited hopen hslot hvalue => exact ⟨_, .done _, .inherited hopen hslot hvalue⟩
  | made hopen hslot hvalue => exact ⟨_, .waiting _, .made hopen hslot⟩

/-- Once its slot is settled, a computation finds a value there or starts its factory. -/
theorem At.of_claim (caller : Caller H) {h : Heap (Program H .done)} {i : SlotId}
    (hsettled : h.isSettled i = true) :
    ∃ b, caller.At s k (.own (caller.claimed s k i (h.claim s i).1)) b ∧
      caller.Advance s k (.waiting i) h b (h.claim s i).2 := by
  cases hvalue : (h.slot i).value? with
  | some v =>
      have hclaim : h.claim s i = (some v, h) := by
        rw [Heap.claim, hvalue]
      rw [hclaim]
      exact ⟨_, .checking i v, .found hvalue⟩
  | none =>
      have hmarked : caller.Advance s k (.waiting i) h (.computing i) (h.claim s i).2 :=
        .marked hvalue hsettled
      have hclaim : (h.claim s i).1 = none := by
        rw [Heap.claim, hvalue]
      rw [hclaim]
      exact ⟨_, .calling i, hmarked⟩

/-- The check whether the store has been closed ends a computation or leaves it a slot to clean. -/
theorem At.of_check (caller : Caller H) (w : World H) (i : SlotId) (v : Value) :
    ∃ b, caller.At s k (.own (caller.checked k i v (w.heap.isClosed s))) b ∧
      caller.Advance s k (.checking i v) w.heap b w.heap := by
  cases hclosed : w.heap.isClosed s with
  | true => exact ⟨_, .leaving (.own (Routine.cleans_late k i)), .failed hclosed⟩
  | false => exact ⟨_, .done _, .passed hclosed⟩

/-- From its station, the thread gets to another one by a section of the store, or it stays there while
user code does something. -/
theorem At.step {party party' : Party H (Except StoreError Value)} {a : Station} {w w' : World H}
    {added : List StoreOccurrence} (hallowed : ∀ h, allowed h [] h) (hat : caller.At s k party a)
    (hstep : party.Step @runner allowed w added party' w') :
    ∃ b, caller.At s k party' b ∧
      ((b = a ∧ a.Calls ∧ allowed w.heap added w'.heap) ∨
        (caller.Advance s k a w.heap b w'.heap ∧ added = w.heap.since w'.heap)) := by
  cases hat with
  | arriving =>
      rw [routine_eq] at hstep
      cases hstep with
      | own hover =>
          obtain ⟨b, hat', hadvance⟩ := At.of_reservation caller (w.heap.reservation s k)
          exact ⟨b, hat', .inr ⟨hadvance, rfl⟩⟩
  | waiting i =>
      rw [waiting_eq] at hstep
      cases hstep with
      | own hover =>
          have hsettled : w.heap.isSettled i = true := by
            simpa [Pause.isOver] using hover
          obtain ⟨b, hat', hadvance⟩ := At.of_claim caller (s := s) (k := k) hsettled
          exact ⟨b, hat', .inr ⟨hadvance, rfl⟩⟩
  | calling i =>
      cases hstep with
      | leave => exact ⟨_, .away i _, .inl ⟨rfl, trivial, hallowed _⟩⟩
  | away i act =>
      cases hstep with
      | user hover hchange => exact ⟨_, .away i _, .inl ⟨rfl, trivial, hchange⟩⟩
      | back => exact ⟨_, .back i _, .inl ⟨rfl, trivial, hallowed _⟩⟩
  | back i outcome =>
      cases outcome with
      | panicked payload =>
          cases hstep with
          | own hover => exact ⟨_, .done _, .inr ⟨.panicked payload, rfl⟩⟩
      | returned datum =>
          cases hstep with
          | own hover => exact ⟨_, .checking i _, .inr ⟨.filled _, rfl⟩⟩
  | checking i v =>
      rw [checking_eq] at hstep
      cases hstep with
      | own hover =>
          obtain ⟨b, hat', hadvance⟩ := At.of_check caller (s := s) (k := k) w i v
          exact ⟨b, hat', .inr ⟨hadvance, rfl⟩⟩
  | leaving hcleaning =>
      rcases hcleaning.step hallowed hstep with
        ⟨hrest, hchange⟩ | ⟨i, rest, rfl, hrest, hheap, hadded⟩
      · exact ⟨_, .leaving hrest, .inl ⟨rfl, trivial, hchange⟩⟩
      · refine ⟨_, .leaving hrest, .inr ⟨?_, hadded⟩⟩
        rw [hheap]
        exact .cleaned
  | done outcome => cases hstep

/-- Someone who has ended has got to the end, or was refused and has nothing left to clean. -/
theorem At.of_ended {outcome : Outcome (Except StoreError Value)} {a : Station}
    (hat : caller.At s k (.own (.ended outcome)) a) :
    a = .done outcome ∨ a = .leaving [] ∧ outcome = .returned (.error (.closed k)) := by
  generalize hparty : Party.own (.ended outcome) = party at hat
  cases hat with
  | arriving | waiting i | checking i v =>
      simp only [routine_eq, waiting_eq, checking_eq] at hparty
      cases hparty
  | calling i | away i act => cases hparty
  | back i outcome' => cases outcome' <;> cases hparty
  | leaving hcleaning =>
      subst hparty
      cases hcleaning with
      | own hcleans => exact .inr ⟨congrArg _ hcleans.2, hcleans.1⟩
  | done outcome' =>
      cases hparty
      exact .inl rfl

theorem At.of_value {v : Value} {a : Station}
    (hat : caller.At s k (.own (.ended (.returned (.ok v)))) a) : a = .done (.returned (.ok v)) := by
  rcases hat.of_ended with hdone | ⟨-, hrefused⟩
  · exact hdone
  · cases hrefused

/-- A value is found at an ancestor, or comes from the check that the store is open. -/
theorem Advance.of_value {a : Station} {h h' : Heap (Program H .done)} {v : Value}
    (hadvance : caller.Advance s k a h (.done (.returned (.ok v))) h') :
    h.isClosed s = false ∧
      ((h.store s).slot? k = none ∧ h.inherited? s k ≠ none ∨ ∃ i, a = .checking i v) := by
  generalize hb : Station.done (.returned (.ok v)) = b at hadvance
  cases hadvance with
  | inherited hopen hslot hvalue =>
      rw [hvalue]
      exact ⟨hopen, .inl ⟨hslot, Option.some_ne_none _⟩⟩
  | passed hopen =>
      rw [Station.done.injEq, Outcome.returned.injEq] at hb
      obtain rfl := Heap.eq_of_cast hb.symm
      exact ⟨hopen, .inr ⟨_, rfl⟩⟩
  | _ => cases hb

/-- Someone who ends with a value has found it at an ancestor, or has checked that the store is open. -/
theorem At.step_value {party : Party H (Except StoreError Value)} {a : Station} {w w' : World H}
    {added : List StoreOccurrence} {v : Value} (hallowed : ∀ h, allowed h [] h)
    (hat : caller.At s k party a)
    (hstep : party.Step @runner allowed w added (.own (.ended (.returned (.ok v)))) w') :
    w.heap.isClosed s = false ∧
      ((w.heap.store s).slot? k = none ∧ w.heap.inherited? s k ≠ none ∨
        ∃ i, a = .checking i v ∧ party = .own (caller.checking s k i v)) := by
  obtain ⟨b, hat', hmove⟩ := hat.step hallowed hstep
  obtain rfl := hat'.of_value
  rcases hmove with ⟨rfl, -, -⟩ | ⟨hadvance, -⟩
  · cases hat with
    | done => cases hstep
  · obtain ⟨hopen, hinherited | ⟨i, rfl⟩⟩ := hadvance.of_value
    · exact ⟨hopen, .inl hinherited⟩
    · cases hat with
      | checking => exact ⟨hopen, .inr ⟨i, rfl, rfl⟩⟩

end Caller

namespace Closer

variable {runner : Runner H}
  {allowed : Heap (Program H .done) → List StoreOccurrence → Heap (Program H .done) → Prop}
  {s : StoreId}

/-- Where someone who closes a store is between two steps: before the first section, or with slots to
be cleaned. -/
inductive Station where
  | closing
  | cleaning (slots : List SlotId)

/-- The thread is at the station. -/
inductive At (s : StoreId) : Party H (Except StoreCloseError Unit) → Station → Prop where
  | closing : At s (.own (.close s)) .closing
  | cleaning {party : Party H (Except StoreCloseError Unit)} {slots : List SlotId}
      (hcleaning : party.Cleaning (fun _ => True) slots) : At s party (.cleaning slots)

/-- The sections of the store by which someone who closes it gets from station to station. -/
inductive Advance (s : StoreId) :
    Station → Heap (Program H .done) → Station → Heap (Program H .done) → Prop where
  | already {h : Heap (Program H .done)} (hclosed : h.isClosed s = true) :
      Advance s .closing h (.cleaning []) h
  | began {h h' : Heap (Program H .done)} {entries : List (Key × SlotId)}
      (hbegin : h.beginClose s = some (entries, h')) :
      Advance s .closing h (.cleaning (entries.reverse.map Prod.snd)) h'
  | cleaned {h : Heap (Program H .done)} {i : SlotId} {slots : List SlotId} :
      Advance s (.cleaning (i :: slots)) h (.cleaning slots) (h.takeCleanup i).2

/-- How closing goes on after its first section. -/
def begun : Option (List (Key × SlotId)) → Routine H (Except StoreCloseError Unit)
  | none => return .ok ()
  | some entries => do
    Routine.log ⟨.debug, .store, "closing context store",
      [⟨"entries", .shown (toString entries.length)⟩]⟩
    let errors ← Routine.cleanEntries entries.reverse
    if errors.isEmpty then return .ok () else return .error ⟨errors⟩

theorem close_eq (s : StoreId) :
    (Routine.close s : Routine H (Except StoreCloseError Unit)) =
      .step .none (fun w => (w.beginClose s).2) fun w => begun (w.beginClose s).1 :=
  congrArg (Routine.step _ _) <| funext fun w => by
    change Routine.andThen (pure (w.beginClose s).1) _ = _
    cases (w.beginClose s).1 <;> rfl

theorem cleans_begun (entries : List (Key × SlotId)) :
    (begun (some entries) : Routine H (Except StoreCloseError Unit)).Cleans (fun _ => True)
      (entries.reverse.map Prod.snd) := by
  apply Routine.cleans_log_bind
  rw [← List.append_nil (entries.reverse.map Prod.snd)]
  apply (Routine.cleans_cleanEntries entries.reverse).bind
  intro errors
  cases errors with
  | nil => exact Routine.cleans_pure trivial
  | cons error errors => exact Routine.cleans_pure trivial

/-- The first section of closing a store gives it the slots that are to be cleaned. -/
theorem At.of_beginClose (w : World H) :
    ∃ b, At (H := H) s (.own (begun (w.beginClose s).1)) b ∧
      Advance s .closing w.heap b (w.beginClose s).2.heap := by
  cases hclosed : w.heap.isClosed s with
  | true =>
      have hbegin : w.beginClose s = (none, w) := by
        rw [World.beginClose, Heap.beginClose, if_pos hclosed]
      rw [hbegin]
      exact ⟨_, .cleaning (.own ⟨trivial, rfl⟩), .already hclosed⟩
  | false =>
      have hbegin := Heap.beginClose_eq hclosed
      simp only [World.beginClose, hbegin]
      exact ⟨_, .cleaning (.own (cleans_begun _)), .began hbegin⟩

/-- From its station, the thread gets to another one by a section of the store, or it stays there while
user code does something. -/
theorem At.step {party party' : Party H (Except StoreCloseError Unit)} {a : Station} {w w' : World H}
    {added : List StoreOccurrence} (hallowed : ∀ h, allowed h [] h) (hat : At s party a)
    (hstep : party.Step @runner allowed w added party' w') :
    ∃ b, At s party' b ∧
      ((b = a ∧ (∃ slots, a = .cleaning slots) ∧ allowed w.heap added w'.heap) ∨
        (Advance s a w.heap b w'.heap ∧ added = w.heap.since w'.heap)) := by
  cases hat with
  | closing =>
      rw [close_eq] at hstep
      cases hstep with
      | own hover =>
          obtain ⟨b, hat', hadvance⟩ := At.of_beginClose (s := s) w
          exact ⟨b, hat', .inr ⟨hadvance, rfl⟩⟩
  | cleaning hcleaning =>
      rcases hcleaning.step hallowed hstep with
        ⟨hrest, hchange⟩ | ⟨i, rest, rfl, hrest, hheap, hadded⟩
      · exact ⟨_, .cleaning hrest, .inl ⟨rfl, ⟨_, rfl⟩, hchange⟩⟩
      · refine ⟨_, .cleaning hrest, .inr ⟨?_, hadded⟩⟩
        rw [hheap]
        exact .cleaned

/-- Someone who has ended has nothing left to clean. -/
theorem At.of_ended {outcome : Outcome (Except StoreCloseError Unit)} {a : Station}
    (hat : At (H := H) s (.own (.ended outcome)) a) : a = .cleaning [] := by
  generalize hparty : Party.own (.ended outcome) = party at hat
  cases hat with
  | closing =>
      rw [close_eq] at hparty
      cases hparty
  | cleaning hcleaning =>
      subst hparty
      cases hcleaning with
      | own hcleans => exact congrArg _ hcleans.2

end Closer

end TimedInvocation
