import TimedInvocation.Routine

/-!
# Store operations

Whatever a store operation does to the heap happens in sections that nothing interrupts; user code runs
between them. Computing a value runs its factory while the slot is marked, so that others who want the
value wait for it; closing a store runs the cleanup actions that are still owed, the newest entry
first, past every failure. A value whose store was closed while it was computed is cleaned up by
whoever computed it.
-/

namespace TimedInvocation

namespace World

variable {H : Host}

/-- The section that makes a store, possibly below another one. -/
def newStore (w : World H) (parent : Option StoreId) : StoreId × World H :=
  let (s, heap) := match parent with
    | none => w.heap.addRoot
    | some p => w.heap.addChild p
  (s, { w with heap := heap })

/-- The section that puts a datum, possibly with a cleanup action for its value. -/
def put (w : World H) (s : StoreId) (k : Key) (datum : Datum)
    (cleanup : Option (Value → Program H .done)) : Except StoreError (Option Value) × World H :=
  let v : Value := ⟨w.values, datum⟩
  match w.heap.put s k ⟨v, cleanup.map fun f => f v⟩ with
  | .error e => (.error e, w)
  | .ok (previous, heap) => (.ok previous, { w with heap := heap, values := w.values + 1 })

def remove (w : World H) (s : StoreId) (k : Key) (t : Ty) :
    Except StoreError (Option Value) × World H :=
  match w.heap.remove s k t with
  | .error e => (.error e, w)
  | .ok (taken, heap) => (.ok taken, { w with heap := heap })

/-- The section that marks a store closed and takes its entries. -/
def beginClose (w : World H) (s : StoreId) : Option (List (Key × SlotId)) × World H :=
  match w.heap.beginClose s with
  | none => (none, w)
  | some (entries, heap) => (some entries, { w with heap := heap })

/-- The section that takes the cleanup action owed for a slot, which is then run. -/
def takeCleanup (w : World H) (i : SlotId) : Option (Program H .done) × World H :=
  let (cleanup, heap) := w.heap.takeCleanup i
  (cleanup, { w with heap := heap })

def reserve (w : World H) (s : StoreId) (k : Key) : Heap.Admission × World H :=
  let (admission, heap) := w.heap.reserve s k
  (admission, { w with heap := heap })

/-- The section that marks a vacant slot or finds its value. -/
def claim (w : World H) (s : StoreId) (i : SlotId) : Option Value × World H :=
  let (value, heap) := w.heap.claim s i
  (value, { w with heap := heap })

/-- The section that leaves a marked slot vacant again. -/
def vacate (w : World H) (i : SlotId) : World H :=
  { w with heap := w.heap.vacate i }

/-- The section that stores a computed datum in a marked slot, as a new value. -/
def fill (w : World H) (s : StoreId) (i : SlotId) (datum : Datum)
    (cleanup : Option (Value → Program H .done)) : Value × World H :=
  let v : Value := ⟨w.values, datum⟩
  (v, { w with
    heap := w.heap.fill s i ⟨v, cleanup.map fun f => f v⟩
    values := w.values + 1 })

end World

namespace Routine

variable {H : Host}

/-- Makes a store, possibly below another one. -/
def newStore (parent : Option StoreId) : Routine H StoreId :=
  update fun w => w.newStore parent

def get (s : StoreId) (k : Key) (t : Ty) : Routine H (Except StoreError (Option Value)) :=
  view fun w => w.heap.get s k t

/-- Puts a datum, possibly with a cleanup action for its value. -/
def put (s : StoreId) (k : Key) (datum : Datum) (cleanup : Option (Value → Program H .done)) :
    Routine H (Except StoreError (Option Value)) :=
  update fun w => w.put s k datum cleanup

def remove (s : StoreId) (k : Key) (t : Ty) : Routine H (Except StoreError (Option Value)) :=
  update fun w => w.remove s k t

/-- The error of a cleanup action that ended in some way, if it failed. -/
def cleanupFailure (k : Key) : Outcome (Except Failure Unit) → Option CleanupError
  | .returned (.ok ()) => none
  | .returned (.error e) => some ⟨k, e.chain⟩
  | .panicked payload => some (.ofPanic k payload)

/-- Runs a cleanup action and gives the error if it failed. -/
def runCleanup (k : Key) (cleanup : Program H .done) : Routine H (Option CleanupError) := do
  return cleanupFailure k (← attempt (run cleanup))

/-- Takes the cleanup action that a slot owes, if any, and runs it. -/
def cleanSlot (k : Key) (i : SlotId) : Routine H (Option CleanupError) := do
  match ← update fun w => w.takeCleanup i with
  | none => return none
  | some cleanup => runCleanup k cleanup

/-- Cleans the slots of several entries in order and collects the errors. -/
def cleanEntries : List (Key × SlotId) → Routine H (List CleanupError)
  | [] => pure []
  | (k, i) :: rest => do
    let error ← cleanSlot k i
    let errors ← cleanEntries rest
    return error.toList ++ errors

def close (s : StoreId) : Routine H (Except StoreCloseError Unit) := do
  match ← update fun w => w.beginClose s with
  | none => return .ok ()
  | some entries =>
    log ⟨.debug, .store, "closing context store", [⟨"entries", .shown (toString entries.length)⟩]⟩
    let errors ← cleanEntries entries.reverse
    if errors.isEmpty then return .ok () else return .error ⟨errors⟩

/-- Makes sure that a slot has a value and gives it, by waiting while somebody computes it or by running
the factory. A panic of the factory leaves the slot vacant. -/
def fillSlot {t : Ty} (s : StoreId) (i : SlotId) (factory : Routine H (DatumOf t))
    (cleanup : Option (Value → Program H .done)) : Routine H Value := do
  match ← updateAfter ⟨fun w => w.heap.isSettled i, none⟩ fun w => w.claim s i with
  | some v => return v
  | none =>
    match ← attempt factory with
    | .panicked payload =>
      change fun w => w.vacate i
      panic payload
    | .returned datum => update fun w => w.fill s i datum.val cleanup

/-- The event for a cleanup action that failed after its store was closed. -/
def lateCleanupEvent (e : CleanupError) : Event :=
  ⟨.warn, .store, "value computed while the store closed could not be cleaned up",
    [⟨"error", .shown e.message⟩, ⟨"cause", .shown e.cause.message⟩]⟩

/-- The value found in a slot, unless the store has been closed in the meantime. -/
def useSlot (s : StoreId) (k : Key) (t : Ty) (i : SlotId) (v : Value) :
    Routine H (Except StoreError Value) := do
  if ← view fun w => w.heap.isClosed s then
    match ← cleanSlot k i with
    | none => pure ()
    | some e => log (lateCleanupEvent e)
    return .error (.closed k)
  else return Heap.cast k t v

/-- Looks a key up and computes its value in this very store if there is none. -/
def compute (s : StoreId) (k : Key) (t : Ty) (factory : Routine H (DatumOf t))
    (cleanup : Option (Value → Program H .done)) : Routine H (Except StoreError Value) := do
  match ← update fun w => w.reserve s k with
  | .refused => return .error (.closed k)
  | .inherited v => return Heap.cast k t v
  | .slot i => useSlot s k t i (← fillSlot s i factory cleanup)

end Routine

end TimedInvocation
