import TimedInvocation.Error.Store

/-!
# The heap of stores

Stores form trees. A store holds entries in the order of their creation; an entry leads from a key to
a slot. A slot is vacant, being computed, or holds a value with the cleanup action that is still
owed for it. Slots live apart from the entries, because a computation keeps its slot even when the
entry has been replaced, removed or dropped by closing the store. The heap keeps a trace of what became
of its slots and stores.

The operations below are the sections that run without interruption. Everything that runs user code
is composed of them.
-/

namespace TimedInvocation

/-- The index of a store in the heap. -/
abbrev StoreId := Nat

/-- The index of a slot in the heap. -/
abbrev SlotId := Nat

/-- A value and the cleanup action that is owed for it. -/
structure Stored (C : Type) where
  value : Value
  cleanup : Option C

/-- The place of one value. -/
inductive Slot (C : Type) where
  | vacant
  | computing
  | holding (stored : Stored C)

/-- The value in a slot, if it has been computed. -/
def Slot.value? {C : Type} : Slot C → Option Value
  | holding stored => some stored.value
  | vacant | computing => none

/-- One store: its ancestors, the nearest first, whether it is closed, and its entries. -/
structure Store where
  ancestors : List StoreId
  closed : Bool
  entries : List (Key × SlotId)
  deriving DecidableEq

namespace Store

def slot? (s : Store) (k : Key) : Option SlotId :=
  s.entries.lookup k

/-- The store without the entry of a key. The other entries keep their order. -/
def erase (s : Store) (k : Key) : Store :=
  { s with entries := s.entries.filter fun entry => entry.1 ≠ k }

/-- The store with a new last entry for a key, in place of the one it had. -/
def insert (s : Store) (k : Key) (slot : SlotId) : Store :=
  { s.erase k with entries := (s.erase k).entries ++ [(k, slot)] }

end Store

/-- What becomes of slots and stores: a store gets an entry with a new slot, the factory for a slot is
started, a slot is filled with a value for which a cleanup action is owed or not, the value of an entry
is handed back, a store is closed, and the cleanup action owed for a slot is taken by somebody, to be run
by them. -/
inductive StoreOccurrence where
  | entered (store : StoreId) (slot : SlotId)
  | factory (store : StoreId) (slot : SlotId)
  | filled (store : StoreId) (slot : SlotId) (owed : Bool)
  | released (slot : SlotId)
  | closed (store : StoreId)
  | cleaned (slot : SlotId)
  deriving DecidableEq

/-- All stores and all slots, and what became of them, newest first. -/
structure Heap (C : Type) where
  stores : List Store
  slots : List (Slot C)
  trace : List StoreOccurrence

namespace Heap

variable {C : Type}

def empty : Heap C :=
  ⟨[], [], []⟩

/-- The state of a store. A store that was never created counts as closed. -/
def store (h : Heap C) (s : StoreId) : Store :=
  (h.stores[s]?).getD ⟨[], true, []⟩

/-- The state of a slot. A slot that was never created counts as vacant. -/
def slot (h : Heap C) (i : SlotId) : Slot C :=
  (h.slots[i]?).getD .vacant

def modifyStore (h : Heap C) (s : StoreId) (f : Store → Store) : Heap C :=
  { h with stores := h.stores.modify s f }

def setSlot (h : Heap C) (i : SlotId) (slot : Slot C) : Heap C :=
  { h with slots := h.slots.set i slot }

def recorded (h : Heap C) (o : StoreOccurrence) : Heap C :=
  { h with trace := o :: h.trace }

/-- A new last entry of a store, with a new slot, in place of the entry that the store had for the
key. -/
def addEntry (h : Heap C) (s : StoreId) (k : Key) (slot : Slot C) : SlotId × Heap C :=
  let i := h.slots.length
  (i, ({ h with slots := h.slots ++ [slot] }.modifyStore s fun store => store.insert k i).recorded
    (.entered s i))

def addRoot (h : Heap C) : StoreId × Heap C :=
  (h.stores.length, { h with stores := h.stores ++ [⟨[], false, []⟩] })

/-- A new store whose lookups fall back to a parent. -/
def addChild (h : Heap C) (parent : StoreId) : StoreId × Heap C :=
  let ancestors := match h.stores[parent]? with
    | none => []
    | some above => parent :: above.ancestors
  (h.stores.length, { h with stores := h.stores ++ [⟨ancestors, false, []⟩] })

def isClosed (h : Heap C) (s : StoreId) : Bool :=
  (h.store s).closed

/-- The computed value that a store holds itself for a key. -/
def localValue? (h : Heap C) (s : StoreId) (k : Key) : Option Value :=
  ((h.store s).slot? k).bind fun i => (h.slot i).value?

/-- The value for a key in the nearest of several stores that holds one. -/
def nearest? (h : Heap C) (k : Key) (stores : List StoreId) : Option Value :=
  stores.findSome? fun s => h.localValue? s k

/-- The value for a key in the ancestors of a store. -/
def inherited? (h : Heap C) (s : StoreId) (k : Key) : Option Value :=
  h.nearest? k (h.store s).ancestors

/-- The value for a key in a store or its ancestors. -/
def lookup? (h : Heap C) (s : StoreId) (k : Key) : Option Value :=
  h.nearest? k (s :: (h.store s).ancestors)

def cast (k : Key) (t : Ty) (v : Value) : Except StoreError Value :=
  match v.downcast t with
  | some v => .ok v
  | none => .error (.typeMismatch k t v.ty)

def get (h : Heap C) (s : StoreId) (k : Key) (t : Ty) : Except StoreError (Option Value) :=
  if h.isClosed s then .error (.closed k)
  else
    match h.lookup? s k with
    | none => .ok none
    | some v => (cast k t v).map some

/-- The heap with a record that the value of an entry is handed back, if it has one. -/
def releasing (h : Heap C) (s : StoreId) (k : Key) : Heap C :=
  match (h.store s).slot? k with
  | none => h
  | some i => if (h.slot i).value?.isSome then h.recorded (.released i) else h

/-- Puts a value into a store under a key. The value that the store held is handed back, and the
cleanup action owed for it is forgotten. -/
def put (h : Heap C) (s : StoreId) (k : Key) (stored : Stored C) :
    Except StoreError (Option Value × Heap C) :=
  if h.isClosed s then .error (.closed k)
  else
    let (i, after) := (h.releasing s k).addEntry s k (.holding stored)
    .ok (h.localValue? s k, after.recorded (.filled s i stored.cleanup.isSome))

/-- Takes the value of a type out of a store. Nothing is taken if the value has another type. -/
def remove (h : Heap C) (s : StoreId) (k : Key) (t : Ty) :
    Except StoreError (Option Value × Heap C) :=
  if h.isClosed s then .error (.closed k)
  else
    match h.localValue? s k with
    | none => .ok (none, h)
    | some v => (cast k t v).map fun v =>
        (some v, (h.releasing s k).modifyStore s fun store => store.erase k)

/-- How a request to compute a key goes on. -/
inductive Admission where
  | refused
  | inherited (v : Value)
  | slot (i : SlotId)
  deriving DecidableEq

/-- The first section of a computation: a closed store refuses it, an entry of the store or a value
of an ancestor is used, and otherwise a new entry with a vacant slot is made. -/
def reserve (h : Heap C) (s : StoreId) (k : Key) : Admission × Heap C :=
  if h.isClosed s then (.refused, h)
  else
    match (h.store s).slot? k with
    | some i => (.slot i, h)
    | none =>
      match h.inherited? s k with
      | some v => (.inherited v, h)
      | none =>
        let (i, h) := h.addEntry s k .vacant
        (.slot i, h)

def isSettled (h : Heap C) (i : SlotId) : Bool :=
  match h.slot i with
  | .computing => false
  | .vacant | .holding _ => true

/-- Marks a vacant slot, so that others who want its value wait, or gives the value that it holds. The
factory is run by whoever has marked the slot. -/
def claim (h : Heap C) (s : StoreId) (i : SlotId) : Option Value × Heap C :=
  match (h.slot i).value? with
  | some v => (some v, h)
  | none => (none, (h.setSlot i .computing).recorded (.factory s i))

def vacate (h : Heap C) (i : SlotId) : Heap C :=
  h.setSlot i .vacant

def fill (h : Heap C) (s : StoreId) (i : SlotId) (stored : Stored C) : Heap C :=
  (h.setSlot i (.holding stored)).recorded (.filled s i stored.cleanup.isSome)

/-- Takes the cleanup action that is owed for a slot and is then run. -/
def takeCleanup (h : Heap C) (i : SlotId) : Option C × Heap C :=
  match h.slot i with
  | .holding ⟨v, some c⟩ => (some c, (h.setSlot i (.holding ⟨v, none⟩)).recorded (.cleaned i))
  | _ => (none, h)

/-- Marks a store closed and takes its entries out of it; nothing if it is closed already. -/
def beginClose (h : Heap C) (s : StoreId) : Option (List (Key × SlotId) × Heap C) :=
  if h.isClosed s then none
  else some ((h.store s).entries,
    (h.modifyStore s fun store => { store with closed := true, entries := [] }).recorded (.closed s))

end Heap

end TimedInvocation
