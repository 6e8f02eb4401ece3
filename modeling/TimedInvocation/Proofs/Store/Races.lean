import Mathlib.Logic.Function.Basic
import Mathlib.Logic.Relation
import TimedInvocation.Proofs.Store.Closing
import TimedInvocation.Proofs.Store.Stations

/-!
# Races for a key

Any number of threads compute the same key of a store while any number of others close it. Only the
slot that the first of them makes matters: a value is put into it once, and whoever finds the store
closed, with the value in the slot, is in charge of its cleanup action.
-/

namespace TimedInvocation

open World

variable {H : Host} {C : Type} {ι κ : Type} {s : StoreId} {k : Key} {i : SlotId}

namespace Heap

variable {h h' : Heap C} {closed : Bool} {slot : Slot C}

/-- A change of the heap that leaves a race alone: the store stays open or closed, no value for the key
is put, removed or held by an ancestor, and nothing happens to the slots made in the race. -/
structure Spares (s : StoreId) (k : Key) (history : List StoreOccurrence) (h h' : Heap C) :
    Prop where
  isClosed : h'.isClosed s = h.isClosed s
  entry : (h'.store s).slot? k = (h.store s).slot? k
  inherited : h.inherited? s k = none → h'.inherited? s k = none
  created : h.slots.length ≤ h'.slots.length
  slot : ∀ i, .entered s i ∈ history → h'.slot i = h.slot i

theorem Spares.refl (history : List StoreOccurrence) (h : Heap C) : h.Spares s k history h :=
  ⟨rfl, rfl, id, Nat.le_refl _, fun _ _ => rfl⟩

/-- What user code may do that is run in a race: spare the race, or begin to close the store, which the
history tells. -/
inductive Tolerates (s : StoreId) (k : Key) (history : List StoreOccurrence) (h : Heap C) :
    List StoreOccurrence → Heap C → Prop where
  | spared {h' : Heap C} (hspares : h.Spares s k history h') : Tolerates s k history h [] h'
  | began {entries : List (Key × SlotId)} {h' : Heap C}
      (hbegin : h.beginClose s = some (entries, h')) : Tolerates s k history h [.closed s] h'

/-- What a heap shows of the store and of the slot that a race is about. -/
structure Shows (s : StoreId) (k : Key) (i : SlotId) (closed : Bool) (slot : Slot C)
    (h : Heap C) : Prop where
  isClosed : h.isClosed s = closed
  entry : closed = false → (h.store s).slot? k = some i
  created : i < h.slots.length
  slot : h.slot i = slot

namespace Shows

theorem of_spares {history : List StoreOccurrence} (hshows : h.Shows s k i closed slot)
    (hentered : .entered s i ∈ history) (hspares : h.Spares s k history h') :
    h'.Shows s k i closed slot where
  isClosed := hspares.isClosed.trans hshows.isClosed
  entry hopen := hspares.entry.trans (hshows.entry hopen)
  created := Nat.lt_of_lt_of_le hshows.created hspares.created
  slot := (hspares.slot i hentered).trans hshows.slot

theorem of_addEntry (hopen : h.isClosed s = false) :
    (h.addEntry s k .vacant).2.Shows s k h.slots.length false .vacant := by
  have hstore := h.store_addEntry (k := k) hopen .vacant s
  rw [if_pos rfl] at hstore
  constructor
  case isClosed =>
    rw [Heap.isClosed, hstore]
    exact hopen
  case entry =>
    intro _
    rw [hstore, Store.slot?_insert, if_pos rfl]
  case created => simp [addEntry, recorded]
  case slot => rw [slot_addEntry, if_pos rfl]

theorem setSlot (hshows : h.Shows s k i closed slot) (slot' : Slot C) :
    (h.setSlot i slot').Shows s k i closed slot' where
  isClosed := hshows.isClosed
  entry := hshows.entry
  created := by simpa using hshows.created
  slot := by rw [slot_setSlot hshows.created, if_pos rfl]

theorem recorded (hshows : h.Shows s k i closed slot) (o : StoreOccurrence) :
    (h.recorded o).Shows s k i closed slot :=
  ⟨hshows.isClosed, hshows.entry, hshows.created, hshows.slot⟩

theorem takeCleanup_of_ne (hshows : h.Shows s k i closed slot) {j : SlotId} (hj : i ≠ j) :
    (h.takeCleanup j).2.Shows s k i closed slot where
  isClosed := (isClosed_takeCleanup j s).trans hshows.isClosed
  entry := by rw [store_takeCleanup]; exact hshows.entry
  created := by rw [length_slots_takeCleanup]; exact hshows.created
  slot := (slot_takeCleanup_of_ne hj).trans hshows.slot

theorem beginClose (hshows : h.Shows s k i closed slot) {entries : List (Key × SlotId)}
    (hbegin : h.beginClose s = some (entries, h')) : h'.Shows s k i true slot := by
  have hclosed := isClosed_beginClose hbegin
  obtain ⟨-, -, rfl⟩ := of_beginClose hbegin
  exact ⟨hclosed, Bool.noConfusion, hshows.created, hshows.slot⟩

end Shows

end Heap

namespace StoreOccurrence

/-- A value is put into a slot. -/
def isFilling : StoreOccurrence → Bool
  | filled _ _ _ => true
  | _ => false

end StoreOccurrence

namespace Caller.Station

/-- The station agrees with the state of the store and of the slot that the race is about. -/
def Fits (i : SlotId) (closed : Bool) (slot : Slot C) : Station → Prop
  | arriving => True
  | waiting j => j = i
  | computing j => j = i ∧ slot = .computing
  | checking j v => j = i ∧ slot.value? = some v
  | leaving _ => closed = true
  | done outcome => ∀ v, outcome = .returned (.ok v) → slot.value? = some v

/-- Someone at the station will take the cleanup action of the slot if the store is closed by then. -/
def InCharge (i : SlotId) : Station → Prop
  | checking j _ => j = i
  | leaving slots => i ∈ slots
  | _ => False

theorem Fits.mono {a : Station} {closed closed' : Bool} {slot slot' : Slot C}
    (hfits : a.Fits i closed slot) (hclosed : closed = true → closed' = true)
    (hcomputing : a = computing i → slot = .computing → slot' = .computing)
    (hvalue : ∀ v, slot.value? = some v → slot'.value? = some v) : a.Fits i closed' slot' := by
  cases a with
  | arriving => trivial
  | waiting j => exact hfits
  | computing j => exact ⟨hfits.1, hcomputing (congrArg computing hfits.1) hfits.2⟩
  | checking j v => exact ⟨hfits.1, hvalue v hfits.2⟩
  | leaving slots => exact hclosed hfits
  | done outcome => exact fun v hreturned => hvalue v (hfits v hreturned)

/-- Someone at the station is refused if the store is closed, or has been refused. -/
def Rejected (k : Key) : Station → Prop
  | arriving | checking _ _ | leaving _ => True
  | waiting _ | computing _ => False
  | done outcome => outcome = .returned (.error (.closed k))

/-- Someone at the station has not got anything else from the store than being refused. -/
def Late (k : Key) : Station → Prop
  | done outcome => ∀ answer, outcome = .returned answer → answer = .error (.closed k)
  | _ => True

end Caller.Station

namespace Caller.Advance

variable {caller : Caller H} {a b : Station} {h h' : Heap (Program H .done)}

theorem isClosed (hadvance : caller.Advance s k a h b h') : h'.isClosed s = h.isClosed s := by
  cases hadvance with
  | made hopen hslot =>
      rw [Heap.isClosed, Heap.store_addEntry hopen, if_pos rfl]
      rfl
  | marked hvalue hsettled =>
      rw [Heap.isClosed, Heap.store_claim]
      rfl
  | cleaned => exact Heap.isClosed_takeCleanup _ s
  | _ => rfl

/-- Once the store is closed, whoever is refused then stays so. -/
theorem rejected (hadvance : caller.Advance s k a h b h') (hclosed : h.isClosed s = true)
    (hrejected : a.Rejected k) : b.Rejected k := by
  cases hadvance with
  | inherited hopen _ _ | joined hopen _ | made hopen _ | passed hopen =>
      rw [hopen] at hclosed
      cases hclosed
  | refused _ | failed _ | cleaned => trivial
  | found _ | marked _ _ | panicked _ | filled _ => exact hrejected.elim

/-- Once the store is closed, nobody gets anything from it any more. -/
theorem late (hadvance : caller.Advance s k a h b h') (hclosed : h.isClosed s = true) :
    b.Late k := by
  cases hadvance with
  | inherited hopen _ _ | joined hopen _ | made hopen _ | passed hopen =>
      rw [hopen] at hclosed
      cases hclosed
  | panicked payload => exact fun _ hreturned => nomatch hreturned
  | refused _ | found _ | marked _ _ | filled _ | failed _ | cleaned => trivial

end Caller.Advance

/-- Whoever has not ended has not got anything yet. -/
theorem Caller.At.late {caller : Caller H} {party : Party H (Except StoreError Value)}
    {a : Caller.Station} (hat : caller.At s k party a)
    (hactive : ∀ outcome, party ≠ .own (.ended outcome)) : a.Late k := by
  cases hat with
  | done outcome => exact absurd rfl (hactive outcome)
  | _ => trivial

/-- Someone at the station will take the cleanup action of the slot. -/
def Closer.Station.InCharge (i : SlotId) : Closer.Station → Prop
  | closing => False
  | cleaning slots => i ∈ slots

/-- How a race stands: the heap, where those who compute the key and those who close the store are, and
what they have done to the heap, newest first. -/
structure Race (H : Host) (ι κ : Type) where
  heap : Heap (Program H .done)
  callers : ι → Caller.Station
  closers : κ → Closer.Station
  history : List StoreOccurrence

namespace Race

variable {crew : ι → Caller H} {r r' : Race H ι κ}

/-- A step of a race: a section of someone who computes the key or closes the store, the beginning of
closing the store from within user code of one of them, or anything that spares the race. -/
inductive Step [DecidableEq ι] [DecidableEq κ] (crew : ι → Caller H) (s : StoreId) (k : Key) :
    Race H ι κ → Race H ι κ → Prop where
  | caller {r : Race H ι κ} {j : ι} {a b : Caller.Station} {h' : Heap (Program H .done)}
      (hat : r.callers j = a) (hadvance : (crew j).Advance s k a r.heap b h') :
      Step crew s k r
        ⟨h', Function.update r.callers j b, r.closers, r.heap.since h' ++ r.history⟩
  | closer {r : Race H ι κ} {j : κ} {a b : Closer.Station} {h' : Heap (Program H .done)}
      (hat : r.closers j = a) (hadvance : Closer.Advance s a r.heap b h') :
      Step crew s k r
        ⟨h', r.callers, Function.update r.closers j b, r.heap.since h' ++ r.history⟩
  | within {r : Race H ι κ} {entries : List (Key × SlotId)} {h' : Heap (Program H .done)}
      (hcalls : (∃ j, (r.callers j).Calls) ∨ ∃ j slots, r.closers j = .cleaning slots)
      (hbegin : r.heap.beginClose s = some (entries, h')) :
      Step crew s k r ⟨h', r.callers, r.closers, .closed s :: r.history⟩
  | others {r : Race H ι κ} {h' : Heap (Program H .done)}
      (hspares : r.heap.Spares s k r.history h') : Step crew s k r { r with heap := h' }

theorem Step.of_tolerates [DecidableEq ι] [DecidableEq κ]
    (hcalls : (∃ j, (r.callers j).Calls) ∨ ∃ j slots, r.closers j = .cleaning slots)
    {added : List StoreOccurrence} {h' : Heap (Program H .done)}
    (htolerates : r.heap.Tolerates s k r.history added h') :
    r.Step crew s k ⟨h', r.callers, r.closers, added ++ r.history⟩ := by
  cases htolerates with
  | spared hspares => exact .others hspares
  | began hbegin => exact .within hcalls hbegin

/-- What the history says of a slot with some content: it has been filled if it holds a value, with a
cleanup action that the one who filled it gave for the value, and that action has been taken if it is
not owed any more, which takes a closed store. -/
def Tells (crew : ι → Caller H) (s : StoreId) (i : SlotId) (closed : Bool)
    (history : List StoreOccurrence) : Slot (Program H .done) → Prop
  | .vacant | .computing =>
      history.filter StoreOccurrence.isFilling = [] ∧ history.count (.cleaned i) = 0
  | .holding ⟨v, some cleanup⟩ =>
      history.filter StoreOccurrence.isFilling = [.filled s i true] ∧
        history.count (.cleaned i) = 0 ∧ ∃ j, cleanup = (crew j).close v
  | .holding ⟨_, none⟩ =>
      history.filter StoreOccurrence.isFilling = [.filled s i true] ∧
        history.count (.cleaned i) = 1 ∧ closed = true

theorem Tells.filter_isFilling {closed : Bool} {history : List StoreOccurrence}
    {slot : Slot (Program H .done)} (htells : Tells crew s i closed history slot) :
    history.filter StoreOccurrence.isFilling = [] ∨
      history.filter StoreOccurrence.isFilling = [.filled s i true] :=
  match slot, htells with
  | .vacant, ⟨hunfilled, _⟩ => .inl hunfilled
  | .computing, ⟨hunfilled, _⟩ => .inl hunfilled
  | .holding ⟨_, some _⟩, ⟨hfilled, _⟩ => .inr hfilled
  | .holding ⟨_, none⟩, ⟨hfilled, _⟩ => .inr hfilled

theorem Tells.count_cleaned_le_one {closed : Bool} {history : List StoreOccurrence}
    {slot : Slot (Program H .done)} (htells : Tells crew s i closed history slot) :
    history.count (.cleaned i) ≤ 1 :=
  match slot, htells with
  | .vacant, ⟨_, hcleaned⟩ | .computing, ⟨_, hcleaned⟩ => by rw [hcleaned]; exact Nat.zero_le 1
  | .holding ⟨_, some _⟩, ⟨_, hcleaned, _⟩ => by rw [hcleaned]; exact Nat.zero_le 1
  | .holding ⟨_, none⟩, ⟨_, hcleaned, _⟩ => Nat.le_of_eq hcleaned

/-- Nobody has made a slot for the key. -/
structure Untouched (s : StoreId) (k : Key) (r : Race H ι κ) : Prop where
  vacant : r.heap.isClosed s = false →
    (r.heap.store s).slot? k = none ∧ r.heap.inherited? s k = none ∧ r.history = []
  callers : ∀ j, r.callers j = .arriving ∨ r.callers j = .leaving [] ∧ r.heap.isClosed s = true
  closing : ∀ j slots, r.closers j = .cleaning slots → r.heap.isClosed s = true
  begun : r.heap.isClosed s = true ↔ .closed s ∈ r.history
  unfilled : r.history.filter StoreOccurrence.isFilling = []

theorem Untouched.not_filled (huntouched : r.Untouched s k) {s' : StoreId} {owed : Bool} :
    .filled s' i owed ∉ r.history := by
  intro hfilled
  have hmem : .filled s' i owed ∈ r.history.filter StoreOccurrence.isFilling :=
    List.mem_filter.mpr ⟨hfilled, rfl⟩
  rw [huntouched.unfilled] at hmem
  cases hmem

/-- The race is about a slot, and all who take part agree with what the heap shows of it. -/
structure Settled (crew : ι → Caller H) (s : StoreId) (i : SlotId) (closed : Bool)
    (slot : Slot (Program H .done)) (callers : ι → Caller.Station) (closers : κ → Closer.Station)
    (history : List StoreOccurrence) : Prop where
  entered : .entered s i ∈ history
  tells : Tells crew s i closed history slot
  fits : ∀ j, (callers j).Fits i closed slot
  single : ∀ j j', callers j = .computing i → callers j' = .computing i → j = j'
  closing : ∀ j slots, closers j = .cleaning slots → closed = true
  begun : closed = true ↔ .closed s ∈ history
  charged : closed = true → ∀ v cleanup, slot = .holding ⟨v, some cleanup⟩ →
    (∃ j, (callers j).InCharge i) ∨ ∃ j, (closers j).InCharge i

/-- The race is about a slot. -/
inductive About (crew : ι → Caller H) (s : StoreId) (k : Key) (i : SlotId) (r : Race H ι κ) : Prop where
  | settled {closed : Bool} {slot : Slot (Program H .done)} (hshows : r.heap.Shows s k i closed slot)
      (hsettled : Settled crew s i closed slot r.callers r.closers r.history)

/-- What every state of a race satisfies. -/
inductive Sound (crew : ι → Caller H) (s : StoreId) (k : Key) (r : Race H ι κ) : Prop where
  | untouched (huntouched : r.Untouched s k)
  | about {i : SlotId} (habout : r.About crew s k i)

section Updates

variable {A B C : Type} [DecidableEq A] {f : A → B} {g : A → C} {a : A} {b : B} {c : C}

theorem of_update_eq {a' : A} {b' : B} (hb : b ≠ b') (hupdate : Function.update f a b a' = b') :
    f a' = b' := by
  by_cases ha : a' = a
  · subst ha
    rw [Function.update_self] at hupdate
    exact absurd hupdate hb
  · rw [Function.update_of_ne ha] at hupdate
    exact hupdate

theorem exists_update {P : B → Prop} (hexists : ∃ a', P (f a')) (hb : P (f a) → P b) :
    ∃ a', P (Function.update f a b a') := by
  obtain ⟨a', ha'⟩ := hexists
  by_cases ha : a' = a
  · subst ha
    exact ⟨a', by rw [Function.update_self]; exact hb ha'⟩
  · exact ⟨a', by rw [Function.update_of_ne ha]; exact ha'⟩

theorem forall_update {P : A → B → C → Prop} (hall : ∀ a', P a' (f a') (g a')) (hP : P a b c)
    (a' : A) : P a' (Function.update f a b a') (Function.update g a c a') := by
  by_cases ha : a' = a
  · subst ha
    rw [Function.update_self, Function.update_self]
    exact hP
  · rw [Function.update_of_ne ha, Function.update_of_ne ha]
    exact hall a'

end Updates

namespace Settled

variable {closed : Bool} {slot : Slot (Program H .done)} {callers : ι → Caller.Station}
  {closers : κ → Closer.Station} {history : List StoreOccurrence}

/-- Someone makes the slot while all others are still to come. -/
theorem made [DecidableEq ι] (harriving : ∀ j, callers j = .arriving)
    (hopen : ∀ j slots, closers j ≠ .cleaning slots) (j : ι) :
    Settled crew s i false .vacant (Function.update callers j (.waiting i)) closers
      [.entered s i] where
  entered := List.mem_singleton_self _
  tells := ⟨rfl, rfl⟩
  fits := by
    refine (Function.forall_update_iff callers fun _ a => a.Fits i false .vacant).mpr ⟨rfl, ?_⟩
    intro j' _
    rw [harriving]
    trivial
  single j₁ j₂ h₁ h₂ := by
    have hcomputing := of_update_eq (by simp) h₁
    rw [harriving] at hcomputing
    cases hcomputing
  closing j slots hcleaning := absurd hcleaning (hopen j slots)
  begun := iff_of_false Bool.false_ne_true (by simp)
  charged hclosed := nomatch hclosed

/-- Someone who computes the key gets to another station, and the heap stays as it is. -/
theorem caller_moves [DecidableEq ι]
    (hsettled : Settled crew s i closed slot callers closers history) {j : ι} {b : Caller.Station}
    (hfits : b.Fits i closed slot) (hidle : b ≠ .computing i)
    (hcharge : closed = true → (∃ v cleanup, slot = .holding ⟨v, some cleanup⟩) →
      (callers j).InCharge i → b.InCharge i) :
    Settled crew s i closed slot (Function.update callers j b) closers history where
  entered := hsettled.entered
  tells := hsettled.tells
  fits := (Function.forall_update_iff callers fun _ a => a.Fits i closed slot).mpr
    ⟨hfits, fun j' _ => hsettled.fits j'⟩
  single j₁ j₂ h₁ h₂ :=
    hsettled.single j₁ j₂ (of_update_eq hidle h₁) (of_update_eq hidle h₂)
  closing := hsettled.closing
  begun := hsettled.begun
  charged hclosed v cleanup hslot :=
    (hsettled.charged hclosed v cleanup hslot).imp_left fun hsomeone =>
      exists_update hsomeone (hcharge hclosed ⟨v, cleanup, hslot⟩)

/-- Someone who closes the store gets to another station, and the heap stays as it is. -/
theorem closer_moves [DecidableEq κ]
    (hsettled : Settled crew s i true slot callers closers history) {j : κ} {slots : List SlotId}
    (hcharge : (∃ v cleanup, slot = .holding ⟨v, some cleanup⟩) →
      (closers j).InCharge i → i ∈ slots) :
    Settled crew s i true slot callers (Function.update closers j (.cleaning slots)) history where
  entered := hsettled.entered
  tells := hsettled.tells
  fits := hsettled.fits
  single := hsettled.single
  closing _ _ _ := rfl
  begun := hsettled.begun
  charged hclosed v cleanup hslot :=
    (hsettled.charged hclosed v cleanup hslot).imp_right fun hsomeone =>
      exists_update hsomeone (hcharge ⟨v, cleanup, hslot⟩)

/-- Nothing that the history tells of the slot is changed by an occurrence of another kind. -/
theorem recorded (hsettled : Settled crew s i closed slot callers closers history)
    {o : StoreOccurrence} (hfilling : o.isFilling = false) (hcleaned : o ≠ .cleaned i)
    (hclosed : o ≠ .closed s) : Settled crew s i closed slot callers closers (o :: history) := by
  refine { hsettled with entered := List.mem_cons_of_mem _ hsettled.entered, tells := ?_, begun := ?_ }
  · have htells := hsettled.tells
    unfold Tells at htells ⊢
    rw [List.filter_cons_of_neg (Bool.eq_false_iff.mp hfilling), List.count_cons_of_ne hcleaned]
    exact htells
  · rw [hsettled.begun, List.mem_cons, or_iff_right hclosed.symm]

/-- The vacant slot is marked by someone who waits for it. -/
theorem marked [DecidableEq ι]
    (hsettled : Settled crew s i closed .vacant callers closers history) (j : ι) :
    Settled crew s i closed .computing (Function.update callers j (.computing i)) closers history := by
  have hidle (j' : ι) : callers j' ≠ .computing i := by
    intro hcomputing
    have hfits := hsettled.fits j'
    rw [hcomputing] at hfits
    cases hfits.2
  constructor
  case entered => exact hsettled.entered
  case tells => exact hsettled.tells
  case fits =>
    refine (Function.forall_update_iff callers fun _ a => a.Fits i closed .computing).mpr
      ⟨⟨rfl, rfl⟩, fun j' _ => ?_⟩
    exact (hsettled.fits j').mono id (fun _ _ => rfl) fun v hvalue => nomatch hvalue
  case single =>
    have hj {j' : ι} (hcomputing : Function.update callers j (.computing i) j' = .computing i) :
        j' = j := by
      by_contra hne
      rw [Function.update_of_ne hne] at hcomputing
      exact hidle j' hcomputing
    exact fun j₁ j₂ h₁ h₂ => (hj h₁).trans (hj h₂).symm
  case closing => exact hsettled.closing
  case begun => exact hsettled.begun
  case charged => exact fun _ v cleanup hslot => nomatch hslot

/-- The one who computes the value leaves the slot with some content. -/
theorem computing_ends [DecidableEq ι]
    (hsettled : Settled crew s i closed .computing callers closers history) {j : ι}
    (hj : callers j = .computing i) {b : Caller.Station} {history' : List StoreOccurrence}
    (hidle : b ≠ .computing i) (hfits : b.Fits i closed slot)
    (hentered : history ⊆ history') (hbegun : .closed s ∈ history' → .closed s ∈ history)
    (htells : Tells crew s i closed history' slot)
    (hcharge : ∀ v cleanup, slot = .holding ⟨v, some cleanup⟩ → b.InCharge i) :
    Settled crew s i closed slot (Function.update callers j b) closers history' where
  entered := hentered hsettled.entered
  tells := htells
  fits := by
    refine (Function.forall_update_iff callers fun _ a => a.Fits i closed slot).mpr ⟨hfits, ?_⟩
    intro j' hne
    have hidle (hj' : callers j' = .computing i) : False := hne (hsettled.single j' j hj' hj)
    exact (hsettled.fits j').mono id (fun hj' => (hidle hj').elim) fun v hvalue => nomatch hvalue
  single j₁ j₂ h₁ h₂ :=
    hsettled.single j₁ j₂ (of_update_eq hidle h₁) (of_update_eq hidle h₂)
  closing := hsettled.closing
  begun := hsettled.begun.trans ⟨fun hclosed => hentered hclosed, hbegun⟩
  charged _ v cleanup hslot :=
    .inl ⟨j, by rw [Function.update_self]; exact hcharge v cleanup hslot⟩

/-- The cleanup action of the slot is taken. -/
theorem taken {v : Value} {cleanup : Program H .done}
    (hsettled : Settled crew s i true (.holding ⟨v, some cleanup⟩) callers closers history) :
    Settled crew s i true (.holding ⟨v, none⟩) callers closers (.cleaned i :: history) where
  entered := List.mem_cons_of_mem _ hsettled.entered
  tells := by
    obtain ⟨hfilled, hcleaned, -⟩ := hsettled.tells
    exact ⟨hfilled, by rw [List.count_cons_self, hcleaned], rfl⟩
  fits j := (hsettled.fits j).mono id (fun _ hslot => nomatch hslot) fun _ hvalue => hvalue
  single := hsettled.single
  closing := hsettled.closing
  begun := iff_of_true rfl (List.mem_cons_of_mem _ (hsettled.begun.mp rfl))
  charged _ _ _ hslot := nomatch hslot

/-- The store is closed, with someone in charge of the slot if it owes a cleanup action. -/
theorem began {closers' : κ → Closer.Station}
    (hsettled : Settled crew s i false slot callers closers history)
    (hcharge : (∃ v cleanup, slot = .holding ⟨v, some cleanup⟩) →
      (∃ j, (callers j).InCharge i) ∨ ∃ j, (closers' j).InCharge i) :
    Settled crew s i true slot callers closers' (.closed s :: history) where
  entered := List.mem_cons_of_mem _ hsettled.entered
  tells := by
    have htells := hsettled.tells
    match slot, htells with
    | .vacant, htells => exact htells
    | .computing, htells => exact htells
    | .holding ⟨_, some _⟩, htells => exact htells
    | .holding ⟨_, none⟩, ⟨_, _, hclosed⟩ => cases hclosed
  fits j' := (hsettled.fits j').mono (fun _ => rfl) (fun _ hslot => hslot) fun _ hvalue => hvalue
  single := hsettled.single
  closing _ _ _ := rfl
  begun := iff_of_true rfl List.mem_cons_self
  charged _ v cleanup hslot := hcharge ⟨v, cleanup, hslot⟩

end Settled

/-- The cleanup action that a slot owes, if any, is taken from a closed store. -/
theorem Settled.takeCleanup {h : Heap (Program H .done)} {slot : Slot (Program H .done)}
    {callers : ι → Caller.Station} {closers : κ → Closer.Station} {history : List StoreOccurrence}
    (hshows : h.Shows s k i true slot)
    (hsettled : Settled crew s i true slot callers closers history) (j : SlotId) :
    ∃ slot', (h.takeCleanup j).2.Shows s k i true slot' ∧
      Settled crew s i true slot' callers closers (h.since (h.takeCleanup j).2 ++ history) ∧
        ((∃ v cleanup, slot' = .holding ⟨v, some cleanup⟩) → i ≠ j) := by
  by_cases hj : i = j
  · subst hj
    by_cases howed : ∃ v cleanup, slot = .holding ⟨v, some cleanup⟩
    · obtain ⟨v, cleanup, rfl⟩ := howed
      have htaken : (h.takeCleanup i).2 =
          (h.setSlot i (.holding ⟨v, none⟩)).recorded (.cleaned i) := by
        rw [Heap.takeCleanup, hshows.slot]
      rw [htaken, Heap.since_of_trace_cons (o := .cleaned i) rfl]
      refine ⟨_, (hshows.setSlot _).recorded _, hsettled.taken, ?_⟩
      rintro ⟨_, _, howed⟩
      cases howed
    · have hsame : (h.takeCleanup i).2 = h := by
        rw [Heap.takeCleanup]
        split
        · next v cleanup hslot => exact absurd ⟨v, cleanup, hshows.slot.symm.trans hslot⟩ howed
        · rfl
      rw [hsame, Heap.since_self]
      exact ⟨slot, hshows, hsettled, fun hslot => absurd hslot howed⟩
  · refine ⟨slot, hshows.takeCleanup_of_ne hj, ?_, fun _ => hj⟩
    rw [Heap.takeCleanup]
    split
    · rw [Heap.since_of_trace_cons (o := .cleaned j) rfl]
      exact hsettled.recorded rfl (fun heq => hj (StoreOccurrence.cleaned.inj heq).symm) (by simp)
    · rw [Heap.since_self]
      exact hsettled

/-- As long as nobody has made a slot, those who compute the key make one or find the store closed. -/
theorem Untouched.caller [DecidableEq ι] (huntouched : r.Untouched s k) {j : ι} {a b : Caller.Station}
    {h' : Heap (Program H .done)} (hat : r.callers j = a)
    (hadvance : (crew j).Advance s k a r.heap b h') :
    Untouched s k ⟨h', Function.update r.callers j b, r.closers, r.heap.since h' ++ r.history⟩ ∨
      ∃ i, r.heap.since h' ++ r.history = [.entered s i] ∧
        About crew s k i
          ⟨h', Function.update r.callers j b, r.closers, r.heap.since h' ++ r.history⟩ := by
  have hstation := huntouched.callers j
  rw [hat] at hstation
  cases hadvance with
  | refused hclosed =>
      have hcallers := (Function.forall_update_iff r.callers (a := j) (b := .leaving []) fun _ a =>
        a = .arriving ∨ a = .leaving [] ∧ r.heap.isClosed s = true).mpr
          ⟨.inr ⟨rfl, hclosed⟩, fun j' _ => huntouched.callers j'⟩
      rw [Heap.since_self]
      exact .inl { huntouched with callers := hcallers }
  | inherited hopen hslot hvalue =>
      rw [(huntouched.vacant hopen).2.1] at hvalue
      cases hvalue
  | joined hopen hslot =>
      rw [(huntouched.vacant hopen).1] at hslot
      cases hslot
  | made hopen hslot =>
      have hothers (j' : ι) : r.callers j' = .arriving := by
        rcases huntouched.callers j' with harriving | ⟨-, hclosed⟩
        · exact harriving
        · rw [hopen] at hclosed
          cases hclosed
      have hsince : r.heap.since (r.heap.addEntry s k .vacant).2 = [.entered s r.heap.slots.length] :=
        Heap.since_of_trace_cons rfl
      rw [hsince, (huntouched.vacant hopen).2.2]
      have hclosers (j' : κ) (slots : List SlotId) : r.closers j' ≠ .cleaning slots := by
        intro hcleaning
        have hclosed := huntouched.closing j' slots hcleaning
        rw [hopen] at hclosed
        cases hclosed
      exact .inr ⟨_, rfl, .settled (Heap.Shows.of_addEntry hopen) (.made hothers hclosers j)⟩
  | _ => simp at hstation

theorem Untouched.of_closed (huntouched : r.Untouched s k) {h' : Heap (Program H .done)}
    {closers' : κ → Closer.Station} {history' : List StoreOccurrence} (hclosed : h'.isClosed s = true)
    (hbegun : .closed s ∈ history')
    (hunfilled : history'.filter StoreOccurrence.isFilling = []) :
    Untouched s k ⟨h', r.callers, closers', history'⟩ where
  vacant hopen := by
    rw [hclosed] at hopen
    cases hopen
  callers j' := (huntouched.callers j').imp_right fun hleaving => ⟨hleaving.1, hclosed⟩
  closing _ _ _ := hclosed
  begun := iff_of_true hclosed hbegun
  unfilled := hunfilled

/-- As long as nobody has made a slot, those who close the store find nothing to clean for the key. -/
theorem Untouched.closer [DecidableEq κ] (huntouched : r.Untouched s k) {j : κ} {a b : Closer.Station}
    {h' : Heap (Program H .done)} (hat : r.closers j = a)
    (hadvance : Closer.Advance s a r.heap b h') :
    Untouched s k ⟨h', r.callers, Function.update r.closers j b, r.heap.since h' ++ r.history⟩ := by
  have hunfilled := huntouched.unfilled
  cases hadvance with
  | already hclosed =>
      rw [Heap.since_self]
      exact huntouched.of_closed hclosed (huntouched.begun.mp hclosed) hunfilled
  | began hbegin =>
      have hclosed := Heap.isClosed_beginClose hbegin
      obtain ⟨-, -, rfl⟩ := Heap.of_beginClose hbegin
      rw [Heap.since_of_trace_cons (o := .closed s) rfl]
      exact huntouched.of_closed hclosed List.mem_cons_self hunfilled
  | @cleaned _ i slots =>
      have hclosed : r.heap.isClosed s = true := huntouched.closing j _ hat
      have hbegun := List.mem_append_right (r.heap.since (r.heap.takeCleanup i).2)
        (huntouched.begun.mp hclosed)
      rw [← Heap.isClosed_takeCleanup i s] at hclosed
      apply huntouched.of_closed hclosed hbegun
      rw [Heap.takeCleanup]
      split
      · rw [Heap.since_of_trace_cons (o := .cleaned i) rfl]
        exact hunfilled
      · rw [Heap.since_self]
        exact hunfilled

theorem Untouched.others (huntouched : r.Untouched s k) {h' : Heap (Program H .done)}
    (hspares : r.heap.Spares s k r.history h') : Untouched s k { r with heap := h' } where
  vacant hopen := by
    obtain ⟨hslot, hvalue, hhistory⟩ := huntouched.vacant (hspares.isClosed.symm.trans hopen)
    exact ⟨hspares.entry.trans hslot, hspares.inherited hvalue, hhistory⟩
  callers j := (huntouched.callers j).imp_right fun hleaving =>
    ⟨hleaving.1, hspares.isClosed.trans hleaving.2⟩
  closing j slots hcleaning := hspares.isClosed.trans (huntouched.closing j slots hcleaning)
  begun := by
    rw [← huntouched.begun, hspares.isClosed]
  unfilled := huntouched.unfilled

/-- Someone who computes the key takes a step in a race about a slot. -/
theorem Settled.caller [DecidableEq ι] {closed : Bool} {slot : Slot (Program H .done)}
    (hshows : r.heap.Shows s k i closed slot)
    (hsettled : Settled crew s i closed slot r.callers r.closers r.history) {j : ι}
    {a b : Caller.Station} {h' : Heap (Program H .done)} (hat : r.callers j = a)
    (hadvance : (crew j).Advance s k a r.heap b h') :
    About crew s k i
      ⟨h', Function.update r.callers j b, r.closers, r.heap.since h' ++ r.history⟩ := by
  have hfits := hsettled.fits j
  rw [hat] at hfits
  cases hadvance with
  | refused hclosed =>
      rw [Heap.since_self]
      refine .settled hshows (hsettled.caller_moves (hshows.isClosed.symm.trans hclosed) (by simp) ?_)
      intro _ _ hcharge
      rw [hat] at hcharge
      cases hcharge
  | inherited hopen hslot hvalue =>
      rw [hshows.entry (hshows.isClosed.symm.trans hopen)] at hslot
      cases hslot
  | made hopen hslot =>
      rw [hshows.entry (hshows.isClosed.symm.trans hopen)] at hslot
      cases hslot
  | joined hopen hslot =>
      rw [hshows.entry (hshows.isClosed.symm.trans hopen)] at hslot
      cases hslot
      rw [Heap.since_self]
      refine .settled hshows (hsettled.caller_moves rfl (by simp) ?_)
      intro _ _ hcharge
      rw [hat] at hcharge
      cases hcharge
  | found hvalue =>
      obtain rfl : i = _ := Eq.symm hfits
      rw [Heap.since_self]
      refine .settled hshows (hsettled.caller_moves ⟨rfl, ?_⟩ (by simp) fun _ _ _ => rfl)
      rw [← hshows.slot]
      exact hvalue
  | marked hvalue hisSettled =>
      obtain rfl : i = _ := Eq.symm hfits
      obtain rfl : slot = .vacant := by
        rw [← hshows.slot]
        exact Heap.slot_of_isSettled hisSettled hvalue
      have hmarked := (hsettled.marked j).recorded (o := .factory s i) rfl (by simp) (by simp)
      have hclaim : (r.heap.claim s i).2 = (r.heap.setSlot i .computing).recorded (.factory s i) := by
        rw [Heap.claim, hvalue]
      rw [hclaim, Heap.since_of_trace_cons (o := .factory s i) rfl]
      exact .settled ((hshows.setSlot _).recorded _) hmarked
  | panicked payload =>
      obtain rfl : i = _ := hfits.1.symm
      obtain rfl := hfits.2
      rw [Heap.vacate, Heap.since_of_trace_eq (r.heap.trace_setSlot .vacant)]
      refine .settled (hshows.setSlot _) (hsettled.computing_ends hat (by simp)
        (by simp [Caller.Station.Fits]) (List.Subset.refl _) id hsettled.tells ?_)
      intro _ _ hslot
      cases hslot
  | filled v =>
      obtain rfl : i = _ := hfits.1.symm
      obtain rfl := hfits.2
      obtain ⟨hfilled, hcleaned⟩ := hsettled.tells
      rw [Heap.fill, Heap.since_of_trace_cons (o := .filled s i true) rfl]
      refine .settled ((hshows.setSlot _).recorded _) (hsettled.computing_ends hat (by simp) ⟨rfl, rfl⟩
        (List.subset_cons_self _ _) (by simp) ⟨?_, ?_, j, rfl⟩ fun _ _ _ => rfl)
      · exact (List.filter_cons_of_pos rfl).trans (congrArg _ hfilled)
      · exact (List.count_cons_of_ne (by simp)).trans hcleaned
  | passed hopen =>
      obtain ⟨rfl, hvalue⟩ := hfits
      rw [Heap.since_self]
      refine .settled hshows (hsettled.caller_moves ?_ (by simp) ?_)
      · intro v' hreturned
        rw [Heap.eq_of_cast (Outcome.returned.inj hreturned)]
        exact hvalue
      · intro hclosed
        rw [← hshows.isClosed, hopen] at hclosed
        cases hclosed
  | failed hclosed =>
      obtain ⟨rfl, hvalue⟩ := hfits
      rw [Heap.since_self]
      exact .settled hshows (hsettled.caller_moves (hshows.isClosed.symm.trans hclosed) (by simp)
        fun _ _ _ => List.mem_singleton_self _)
  | @cleaned _ i' slots =>
      obtain rfl : closed = true := hfits
      obtain ⟨slot', hshows', hsettled', hdifferent⟩ := hsettled.takeCleanup hshows i'
      refine .settled hshows' (hsettled'.caller_moves rfl (by simp) ?_)
      intro _ howed hcharge
      rw [hat] at hcharge
      exact (List.mem_cons.mp hcharge).resolve_left (hdifferent howed)

/-- Someone who closes the store takes a step in a race about a slot. -/
theorem Settled.closer [DecidableEq κ] {closed : Bool} {slot : Slot (Program H .done)}
    (hshows : r.heap.Shows s k i closed slot)
    (hsettled : Settled crew s i closed slot r.callers r.closers r.history) {j : κ}
    {a b : Closer.Station} {h' : Heap (Program H .done)} (hat : r.closers j = a)
    (hadvance : Closer.Advance s a r.heap b h') :
    About crew s k i
      ⟨h', r.callers, Function.update r.closers j b, r.heap.since h' ++ r.history⟩ := by
  cases hadvance with
  | already hclosed =>
      obtain rfl : closed = true := hshows.isClosed.symm.trans hclosed
      rw [Heap.since_self]
      refine .settled hshows (hsettled.closer_moves ?_)
      intro _ hcharge
      rw [hat] at hcharge
      cases hcharge
  | @began _ _ entries hbegin =>
      obtain ⟨hopen, hentries, hheap⟩ := Heap.of_beginClose hbegin
      obtain rfl : closed = false := hshows.isClosed.symm.trans hopen
      have hslots : i ∈ entries.reverse.map Prod.snd := by
        have hentry := Store.mem_of_slot? (hshows.entry rfl)
        rw [← hentries] at hentry
        exact List.mem_map.mpr ⟨(k, i), List.mem_reverse.mpr hentry, rfl⟩
      rw [Heap.since_of_trace_cons (o := .closed s) (by rw [hheap]; rfl)]
      have hcharge : (Function.update r.closers j (.cleaning (entries.reverse.map Prod.snd)) j).InCharge
          i := by
        rw [Function.update_self]
        exact hslots
      exact .settled (hshows.beginClose hbegin) (hsettled.began fun _ => .inr ⟨j, hcharge⟩)
  | @cleaned _ i' slots =>
      obtain rfl : closed = true := hsettled.closing j _ hat
      obtain ⟨slot', hshows', hsettled', hdifferent⟩ := hsettled.takeCleanup hshows i'
      refine .settled hshows' (hsettled'.closer_moves ?_)
      intro howed hcharge
      rw [hat] at hcharge
      exact (List.mem_cons.mp hcharge).resolve_left (hdifferent howed)

/-- As long as nobody has made a slot, user code runs only once the store is closed. -/
theorem Untouched.not_calls (huntouched : r.Untouched s k) (hopen : r.heap.isClosed s = false) :
    ¬ ((∃ j, (r.callers j).Calls) ∨ ∃ j slots, r.closers j = .cleaning slots) := by
  rintro (⟨j, hcalls⟩ | ⟨j, slots, hcleaning⟩)
  · rcases huntouched.callers j with harriving | ⟨-, hclosed⟩
    · rw [harriving] at hcalls
      exact hcalls
    · rw [hopen] at hclosed
      cases hclosed
  · have hclosed := huntouched.closing j slots hcleaning
    rw [hopen] at hclosed
    cases hclosed

/-- As long as the store is open, user code runs only while the slot is being computed. -/
theorem Settled.computing_of_calls {slot : Slot (Program H .done)} {callers : ι → Caller.Station}
    {closers : κ → Closer.Station} {history : List StoreOccurrence}
    (hsettled : Settled crew s i false slot callers closers history)
    (hcalls : (∃ j, (callers j).Calls) ∨ ∃ j slots, closers j = .cleaning slots) :
    slot = .computing := by
  rcases hcalls with ⟨j, hcalls⟩ | ⟨j, slots, hcleaning⟩
  · have hfits := hsettled.fits j
    cases hstation : callers j with
    | computing i' =>
        rw [hstation] at hfits
        exact hfits.2
    | leaving slots =>
        rw [hstation] at hfits
        cases hfits
    | _ =>
        rw [hstation] at hcalls
        exact hcalls.elim
  · cases hsettled.closing j slots hcleaning

/-- A race that nobody has made a slot for stays so, or is about the slot that is made in the step. -/
theorem Untouched.step [DecidableEq ι] [DecidableEq κ] (huntouched : r.Untouched s k)
    (hstep : r.Step crew s k r') :
    r'.Untouched s k ∨ ∃ i, r'.history = [.entered s i] ∧ r'.About crew s k i := by
  cases hstep with
  | caller hat hadvance => exact huntouched.caller hat hadvance
  | closer hat hadvance => exact .inl (huntouched.closer hat hadvance)
  | within hcalls hbegin =>
      exact absurd hcalls (huntouched.not_calls (Heap.of_beginClose hbegin).1)
  | others hspares => exact .inl (huntouched.others hspares)

/-- A race about a slot stays one about this slot. -/
theorem About.step [DecidableEq ι] [DecidableEq κ] (habout : r.About crew s k i)
    (hstep : r.Step crew s k r') : r'.About crew s k i := by
  obtain ⟨hshows, hsettled⟩ := habout
  cases hstep with
  | caller hat hadvance => exact hsettled.caller hshows hat hadvance
  | closer hat hadvance => exact hsettled.closer hshows hat hadvance
  | within hcalls hbegin =>
      obtain rfl := hshows.isClosed.symm.trans (Heap.of_beginClose hbegin).1
      obtain rfl := hsettled.computing_of_calls hcalls
      exact .settled (hshows.beginClose hbegin) (hsettled.began fun ⟨_, _, howed⟩ => nomatch howed)
  | others hspares => exact .settled (hshows.of_spares hsettled.entered hspares) hsettled

/-- Every step of a race keeps the invariant. -/
theorem Sound.step [DecidableEq ι] [DecidableEq κ] (hsound : r.Sound crew s k)
    (hstep : r.Step crew s k r') : r'.Sound crew s k := by
  cases hsound with
  | untouched huntouched =>
      rcases huntouched.step hstep with hstill | ⟨i, -, habout⟩
      · exact .untouched hstill
      · exact .about habout
  | about habout => exact .about (habout.step hstep)

/-- Whatever is owed for the slot that a race is about is to close the value in the slot. -/
theorem About.close_of_owed (habout : r.About crew s k i) {cleanup : Program H .done}
    (howed : r.heap.cleanup? i = some cleanup) :
    ∃ j v, r.heap.slot i = .holding ⟨v, some cleanup⟩ ∧ cleanup = (crew j).close v := by
  obtain ⟨hshows, hsettled⟩ := habout
  have htells := hsettled.tells
  rw [Heap.cleanup?, hshows.slot] at howed
  split at howed
  · next stored =>
    obtain ⟨v, cleanup'⟩ := stored
    obtain rfl : cleanup' = some cleanup := howed
    obtain ⟨-, -, j, hclose⟩ := htells
    exact ⟨j, v, hshows.slot, hclose⟩
  · cases howed
  · cases howed

/-- The race is about the slot that has been filled. -/
theorem About.eq_of_filled {j : SlotId} (habout : r.About crew s k j) {owed : Bool}
    (hfilled : .filled s i owed ∈ r.history) : j = i := by
  obtain ⟨hshows, hsettled⟩ := habout
  have hmem : .filled s i owed ∈ r.history.filter StoreOccurrence.isFilling :=
    List.mem_filter.mpr ⟨hfilled, rfl⟩
  rcases hsettled.tells.filter_isFilling with hempty | hsingle
  · rw [hempty] at hmem
    cases hmem
  · rw [hsingle, List.mem_singleton, StoreOccurrence.filled.injEq] at hmem
    exact hmem.2.1.symm

/-- In a race, no ancestor ever holds a value that someone who computes the key could find. -/
theorem Sound.not_inherited (hsound : r.Sound crew s k) (hopen : r.heap.isClosed s = false)
    (hslot : (r.heap.store s).slot? k = none) : r.heap.inherited? s k = none := by
  cases hsound with
  | untouched huntouched => exact (huntouched.vacant hopen).2.1
  | about habout =>
      obtain ⟨hshows, hsettled⟩ := habout
      rw [hshows.entry (hshows.isClosed.symm.trans hopen)] at hslot
      cases hslot

/-- Whoever checks an open store has a value that has been put into its slot and not been cleaned up. -/
theorem Sound.of_checking (hsound : r.Sound crew s k) {j : ι} {v : Value}
    (hat : r.callers j = .checking i v) (hopen : r.heap.isClosed s = false) :
    r.history.filter StoreOccurrence.isFilling = [.filled s i true] ∧ .cleaned i ∉ r.history ∧
      ∃ j', r.heap.slot i = .holding ⟨v, some ((crew j').close v)⟩ := by
  cases hsound with
  | untouched huntouched =>
      have hstation := huntouched.callers j
      rw [hat] at hstation
      simp at hstation
  | about habout =>
      obtain @⟨closed, slot, hshows, hsettled⟩ := habout
      have hfits := hsettled.fits j
      rw [hat] at hfits
      obtain ⟨rfl, hvalue⟩ := hfits
      have htells := hsettled.tells
      match slot, hvalue, htells with
      | .holding ⟨_, some _⟩, rfl, ⟨hfilled, hcleaned, j', rfl⟩ =>
        exact ⟨hfilled, List.count_eq_zero.mp hcleaned, j', hshows.slot⟩
      | .holding ⟨_, none⟩, _, ⟨_, _, hclosed⟩ =>
        rw [← hshows.isClosed, hopen] at hclosed
        cases hclosed

/-- At most one value is put into the slot. -/
theorem Sound.length_filter_isFilling_le_one (hsound : r.Sound crew s k) :
    (r.history.filter StoreOccurrence.isFilling).length ≤ 1 := by
  cases hsound with
  | untouched huntouched => simp [huntouched.unfilled]
  | about habout =>
      obtain ⟨hshows, hsettled⟩ := habout
      rcases hsettled.tells.filter_isFilling with hfilled | hfilled
      · simp [hfilled]
      · simp [hfilled]

/-- All who end with a value end with the same one. -/
theorem Sound.value_unique (hsound : r.Sound crew s k) {j j' : ι} {v v' : Value}
    (hj : r.callers j = .done (.returned (.ok v)))
    (hj' : r.callers j' = .done (.returned (.ok v'))) : v = v' := by
  cases hsound with
  | untouched huntouched =>
      have hstation := huntouched.callers j
      rw [hj] at hstation
      simp at hstation
  | about habout =>
      obtain ⟨hshows, hsettled⟩ := habout
      have hfits := hsettled.fits j
      have hfits' := hsettled.fits j'
      rw [hj] at hfits
      rw [hj'] at hfits'
      exact Option.some.inj ((hfits v rfl).symm.trans (hfits' v' rfl))

/-- The value put into a slot has not been cleaned up while the store is open. It has been cleaned up
once when the store is closed and nobody is in charge of it any more. -/
theorem Sound.count_cleaned (hsound : r.Sound crew s k) {owed : Bool}
    (hfilled : .filled s i owed ∈ r.history) :
    (r.heap.isClosed s = false → r.history.count (.cleaned i) = 0) ∧
      (r.heap.isClosed s = true → (∀ j, ¬ (r.callers j).InCharge i) →
        (∀ j, ¬ (r.closers j).InCharge i) → r.history.count (.cleaned i) = 1) := by
  have hmem : .filled s i owed ∈ r.history.filter StoreOccurrence.isFilling :=
    List.mem_filter.mpr ⟨hfilled, rfl⟩
  cases hsound with
  | untouched huntouched => exact absurd hfilled huntouched.not_filled
  | about habout =>
      obtain rfl := habout.eq_of_filled hfilled
      obtain @⟨closed, slot, hshows, hsettled⟩ := habout
      have htells := hsettled.tells
      have hisClosed := hshows.isClosed
      match slot, htells with
      | .vacant, ⟨hunfilled, _⟩ | .computing, ⟨hunfilled, _⟩ =>
        rw [hunfilled] at hmem
        cases hmem
      | .holding ⟨v, some cleanup⟩, ⟨_, hcleaned, _⟩ =>
        refine ⟨fun _ => hcleaned, fun hclosed hcallers hclosers => ?_⟩
        -- A value that is owed to a closed store has someone in charge of it.
        rcases hsettled.charged (hisClosed.symm.trans hclosed) v cleanup rfl with ⟨j, hj⟩ | ⟨j, hj⟩
        · exact absurd hj (hcallers j)
        · exact absurd hj (hclosers j)
      | .holding ⟨_, none⟩, ⟨_, hcleaned, hclosed⟩ =>
        refine ⟨fun hopen => ?_, fun _ _ _ => hcleaned⟩
        rw [hisClosed, hclosed] at hopen
        cases hopen

theorem Sound.count_cleaned_le_one (hsound : r.Sound crew s k) {owed : Bool}
    (hfilled : .filled s i owed ∈ r.history) : r.history.count (.cleaned i) ≤ 1 := by
  cases hsound with
  | untouched huntouched => exact absurd hfilled huntouched.not_filled
  | about habout =>
      obtain rfl := habout.eq_of_filled hfilled
      obtain ⟨hshows, hsettled⟩ := habout
      exact hsettled.tells.count_cleaned_le_one

/-- The store is closed exactly if somebody has begun to close it. -/
theorem Sound.isClosed_iff (hsound : r.Sound crew s k) :
    r.heap.isClosed s = true ↔ .closed s ∈ r.history := by
  cases hsound with
  | untouched huntouched => exact huntouched.begun
  | about habout =>
      obtain ⟨hshows, hsettled⟩ := habout
      rw [hshows.isClosed, hsettled.begun]

/-- Whoever has begun to close the store finds it closed. -/
theorem Sound.isClosed_of_cleaning (hsound : r.Sound crew s k) {j : κ} {slots : List SlotId}
    (hat : r.closers j = .cleaning slots) : r.heap.isClosed s = true := by
  cases hsound with
  | untouched huntouched => exact huntouched.closing j slots hat
  | about habout =>
      obtain ⟨hshows, hsettled⟩ := habout
      rw [hshows.isClosed]
      exact hsettled.closing j slots hat

/-- A closed store stays closed. -/
theorem Step.isClosed [DecidableEq ι] [DecidableEq κ] (hstep : r.Step crew s k r')
    (hclosed : r.heap.isClosed s = true) : r'.heap.isClosed s = true := by
  cases hstep with
  | caller hat hadvance => exact hadvance.isClosed.trans hclosed
  | @closer j a b h' hat hadvance =>
      cases hadvance with
      | already _ => exact hclosed
      | began hbegin => exact Heap.isClosed_beginClose hbegin
      | cleaned => exact (Heap.isClosed_takeCleanup _ s).trans hclosed
  | within hcalls hbegin => exact Heap.isClosed_beginClose hbegin
  | others hspares => exact hspares.isClosed.trans hclosed

end Race

end TimedInvocation
