import Mathlib.Data.List.Nodup
import TimedInvocation.Proofs.Store.History

/-!
# Soundness of the heap

A heap is sound if its history is consistent and what its stores and slots look like agrees with that
history. Every section of a store operation keeps the heap sound, under the condition in which the
operation runs it.
-/

namespace TimedInvocation

open StoreOccurrence

variable {C : Type}

namespace Store

theorem erase_erase (store : Store) (k : Key) : (store.erase k).erase k = store.erase k := by
  simp [erase, List.filter_filter]

theorem insert_erase (store : Store) (k : Key) (i : SlotId) :
    (store.erase k).insert k i = store.insert k i := by
  rw [insert, erase_erase, insert]

theorem mem_of_slot? {store : Store} {k : Key} {i : SlotId} (hslot : store.slot? k = some i) :
    (k, i) ∈ store.entries := by
  rw [slot?, List.lookup_eq_some_iff] at hslot
  obtain ⟨before, after, hentries, -⟩ := hslot
  rw [hentries]
  exact List.mem_append_right before List.mem_cons_self

theorem lookup_cons_of_ne {k k' : Key} (hk : k' ≠ k) (i : SlotId) (rest : List (Key × SlotId)) :
    List.lookup k' ((k, i) :: rest) = List.lookup k' rest := by
  rw [List.lookup_cons, beq_eq_false_iff_ne.mpr hk]

theorem slot?_erase (store : Store) (k k' : Key) :
    (store.erase k).slot? k' = if k' = k then none else store.slot? k' := by
  rw [slot?, erase, slot?]
  induction store.entries with
  | nil => simp
  | cons entry rest ih =>
      obtain ⟨key, i⟩ := entry
      by_cases hkey : key = k
      · subst hkey
        by_cases hk' : k' = key
        · simpa [hk'] using ih
        · simpa [hk', lookup_cons_of_ne hk'] using ih
      · by_cases hk' : k' = key
        · simp [hk', hkey]
        · simpa [hkey, lookup_cons_of_ne hk'] using ih

theorem slot?_insert (store : Store) (k : Key) (i : SlotId) (k' : Key) :
    (store.insert k i).slot? k' = if k' = k then some i else store.slot? k' := by
  have herase : List.lookup k' (store.erase k).entries = _ := store.slot?_erase k k'
  rw [slot?, insert, List.lookup_append, herase]
  by_cases hk' : k' = k
  · simp [hk']
  · simp [hk', lookup_cons_of_ne hk']

theorem mem_erase_entries {store : Store} {k : Key} {entry : Key × SlotId} :
    entry ∈ (store.erase k).entries ↔ entry ∈ store.entries ∧ entry.1 ≠ k := by
  simp [erase]

theorem erase_entries_sublist (store : Store) (k : Key) :
    (store.erase k).entries.Sublist store.entries :=
  List.filter_sublist

end Store

namespace Heap

variable {h h' : Heap C} {s s' : StoreId} {i j : SlotId} {k : Key}

section Views

theorem lt_length_of_open (hopen : h.isClosed s = false) : s < h.stores.length := by
  by_contra hbeyond
  rw [isClosed, store, List.getElem?_eq_none (Nat.le_of_not_lt hbeyond)] at hopen
  exact Bool.noConfusion hopen

theorem store_modifyStore (hs : s < h.stores.length) (f : Store → Store) (s' : StoreId) :
    (h.modifyStore s f).store s' = if s' = s then f (h.store s) else h.store s' := by
  simp only [modifyStore, store, List.getElem?_modify]
  by_cases heq : s' = s
  · subst heq
    simp [List.getElem?_eq_getElem hs]
  · simp [heq, Ne.symm heq]

@[simp]
theorem trace_modifyStore (f : Store → Store) : (h.modifyStore s f).trace = h.trace :=
  rfl

@[simp]
theorem length_stores_modifyStore (f : Store → Store) :
    (h.modifyStore s f).stores.length = h.stores.length := by
  simp [modifyStore]

@[simp]
theorem length_slots_modifyStore (f : Store → Store) :
    (h.modifyStore s f).slots.length = h.slots.length :=
  rfl

theorem slot_setSlot (hi : i < h.slots.length) (slot : Slot C) (j : SlotId) :
    (h.setSlot i slot).slot j = if j = i then slot else h.slot j := by
  simp only [setSlot, Heap.slot, List.getElem?_set]
  by_cases heq : i = j
  · subst heq
    simp [hi]
  · simp [heq, Ne.symm heq]

theorem slot_setSlot_of_ne (slot : Slot C) (hj : j ≠ i) : (h.setSlot i slot).slot j = h.slot j := by
  rw [Heap.slot, setSlot, List.getElem?_set_ne (Ne.symm hj), Heap.slot]

@[simp]
theorem trace_setSlot (slot : Slot C) : (h.setSlot i slot).trace = h.trace :=
  rfl

@[simp]
theorem length_slots_setSlot (slot : Slot C) :
    (h.setSlot i slot).slots.length = h.slots.length := by
  simp [setSlot]

/-- A slot that is set to something with the same value, or with none if it had none. -/
theorem value?_setSlot (slot : Slot C) (hvalue : slot.value? = (h.slot i).value?) (j : SlotId) :
    ((h.setSlot i slot).slot j).value? = (h.slot j).value? := by
  by_cases hi : i < h.slots.length
  · rw [slot_setSlot hi]
    split
    · next hj =>
      rw [hj]
      exact hvalue
    · rfl
  · rw [setSlot, List.set_eq_of_length_le (Nat.le_of_not_lt hi)]

@[simp]
theorem slot_recorded (o : StoreOccurrence) : (h.recorded o).slot i = h.slot i :=
  rfl

@[simp]
theorem store_claim (s : StoreId) (i : SlotId) (s' : StoreId) :
    (h.claim s i).2.store s' = h.store s' := by
  rw [claim]
  split
  · rfl
  · rfl

@[simp]
theorem store_takeCleanup (i : SlotId) (s : StoreId) : (h.takeCleanup i).2.store s = h.store s := by
  rw [takeCleanup]
  split
  · rfl
  · rfl

theorem isClosed_takeCleanup (i : SlotId) (s : StoreId) :
    (h.takeCleanup i).2.isClosed s = h.isClosed s := by
  rw [isClosed, store_takeCleanup]
  rfl

@[simp]
theorem length_slots_takeCleanup (i : SlotId) :
    (h.takeCleanup i).2.slots.length = h.slots.length := by
  rw [takeCleanup]
  split
  · exact length_slots_setSlot _
  · rfl

@[simp]
theorem length_slots_claim (s : StoreId) (i : SlotId) :
    (h.claim s i).2.slots.length = h.slots.length := by
  rw [claim]
  split
  · rfl
  · exact length_slots_setSlot _

theorem slot_of_length_le (hi : h.slots.length ≤ i) : h.slot i = .vacant := by
  rw [slot, List.getElem?_eq_none hi]
  rfl

/-- A settled slot without a value is vacant. -/
theorem slot_of_isSettled (hsettled : h.isSettled i = true) (hvalue : (h.slot i).value? = none) :
    h.slot i = .vacant := by
  rw [isSettled] at hsettled
  split at hsettled
  · cases hsettled
  · next hslot => exact hslot
  · next stored hslot =>
    rw [hslot] at hvalue
    cases hvalue

theorem slot_append (slot : Slot C) (stores : List Store) (trace : List StoreOccurrence)
    (i : SlotId) :
    Heap.slot ⟨stores, h.slots ++ [slot], trace⟩ i = if i = h.slots.length then slot else h.slot i := by
  simp only [Heap.slot]
  rcases Nat.lt_trichotomy i h.slots.length with hi | rfl | hi
  · rw [List.getElem?_append_left hi, if_neg (Nat.ne_of_lt hi)]
  · simp
  · rw [List.getElem?_eq_none (by simp; omega), List.getElem?_eq_none (by omega),
      if_neg (Nat.ne_of_gt hi)]

theorem store_append (new : Store) (slots : List (Slot C)) (trace : List StoreOccurrence)
    (s : StoreId) :
    Heap.store ⟨h.stores ++ [new], slots, trace⟩ s =
      if s = h.stores.length then new else h.store s := by
  simp only [Heap.store]
  rcases Nat.lt_trichotomy s h.stores.length with hs | rfl | hs
  · rw [List.getElem?_append_left hs, if_neg (Nat.ne_of_lt hs)]
  · simp
  · rw [List.getElem?_eq_none (by simp; omega), List.getElem?_eq_none (by omega),
      if_neg (Nat.ne_of_gt hs)]

end Views

section Owing

variable {c : C}

/-- The cleanup action that is owed for a slot, if any. -/
def cleanup? (h : Heap C) (i : SlotId) : Option C :=
  match h.slot i with
  | .holding stored => stored.cleanup
  | .vacant | .computing => none

theorem cleanup?_of_slot_eq (hslot : h'.slot i = h.slot i) : h'.cleanup? i = h.cleanup? i := by
  rw [cleanup?, hslot, cleanup?]

theorem takeCleanup_of_none (hnone : h.cleanup? i = none) : h.takeCleanup i = (none, h) := by
  rw [cleanup?] at hnone
  rw [takeCleanup]
  split
  · next hslot => simp [hslot] at hnone
  · rfl

theorem takeCleanup_of_some (hsome : h.cleanup? i = some c) : (h.takeCleanup i).1 = some c := by
  rw [cleanup?] at hsome
  rw [takeCleanup]
  split
  · next hslot => simpa [hslot] using hsome
  · next hother =>
    split at hsome
    · next stored hslot =>
      obtain ⟨v, cleanup⟩ := stored
      cases hsome
      exact absurd hslot (hother v c)
    · cases hsome
    · cases hsome

/-- Whoever takes a cleanup action leaves a mark of it, and owes nothing more for the slot. -/
theorem trace_takeCleanup (hsome : h.cleanup? i = some c) :
    (h.takeCleanup i).2.trace = .cleaned i :: h.trace := by
  have htaken := takeCleanup_of_some hsome
  rw [takeCleanup] at htaken ⊢
  split at htaken
  · rfl
  · cases htaken

theorem cleanup?_takeCleanup (h : Heap C) (i : SlotId) : (h.takeCleanup i).2.cleanup? i = none := by
  rw [takeCleanup]
  split
  · next v c hslot =>
    have hi : i < h.slots.length := by
      by_contra hout
      rw [slot_of_length_le (Nat.le_of_not_lt hout)] at hslot
      cases hslot
    rw [cleanup?, slot_recorded, slot_setSlot hi, if_pos rfl]
  · next hother =>
    rw [cleanup?]
    split
    · next stored hslot =>
      rcases stored with ⟨v, _ | c⟩
      · rfl
      · exact absurd hslot (hother v c)
    · rfl
    · rfl

theorem slot_takeCleanup_of_ne (hj : j ≠ i) : (h.takeCleanup i).2.slot j = h.slot j := by
  rw [takeCleanup]
  split
  · exact slot_setSlot_of_ne _ hj
  · rfl

end Owing

/-- A store has an entry for the slot. -/
def Attached (h : Heap C) (i : SlotId) : Prop :=
  ∃ s k, (k, i) ∈ (h.store s).entries

/-- What a slot holds agrees with the history: nothing if it was never filled, and an owed cleanup
action only if it was filled with one that has not run. -/
def Agrees (trace : List StoreOccurrence) (i : SlotId) : Slot C → Prop
  | .vacant | .computing => ∀ s owed, filled s i owed ∉ trace
  | .holding stored => ∃ s owed, filled s i owed ∈ trace ∧
      (stored.cleanup.isSome → owed = true ∧ cleaned i ∉ trace)

/-- The history is consistent, and stores and slots agree with it: a store holds some of the entries
that it got, in the order in which it got them, and none once it was closed; and a store has no entry
for a value that was handed back. -/
structure Sound (h : Heap C) : Prop where
  consistent : Consistent h.trace
  entered_lt : ∀ s i, entered s i ∈ h.trace → s < h.stores.length ∧ i < h.slots.length
  created : ∀ s, ((h.store s).entries.map Prod.snd).Sublist (enteredSlots s h.trace)
  closed_iff : ∀ s, closed s ∈ h.trace ↔ s < h.stores.length ∧ h.isClosed s = true
  emptied : ∀ s, h.isClosed s = true → (h.store s).entries = []
  agrees : ∀ i, Agrees h.trace i (h.slot i)
  held : ∀ i, h.Attached i → released i ∉ h.trace

namespace Sound

theorem entered_of_mem (hsound : h.Sound) (hentry : (k, i) ∈ (h.store s).entries) :
    entered s i ∈ h.trace := by
  apply mem_enteredSlots.mp
  exact (hsound.created s).subset (List.mem_map_of_mem hentry)

theorem nodup_slots (hsound : h.Sound) (s : StoreId) : ((h.store s).entries.map Prod.snd).Nodup :=
  ((hsound.consistent.pairwise_enteredSlots s).imp Nat.ne_of_lt).sublist (hsound.created s)

/-- A slot belongs to one entry of one store. -/
theorem entry_unique (hsound : h.Sound) {k' : Key} (hentry : (k, i) ∈ (h.store s).entries)
    (hentry' : (k', i) ∈ (h.store s').entries) : s = s' ∧ k = k' := by
  have hstore : s = s' := hsound.consistent.store_unique (hsound.entered_of_mem hentry)
    (hsound.entered_of_mem hentry')
  subst hstore
  refine ⟨rfl, ?_⟩
  exact congrArg Prod.fst (List.inj_on_of_nodup_map (hsound.nodup_slots s) hentry hentry' rfl)

/-- A value that was cleaned up is not in a store any more. -/
theorem not_cleaned_of_attached (hsound : h.Sound) (hattached : h.Attached i) :
    cleaned i ∉ h.trace := by
  intro hcleaned
  obtain ⟨s, k, hentry⟩ := hattached
  obtain ⟨s', hfilled, hclosed⟩ := hsound.consistent.filled_of_cleaned hcleaned
  have hstore : s = s' := hsound.consistent.store_unique (hsound.entered_of_mem hentry)
    (hsound.consistent.entered_of_filled hfilled)
  rw [← hstore] at hclosed
  rw [hsound.emptied s ((hsound.closed_iff s).mp hclosed).2] at hentry
  exact List.not_mem_nil hentry

/-- What a slot owes was given when it was filled. -/
theorem filled_of_owed (hsound : h.Sound) {v : Value} {c : C}
    (hslot : h.slot i = .holding ⟨v, some c⟩) :
    (∃ s, filled s i true ∈ h.trace) ∧ cleaned i ∉ h.trace := by
  have hagrees := hsound.agrees i
  rw [hslot] at hagrees
  obtain ⟨s, owed, hfilled, howed⟩ := hagrees
  obtain ⟨rfl, hcleaned⟩ := howed rfl
  exact ⟨⟨s, hfilled⟩, hcleaned⟩

theorem not_filled (hsound : h.Sound) (hvalue : (h.slot i).value? = none) (s : StoreId)
    (owed : Bool) : filled s i owed ∉ h.trace := by
  have hagrees := hsound.agrees i
  cases hslot : h.slot i with
  | holding stored => simp [hslot, Slot.value?] at hvalue
  | vacant =>
      rw [hslot] at hagrees
      exact hagrees s owed
  | computing =>
      rw [hslot] at hagrees
      exact hagrees s owed

theorem filled_of_value (hsound : h.Sound) {v : Value} (hvalue : (h.slot i).value? = some v) :
    ∃ s owed, filled s i owed ∈ h.trace := by
  have hagrees := hsound.agrees i
  cases hslot : h.slot i with
  | holding stored =>
      rw [hslot] at hagrees
      obtain ⟨s, owed, hfilled, -⟩ := hagrees
      exact ⟨s, owed, hfilled⟩
  | vacant => simp [hslot, Slot.value?] at hvalue
  | computing => simp [hslot, Slot.value?] at hvalue

/-- A value that was never filled in was not handed back either. -/
theorem not_released (hsound : h.Sound) (hvalue : (h.slot i).value? = none) :
    released i ∉ h.trace := by
  intro hreleased
  obtain ⟨s, owed, hfilled⟩ := hsound.consistent.filled_of_released hreleased
  exact hsound.not_filled hvalue s owed hfilled

end Sound

section Slots

variable {trace : List StoreOccurrence} {o : StoreOccurrence}

theorem agrees_of_value?_eq_none {slot : Slot C} (hvalue : slot.value? = none)
    (hfresh : ∀ s owed, filled s i owed ∉ trace) : Agrees trace i slot := by
  cases slot with
  | holding stored => simp [Slot.value?] at hvalue
  | vacant => exact hfresh
  | computing => exact hfresh

/-- What a slot holds keeps agreeing when something becomes of another slot or of a store. -/
theorem Agrees.cons {slot : Slot C} (hagrees : Agrees trace i slot)
    (hfilled : ∀ s owed, o ≠ filled s i owed) (hcleaned : o ≠ cleaned i) :
    Agrees (o :: trace) i slot := by
  cases slot with
  | holding stored =>
      obtain ⟨s, owed, hmem, howed⟩ := hagrees
      refine ⟨s, owed, List.mem_cons_of_mem _ hmem, fun hsome => ?_⟩
      obtain ⟨htrue, hfresh⟩ := howed hsome
      exact ⟨htrue, by simp [Ne.symm hcleaned, hfresh]⟩
  | vacant =>
      intro s owed
      simp [Ne.symm (hfilled s owed), hagrees s owed]
  | computing =>
      intro s owed
      simp [Ne.symm (hfilled s owed), hagrees s owed]

/-- An occurrence that only concerns what a slot holds. -/
def Concerns (i : SlotId) : StoreOccurrence → Prop
  | .factory _ j | .filled _ j _ | .cleaned j => j = i
  | .entered _ _ | .released _ | .closed _ => False

/-- Another content of a slot keeps the heap sound if the history, with what became of the slot, is
consistent and agrees with it. -/
theorem Sound.setSlot_recorded (hsound : h.Sound) (hi : i < h.slots.length) {slot : Slot C}
    (hconcerns : Concerns i o) (hconsistent : Consistent (o :: h.trace))
    (hagrees : Agrees (o :: h.trace) i slot) : ((h.setSlot i slot).recorded o).Sound where
  consistent := hconsistent
  entered_lt s j hentered := by
    have hearlier : entered s j ∈ h.trace := by
      cases hentered with
      | head => exact hconcerns.elim
      | tail _ hearlier => exact hearlier
    simpa [recorded, Heap.setSlot] using hsound.entered_lt s j hearlier
  created s := by
    have hslots : enteredSlots s (o :: h.trace) = enteredSlots s h.trace := by
      cases o with
      | entered _ _ => exact hconcerns.elim
      | _ => rfl
    change (((h.store s).entries.map Prod.snd).Sublist (enteredSlots s (o :: h.trace)))
    rw [hslots]
    exact hsound.created s
  closed_iff s := by
    have hclosed : closed s ∈ o :: h.trace ↔ closed s ∈ h.trace := by
      cases o with
      | closed _ => exact hconcerns.elim
      | _ => simp
    exact hclosed.trans (hsound.closed_iff s)
  emptied := hsound.emptied
  agrees j := by
    rw [slot_recorded, slot_setSlot hi]
    by_cases hj : j = i
    · rw [if_pos hj, hj]
      exact hagrees
    · rw [if_neg hj]
      apply (hsound.agrees j).cons
      · rintro s owed rfl
        exact hj hconcerns
      · rintro rfl
        exact hj hconcerns
  held j hattached := by
    intro hreleased
    cases hreleased with
    | head => exact hconcerns.elim
    | tail _ hearlier => exact hsound.held j hattached hearlier

/-- A slot that was never filled may be vacant or marked. -/
theorem Sound.setSlot (hsound : h.Sound) (hi : i < h.slots.length) {slot : Slot C}
    (hagrees : Agrees h.trace i slot) : (h.setSlot i slot).Sound where
  consistent := hsound.consistent
  entered_lt s j hentered := by simpa [Heap.setSlot] using hsound.entered_lt s j hentered
  created := hsound.created
  closed_iff := hsound.closed_iff
  emptied := hsound.emptied
  agrees j := by
    rw [slot_setSlot hi]
    by_cases hj : j = i
    · rw [if_pos hj, hj]
      exact hagrees
    · rw [if_neg hj]
      exact hsound.agrees j
  held := hsound.held

theorem Sound.claim (hsound : h.Sound) (hi : i < h.slots.length) (s : StoreId) :
    (h.claim s i).2.Sound := by
  rw [Heap.claim]
  split
  · exact hsound
  · next hvalue =>
    apply hsound.setSlot_recorded (o := factory s i) hi rfl hsound.consistent
    apply agrees_of_value?_eq_none rfl
    simpa using hsound.not_filled hvalue

theorem Sound.vacate (hsound : h.Sound) (hi : i < h.slots.length)
    (hvalue : (h.slot i).value? = none) : (h.vacate i).Sound :=
  hsound.setSlot hi (agrees_of_value?_eq_none rfl (hsound.not_filled hvalue))

theorem Sound.fill (hsound : h.Sound) (hentered : entered s i ∈ h.trace)
    (hvalue : (h.slot i).value? = none) (stored : Stored C) : (h.fill s i stored).Sound := by
  have hi : i < h.slots.length := (hsound.entered_lt s i hentered).2
  have hfresh := hsound.not_filled hvalue
  apply hsound.setSlot_recorded (o := filled s i _) hi rfl ⟨hentered, hfresh, hsound.consistent⟩
  refine ⟨s, _, List.mem_cons_self, fun howed => ⟨howed, ?_⟩⟩
  intro hcleaned
  cases hcleaned with
  | tail _ hearlier =>
      obtain ⟨s', hfilled, -⟩ := hsound.consistent.filled_of_cleaned hearlier
      exact hfresh s' true hfilled

/-- The cleanup action of a slot may be taken once the store that got the slot is closed, unless the
value was handed back. -/
theorem Sound.takeCleanup (hsound : h.Sound) (hentered : entered s i ∈ h.trace)
    (hclosed : closed s ∈ h.trace) (hkept : released i ∉ h.trace) :
    (h.takeCleanup i).2.Sound := by
  have hi : i < h.slots.length := (hsound.entered_lt s i hentered).2
  rw [Heap.takeCleanup]
  split
  · next v c hslot =>
    obtain ⟨⟨s', hfilled⟩, hfresh⟩ := hsound.filled_of_owed hslot
    have hstore : s' = s := hsound.consistent.store_unique
      (hsound.consistent.entered_of_filled hfilled) hentered
    rw [hstore] at hfilled
    apply hsound.setSlot_recorded (o := cleaned i) hi rfl
      ⟨⟨s, hfilled, hclosed⟩, hfresh, hkept, hsound.consistent⟩
    refine ⟨s, true, List.mem_cons_of_mem _ hfilled, fun howed => ?_⟩
    exact absurd howed Bool.false_ne_true
  · exact hsound

end Slots

section Stores

theorem Sound.empty : (Heap.empty : Heap C).Sound where
  consistent := trivial
  entered_lt _ _ hentered := absurd hentered List.not_mem_nil
  created _ := List.nil_sublist _
  closed_iff _ := ⟨fun hclosed => absurd hclosed List.not_mem_nil,
    fun hlt => absurd hlt.1 (Nat.not_lt_zero _)⟩
  emptied _ _ := rfl
  agrees _ _ _ := List.not_mem_nil
  held _ _ := List.not_mem_nil

theorem Sound.addStore (hsound : h.Sound) (ancestors : List StoreId) :
    Sound { h with stores := h.stores ++ [⟨ancestors, false, []⟩] } where
  consistent := hsound.consistent
  entered_lt s i hentered := by
    have hlt := hsound.entered_lt s i hentered
    refine ⟨?_, hlt.2⟩
    rw [List.length_append]
    exact Nat.lt_succ_of_lt hlt.1
  created s := by
    rw [store_append]
    split
    · exact List.nil_sublist _
    · exact hsound.created s
  closed_iff s := by
    rw [isClosed, store_append, hsound.closed_iff, List.length_append, List.length_singleton]
    by_cases hs : s = h.stores.length
    · simp [hs]
    · rw [if_neg hs, Nat.lt_succ_iff_lt_or_eq, or_iff_left hs, isClosed]
  emptied s hclosed := by
    rw [isClosed, store_append] at hclosed
    rw [store_append]
    split
    · rfl
    · next hs =>
      rw [if_neg hs] at hclosed
      exact hsound.emptied s hclosed
  agrees := hsound.agrees
  held i hattached := by
    apply hsound.held i
    obtain ⟨s, k, hentry⟩ := hattached
    rw [store_append] at hentry
    split at hentry
    · exact absurd hentry List.not_mem_nil
    · exact ⟨s, k, hentry⟩

theorem store_addEntry (hopen : h.isClosed s = false) (slot : Slot C) (s' : StoreId) :
    (h.addEntry s k slot).2.store s' =
      if s' = s then (h.store s).insert k h.slots.length else h.store s' :=
  store_modifyStore (h := { h with slots := h.slots ++ [slot] }) (lt_length_of_open hopen) _ s'

theorem slot_addEntry (slot : Slot C) (i : SlotId) :
    (h.addEntry s k slot).2.slot i = if i = h.slots.length then slot else h.slot i :=
  slot_append slot _ _ i

theorem attached_of_addEntry (hopen : h.isClosed s = false) {slot : Slot C}
    (hattached : (h.addEntry s k slot).2.Attached i) : i = h.slots.length ∨ h.Attached i := by
  obtain ⟨s', k', hentry⟩ := hattached
  rw [store_addEntry hopen] at hentry
  split at hentry
  · rw [Store.insert, List.mem_append, Store.mem_erase_entries] at hentry
    rcases hentry with ⟨hentry, -⟩ | hentry
    · exact .inr ⟨s, k', hentry⟩
    · exact .inl (congrArg Prod.snd (List.mem_singleton.mp hentry))
  · exact .inr ⟨s', k', hentry⟩

/-- A store that is open may get an entry with a vacant slot. -/
theorem Sound.addEntry (hsound : h.Sound) (hopen : h.isClosed s = false) (k : Key) :
    (h.addEntry s k .vacant).2.Sound where
  consistent := ⟨fun s j hentered => (hsound.entered_lt s j hentered).2, hsound.consistent⟩
  entered_lt s' j hentered := by
    have hs := lt_length_of_open hopen
    simp only [Heap.addEntry, recorded, length_stores_modifyStore, length_slots_modifyStore,
      List.length_append, List.length_singleton]
    cases hentered with
    | head => exact ⟨hs, Nat.lt_succ_self _⟩
    | tail _ hearlier =>
        have hlt := hsound.entered_lt s' j hearlier
        exact ⟨hlt.1, Nat.lt_succ_of_lt hlt.2⟩
  created s' := by
    rw [store_addEntry hopen]
    change List.Sublist _ (enteredSlots s' (.entered s h.slots.length :: h.trace))
    by_cases hs : s' = s
    · subst hs
      simp only [enteredSlots, ↓reduceIte, Store.insert, List.map_append, List.map_singleton]
      apply List.Sublist.append_right
      exact ((Store.erase_entries_sublist _ k).map Prod.snd).trans (hsound.created s')
    · simp only [enteredSlots, hs, Ne.symm hs, ↓reduceIte]
      exact hsound.created s'
  closed_iff s' := by
    have hclosed : (h.addEntry s k .vacant).2.isClosed s' = h.isClosed s' := by
      rw [isClosed, store_addEntry hopen]
      split
      · next hs =>
        rw [hs]
        rfl
      · rfl
    have htrace : closed s' ∈ (h.addEntry s k .vacant).2.trace ↔ closed s' ∈ h.trace := by
      simp [Heap.addEntry, recorded, modifyStore]
    rw [hclosed, htrace, hsound.closed_iff]
    simp [Heap.addEntry, recorded, modifyStore]
  emptied s' hclosed := by
    rw [isClosed, store_addEntry hopen] at hclosed
    rw [store_addEntry hopen]
    by_cases hs : s' = s
    · rw [if_pos hs] at hclosed
      exact absurd (hopen.symm.trans hclosed) Bool.false_ne_true
    · rw [if_neg hs] at hclosed ⊢
      exact hsound.emptied s' hclosed
  agrees j := by
    rw [slot_addEntry]
    -- A new slot was never filled, since every slot that was filled had been entered.
    have hcons {slot : Slot C} (hagrees : Agrees h.trace j slot) :
        Agrees (h.addEntry s k .vacant).2.trace j slot :=
      hagrees.cons (fun _ _ => StoreOccurrence.noConfusion) StoreOccurrence.noConfusion
    by_cases hj : j = h.slots.length
    · rw [if_pos hj]
      apply hcons
      have hagrees := hsound.agrees j
      rw [slot_of_length_le (Nat.le_of_eq hj.symm)] at hagrees
      exact hagrees
    · rw [if_neg hj]
      exact hcons (hsound.agrees j)
  held j hattached := by
    have hkept : released j ∉ h.trace := by
      rcases attached_of_addEntry hopen hattached with hj | hattached
      · apply hsound.not_released
        rw [slot_of_length_le (Nat.le_of_eq hj.symm)]
        rfl
      · exact hsound.held j hattached
    simpa [Heap.addEntry, recorded, modifyStore] using hkept

theorem Sound.reserve (hsound : h.Sound) (s : StoreId) (k : Key) : (h.reserve s k).2.Sound := by
  rw [Heap.reserve]
  split
  · exact hsound
  · next hopen =>
    split
    · exact hsound
    · split
      · exact hsound
      · exact hsound.addEntry (Bool.eq_false_iff.mpr hopen) k

/-- A store drops entries: it keeps some of those that it has. -/
theorem store_erase (s : StoreId) (k : Key) (s' : StoreId) :
    (h.modifyStore s fun store => store.erase k).store s' =
      if s' = s then (h.store s).erase k else h.store s' := by
  by_cases hs : s < h.stores.length
  · exact store_modifyStore hs _ s'
  · have habsent : h.store s = ⟨[], true, []⟩ := by
      rw [store, List.getElem?_eq_none (Nat.le_of_not_lt hs)]
      rfl
    have hsame : (h.modifyStore s fun store => store.erase k).store s' = h.store s' := by
      rw [store, modifyStore, List.modify_eq_self (Nat.le_of_not_lt hs), store]
    rw [hsame]
    split
    · next heq =>
      rw [heq, habsent]
      rfl
    · rfl

theorem isClosed_erase (s : StoreId) (k : Key) (s' : StoreId) :
    (h.modifyStore s fun store => store.erase k).isClosed s' = h.isClosed s' := by
  rw [isClosed, store_erase]
  split
  · next hs =>
    rw [hs]
    rfl
  · rfl

theorem attached_of_erase (hattached : (h.modifyStore s fun store => store.erase k).Attached i) :
    h.Attached i := by
  obtain ⟨s', k', hentry⟩ := hattached
  rw [store_erase] at hentry
  split at hentry
  · exact ⟨s, k', (Store.mem_erase_entries.mp hentry).1⟩
  · exact ⟨s', k', hentry⟩

theorem Sound.erase (hsound : h.Sound) (s : StoreId) (k : Key) :
    (h.modifyStore s fun store => store.erase k).Sound where
  consistent := hsound.consistent
  entered_lt s' i hentered := by simpa using hsound.entered_lt s' i hentered
  created s' := by
    rw [store_erase]
    split
    · next hs =>
      rw [hs]
      exact ((Store.erase_entries_sublist _ k).map Prod.snd).trans (hsound.created s)
    · exact hsound.created s'
  closed_iff s' := by
    rw [isClosed_erase, length_stores_modifyStore]
    exact hsound.closed_iff s'
  emptied s' hclosed := by
    rw [isClosed_erase] at hclosed
    rw [store_erase]
    split
    · next hs =>
      rw [hs] at hclosed
      rw [Store.erase, hsound.emptied s hclosed]
      rfl
    · exact hsound.emptied s' hclosed
  agrees := hsound.agrees
  held i hattached := hsound.held i (attached_of_erase hattached)

/-- The slot of an entry that was dropped is in no store any more. -/
theorem Sound.not_attached_erase (hsound : h.Sound) (hslot : (h.store s).slot? k = some i) :
    ¬ (h.modifyStore s fun store => store.erase k).Attached i := by
  have hentry : (k, i) ∈ (h.store s).entries := Store.mem_of_slot? hslot
  rintro ⟨s', k', hentry'⟩
  rw [store_erase] at hentry'
  split at hentry'
  · rw [Store.mem_erase_entries] at hentry'
    exact hentry'.2 (hsound.entry_unique hentry'.1 hentry).2
  · next hs => exact hs (hsound.entry_unique hentry' hentry).1

/-- A value in no store may be handed back unless it was cleaned up. -/
theorem Sound.release (hsound : h.Sound) {v : Value} (hvalue : (h.slot i).value? = some v)
    (hfree : ¬ h.Attached i) (hfresh : cleaned i ∉ h.trace) : (h.recorded (released i)).Sound where
  consistent := ⟨hsound.filled_of_value hvalue, hfresh, hsound.consistent⟩
  entered_lt s j hentered := by
    cases hentered with
    | tail _ hearlier => exact hsound.entered_lt s j hearlier
  created := hsound.created
  closed_iff s := by
    have hclosed : closed s ∈ (h.recorded (released i)).trace ↔ closed s ∈ h.trace := by
      simp [recorded]
    exact hclosed.trans (hsound.closed_iff s)
  emptied := hsound.emptied
  agrees j :=
    (hsound.agrees j).cons (fun _ _ => StoreOccurrence.noConfusion) StoreOccurrence.noConfusion
  held j hattached := by
    intro hreleased
    cases hreleased with
    | head => exact hfree hattached
    | tail _ hearlier => exact hsound.held j hattached hearlier

/-- The heap without the entry of a store for a key, with a record that its value is handed back. -/
def forget (h : Heap C) (s : StoreId) (k : Key) : Heap C :=
  (h.releasing s k).modifyStore s fun store => store.erase k

theorem Sound.forget (hsound : h.Sound) (s : StoreId) (k : Key) : (h.forget s k).Sound := by
  rw [Heap.forget, releasing]
  split
  · exact hsound.erase s k
  · next i hslot =>
    split
    · next hvalue =>
      obtain ⟨v, hvalue⟩ := Option.isSome_iff_exists.mp hvalue
      have hattached : h.Attached i := ⟨s, k, Store.mem_of_slot? hslot⟩
      -- The entry has to go first: a store must not hold a value that was handed back.
      exact (hsound.erase s k).release hvalue (hsound.not_attached_erase hslot)
        (hsound.not_cleaned_of_attached hattached)
    · exact hsound.erase s k

@[simp]
theorem slots_forget (s : StoreId) (k : Key) : (h.forget s k).slots = h.slots := by
  rw [forget, modifyStore, releasing]
  split
  · rfl
  · split <;> rfl

theorem store_forget (s : StoreId) (k : Key) (s' : StoreId) :
    (h.forget s k).store s' = if s' = s then (h.store s).erase k else h.store s' := by
  rw [forget, releasing]
  split
  · exact store_erase s k s'
  · split
    · exact store_erase s k s'
    · exact store_erase s k s'

theorem isClosed_forget (s : StoreId) (k : Key) (s' : StoreId) :
    (h.forget s k).isClosed s' = h.isClosed s' := by
  rw [isClosed, store_forget]
  split
  · next hs =>
    rw [hs]
    rfl
  · rfl

/-- To put a value is to drop the entry for the key, to make a new one and to fill its slot. -/
theorem put_eq (hopen : h.isClosed s = false) (k : Key) (stored : Stored C) :
    h.put s k stored = .ok (h.localValue? s k,
      ((h.forget s k).addEntry s k .vacant).2.fill s h.slots.length stored) := by
  have hslots : (h.releasing s k).slots = h.slots := slots_forget s k
  simp only [put, hopen, Bool.false_eq_true, ↓reduceIte, addEntry, fill, setSlot, recorded,
    modifyStore, forget, hslots, List.modify_modify_eq, List.set_append_right _ _ (Nat.le_refl _),
    Nat.sub_self, List.set_cons_zero]
  congr 5
  funext store
  exact (store.insert_erase k h.slots.length).symm

/-- All that putting a value can do. -/
theorem of_put {stored : Stored C} {previous : Option Value}
    (hput : h.put s k stored = .ok (previous, h')) :
    (h.forget s k).isClosed s = false ∧ previous = h.localValue? s k ∧
      h' = ((h.forget s k).addEntry s k .vacant).2.fill s h.slots.length stored := by
  cases hclosed : h.isClosed s with
  | true =>
      rw [put, if_pos hclosed] at hput
      cases hput
  | false =>
      rw [put_eq hclosed] at hput
      cases hput
      exact ⟨(isClosed_forget s k s).trans hclosed, rfl, rfl⟩

theorem Sound.put (hsound : h.Sound) {stored : Stored C} {previous : Option Value}
    (hput : h.put s k stored = .ok (previous, h')) : h'.Sound := by
  obtain ⟨hopen, -, rfl⟩ := of_put hput
  have hentry := (hsound.forget s k).addEntry hopen k
  apply hentry.fill
  · rw [← slots_forget s k]
    exact List.mem_cons_self
  · rw [slot_addEntry, slots_forget, if_pos rfl]
    rfl

/-- All that taking a value out can do: nothing, or its entry is dropped. -/
theorem of_remove {t : Ty} {taken : Option Value}
    (hremove : h.remove s k t = .ok (taken, h')) :
    taken = none ∧ h' = h ∨ taken = h.localValue? s k ∧ h' = h.forget s k := by
  rw [Heap.remove] at hremove
  split at hremove
  · cases hremove
  · split at hremove
    · cases hremove
      exact .inl ⟨rfl, rfl⟩
    · next v hvalue =>
      by_cases htype : v.ty = t
      · simp only [cast, Value.downcast, htype, ↓reduceIte, Except.map] at hremove
        cases hremove
        exact .inr ⟨hvalue.symm, rfl⟩
      · simp [cast, Value.downcast, htype, Except.map] at hremove

theorem Sound.remove (hsound : h.Sound) {t : Ty} {taken : Option Value}
    (hremove : h.remove s k t = .ok (taken, h')) : h'.Sound := by
  rcases of_remove hremove with ⟨-, rfl⟩ | ⟨-, rfl⟩
  · exact hsound
  · exact hsound.forget s k

theorem eq_of_cast {t : Ty} {v v' : Value} (hcast : cast k t v = .ok v') : v' = v := by
  rw [cast, Value.downcast] at hcast
  split at hcast
  · next hdowncast =>
    split at hdowncast
    · cases hdowncast
      cases hcast
      rfl
    · cases hdowncast
  · cases hcast

theorem beginClose_eq (hopen : h.isClosed s = false) :
    h.beginClose s = some ((h.store s).entries,
      (h.modifyStore s fun store => { store with closed := true, entries := [] }).recorded
        (closed s)) := by
  rw [beginClose, if_neg (Bool.eq_false_iff.mp hopen)]

/-- All that beginning to close a store can do. -/
theorem of_beginClose {entries : List (Key × SlotId)}
    (hclose : h.beginClose s = some (entries, h')) :
    h.isClosed s = false ∧ entries = (h.store s).entries ∧
      h' = (h.modifyStore s fun store => { store with closed := true, entries := [] }).recorded
        (closed s) := by
  cases hclosed : h.isClosed s with
  | true =>
      rw [beginClose, if_pos hclosed] at hclose
      cases hclose
  | false =>
      rw [beginClose_eq hclosed] at hclose
      cases hclose
      exact ⟨rfl, rfl, rfl⟩

theorem store_beginClose {entries : List (Key × SlotId)}
    (hclose : h.beginClose s = some (entries, h')) (s' : StoreId) :
    h'.store s' = if s' = s then { h.store s with closed := true, entries := [] }
      else h.store s' := by
  obtain ⟨hopen, -, rfl⟩ := of_beginClose hclose
  exact store_modifyStore (lt_length_of_open hopen) _ s'

theorem isClosed_beginClose {entries : List (Key × SlotId)}
    (hclose : h.beginClose s = some (entries, h')) : h'.isClosed s = true := by
  rw [isClosed, store_beginClose hclose, if_pos rfl]

theorem attached_of_beginClose {entries : List (Key × SlotId)}
    (hclose : h.beginClose s = some (entries, h')) (hattached : h'.Attached i) : h.Attached i := by
  obtain ⟨s', k, hentry⟩ := hattached
  rw [store_beginClose hclose] at hentry
  split at hentry
  · exact absurd hentry List.not_mem_nil
  · exact ⟨s', k, hentry⟩

theorem Sound.beginClose (hsound : h.Sound) {entries : List (Key × SlotId)}
    (hclose : h.beginClose s = some (entries, h')) : h'.Sound := by
  have hstore := store_beginClose hclose
  have hattached {i : SlotId} : h'.Attached i → h.Attached i := attached_of_beginClose hclose
  obtain ⟨hopen, -, rfl⟩ := of_beginClose hclose
  have hs : s < h.stores.length := lt_length_of_open hopen
  constructor
  case consistent => exact hsound.consistent
  case entered_lt =>
    intro s' i hentered
    cases hentered with
    | tail _ hearlier => simpa [recorded] using hsound.entered_lt s' i hearlier
  case created =>
    intro s'
    rw [hstore]
    split
    · exact List.nil_sublist _
    · exact hsound.created s'
  case closed_iff =>
    intro s'
    rw [isClosed, hstore]
    simp only [recorded, trace_modifyStore, length_stores_modifyStore, List.mem_cons,
      StoreOccurrence.closed.injEq]
    by_cases heq : s' = s
    · simp [heq, hs]
    · simp only [heq, ↓reduceIte, false_or]
      exact hsound.closed_iff s'
  case emptied =>
    intro s' hclosed
    rw [isClosed, hstore] at hclosed
    rw [hstore]
    split
    · rfl
    · next hne =>
      rw [if_neg hne] at hclosed
      exact hsound.emptied s' hclosed
  case agrees =>
    intro i
    exact (hsound.agrees i).cons (fun _ _ => StoreOccurrence.noConfusion)
      StoreOccurrence.noConfusion
  case held =>
    intro i hstill
    simpa [recorded] using hsound.held i (hattached hstill)

end Stores

end Heap

end TimedInvocation
