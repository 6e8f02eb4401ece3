import TimedInvocation.Proofs.Store.Closing
import TimedInvocation.Proofs.Store.Exceptions

/-!
# Values that are to be closed

A value with a cleanup action that a sequential run of a program has put or computed is cleaned up once
when its store has been closed and the run is over, unless the value was handed back. The one exception
is a value whose entry is replaced while its factory is running: it is stored in a slot that no store
leads to any more, and if the store is still open then, nobody cleans it up.
-/

namespace TimedInvocation

open StoreOccurrence World

variable {H : Host} {α β : Type} {C : Type}

namespace Heap

variable {h h₁ h' : Heap C} {s s' : StoreId} {i j : SlotId} {k : Key} {slots : List SlotId}

/-- A store leads to the slot for some key. -/
def Found (h : Heap C) (i : SlotId) : Prop :=
  ∃ s k, (h.store s).slot? k = some i

/-- A slot that an open store got is being computed, and no store leads to it any more. -/
structure Displaced (h : Heap C) (s : StoreId) (i : SlotId) : Prop where
  entered : StoreOccurrence.entered s i ∈ h.trace
  computing : h.slot i = .computing
  isOpen : h.isClosed s = false
  replaced : ¬ h.Found i

/-- If a slot of a store was filled with a value that is to be closed, the value was cleaned up or handed
back, or its cleanup action is owed by a slot that a store leads to. -/
def Accounted (h : Heap C) (s : StoreId) (i : SlotId) : Prop :=
  filled s i true ∈ h.trace → cleaned i ∈ h.trace ∨ released i ∈ h.trace ∨
    (h.Found i ∧ (h.cleanup? i).isSome)

/-- If a slot of a store was filled with a value that is to be closed, the value was cleaned up, or its
cleanup action is owed by the slot. -/
def Outstanding (h : Heap C) (s : StoreId) (i : SlotId) : Prop :=
  filled s i true ∈ h.trace → cleaned i ∈ h.trace ∨ (h.cleanup? i).isSome

/-- The value in a slot of a store is accounted for as soon as some slots have been cleaned. -/
def Covered (h : Heap C) (s : StoreId) (i : SlotId) (slots : List SlotId) : Prop :=
  h.Accounted s i ∨ i ∈ slots ∧ h.Outstanding s i

/-- Complete operations lead from one heap to another, and the value in a slot of a store stays accounted
for. -/
structure Accounts (s : StoreId) (i : SlotId) (h h' : Heap C) : Prop extends h.LeadsTo h' where
  accounted : h.Accounted s i → h'.Accounted s i

section Views

/-- A slot without a value owes nothing. -/
theorem cleanup?_of_valueless (hvalue : (h.slot i).value? = none) : h.cleanup? i = none := by
  rw [cleanup?]
  split
  · next stored hslot =>
    rw [hslot] at hvalue
    cases hvalue
  · rfl
  · rfl

/-- What is owed does not depend on how a slot without a value is marked. -/
theorem cleanup?_setSlot (hvalue : (h.slot j).value? = none) {slot : Slot C}
    (hslot : slot.value? = none) (i : SlotId) : (h.setSlot j slot).cleanup? i = h.cleanup? i := by
  by_cases hi : i = j
  · subst hi
    have hvalue' : ((h.setSlot i slot).slot i).value? = none := by
      rw [value?_setSlot slot (hslot.trans hvalue.symm), hvalue]
    rw [cleanup?_of_valueless hvalue, cleanup?_of_valueless hvalue']
  · exact cleanup?_of_slot_eq (slot_setSlot_of_ne slot hi)

theorem Found.attached (hfound : h.Found i) : h.Attached i := by
  obtain ⟨s, k, hslot⟩ := hfound
  exact ⟨s, k, Store.mem_of_slot? hslot⟩

theorem Found.of_store_eq (hfound : h.Found i) (hstore : ∀ s, h'.store s = h.store s) :
    h'.Found i := by
  obtain ⟨s, k, hslot⟩ := hfound
  exact ⟨s, k, by rw [hstore, hslot]⟩

theorem found_forget (hfound : h.Found i) (s : StoreId) (k : Key) :
    (h.forget s k).Found i ∨ (h.store s).slot? k = some i := by
  obtain ⟨s', k', hslot⟩ := hfound
  by_cases hs : s' = s
  · subst hs
    by_cases hk : k' = k
    · subst hk
      exact .inr hslot
    · refine .inl ⟨s', k', ?_⟩
      rw [store_forget, if_pos rfl, Store.slot?_erase, if_neg hk, hslot]
  · refine .inl ⟨s', k', ?_⟩
    rw [store_forget, if_neg hs, hslot]

theorem Found.addEntry (hfound : h.Found i) (hopen : h.isClosed s = false)
    (hnone : (h.store s).slot? k = none) : (h.addEntry s k .vacant).2.Found i := by
  obtain ⟨s', k', hslot⟩ := hfound
  refine ⟨s', k', ?_⟩
  rw [store_addEntry hopen]
  split
  · next hs =>
    subst hs
    rw [Store.slot?_insert, if_neg, hslot]
    rintro rfl
    rw [hnone] at hslot
    cases hslot
  · exact hslot

theorem found_addEntry (hopen : h.isClosed s = false) (k : Key) :
    (h.addEntry s k .vacant).2.Found h.slots.length := by
  refine ⟨s, k, ?_⟩
  rw [store_addEntry hopen, if_pos rfl, Store.slot?_insert, if_pos rfl]

end Views

section Accounts

theorem Accounts.refl (hsound : h.Sound) : Accounts s i h h :=
  ⟨.refl hsound, fun haccounted => haccounted⟩

theorem Accounts.trans (hfirst : Accounts s i h h₁) (hrest : Accounts s i h₁ h') :
    Accounts s i h h' :=
  ⟨hfirst.toLeadsTo.trans hrest.toLeadsTo, fun haccounted => hrest.accounted (hfirst.accounted haccounted)⟩

/-- What is owed by a slot that a store leads to stays so, and nothing is filled in. -/
theorem Accounted.of_owed (haccounted : h.Accounted s i)
    (hfilled : filled s i true ∈ h'.trace → filled s i true ∈ h.trace) (htrace : h.trace ⊆ h'.trace)
    (howed : h.Found i → (h.cleanup? i).isSome → h'.Found i ∧ (h'.cleanup? i).isSome) :
    h'.Accounted s i := by
  intro hmem
  rcases haccounted (hfilled hmem) with hcleaned | hreleased | ⟨hfound, hcleanup⟩
  · exact .inl (htrace hcleaned)
  · exact .inr (.inl (htrace hreleased))
  · exact .inr (.inr (howed hfound hcleanup))

theorem Accounted.claim (haccounted : h.Accounted s i) (s' : StoreId) (j : SlotId) :
    (h.claim s' j).2.Accounted s i := by
  apply haccounted.of_owed
  · intro hmem
    rw [Heap.claim] at hmem
    split at hmem
    · exact hmem
    · simpa [recorded] using hmem
  · rw [Heap.claim]
    split
    · exact List.Subset.refl _
    · exact List.subset_cons_self _ _
  · intro hfound hcleanup
    refine ⟨hfound.of_store_eq (store_claim s' j), ?_⟩
    rw [Heap.claim]
    split
    · exact hcleanup
    · next hvalue =>
      change ((h.setSlot j .computing).cleanup? i).isSome
      rw [cleanup?_setSlot hvalue rfl]
      exact hcleanup

theorem Accounted.vacate (haccounted : h.Accounted s i) (hvalue : (h.slot j).value? = none) :
    (h.vacate j).Accounted s i := by
  apply haccounted.of_owed
  · exact fun hmem => hmem
  · exact List.Subset.refl _
  · intro hfound hcleanup
    refine ⟨hfound.of_store_eq fun _ => rfl, ?_⟩
    rw [Heap.vacate, cleanup?_setSlot hvalue rfl]
    exact hcleanup

/-- Filling another slot than that in question. -/
theorem Accounted.fill_of_ne (haccounted : h.Accounted s i) (hj : j ≠ i) (s' : StoreId)
    (stored : Stored C) : (h.fill s' j stored).Accounted s i := by
  apply haccounted.of_owed
  · simp [Heap.fill, recorded, hj.symm]
  · exact List.subset_cons_self _ _
  · intro hfound hcleanup
    refine ⟨hfound.of_store_eq fun _ => rfl, ?_⟩
    have hslot : (h.fill s' j stored).slot i = h.slot i := slot_setSlot_of_ne _ hj.symm
    rw [cleanup?_of_slot_eq hslot]
    exact hcleanup

/-- A slot that is filled with a value to be closed owes the cleanup action for it. -/
theorem Sound.cleanup?_fill (hsound : h.Sound) (hentered : entered s' i ∈ h.trace)
    (hvalue : (h.slot i).value? = none) {stored : Stored C}
    (hmem : filled s i true ∈ (h.fill s' i stored).trace) :
    s' = s ∧ ((h.fill s' i stored).cleanup? i).isSome := by
  have hslot : (h.fill s' i stored).slot i = .holding stored := by
    rw [Heap.fill, slot_recorded, slot_setSlot (hsound.entered_lt s' i hentered).2, if_pos rfl]
  rw [cleanup?, hslot]
  rcases List.mem_cons.mp hmem with hnew | hold
  · rw [StoreOccurrence.filled.injEq] at hnew
    exact ⟨hnew.1.symm, hnew.2.2.symm⟩
  · exact absurd hold (hsound.not_filled hvalue s true)

theorem trace_takeCleanup_subset (j : SlotId) : h.trace ⊆ (h.takeCleanup j).2.trace := by
  rw [Heap.takeCleanup]
  split
  · exact List.subset_cons_self _ _
  · exact List.Subset.refl _

theorem filled_of_takeCleanup {owed : Bool} (hmem : filled s i owed ∈ (h.takeCleanup j).2.trace) :
    filled s i owed ∈ h.trace := by
  rw [Heap.takeCleanup] at hmem
  split at hmem
  · simpa [recorded] using hmem
  · exact hmem

theorem cleaned_of_takeCleanup (hcleanup : (h.cleanup? i).isSome) :
    cleaned i ∈ (h.takeCleanup i).2.trace := by
  obtain ⟨c, hc⟩ := Option.isSome_iff_exists.mp hcleanup
  rw [trace_takeCleanup hc]
  exact List.mem_cons_self

theorem Outstanding.takeCleanup_self (houtstanding : h.Outstanding s i) :
    (h.takeCleanup i).2.Accounted s i := by
  intro hmem
  rcases houtstanding (filled_of_takeCleanup hmem) with hcleaned | hcleanup
  · exact .inl (trace_takeCleanup_subset i hcleaned)
  · exact .inl (cleaned_of_takeCleanup hcleanup)

theorem Outstanding.takeCleanup_of_ne (houtstanding : h.Outstanding s i) (hj : i ≠ j) :
    (h.takeCleanup j).2.Outstanding s i := by
  intro hmem
  rw [cleanup?_of_slot_eq (slot_takeCleanup_of_ne hj)]
  exact (houtstanding (filled_of_takeCleanup hmem)).imp_left fun hcleaned =>
    trace_takeCleanup_subset j hcleaned

theorem Accounted.takeCleanup (haccounted : h.Accounted s i) (j : SlotId) :
    (h.takeCleanup j).2.Accounted s i := by
  by_cases hj : i = j
  · intro hmem
    rcases haccounted (filled_of_takeCleanup hmem) with hcleaned | hreleased | ⟨-, hcleanup⟩
    · exact .inl (trace_takeCleanup_subset j hcleaned)
    · exact .inr (.inl (trace_takeCleanup_subset j hreleased))
    · rw [hj] at hcleanup ⊢
      exact .inl (cleaned_of_takeCleanup hcleanup)
  · apply haccounted.of_owed filled_of_takeCleanup (trace_takeCleanup_subset j)
    intro hfound hcleanup
    rw [cleanup?_of_slot_eq (slot_takeCleanup_of_ne hj)]
    exact ⟨hfound.of_store_eq (store_takeCleanup j), hcleanup⟩

theorem Covered.accounted (hcovered : h.Covered s i []) : h.Accounted s i := by
  rcases hcovered with haccounted | ⟨hmem, -⟩
  · exact haccounted
  · exact absurd hmem List.not_mem_nil

/-- Once the cleanup action of a slot was taken, the slot is not among those to be cleaned any more. -/
theorem Covered.takeCleanup (hcovered : h.Covered s i (j :: slots)) :
    (h.takeCleanup j).2.Covered s i slots := by
  rcases hcovered with haccounted | ⟨hmem, houtstanding⟩
  · exact .inl (haccounted.takeCleanup j)
  · by_cases hj : i = j
    · subst hj
      exact .inl houtstanding.takeCleanup_self
    · exact .inr ⟨(List.mem_cons.mp hmem).resolve_left hj, houtstanding.takeCleanup_of_ne hj⟩

/-- Closing a store leaves the slots of its entries to be cleaned. -/
theorem Accounted.beginClose (haccounted : h.Accounted s i) {entries : List (Key × SlotId)}
    (hclose : h.beginClose s' = some (entries, h')) :
    h'.Covered s i (entries.map Prod.snd) := by
  have hstore := store_beginClose hclose
  obtain ⟨-, rfl, rfl⟩ := of_beginClose hclose
  have htrace : h.trace ⊆ closed s' :: h.trace := List.subset_cons_self _ _
  by_cases hfilled : filled s i true ∈ h.trace
  · rcases haccounted hfilled with hcleaned | hreleased | ⟨⟨s'', k, hslot⟩, hcleanup⟩
    · exact .inl fun _ => .inl (htrace hcleaned)
    · exact .inl fun _ => .inr (.inl (htrace hreleased))
    · by_cases hs : s'' = s'
      · subst hs
        exact .inr ⟨List.mem_map_of_mem (Store.mem_of_slot? hslot), fun _ => .inr hcleanup⟩
      · refine .inl fun _ => .inr (.inr ⟨⟨s'', k, ?_⟩, hcleanup⟩)
        rw [hstore, if_neg hs, hslot]
  · refine .inl fun hmem => absurd ?_ hfilled
    simpa [recorded] using hmem

theorem trace_forget (s : StoreId) (k : Key) :
    (h.forget s k).trace = h.trace ∨ ∃ i, (h.forget s k).trace = released i :: h.trace := by
  rw [Heap.forget, releasing]
  split
  · exact .inl rfl
  · split
    · exact .inr ⟨_, rfl⟩
    · exact .inl rfl

/-- The value of an entry that is dropped is handed back. -/
theorem Accounted.forget (haccounted : h.Accounted s i) (s' : StoreId) (k : Key) :
    (h.forget s' k).Accounted s i := by
  have htrace : h.trace ⊆ (h.forget s' k).trace := by
    rcases h.trace_forget s' k with heq | ⟨j, heq⟩
    · rw [heq]
      exact List.Subset.refl _
    · rw [heq]
      exact List.subset_cons_self _ _
  intro hmem
  have hfilled : filled s i true ∈ h.trace := by
    rcases h.trace_forget s' k with heq | ⟨j, heq⟩
    · exact heq ▸ hmem
    · simpa [heq] using hmem
  rcases haccounted hfilled with hcleaned | hreleased | ⟨hfound, hcleanup⟩
  · exact .inl (htrace hcleaned)
  · exact .inr (.inl (htrace hreleased))
  · rcases found_forget hfound s' k with hstill | hslot
    · have hsame : (h.forget s' k).slot i = h.slot i := by
        rw [Heap.slot, slots_forget, Heap.slot]
      rw [cleanup?_of_slot_eq hsame]
      exact .inr (.inr ⟨hstill, hcleanup⟩)
    · have hvalue : (h.slot i).value?.isSome := by
        rw [Option.isSome_iff_ne_none]
        intro hnone
        rw [cleanup?_of_valueless hnone] at hcleanup
        cases hcleanup
      refine .inr (.inl ?_)
      simp [Heap.forget, releasing, hslot, hvalue, recorded]

theorem Accounted.addEntry (haccounted : h.Accounted s i) (hopen : h.isClosed s' = false)
    (hnone : (h.store s').slot? k = none) : (h.addEntry s' k .vacant).2.Accounted s i := by
  apply haccounted.of_owed
  · intro hmem
    exact (List.mem_cons.mp hmem).resolve_left StoreOccurrence.noConfusion
  · exact List.subset_cons_self _ _
  · intro hfound hcleanup
    refine ⟨hfound.addEntry hopen hnone, ?_⟩
    have hsame : (h.addEntry s' k .vacant).2.slot i = h.slot i := by
      rw [slot_addEntry]
      split
      · next hi => rw [slot_of_length_le (Nat.le_of_eq hi.symm)]
      · rfl
    rw [cleanup?_of_slot_eq hsame]
    exact hcleanup

theorem Accounts.reserve (hsound : h.Sound) (s' : StoreId) (k : Key) :
    Accounts s i h (h.reserve s' k).2 := by
  refine ⟨⟨hsound.reserve s' k, .reserve s' k⟩, ?_⟩
  intro haccounted
  rw [Heap.reserve]
  split
  · exact haccounted
  · next hopen =>
    split
    · exact haccounted
    · next hnone =>
      split
      · exact haccounted
      · exact haccounted.addEntry (Bool.eq_false_iff.mpr hopen) hnone

theorem Accounts.put (hsound : h.Sound) {stored : Stored C} {previous : Option Value}
    (hput : h.put s' k stored = .ok (previous, h')) : Accounts s i h h' := by
  refine ⟨⟨hsound.put hput, .put hput⟩, ?_⟩
  intro haccounted
  obtain ⟨hopen, -, rfl⟩ := of_put hput
  have hnone : ((h.forget s' k).store s').slot? k = none := by
    rw [store_forget, if_pos rfl, Store.slot?_erase, if_pos rfl]
  have hentry := (haccounted.forget s' k).addEntry hopen hnone
  have hsound₁ := (hsound.forget s' k).addEntry hopen k
  have hlength : (h.forget s' k).slots.length = h.slots.length := by rw [slots_forget]
  by_cases hi : h.slots.length = i
  · subst hi
    intro hmem
    have hvalue : (((h.forget s' k).addEntry s' k .vacant).2.slot h.slots.length).value? = none := by
      rw [slot_addEntry, if_pos hlength.symm]
      rfl
    have hentered : entered s' h.slots.length ∈ ((h.forget s' k).addEntry s' k .vacant).2.trace := by
      rw [← hlength]
      exact List.mem_cons_self
    obtain ⟨-, hcleanup⟩ := hsound₁.cleanup?_fill hentered hvalue hmem
    have hfound := found_addEntry hopen k
    rw [hlength] at hfound
    exact .inr (.inr ⟨hfound.of_store_eq fun _ => rfl, hcleanup⟩)
  · exact hentry.fill_of_ne hi s' stored

theorem Accounts.remove (hsound : h.Sound) {t : Ty} {taken : Option Value}
    (hremove : h.remove s' k t = .ok (taken, h')) : Accounts s i h h' := by
  refine ⟨⟨hsound.remove hremove, .remove hremove⟩, ?_⟩
  intro haccounted
  rcases of_remove hremove with ⟨-, rfl⟩ | ⟨-, rfl⟩
  · exact haccounted
  · exact haccounted.forget s' k

/-- A new store changes nothing about what other stores lead to. -/
theorem Accounted.addStore (haccounted : h.Accounted s i) (ancestors : List StoreId) :
    Heap.Accounted { h with stores := h.stores ++ [⟨ancestors, false, []⟩] } s i := by
  apply haccounted.of_owed
  · exact fun hmem => hmem
  · exact List.Subset.refl _
  · rintro ⟨s', k, hslot⟩ hcleanup
    refine ⟨⟨s', k, ?_⟩, hcleanup⟩
    rw [store_append, if_neg, hslot]
    rintro rfl
    have hbeyond : h.store h.stores.length = ⟨[], true, []⟩ := by
      rw [store, List.getElem?_eq_none (Nat.le_refl _)]
      rfl
    rw [hbeyond] at hslot
    cases hslot

end Accounts

end Heap

/-- An act that, with a sound heap to itself, leads from it to a sound heap and keeps the value in a slot of
a store accounted for, unless the slot is displaced on the way. -/
def Act.Accounting (s : StoreId) (i : SlotId) (act : Act H α) : Prop :=
  ∀ h, h.Sound → act.Unless (Heap.Displaced · s i) (fun _ => Heap.Accounts s i h) h

namespace Act

variable {s : StoreId} {i : SlotId}

theorem Accounting.andThen {act : Act H α} {rest : α → Act H β} (hact : act.Accounting s i)
    (hrest : ∀ a, (rest a).Accounting s i) : (act.andThen rest).Accounting s i := by
  intro h hsound
  apply (hact h hsound).andThen
  · intro a h₁ _ haccounts
    exact (hrest a h₁ haccounts.sound).mono fun _ _ _ hmore => haccounts.trans hmore
  · intro payload h₁ _ haccounts
    exact haccounts

theorem Accounting.attempt {act : Act H α} (hact : act.Accounting s i) :
    act.attempt.Accounting s i := by
  intro h hsound
  apply (hact h hsound).attempt.mono
  rintro outcome h₁ - ⟨inner, -, haccounts⟩
  exact haccounts

end Act

namespace Routine

variable {runner : Runner H} {h : Heap (Program H .done)} {s s' : StoreId} {i j : SlotId}
  {slots : List SlotId}

end Routine

/-- What is accounted for in a closed store was cleaned up or handed back. -/
theorem Heap.Accounted.settled {h : Heap C} {s : StoreId} {i : SlotId} (haccounted : h.Accounted s i)
    (hsound : h.Sound) (hfilled : filled s i true ∈ h.trace) (hclosed : closed s ∈ h.trace) :
    cleaned i ∈ h.trace ∨ released i ∈ h.trace := by
  rcases haccounted hfilled with hcleaned | hreleased | ⟨hfound, -⟩
  · exact .inl hcleaned
  · exact .inr hreleased
  · obtain ⟨s', k, hentry⟩ := hfound.attached
    have hstore : s' = s := hsound.consistent.store_unique (hsound.entered_of_mem hentry)
      (hsound.consistent.entered_of_filled hfilled)
    rw [hstore, hsound.emptied s ((hsound.closed_iff s).mp hclosed).2] at hentry
    exact absurd hentry List.not_mem_nil

end TimedInvocation
