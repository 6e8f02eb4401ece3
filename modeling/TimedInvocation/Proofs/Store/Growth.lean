import TimedInvocation.Proofs.Moves
import TimedInvocation.Proofs.Store.Computation

/-!
# What sections add to a heap

Nothing that can happen takes stores, slots or parts of the history away, or opens a store again. Nothing
but the section that takes a cleanup action changes what is owed for a value that is in a slot, unless
the value itself goes. So a cleanup action that is taken was given when the slot was filled.
-/

namespace TimedInvocation

open Relation StoreOccurrence

variable {H : Host} {C : Type}

namespace Heap

variable {h h₁ h' : Heap C} {s : StoreId} {i : SlotId} {k : Key}

/-- Slots, stores and the history only grow, and a closed store stays closed. -/
structure Extends (h h' : Heap C) : Prop where
  slots : h.slots.length ≤ h'.slots.length
  stores : h.stores.length ≤ h'.stores.length
  trace : h.trace <:+ h'.trace
  closed : ∀ s < h.stores.length, h.isClosed s = true → h'.isClosed s = true

namespace Extends

theorem refl (h : Heap C) : h.Extends h :=
  ⟨Nat.le_refl _, Nat.le_refl _, List.suffix_refl _, fun _ _ hclosed => hclosed⟩

theorem trans (hfirst : h.Extends h₁) (hrest : h₁.Extends h') : h.Extends h' where
  slots := Nat.le_trans hfirst.slots hrest.slots
  stores := Nat.le_trans hfirst.stores hrest.stores
  trace := hfirst.trace.trans hrest.trace
  closed s hs hclosed :=
    hrest.closed s (Nat.lt_of_lt_of_le hs hfirst.stores) (hfirst.closed s hs hclosed)

theorem setSlot (h : Heap C) (i : SlotId) (slot : Slot C) : h.Extends (h.setSlot i slot) where
  slots := Nat.le_of_eq (length_slots_setSlot slot).symm
  stores := Nat.le_refl _
  trace := List.suffix_refl _
  closed _ _ hclosed := hclosed

theorem recorded (h : Heap C) (o : StoreOccurrence) : h.Extends (h.recorded o) where
  slots := Nat.le_refl _
  stores := Nat.le_refl _
  trace := List.suffix_cons _ _
  closed _ _ hclosed := hclosed

theorem fill (s : StoreId) (i : SlotId) (stored : Stored C) : h.Extends (h.fill s i stored) :=
  (setSlot h i _).trans (recorded _ _)

theorem takeCleanup (i : SlotId) : h.Extends (h.takeCleanup i).2 := by
  rw [Heap.takeCleanup]
  split
  · exact (setSlot h i _).trans (recorded _ _)
  · exact refl h

/-- A store is changed but not opened. -/
theorem modifyStore {f : Store → Store} (hf : ∀ store, store.closed = true → (f store).closed = true) :
    h.Extends (h.modifyStore s f) where
  slots := Nat.le_refl _
  stores := Nat.le_of_eq (length_stores_modifyStore f).symm
  trace := List.suffix_refl _
  closed s' hs' hclosed := by
    by_cases hs : s < h.stores.length
    · rw [isClosed, store_modifyStore hs]
      split
      · next heq =>
        rw [heq] at hclosed
        exact hf _ hclosed
      · exact hclosed
    · have hsame : h.modifyStore s f = h := by
        rw [Heap.modifyStore, List.modify_eq_self (Nat.le_of_not_lt hs)]
      rw [hsame]
      exact hclosed

theorem addStore (ancestors : List StoreId) :
    h.Extends { h with stores := h.stores ++ [⟨ancestors, false, []⟩] } where
  slots := Nat.le_refl _
  stores := by simp
  trace := List.suffix_refl _
  closed s hs hclosed := by
    rw [isClosed, store_append, if_neg (Nat.ne_of_lt hs)]
    exact hclosed

theorem addEntry (s : StoreId) (k : Key) (slot : Slot C) : h.Extends (h.addEntry s k slot).2 := by
  have hmade : h.Extends { h with slots := h.slots ++ [slot] } :=
    ⟨by simp, Nat.le_refl _, List.suffix_refl _, fun _ _ hclosed => hclosed⟩
  have hinserted := modifyStore (h := { h with slots := h.slots ++ [slot] }) (s := s)
    (f := fun store => store.insert k h.slots.length) fun _ hclosed => hclosed
  exact (hmade.trans hinserted).trans (recorded _ _)

end Extends

/-- What is told of two stretches after each other is told of the whole. -/
theorem Extends.since_eq_append (hfirst : h.Extends h₁) (hrest : h₁.Extends h') :
    h.since h' = h₁.since h' ++ h.since h₁ := by
  obtain ⟨early, hearly⟩ := hfirst.trace
  obtain ⟨late, hlate⟩ := hrest.trace
  have hall : h'.trace = (late ++ early) ++ h.trace := by
    rw [← hlate, ← hearly, List.append_assoc]
  rw [since_of_trace_append hearly.symm, since_of_trace_append hlate.symm,
    since_of_trace_append hall]

theorem Extends.trace_eq (hextends : h.Extends h') : h'.trace = h.since h' ++ h.trace := by
  obtain ⟨added, hadded⟩ := hextends.trace
  rw [since_of_trace_append hadded.symm, hadded]

/-- From one heap to another no cleanup action is taken. Whatever is owed then was owed before, or is a gift
that came with the value of a slot that was filled, and no value is handed back but that of one slot. -/
structure NoneTaken (gift : Option C) (back : Option SlotId) (h h' : Heap C) : Prop
    extends h.Extends h' where
  untaken : ∀ i, cleaned i ∉ h.since h'
  given : ∀ i c, h'.cleanup? i = some c →
    h.cleanup? i = some c ∨ gift = some c ∧ ∃ s, filled s i true ∈ h.since h'
  handedBack : ∀ i, released i ∈ h.since h' → back = some i

namespace NoneTaken

variable {gift : Option C} {back : Option SlotId}

theorem refl (h : Heap C) : NoneTaken gift back h h :=
  ⟨.refl h, by simp, fun _ _ howed => .inl howed, by simp⟩

theorem trans (hfirst : NoneTaken none back h h₁) (hrest : NoneTaken gift none h₁ h') :
    NoneTaken gift back h h' where
  toExtends := hfirst.toExtends.trans hrest.toExtends
  untaken i := by
    rw [hfirst.since_eq_append hrest.toExtends, List.mem_append, not_or]
    exact ⟨hrest.untaken i, hfirst.untaken i⟩
  given i c howed := by
    rw [hfirst.since_eq_append hrest.toExtends]
    rcases hrest.given i c howed with hearlier | ⟨hgift, s, hfilled⟩
    · exact .inl ((hfirst.given i c hearlier).resolve_right fun ⟨hnone, _⟩ => nomatch hnone)
    · exact .inr ⟨hgift, s, List.mem_append_left _ hfilled⟩
  handedBack i hreleased := by
    rw [hfirst.since_eq_append hrest.toExtends] at hreleased
    rcases List.mem_append.mp hreleased with hlater | hearlier
    · cases hrest.handedBack i hlater
    · exact hfirst.handedBack i hearlier

/-- A change of stores and of slots that owe nothing. -/
theorem of_extends (hextends : h.Extends h') (htrace : h'.trace = h.trace)
    (howed : ∀ i c, h'.cleanup? i = some c → h.cleanup? i = some c) : NoneTaken gift back h h' where
  toExtends := hextends
  untaken i := by simp [since_of_trace_eq htrace]
  given i c hsome := .inl (howed i c hsome)
  handedBack i hreleased := by simp [since_of_trace_eq htrace] at hreleased

theorem recorded {o : StoreOccurrence} (htaken : ∀ i, o ≠ cleaned i)
    (hreleased : ∀ i, o = released i → back = some i) : NoneTaken gift back h (h.recorded o) where
  toExtends := .recorded h o
  untaken i := by
    rw [since_of_trace_cons rfl, List.mem_singleton]
    exact (htaken i).symm
  given _ _ howed := .inl howed
  handedBack i hmem := by
    rw [since_of_trace_cons rfl, List.mem_singleton] at hmem
    exact hreleased i hmem.symm

/-- A slot is marked, or left vacant. -/
theorem setSlot (h : Heap C) (i : SlotId) {slot : Slot C} (hbare : slot.value? = none) :
    NoneTaken gift back h (h.setSlot i slot) := by
  refine .of_extends (.setSlot h i slot) rfl fun j c howed => ?_
  by_cases hj : j = i
  · subst hj
    by_cases hlt : j < h.slots.length
    · rw [cleanup?, slot_setSlot hlt, if_pos rfl] at howed
      cases slot with
      | holding stored => cases hbare
      | vacant => cases howed
      | computing => cases howed
    · rwa [Heap.setSlot, List.set_eq_of_length_le (Nat.le_of_not_lt hlt)] at howed
  · rwa [cleanup?_of_slot_eq (slot_setSlot_of_ne slot hj)] at howed

theorem claim (s : StoreId) (i : SlotId) : NoneTaken gift back h (h.claim s i).2 := by
  rw [Heap.claim]
  split
  · exact refl h
  · exact (setSlot h i rfl).trans (recorded (by simp) (by simp))

theorem vacate (h : Heap C) (i : SlotId) : NoneTaken gift back h (h.vacate i) :=
  setSlot h i rfl

/-- A slot is filled, and the history tells whether a cleanup action was given. -/
theorem fill (s : StoreId) (i : SlotId) (stored : Stored C) :
    NoneTaken stored.cleanup back h (h.fill s i stored) := by
  have hsince : h.since (h.fill s i stored) = [filled s i stored.cleanup.isSome] :=
    since_of_trace_cons rfl
  refine ⟨.fill s i stored, fun _ => by simp [hsince], fun j c howed => ?_, by simp [hsince]⟩
  by_cases hj : j = i
  · subst hj
    by_cases hlt : j < h.slots.length
    · rw [Heap.fill, cleanup?, slot_recorded, slot_setSlot hlt, if_pos rfl] at howed
      have hgift : stored.cleanup = some c := howed
      exact .inr ⟨hgift, s, by simp [hsince, hgift]⟩
    · rw [cleanup?, slot_of_length_le (by simpa [Heap.fill, Heap.recorded] using hlt)] at howed
      cases howed
  · have hslot : (h.fill s i stored).slot j = h.slot j := slot_setSlot_of_ne _ hj
    rw [cleanup?_of_slot_eq hslot] at howed
    exact .inl howed

theorem modifyStore {f : Store → Store} (hf : ∀ store, store.closed = true → (f store).closed = true) :
    NoneTaken gift back h (h.modifyStore s f) :=
  .of_extends (.modifyStore hf) rfl fun _ _ howed => howed

theorem addStore (ancestors : List StoreId) :
    NoneTaken gift back h { h with stores := h.stores ++ [⟨ancestors, false, []⟩] } :=
  .of_extends (.addStore ancestors) rfl fun _ _ howed => howed

theorem addEntry (s : StoreId) (k : Key) : NoneTaken gift back h (h.addEntry s k .vacant).2 := by
  have hsince : h.since (h.addEntry s k .vacant).2 = [entered s h.slots.length] :=
    since_of_trace_cons rfl
  refine ⟨.addEntry s k .vacant, by simp [hsince], fun i c howed => .inl ?_, by simp [hsince]⟩
  · rw [cleanup?, slot_addEntry] at howed
    split at howed
    · next stored hslot =>
      split at hslot
      · cases hslot
      · rw [cleanup?, hslot]
        exact howed
    · cases howed
    · cases howed

theorem reservation {admission : Admission} (hreservation : Reservation h s k admission h') :
    NoneTaken gift back h h' := by
  cases hreservation with
  | refused | present | inherited => exact refl h
  | made => exact addEntry s k

/-- The value of an entry that is dropped is handed back. -/
theorem forget (s : StoreId) (k : Key) :
    NoneTaken gift (((h.store s).slot? k).filter fun i => (h.slot i).value?.isSome) h
      (h.forget s k) := by
  rw [Heap.forget, releasing]
  split
  · exact modifyStore fun _ hclosed => hclosed
  · next i hslot =>
    split
    · next hvalue =>
      have hback : (some i).filter (fun i => (h.slot i).value?.isSome) = some i := by simp [hvalue]
      rw [hslot, hback]
      refine trans (recorded (by simp) ?_) (modifyStore fun _ hclosed => hclosed)
      simp
    · exact modifyStore fun _ hclosed => hclosed

theorem put {stored : Stored C} {previous : Option Value}
    (hput : h.put s k stored = .ok (previous, h')) :
    NoneTaken stored.cleanup (((h.store s).slot? k).filter fun i => (h.slot i).value?.isSome) h h' := by
  obtain ⟨-, -, rfl⟩ := of_put hput
  exact ((forget s k).trans (addEntry s k)).trans (fill _ _ _)

theorem remove {t : Ty} {taken : Option Value} (hremove : h.remove s k t = .ok (taken, h')) :
    NoneTaken gift (((h.store s).slot? k).filter fun i => (h.slot i).value?.isSome) h h' := by
  rcases of_remove hremove with ⟨-, rfl⟩ | ⟨-, rfl⟩
  · exact refl h'
  · exact forget s k

theorem beginClose {entries : List (Key × SlotId)} (hclose : h.beginClose s = some (entries, h')) :
    NoneTaken gift back h h' := by
  obtain ⟨-, -, rfl⟩ := of_beginClose hclose
  exact (modifyStore fun _ _ => rfl).trans (recorded (by simp) (by simp))

end NoneTaken

end Heap

namespace World

variable {w w' : World H}

/-- The cleanup action that a section gives to a value, which it puts into a store or into the slot that it
was computed for. -/
inductive Gift (w w' : World H) : Option (Program H .done) → Prop where
  | nothing : Gift w w' none
  | put (s : StoreId) (k : Key) (datum : Datum) (f : Value → Program H .done)
      (hput : w' = (w.put s k datum (some f)).2) : Gift w w' (some (f ⟨w.values, datum⟩))
  | computed (s : StoreId) (i : SlotId) (datum : Datum) (f : Value → Program H .done)
      (hfill : w' = (w.fill s i datum (some f)).2) : Gift w w' (some (f ⟨w.values, datum⟩))

/-- The slot whose value a section hands back: a put gives the value that it replaces, a removal the value that
it takes out. -/
inductive Return (w w' : World H) : Option SlotId → Prop where
  | nothing : Return w w' none
  | put {s : StoreId} {k : Key} {datum : Datum} {cleanup : Option (Value → Program H .done)}
      {i : SlotId} {v : Value} (hput : w.put s k datum cleanup = (.ok (some v), w'))
      (hentry : (k, i) ∈ (w.heap.store s).entries) (hvalue : (w.heap.slot i).value? = some v) :
      Return w w' (some i)
  | removed {s : StoreId} {k : Key} {t : Ty} {i : SlotId} {v : Value}
      (hremove : w.remove s k t = (.ok (some v), w')) (hentry : (k, i) ∈ (w.heap.store s).entries)
      (hvalue : (w.heap.slot i).value? = some v) : Return w w' (some i)

/-- No cleanup action is taken, none comes to be owed but the one that is given, and no value is handed back
but the one that is returned. -/
def TakesNone (w w' : World H) : Prop :=
  ∃ gift back, w.Gift w' gift ∧ w.Return w' back ∧ Heap.NoneTaken gift back w.heap w'.heap

theorem TakesNone.of_noneTaken (hnone : Heap.NoneTaken none none w.heap w'.heap) : w.TakesNone w' :=
  ⟨none, none, .nothing, .nothing, hnone⟩

theorem TakesNone.of_heap_eq (hheap : w'.heap = w.heap) : w.TakesNone w' := by
  refine .of_noneTaken ?_
  rw [hheap]
  exact .refl _

/-- The entry whose value a put or a removal hands back, if there is one. -/
theorem held_cases (h : Heap C) (s : StoreId) (k : Key) :
    (((h.store s).slot? k).filter fun i => (h.slot i).value?.isSome) = none ∨
      ∃ i v, (((h.store s).slot? k).filter fun i => (h.slot i).value?.isSome) = some i ∧
        (k, i) ∈ (h.store s).entries ∧ (h.slot i).value? = some v ∧ h.localValue? s k = some v := by
  cases hslot : (h.store s).slot? k with
  | none => exact .inl rfl
  | some i =>
      cases hvalue : (h.slot i).value? with
      | none => exact .inl (by simp [hvalue])
      | some v =>
          refine .inr ⟨i, v, by simp [hvalue], Store.mem_of_slot? hslot, hvalue, ?_⟩
          rw [Heap.localValue?, hslot, Option.bind_some, hvalue]

theorem takesNone_put (w : World H) (s : StoreId) (k : Key) (datum : Datum)
    (cleanup : Option (Value → Program H .done)) : w.TakesNone (w.put s k datum cleanup).2 := by
  cases hput : w.heap.put s k ⟨⟨w.values, datum⟩, cleanup.map fun f => f ⟨w.values, datum⟩⟩ with
  | error e => exact .of_heap_eq (by simp [put, hput])
  | ok made =>
      obtain ⟨previous, h'⟩ := made
      have hnone := Heap.NoneTaken.put hput
      have hmade : w.put s k datum cleanup = (.ok previous, (w.put s k datum cleanup).2) := by
        simp [put, hput]
      have hheap : (w.put s k datum cleanup).2.heap = h' := by simp [put, hput]
      rw [← hheap] at hnone
      refine ⟨_, _, ?_, ?_, hnone⟩
      · cases cleanup with
        | none => exact .nothing
        | some f => exact .put s k datum f rfl
      · rcases held_cases w.heap s k with hback | ⟨i, v, hback, hentry, hvalue, hlocal⟩
        · rw [hback]
          exact .nothing
        · rw [hback]
          rw [(Heap.of_put hput).2.1, hlocal] at hmade
          exact .put hmade hentry hvalue

theorem takesNone_remove (w : World H) (s : StoreId) (k : Key) (t : Ty) :
    w.TakesNone (w.remove s k t).2 := by
  cases hremove : w.heap.remove s k t with
  | error e => exact .of_heap_eq (by simp [remove, hremove])
  | ok made =>
      obtain ⟨taken, h'⟩ := made
      have hmade : w.remove s k t = (.ok taken, (w.remove s k t).2) := by simp [remove, hremove]
      have hheap : (w.remove s k t).2.heap = h' := by simp [remove, hremove]
      rcases Heap.of_remove hremove with ⟨-, hsame⟩ | ⟨htaken, -⟩
      · exact .of_heap_eq (hheap.trans hsame)
      · have hnone : Heap.NoneTaken none _ w.heap h' := .remove hremove
        rw [← hheap] at hnone
        refine ⟨_, _, .nothing, ?_, hnone⟩
        rcases held_cases w.heap s k with hback | ⟨i, v, hback, hentry, hvalue, hlocal⟩
        · rw [hback]
          exact .nothing
        · rw [hback]
          rw [htaken, hlocal] at hmade
          exact .removed hmade hentry hvalue

theorem takesNone_fill (w : World H) (s : StoreId) (i : SlotId) (datum : Datum)
    (cleanup : Option (Value → Program H .done)) : w.TakesNone (w.fill s i datum cleanup).2 := by
  let stored : Stored (Program H .done) :=
    ⟨⟨w.values, datum⟩, cleanup.map fun f => f ⟨w.values, datum⟩⟩
  have hnone : Heap.NoneTaken stored.cleanup none w.heap (w.heap.fill s i stored) := .fill s i stored
  cases cleanup with
  | none => exact .of_noneTaken hnone
  | some f => exact ⟨_, none, .computed s i datum f rfl, .nothing, hnone⟩

theorem takesNone_newStore (w : World H) (parent : Option StoreId)
    (hheap : w'.heap = (w.newStore parent).2.heap) : w.TakesNone w' := by
  refine .of_noneTaken ?_
  rw [hheap]
  cases parent <;> exact .addStore _

/-- Plain moves take no cleanup action. -/
theorem Plain.takesNone (hplain : Plain w w') : w.TakesNone w' := by
  cases hplain with
  | storeMade _ parent => exact takesNone_newStore w parent rfl
  | put _ s k datum cleanup => exact takesNone_put w s k datum cleanup
  | removed _ s k t => exact takesNone_remove w s k t
  | scopeMade _ place displayName extensions =>
      cases place with
      | root uniqueId source => exact takesNone_newStore w none rfl
      | child parent segment =>
          simp only [World.newScope]
          split
          · exact .of_heap_eq rfl
          · next above _ => exact takesNone_newStore w (some above.store) rfl
  | consulted _ c default f =>
      simp only [World.consult]
      split <;> exact .of_heap_eq rfl
  | parameterRead _ s name =>
      simp only [World.parameter]
      split <;> exact .of_heap_eq rfl
  | _ => exact .of_heap_eq rfl

theorem TakesNone.extends (hnone : w.TakesNone w') : w.heap.Extends w'.heap := by
  obtain ⟨_, _, -, -, hnone⟩ := hnone
  exact hnone.toExtends

theorem takesNone_reserve (w : World H) (s : StoreId) (k : Key) : w.TakesNone (w.reserve s k).2 :=
  .of_noneTaken (.reservation (w.heap.reservation s k))

theorem takesNone_claim (w : World H) (s : StoreId) (i : SlotId) : w.TakesNone (w.claim s i).2 :=
  .of_noneTaken (.claim s i)

theorem takesNone_vacate (w : World H) (i : SlotId) : w.TakesNone (w.vacate i) :=
  .of_noneTaken (.vacate w.heap i)

theorem takesNone_beginClose (w : World H) (s : StoreId) : w.TakesNone (w.beginClose s).2 := by
  rw [World.beginClose]
  split
  · exact .of_heap_eq rfl
  · next hclose => exact .of_noneTaken (.beginClose hclose)

theorem Move.extends (hmove : Move w w') : w.heap.Extends w'.heap := by
  cases hmove with
  | plain hplain => exact hplain.takesNone.extends
  | reserved s k => exact (takesNone_reserve w s k).extends
  | claimed s i => exact (takesNone_claim w s i).extends
  | vacated i => exact (takesNone_vacate w i).extends
  | filled s i datum cleanup => exact (takesNone_fill w s i datum cleanup).extends
  | cleanupTaken i => exact .takeCleanup i
  | closeBegun s => exact (takesNone_beginClose w s).extends
  | delivered id result => exact .refl _
  | moved time =>
      rw [heap_moveTo]
      exact .refl _

theorem TakesNone.untaken (hnone : w.TakesNone w') (i : SlotId) :
    cleaned i ∉ w.heap.since w'.heap := by
  obtain ⟨_, _, -, -, hnone⟩ := hnone
  exact hnone.untaken i

/-- A move of which the history tells that it took the cleanup action of a slot did so. -/
theorem Move.eq_takeCleanup (hmove : Move w w') {i : SlotId}
    (hcleaned : cleaned i ∈ w.heap.since w'.heap) : w' = (w.takeCleanup i).2 := by
  cases hmove with
  | plain hplain => exact absurd hcleaned (hplain.takesNone.untaken i)
  | reserved s k => exact absurd hcleaned ((takesNone_reserve w s k).untaken i)
  | claimed s j => exact absurd hcleaned ((takesNone_claim w s j).untaken i)
  | vacated j => exact absurd hcleaned ((takesNone_vacate w j).untaken i)
  | filled s j datum cleanup => exact absurd hcleaned ((takesNone_fill w s j datum cleanup).untaken i)
  | closeBegun s => exact absurd hcleaned ((takesNone_beginClose w s).untaken i)
  | delivered id result => exact absurd hcleaned ((TakesNone.of_heap_eq rfl).untaken i)
  | moved time => exact absurd hcleaned ((TakesNone.of_heap_eq (heap_moveTo w time)).untaken i)
  | cleanupTaken j =>
      simp only [World.takeCleanup] at hcleaned
      cases howed : w.heap.cleanup? j with
      | none =>
          rw [Heap.takeCleanup_of_none howed] at hcleaned
          simp at hcleaned
      | some c =>
          rw [Heap.since_of_trace_cons (Heap.trace_takeCleanup howed), List.mem_singleton] at hcleaned
          rw [StoreOccurrence.cleaned.inj hcleaned]

/-- Whatever happens in the meantime, no store is opened again. -/
theorem Meanwhile.extends (hmoves : Meanwhile w w') : w.heap.Extends w'.heap := by
  induction hmoves with
  | refl => exact .refl _
  | tail _ hmove ih => exact ih.trans hmove.extends

end World

end TimedInvocation
