import TimedInvocation.Proofs.Store.Soundness

/-!
# What operations leave alone

Between the sections of a computation or of closing a store, user code may perform any operations. They
leave alone what is being computed and what was taken out of the stores: a marked slot stays marked, and
a slot that no store has an entry for keeps its value and the cleanup action owed for it.
-/

namespace TimedInvocation

open StoreOccurrence

variable {C : Type}

namespace Heap

variable {h h₁ h' : Heap C} {s : StoreId} {i j : SlotId} {k : Key}

/-- Operations that lead from one heap to another respect what they found being computed and what they
found outside the stores. -/
structure Respects (h h' : Heap C) : Prop where
  slots : h.slots.length ≤ h'.slots.length
  trace : h.trace <:+ h'.trace
  computing : ∀ i, h.slot i = .computing → h'.slot i = .computing
  detached : ∀ i < h.slots.length, ¬ h.Attached i → ¬ h'.Attached i ∧ h'.slot i = h.slot i ∧
    (released i ∈ h'.trace → released i ∈ h.trace)

/-- Operations that begin in this heap may change the slot: a store has an entry for it or it is new, and
it is not being computed. -/
def Grants (h : Heap C) (i : SlotId) : Prop :=
  (i < h.slots.length → h.Attached i) ∧ h.slot i ≠ .computing

theorem grants_of_length_le (hi : h.slots.length ≤ i) : h.Grants i := by
  refine ⟨fun hlt => absurd hlt (Nat.not_lt_of_le hi), ?_⟩
  rw [slot_of_length_le hi]
  intro hmarked
  cases hmarked

namespace Respects

theorem refl (h : Heap C) : h.Respects h :=
  ⟨Nat.le_refl _, List.suffix_refl _, fun _ hmarked => hmarked,
    fun _ _ hfree => ⟨hfree, rfl, fun hreleased => hreleased⟩⟩

theorem trans (hfirst : h.Respects h₁) (hrest : h₁.Respects h') : h.Respects h' where
  slots := Nat.le_trans hfirst.slots hrest.slots
  trace := hfirst.trace.trans hrest.trace
  computing i hmarked := hrest.computing i (hfirst.computing i hmarked)
  detached i hi hfree := by
    obtain ⟨hfree₁, hslot₁, hreleased₁⟩ := hfirst.detached i hi hfree
    obtain ⟨hfree', hslot', hreleased'⟩ :=
      hrest.detached i (Nat.lt_of_lt_of_le hi hfirst.slots) hfree₁
    exact ⟨hfree', hslot'.trans hslot₁, fun hreleased => hreleased₁ (hreleased' hreleased)⟩

theorem mem_trace (hrespects : h.Respects h') {o : StoreOccurrence} (ho : o ∈ h.trace) :
    o ∈ h'.trace :=
  hrespects.trace.subset ho

/-- A slot may be changed if that was granted in the beginning. -/
theorem setSlot (hrespects : h.Respects h') (hgrants : h.Grants i) (slot : Slot C) :
    h.Respects (h'.setSlot i slot) where
  slots := by
    rw [length_slots_setSlot]
    exact hrespects.slots
  trace := hrespects.trace
  computing j hmarked := by
    have hj : j ≠ i := fun heq => hgrants.2 (heq ▸ hmarked)
    rw [slot_setSlot_of_ne slot hj]
    exact hrespects.computing j hmarked
  detached j hj hfree := by
    have hne : j ≠ i := fun heq => hfree (heq ▸ hgrants.1 (heq ▸ hj))
    rw [slot_setSlot_of_ne slot hne]
    exact hrespects.detached j hj hfree

/-- Anything may be recorded but that a value outside the stores is handed back. -/
theorem recorded (hrespects : h.Respects h') {o : StoreOccurrence}
    (hquiet : ∀ i < h.slots.length, ¬ h.Attached i → o ≠ released i) :
    h.Respects (h'.recorded o) where
  slots := hrespects.slots
  trace := hrespects.trace.trans (List.suffix_cons _ _)
  computing := hrespects.computing
  detached i hi hfree := by
    obtain ⟨hfree', hslot, hreleased⟩ := hrespects.detached i hi hfree
    refine ⟨hfree', hslot, fun hmem => ?_⟩
    rcases List.mem_cons.mp hmem with heq | hearlier
    · exact absurd heq.symm (hquiet i hi hfree)
    · exact hreleased hearlier

theorem claim (hrespects : h.Respects h') (hgrants : h.Grants i) (s : StoreId) :
    h.Respects (h'.claim s i).2 := by
  rw [Heap.claim]
  split
  · exact hrespects
  · exact (hrespects.setSlot hgrants _).recorded fun _ _ _ => StoreOccurrence.noConfusion

theorem vacate (hrespects : h.Respects h') (hgrants : h.Grants i) : h.Respects (h'.vacate i) :=
  hrespects.setSlot hgrants _

theorem fill (hrespects : h.Respects h') (hgrants : h.Grants i) (s : StoreId) (stored : Stored C) :
    h.Respects (h'.fill s i stored) :=
  (hrespects.setSlot hgrants _).recorded fun _ _ _ => StoreOccurrence.noConfusion

/-- A cleanup action that is owed for a slot of a store, or for a new one, may be taken. -/
theorem takeCleanup (hrespects : h.Respects h') (hattached : i < h.slots.length → h.Attached i) :
    h.Respects (h'.takeCleanup i).2 := by
  rw [Heap.takeCleanup]
  split
  · next v c hslot =>
    have hgrants : h.Grants i := by
      refine ⟨hattached, fun hmarked => ?_⟩
      rw [hrespects.computing i hmarked] at hslot
      cases hslot
    exact (hrespects.setSlot hgrants _).recorded fun _ _ _ => StoreOccurrence.noConfusion
  · exact hrespects

theorem addStore (ancestors : List StoreId) :
    h.Respects { h with stores := h.stores ++ [⟨ancestors, false, []⟩] } where
  slots := Nat.le_refl _
  trace := List.suffix_refl _
  computing _ hmarked := hmarked
  detached i _ hfree := by
    refine ⟨fun hattached => hfree ?_, rfl, fun hreleased => hreleased⟩
    obtain ⟨s, k, hentry⟩ := hattached
    rw [store_append] at hentry
    split at hentry
    · exact absurd hentry List.not_mem_nil
    · exact ⟨s, k, hentry⟩

theorem addEntry (hopen : h.isClosed s = false) (k : Key) : h.Respects (h.addEntry s k .vacant).2 where
  slots := by simp [Heap.addEntry, Heap.recorded]
  trace := List.suffix_cons _ _
  computing i hmarked := by
    rw [slot_addEntry]
    split
    · next hi =>
      rw [slot_of_length_le (Nat.le_of_eq hi.symm)] at hmarked
      cases hmarked
    · exact hmarked
  detached i hi hfree := by
    refine ⟨fun hattached => ?_, ?_, fun hreleased => ?_⟩
    · rcases attached_of_addEntry hopen hattached with heq | hattached
      · exact absurd hi (Nat.not_lt_of_le (Nat.le_of_eq heq.symm))
      · exact hfree hattached
    · rw [slot_addEntry, if_neg (Nat.ne_of_lt hi)]
    · cases hreleased with
      | tail _ hearlier => exact hearlier

theorem reserve (s : StoreId) (k : Key) : h.Respects (h.reserve s k).2 := by
  rw [Heap.reserve]
  split
  · exact .refl h
  · next hopen =>
    split
    · exact .refl h
    · split
      · exact .refl h
      · exact .addEntry (Bool.eq_false_iff.mpr hopen) k

theorem erase (s : StoreId) (k : Key) :
    h.Respects (h.modifyStore s fun store => store.erase k) where
  slots := Nat.le_refl _
  trace := List.suffix_refl _
  computing _ hmarked := hmarked
  detached _ _ hfree :=
    ⟨fun hattached => hfree (attached_of_erase hattached), rfl, fun hreleased => hreleased⟩

theorem forget (s : StoreId) (k : Key) : h.Respects (h.forget s k) := by
  rw [Heap.forget, releasing]
  split
  · exact .erase s k
  · next i hslot =>
    split
    · apply (erase s k).recorded
      rintro j - hfree ⟨⟩
      exact hfree ⟨s, k, Store.mem_of_slot? hslot⟩
    · exact .erase s k

theorem put {stored : Stored C} {previous : Option Value}
    (hput : h.put s k stored = .ok (previous, h')) : h.Respects h' := by
  obtain ⟨hopen, -, rfl⟩ := of_put hput
  exact ((forget s k).trans (.addEntry hopen k)).fill (grants_of_length_le (Nat.le_refl _)) _ _

theorem remove {t : Ty} {taken : Option Value} (hremove : h.remove s k t = .ok (taken, h')) :
    h.Respects h' := by
  rcases of_remove hremove with ⟨-, rfl⟩ | ⟨-, rfl⟩
  · exact .refl h'
  · exact .forget s k

theorem beginClose {entries : List (Key × SlotId)}
    (hclose : h.beginClose s = some (entries, h')) : h.Respects h' := by
  have hattached {i : SlotId} : h'.Attached i → h.Attached i := attached_of_beginClose hclose
  obtain ⟨-, -, rfl⟩ := of_beginClose hclose
  refine ⟨Nat.le_refl _, List.suffix_cons _ _, fun _ hmarked => hmarked, ?_⟩
  intro i _ hfree
  refine ⟨fun hstill => hfree (hattached hstill), rfl, ?_⟩
  intro hreleased
  cases hreleased with
  | tail _ hearlier => exact hearlier

end Respects

end Heap

end TimedInvocation
