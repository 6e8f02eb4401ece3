import Mathlib.Data.List.Basic
import TimedInvocation.Store.Heap

/-!
# The history of a heap

The trace of a heap is its history. A history is consistent if a slot is entered once, if it is filled
at most once and only after it was entered, if its value is handed back or cleaned up only after it was
filled, and never both, and if it is cleaned up only after its store was closed.
-/

namespace TimedInvocation

open StoreOccurrence

variable {C : Type}

namespace StoreOccurrence

/-- Every occurrence of a history, newest first, follows from those before it. -/
def Consistent : List StoreOccurrence → Prop
  | [] => True
  | entered _ i :: earlier => (∀ s j, entered s j ∈ earlier → j < i) ∧ Consistent earlier
  | filled s i _ :: earlier =>
      entered s i ∈ earlier ∧ (∀ s' owed, filled s' i owed ∉ earlier) ∧ Consistent earlier
  | released i :: earlier =>
      (∃ s owed, filled s i owed ∈ earlier) ∧ cleaned i ∉ earlier ∧ Consistent earlier
  | cleaned i :: earlier =>
      (∃ s, filled s i true ∈ earlier ∧ closed s ∈ earlier) ∧ cleaned i ∉ earlier ∧
        released i ∉ earlier ∧ Consistent earlier
  | factory _ _ :: earlier | closed _ :: earlier => Consistent earlier

variable {o : StoreOccurrence} {earlier trace : List StoreOccurrence} {s s' : StoreId} {i : SlotId}

theorem Consistent.tail (htrace : Consistent (o :: earlier)) : Consistent earlier := by
  cases o with
  | entered s i => exact htrace.2
  | factory s i => exact htrace
  | filled s i owed => exact htrace.2.2
  | released i => exact htrace.2.2
  | closed s => exact htrace
  | cleaned i => exact htrace.2.2.2

theorem Consistent.of_append {later : List StoreOccurrence}
    (htrace : Consistent (later ++ earlier)) : Consistent earlier := by
  induction later with
  | nil => exact htrace
  | cons o later ih => exact ih htrace.tail

/-- A slot that is filled was entered into the same store. -/
theorem Consistent.entered_of_filled (htrace : Consistent trace) {owed : Bool}
    (hfilled : filled s i owed ∈ trace) : entered s i ∈ trace := by
  induction trace with
  | nil => cases hfilled
  | cons o earlier ih =>
      rcases List.mem_cons.mp hfilled with rfl | hfilled
      · exact List.mem_cons_of_mem _ htrace.1
      · exact List.mem_cons_of_mem _ (ih htrace.tail hfilled)

/-- A slot is entered into one store only. -/
theorem Consistent.store_unique (htrace : Consistent trace) (hs : entered s i ∈ trace)
    (hs' : entered s' i ∈ trace) : s = s' := by
  induction trace with
  | nil => cases hs
  | cons o earlier ih =>
      rcases List.mem_cons.mp hs with rfl | hearlier
      · rcases List.mem_cons.mp hs' with hsame | hearlier'
        · cases hsame
          rfl
        · exact absurd (htrace.1 s' i hearlier') (Nat.lt_irrefl i)
      · rcases List.mem_cons.mp hs' with rfl | hearlier'
        · exact absurd (htrace.1 s i hearlier) (Nat.lt_irrefl i)
        · exact ih htrace.tail hearlier hearlier'

/-- A value that is handed back was filled in before. -/
theorem Consistent.filled_of_released (htrace : Consistent trace) (hreleased : released i ∈ trace) :
    ∃ s owed, filled s i owed ∈ trace := by
  induction trace with
  | nil => cases hreleased
  | cons o earlier ih =>
      rcases List.mem_cons.mp hreleased with rfl | hreleased
      · obtain ⟨s, owed, hfilled⟩ := htrace.1
        exact ⟨s, owed, List.mem_cons_of_mem _ hfilled⟩
      · obtain ⟨s, owed, hfilled⟩ := ih htrace.tail hreleased
        exact ⟨s, owed, List.mem_cons_of_mem _ hfilled⟩

/-- A value that is cleaned up was filled in before, with a cleanup action, and its store was
closed. -/
theorem Consistent.filled_of_cleaned (htrace : Consistent trace) (hcleaned : cleaned i ∈ trace) :
    ∃ s, filled s i true ∈ trace ∧ closed s ∈ trace := by
  induction trace with
  | nil => cases hcleaned
  | cons o earlier ih =>
      rcases List.mem_cons.mp hcleaned with rfl | hcleaned
      · obtain ⟨s, hfilled, hclosed⟩ := htrace.1
        exact ⟨s, List.mem_cons_of_mem _ hfilled, List.mem_cons_of_mem _ hclosed⟩
      · obtain ⟨s, hfilled, hclosed⟩ := ih htrace.tail hcleaned
        exact ⟨s, List.mem_cons_of_mem _ hfilled, List.mem_cons_of_mem _ hclosed⟩

/-- A value is cleaned up once. -/
theorem Consistent.count_cleaned_le_one (htrace : Consistent trace) (i : SlotId) :
    trace.count (cleaned i) ≤ 1 := by
  induction trace with
  | nil => exact Nat.zero_le 1
  | cons o earlier ih =>
      by_cases ho : o = cleaned i
      · subst ho
        have hfresh : earlier.count (cleaned i) = 0 := List.count_eq_zero_of_not_mem htrace.2.1
        apply Nat.le_of_eq
        rw [List.count_cons_self, hfresh]
      · rw [List.count_cons_of_ne ho]
        exact ih htrace.tail

/-- A value that is handed back is not cleaned up, neither before nor after. -/
theorem Consistent.not_cleaned_of_released (htrace : Consistent trace)
    (hreleased : released i ∈ trace) : cleaned i ∉ trace := by
  induction trace with
  | nil => cases hreleased
  | cons o earlier ih =>
      intro hcleaned
      rcases List.mem_cons.mp hreleased with rfl | hreleased'
      · cases hcleaned with
        | tail _ hcleaned' => exact htrace.2.1 hcleaned'
      · rcases List.mem_cons.mp hcleaned with rfl | hcleaned'
        · exact htrace.2.2.1 hreleased'
        · exact ih htrace.tail hreleased' hcleaned'

/-- The slots that a store got, in the order in which they were entered. -/
def enteredSlots (s : StoreId) : List StoreOccurrence → List SlotId
  | [] => []
  | entered s' i :: earlier =>
      if s' = s then enteredSlots s earlier ++ [i] else enteredSlots s earlier
  | _ :: earlier => enteredSlots s earlier

theorem mem_enteredSlots : i ∈ enteredSlots s trace ↔ entered s i ∈ trace := by
  induction trace with
  | nil => simp [enteredSlots]
  | cons o earlier ih =>
      cases o with
      | entered s' j =>
          by_cases hs : s' = s
          · subst hs
            simp [enteredSlots, ih, or_comm]
          · simp [enteredSlots, ih, hs, Ne.symm hs]
      | _ => simp [enteredSlots, ih]

theorem Consistent.pairwise_enteredSlots (htrace : Consistent trace) (s : StoreId) :
    (enteredSlots s trace).Pairwise (· < ·) := by
  induction trace with
  | nil => exact .nil
  | cons o earlier ih =>
      cases o with
      | entered s' j =>
          by_cases hs : s' = s
          · simp only [enteredSlots, hs, ↓reduceIte]
            apply List.pairwise_append.mpr
            refine ⟨ih htrace.tail, List.pairwise_singleton _ _, ?_⟩
            intro i hi j' hj'
            rw [List.mem_singleton.mp hj']
            exact htrace.1 s i (mem_enteredSlots.mp hi)
          · simp only [enteredSlots, hs, ↓reduceIte]
            exact ih htrace.tail
      | _ => exact ih htrace.tail

end StoreOccurrence

namespace Heap

/-- What a step adds to the history of a heap, newest first. -/
def since (h h' : Heap C) : List StoreOccurrence :=
  h'.trace.take (h'.trace.length - h.trace.length)

@[simp]
theorem since_self (h : Heap C) : h.since h = [] := by
  simp [since]

variable {h h' : Heap C}

theorem since_of_trace_eq (htrace : h'.trace = h.trace) : h.since h' = [] := by
  simp [since, htrace]

theorem since_of_trace_cons {o : StoreOccurrence} (htrace : h'.trace = o :: h.trace) :
    h.since h' = [o] := by
  simp [since, htrace]

theorem since_of_trace_append {added : List StoreOccurrence}
    (htrace : h'.trace = added ++ h.trace) : h.since h' = added := by
  simp [since, htrace]

end Heap

end TimedInvocation
