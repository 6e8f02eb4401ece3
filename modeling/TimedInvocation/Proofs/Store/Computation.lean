import TimedInvocation.Proofs.Store.Sequential
import TimedInvocation.Proofs.Store.Soundness

/-!
# Computations that have the heap to themselves

A computation is refused by a closed store, finds a value, or runs its factory and stores what that
returns. Which of these happens is decided by what the heap looks like in the beginning, as long as
nobody else touches the heap.
-/

namespace TimedInvocation

open Relation World

variable {H : Host} {C : Type}

namespace Heap

variable {h h' : Heap C} {s : StoreId} {k : Key}

/-- All that the first section of a computation can do. -/
inductive Reservation (h : Heap C) (s : StoreId) (k : Key) : Admission → Heap C → Prop where
  | refused (hclosed : h.isClosed s = true) : Reservation h s k .refused h
  | present {i : SlotId} (hopen : h.isClosed s = false) (hslot : (h.store s).slot? k = some i) :
      Reservation h s k (.slot i) h
  | inherited {v : Value} (hopen : h.isClosed s = false) (hslot : (h.store s).slot? k = none)
      (hvalue : h.inherited? s k = some v) : Reservation h s k (.inherited v) h
  | made (hopen : h.isClosed s = false) (hslot : (h.store s).slot? k = none)
      (hvalue : h.inherited? s k = none) :
      Reservation h s k (.slot h.slots.length) (h.addEntry s k .vacant).2

theorem reservation (h : Heap C) (s : StoreId) (k : Key) :
    Reservation h s k (h.reserve s k).1 (h.reserve s k).2 := by
  cases hclosed : h.isClosed s with
  | true =>
      rw [reserve, if_pos hclosed]
      exact .refused hclosed
  | false =>
      rw [reserve, if_neg (Bool.eq_false_iff.mp hclosed)]
      cases hslot : (h.store s).slot? k with
      | some i => exact .present hclosed hslot
      | none =>
          cases hvalue : h.inherited? s k with
          | some v => exact .inherited hclosed hslot hvalue
          | none => exact .made hclosed hslot hvalue

namespace Reservation

variable {i : SlotId} {v : Value}

/-- A slot that has a value already is the one of the store's own entry. -/
theorem found (hslot : Reservation h s k (.slot i) h') (hvalue : (h'.slot i).value? = some v) :
    h.isClosed s = false ∧ h.localValue? s k = some v ∧ h' = h := by
  cases hslot with
  | present hopen hslot =>
      refine ⟨hopen, ?_, rfl⟩
      rw [localValue?, hslot]
      exact hvalue
  | made hopen hslot hnone =>
      rw [slot_addEntry, if_pos rfl] at hvalue
      cases hvalue

/-- The slot that a computation gets is that of the store's entry for the key. -/
theorem entry (hslot : Reservation h s k (.slot i) h') :
    h'.isClosed s = false ∧ (h'.store s).slot? k = some i := by
  cases hslot with
  | present hopen hslot => exact ⟨hopen, hslot⟩
  | made hopen hslot hnone =>
      rw [isClosed, store_addEntry hopen, if_pos rfl, Store.slot?_insert, if_pos rfl]
      exact ⟨hopen, rfl⟩

/-- A slot without a value is that of an entry without one, or no store on the way up holds a value. -/
theorem unheld (hslot : Reservation h s k (.slot i) h') (hvalue : (h'.slot i).value? = none) :
    h.isClosed s = false ∧ h.localValue? s k = none ∧
      ((h.store s).slot? k = none → h.inherited? s k = none) := by
  cases hslot with
  | present hopen hslot =>
      refine ⟨hopen, ?_, ?_⟩
      · rw [localValue?, hslot]
        exact hvalue
      · intro hnone
        rw [hslot] at hnone
        cases hnone
  | made hopen hslot hnone =>
      refine ⟨hopen, ?_, fun _ => hnone⟩
      rw [localValue?, hslot]
      rfl

theorem of_refused (hrefused : Reservation h s k .refused h') : h.isClosed s = true ∧ h' = h := by
  cases hrefused with
  | refused hclosed => exact ⟨hclosed, rfl⟩

theorem of_inherited (hinherited : Reservation h s k (.inherited v) h') :
    h.isClosed s = false ∧
      ((h.store s).slot? k = none ∧ h.inherited? s k = some v) ∧ h' = h := by
  cases hinherited with
  | inherited hopen hslot hvalue => exact ⟨hopen, ⟨hslot, hvalue⟩, rfl⟩

end Reservation

end Heap

/-- What a computation of a key does, with the marks that it leaves and the way in which it ends. -/
inductive Computation (runner : Runner H) (s : StoreId) (k : Key) {t : Ty}
    (factory : Program H (.datum t)) (cleanup : Option (Value → Program H .done)) (w : World H) :
    List (Mark H) → Outcome (Except StoreError Value) → World H → Prop where
  | refused {w' : World H} (hclosed : w.heap.isClosed s = true) (hheap : w'.heap = w.heap) :
      Computation runner s k factory cleanup w [] (.returned (.error (.closed k))) w'
  | found {v : Value} {w' : World H} (hopen : w.heap.isClosed s = false)
      (hvalue : w.heap.localValue? s k = some v ∨
        (w.heap.store s).slot? k = none ∧ w.heap.inherited? s k = some v)
      (hheap : w'.heap = w.heap) :
      Computation runner s k factory cleanup w [] (.returned (Heap.cast k t v)) w'
  | panicked {i : SlotId} {h₁ : Heap (Program H .done)} {c : Call H (.datum t)} {payload : Panic}
      {w' : World H} (hslot : Heap.Reservation w.heap s k (.slot i) h₁)
      (hvalue : (h₁.slot i).value? = none) (hprogram : c.program = factory)
      (hstart : c.start.heap = (h₁.claim s i).2)
      (hcall : (runner c.program).Ends SameHeap c.start c.outcome c.finish)
      (houtcome : c.outcome = .panicked payload) (hheap : w'.heap = c.finish.heap.vacate i) :
      Computation runner s k factory cleanup w [.called c] (.panicked payload) w'
  | computed {i : SlotId} {h₁ : Heap (Program H .done)} {c : Call H (.datum t)} {datum : DatumOf t}
      {v : Value} {filled w' : World H} {marks : List (Mark H)}
      {outcome : Outcome (Except StoreError Value)}
      (hslot : Heap.Reservation w.heap s k (.slot i) h₁) (hvalue : (h₁.slot i).value? = none)
      (hprogram : c.program = factory) (hstart : c.start.heap = (h₁.claim s i).2)
      (hcall : (runner c.program).Ends SameHeap c.start c.outcome c.finish)
      (houtcome : c.outcome = .returned datum) (hdatum : v.datum = datum.val)
      (hheap : filled.heap = c.finish.heap.fill s i ⟨v, cleanup.map fun f => f v⟩)
      (huse : (Routine.useSlot s k t i v).Runs SameHeap @runner filled marks outcome w') :
      Computation runner s k factory cleanup w (.called c :: marks) outcome w'

namespace Routine

variable {runner : Runner H} {w w' : World H} {s : StoreId} {i : SlotId} {k : Key} {t : Ty}
  {factory : Program H (.datum t)} {cleanup : Option (Value → Program H .done)}
  {marks : List (Mark H)}

/-- The value found in a slot is the answer if the store is open. -/
theorem runs_useSlot_of_open {v : Value} {outcome : Outcome (Except StoreError Value)}
    (hopen : w.heap.isClosed s = false)
    (hruns : (useSlot s k t i v).Runs SameHeap @runner w marks outcome w') :
    marks = [] ∧ outcome = .returned (Heap.cast k t v) ∧ w'.heap = w.heap := by
  obtain ⟨w₁, hwait, hrest⟩ := runs_view_bind hruns
  have hheap : w₁.heap = w.heap := heap_eq_of_waiting hwait
  rw [hheap, hopen] at hrest
  obtain ⟨rfl, rfl, hafter⟩ := runs_pure_iff.mp hrest
  exact ⟨rfl, rfl, (heap_eq_of_waiting hafter).trans hheap⟩

/-- Making sure that a slot has a value finds one there by the time nobody else is computing it, or
runs the factory. -/
theorem runs_fillSlot_among {others : World H → World H → Prop} {outcome : Outcome Value}
    (hruns : (fillSlot s i (run factory) cleanup).Runs others @runner w marks outcome w') :
    ∃ w₁, ReflTransGen others w w₁ ∧
      ((∃ v, (w₁.heap.slot i).value? = some v ∧ marks = [] ∧ outcome = .returned v ∧
          ReflTransGen others w₁ w') ∨
        ∃ (c : Call H (.datum t)) (w₂ : World H), (w₁.heap.slot i).value? = none ∧
          c.program = factory ∧ marks = [.called c] ∧
          ReflTransGen others (w₁.claim s i).2 c.start ∧
          (runner c.program).Ends others c.start c.outcome c.finish ∧
          ReflTransGen others c.finish w₂ ∧
          ((∃ payload, c.outcome = .panicked payload ∧ outcome = .panicked payload ∧
              ReflTransGen others (w₂.vacate i) w') ∨
            ∃ datum, c.outcome = .returned datum ∧
              outcome = .returned (w₂.fill s i datum.val cleanup).1 ∧
              ReflTransGen others (w₂.fill s i datum.val cleanup).2 w')) := by
  obtain ⟨w₁, later, hwait, -, rfl, hclaimed⟩ := runs_updateAfter_bind hruns
  have hquiet : w₁.noted (w₁.claim s i).2 = [] := World.noted_of_trace_eq rfl
  rw [hquiet, List.nil_append]
  refine ⟨w₁, hwait, ?_⟩
  cases hvalue : (w₁.heap.slot i).value? with
  | some v =>
      have hfound : w₁.claim s i = (some v, w₁) := by
        rw [World.claim, Heap.claim, hvalue]
      rw [hfound] at hclaimed
      obtain ⟨rfl, rfl, hafter⟩ := runs_pure_iff.mp hclaimed
      exact .inl ⟨v, rfl, rfl, rfl, hafter⟩
  | none =>
      have hmarked : (w₁.claim s i).1 = none := by
        rw [World.claim, Heap.claim, hvalue]
      rw [hmarked] at hclaimed
      rcases runs_bind_iff.mp hclaimed with
        ⟨ending, w₂, first, second, hfirst, hsecond, rfl⟩ | ⟨payload, hfirst, -⟩
      · obtain ⟨ending', hending, hcall⟩ := runs_attempt_iff.mp hfirst
        cases hending
        obtain ⟨c, rfl, hbefore, hends, hafter, rfl, rfl⟩ := runs_run_iff.mp hcall
        cases houtcome : c.outcome with
        | panicked payload =>
            rw [houtcome] at hsecond
            obtain ⟨w₃, hwait₃, hpanic⟩ := runs_silent_change_bind hsecond fun _ => rfl
            obtain ⟨rfl, rfl, hlast⟩ := runs_ended_iff.mp hpanic
            exact .inr ⟨c, w₃, rfl, rfl, rfl, hbefore, hends, hafter.trans hwait₃,
              .inl ⟨payload, houtcome, rfl, hlast⟩⟩
        | returned datum =>
            rw [houtcome] at hsecond
            obtain ⟨w₃, hwait₃, rfl, rfl, hlast⟩ := runs_update_iff.mp hsecond
            have hfilled : w₃.noted (w₃.fill s i datum.val cleanup).2 = [] :=
              World.noted_of_trace_eq rfl
            exact .inr ⟨c, w₃, rfl, rfl, by rw [hfilled]; rfl, hbefore, hends,
              hafter.trans hwait₃, .inr ⟨datum, houtcome, rfl, hlast⟩⟩
      · obtain ⟨ending, hending, -⟩ := runs_attempt_iff.mp hfirst
        cases hending

/-- As long as nobody else touches the heap, the slot decides whether the factory runs. -/
theorem runs_fillSlot {outcome : Outcome Value}
    (hruns : (fillSlot s i (run factory) cleanup).Runs SameHeap @runner w marks outcome w') :
    (∃ v, (w.heap.slot i).value? = some v ∧ marks = [] ∧ outcome = .returned v ∧
        w'.heap = w.heap) ∨
      ∃ c : Call H (.datum t), (w.heap.slot i).value? = none ∧ c.program = factory ∧
        c.start.heap = (w.heap.claim s i).2 ∧
        (runner c.program).Ends SameHeap c.start c.outcome c.finish ∧ marks = [.called c] ∧
        ((∃ payload, c.outcome = .panicked payload ∧ outcome = .panicked payload ∧
            w'.heap = c.finish.heap.vacate i) ∨
          ∃ datum v, c.outcome = .returned datum ∧ outcome = .returned v ∧ v.datum = datum.val ∧
            w'.heap = c.finish.heap.fill s i ⟨v, cleanup.map fun f => f v⟩) := by
  obtain ⟨w₁, hwait, hending⟩ := runs_fillSlot_among hruns
  rw [← heap_eq_of_waiting hwait]
  rcases hending with
    ⟨v, hvalue, hmarks, houtcome, hafter⟩ |
    ⟨c, w₂, hvalue, hprogram, hmarks, hbefore, hends, hafter, hcalled⟩
  · exact .inl ⟨v, hvalue, hmarks, houtcome, heap_eq_of_waiting hafter⟩
  · have hstart : c.start.heap = (w₁.heap.claim s i).2 := heap_eq_of_waiting hbefore
    refine .inr ⟨c, hvalue, hprogram, hstart, hends, hmarks, ?_⟩
    rw [← heap_eq_of_waiting hafter]
    rcases hcalled with ⟨payload, hpanicked, houtcome, hlast⟩ | ⟨datum, hreturned, houtcome, hlast⟩
    · exact .inl ⟨payload, hpanicked, houtcome, heap_eq_of_waiting hlast⟩
    · exact .inr ⟨datum, _, hreturned, houtcome, rfl, heap_eq_of_waiting hlast⟩

/-- What a computation does that was given a slot. -/
theorem runs_computeSlot {w₁ : World H} {outcome : Outcome (Except StoreError Value)}
    (hslot : Heap.Reservation w.heap s k (.slot i) w₁.heap)
    (hruns : (fillSlot s i (run factory) cleanup >>= useSlot s k t i).Runs SameHeap @runner w₁
      marks outcome w') : Computation @runner s k factory cleanup w marks outcome w' := by
  rcases runs_bind_iff.mp hruns with
    ⟨v, w₂, first, second, hfilled, hused, rfl⟩ | ⟨payload, hfilled, rfl⟩
  · rcases runs_fillSlot hfilled with
      ⟨v', hvalue, rfl, hreturned, hheap₂⟩ | ⟨c, hvalue, rfl, hstart, hends, rfl, hending⟩
    · cases hreturned
      obtain ⟨hopen, hlocal, hsame⟩ := hslot.found hvalue
      have hheap : w₂.heap = w.heap := hheap₂.trans hsame
      have hopen₂ : w₂.heap.isClosed s = false := by
        rw [hheap]
        exact hopen
      obtain ⟨rfl, rfl, hheap'⟩ := runs_useSlot_of_open hopen₂ hused
      exact .found hopen (.inl hlocal) (hheap'.trans hheap)
    · rcases hending with
        ⟨payload, -, hpanicked, -⟩ | ⟨datum, v', houtcome, hreturned, hdatum, hheap₂⟩
      · cases hpanicked
      · cases hreturned
        exact .computed hslot hvalue rfl hstart hends houtcome hdatum hheap₂ hused
  · rcases runs_fillSlot hfilled with
      ⟨v', -, -, hreturned, -⟩ | ⟨c, hvalue, rfl, hstart, hends, rfl, hending⟩
    · cases hreturned
    · rcases hending with ⟨payload', houtcome, hpanicked, hheap'⟩ | ⟨datum, v', -, hreturned, -⟩
      · cases hpanicked
        exact .panicked hslot hvalue rfl hstart hends houtcome hheap'
      · cases hreturned

/-- All that a computation can do. -/
theorem runs_compute {outcome : Outcome (Except StoreError Value)}
    (hruns : (compute s k t (run factory) cleanup).Runs SameHeap @runner w marks outcome w') :
    Computation @runner s k factory cleanup w marks outcome w' := by
  obtain ⟨w₁, hwait, hrest⟩ := runs_silent_update_bind hruns fun _ => rfl
  have hheap : w₁.heap = w.heap := heap_eq_of_waiting hwait
  have hreservation : Heap.Reservation w.heap s k (w₁.reserve s k).1 (w₁.reserve s k).2.heap := by
    rw [← hheap]
    exact w₁.heap.reservation s k
  generalize (w₁.reserve s k).1 = admission at hrest hreservation
  generalize (w₁.reserve s k).2 = w₂ at hrest hreservation
  cases admission with
  | slot i => exact runs_computeSlot hreservation hrest
  | refused =>
      obtain ⟨rfl, rfl, hafter⟩ := runs_pure_iff.mp hrest
      obtain ⟨hclosed, hsame⟩ := hreservation.of_refused
      exact .refused hclosed ((heap_eq_of_waiting hafter).trans hsame)
  | inherited v =>
      obtain ⟨rfl, rfl, hafter⟩ := runs_pure_iff.mp hrest
      obtain ⟨hopen, hvalue, hsame⟩ := hreservation.of_inherited
      exact .found hopen (.inr hvalue) ((heap_eq_of_waiting hafter).trans hsame)

end Routine

end TimedInvocation
