import TimedInvocation.Proofs.Store.Ancestry
import TimedInvocation.Proofs.Store.Closing

/-!
# Computations and lookups

A computation runs its factory if a lookup of the same key finds nothing, and gives the answer of the
lookup otherwise. There is one exception. An entry that a factory has left without a value by a panic
hides the values that ancestors get for the key from then on: a lookup goes past the entry, but a
computation stops there and runs its factory.
-/

namespace TimedInvocation

open Relation World

variable {H : Host} {C : Type}

namespace Heap

variable {h h' : Heap C} {s : StoreId} {i : SlotId} {k : Key} {t : Ty} {v : Value}

/-- An open store has an entry for the key that holds no value, while an ancestor holds one. -/
structure Eclipsed (h : Heap C) (s : StoreId) (k : Key) : Prop where
  isOpen : h.isClosed s = false
  entry : (h.store s).slot? k ≠ none
  valueless : h.localValue? s k = none
  inherited : h.inherited? s k ≠ none

theorem lookup?_of_localValue? (hvalue : h.localValue? s k = some v) : h.lookup? s k = some v := by
  rw [lookup?, nearest?, List.findSome?_cons, hvalue]

theorem lookup?_of_valueless (hvalue : h.localValue? s k = none) :
    h.lookup? s k = h.inherited? s k := by
  rw [lookup?, nearest?, List.findSome?_cons, hvalue]
  rfl

theorem get_of_closed (hclosed : h.isClosed s = true) : h.get s k t = .error (.closed k) := by
  rw [get, if_pos hclosed]

theorem get_of_lookup? (hopen : h.isClosed s = false) (hvalue : h.lookup? s k = some v) :
    h.get s k t = (cast k t v).map some := by
  rw [get, if_neg (Bool.eq_false_iff.mp hopen), hvalue]

theorem get_of_nothing (hopen : h.isClosed s = false) (hvalue : h.lookup? s k = none) :
    h.get s k t = .ok none := by
  rw [get, if_neg (Bool.eq_false_iff.mp hopen), hvalue]

theorem get_ne_nothing (hopen : h.isClosed s = false) (hvalue : h.lookup? s k = some v) :
    h.get s k t ≠ .ok none := by
  rw [get_of_lookup? hopen hvalue]
  cases cast k t v with
  | error e => exact fun herror => nomatch herror
  | ok v' => exact fun hok => nomatch hok

/-- A computation that gets a slot without a value does so because a lookup finds nothing, or because
the value of an ancestor is hidden. -/
theorem Reservation.nothing_or_eclipsed (hslot : Reservation h s k (.slot i) h')
    (hvalue : (h'.slot i).value? = none) (t : Ty) : h.get s k t = .ok none ∨ h.Eclipsed s k := by
  obtain ⟨hopen, hlocal, hmade⟩ := hslot.unheld hvalue
  have hlookup : h.lookup? s k = h.inherited? s k := lookup?_of_valueless hlocal
  by_cases hinherited : h.inherited? s k = none
  · exact .inl (get_of_nothing hopen (hlookup.trans hinherited))
  · exact .inr ⟨hopen, mt hmade hinherited, hlocal, hinherited⟩

theorem Reservation.wellFormed (hslot : Reservation h s k (.slot i) h') (hwf : h.WellFormed) :
    h'.WellFormed := by
  cases hslot with
  | present => exact hwf
  | made hopen => exact hwf.addEntry hopen k .vacant

/-- A computation that finds a value finds the one that a lookup finds. -/
theorem lookup?_of_found (hvalue : h.localValue? s k = some v ∨
    (h.store s).slot? k = none ∧ h.inherited? s k = some v) :
    h.lookup? s k = some v ∧ ¬ h.Eclipsed s k := by
  rcases hvalue with hlocal | ⟨hslot, hinherited⟩
  · refine ⟨lookup?_of_localValue? hlocal, ?_⟩
    intro heclipsed
    rw [heclipsed.valueless] at hlocal
    cases hlocal
  · have hlocal : h.localValue? s k = none := by
      rw [localValue?, hslot]
      rfl
    exact ⟨(lookup?_of_valueless hlocal).trans hinherited, fun heclipsed => heclipsed.entry hslot⟩

theorem cast_of_ty (hty : v.ty = t) : cast k t v = .ok v := by
  rw [cast, Value.downcast, if_pos hty]

/-- A value that is filled into the slot of a store's entry is the one that the store holds. -/
theorem localValue?_fill {stored : Stored C} (hi : i < h.slots.length)
    (hslot : (h.store s).slot? k = some i) :
    (h.fill s i stored).localValue? s k = some stored.value := by
  have hstore : (h.fill s i stored).store s = h.store s := rfl
  rw [localValue?, hstore, hslot, fill]
  simp [slot_setSlot hi, Slot.value?]

theorem isSettled_reserve (hsettled : ∀ i, h.isSettled i = true) (i : SlotId) :
    (h.reserve s k).2.isSettled i = true := by
  have hreservation := h.reservation s k
  generalize (h.reserve s k).1 = admission at hreservation
  generalize (h.reserve s k).2 = h' at hreservation
  cases hreservation with
  | refused | present | inherited => exact hsettled i
  | made =>
      rw [isSettled, slot_addEntry]
      split
      · next hslot =>
        split at hslot
        · cases hslot
        · have hsettled' := hsettled i
          rw [isSettled, hslot] at hsettled'
          exact hsettled'
      · rfl
      · rfl

end Heap

namespace Routine

variable {runner : Runner H} {w w' : World H} {s : StoreId} {i : SlotId} {k : Key} {t : Ty}
  {factory : Program H (.datum t)} {cleanup : Option (Value → Program H .done)} {v : Value}

theorem canGoOn_useSlot (others : World H → World H → Prop) (s : StoreId) (k : Key) (t : Ty)
    (i : SlotId) (v : Value) : (useSlot s k t i v : Routine H _).CanGoOn others := by
  apply canGoOn_update_bind (f := fun w => (w.heap.isClosed s, w))
  intro w
  cases w.heap.isClosed s with
  | false => trivial
  | true =>
      apply (canGoOn_cleanSlot others k i).bind
      intro error
      cases error with
      | none => trivial
      | some error => exact canGoOn_update_bind (f := fun w => ((), w.logged _)) fun _ => trivial

/-- A computation gets to its end if no slot is being computed when it begins, unless it calls user code
that does not end. -/
theorem runs_or_hangs_compute (hsettled : ∀ i, w.heap.isSettled i = true) :
    (∃ marks outcome w', (compute s k t (run factory) cleanup).Runs SameHeap @runner w marks outcome w')
      ∨ (compute s k t (run factory) cleanup).Hangs SameHeap @runner w := by
  have hsettled' : ∀ i, (w.reserve s k).2.heap.isSettled i = true := Heap.isSettled_reserve hsettled
  apply runs_or_hangs_update_bind
  generalize (w.reserve s k).1 = admission
  generalize (w.reserve s k).2 = w₁ at hsettled'
  cases admission with
  | refused => exact .inl ⟨_, _, _, runs_pure_iff.mpr ⟨rfl, rfl, .refl⟩⟩
  | inherited v => exact .inl ⟨_, _, _, runs_pure_iff.mpr ⟨rfl, rfl, .refl⟩⟩
  | slot i =>
      apply runs_or_hangs_step
      · simp [Pause.isOver, hsettled']
      · apply CanGoOn.runs_or_hangs
        refine CanGoOn.bind ?_ (canGoOn_useSlot SameHeap s k t i)
        simp only [pure, Routine.andThen]
        cases (w₁.claim s i).1 with
        | some v => trivial
        | none =>
            intro outcome
            cases outcome with
            | panicked payload =>
                exact canGoOn_update_bind (f := fun w => ((), w.vacate i)) fun _ => trivial
            | returned datum => exact canGoOn_update_bind fun _ => trivial

/-- A computation that finds an answer calls no user code, so it does not hang. -/
theorem not_hangs_compute (hget : w.heap.get s k t ≠ .ok none) (hseen : ¬ w.heap.Eclipsed s k) :
    ¬ (compute s k t (run factory) cleanup).Hangs SameHeap @runner w := by
  intro hhangs
  obtain ⟨w₁, hwait, -, hrest⟩ := hangs_updateAfter_bind hhangs
  have hheap : w₁.heap = w.heap := heap_eq_of_waiting hwait
  have hreservation : Heap.Reservation w.heap s k (w₁.reserve s k).1 (w₁.reserve s k).2.heap := by
    rw [← hheap]
    exact w₁.heap.reservation s k
  generalize (w₁.reserve s k).1 = admission at hrest hreservation
  generalize (w₁.reserve s k).2 = w₂ at hrest hreservation
  cases admission with
  | refused => exact not_hangs_ended hrest
  | inherited v => exact not_hangs_ended hrest
  | slot i =>
      cases hvalue : (w₂.heap.slot i).value? with
      | none => exact (hreservation.nothing_or_eclipsed hvalue t).elim hget hseen
      | some v =>
          obtain ⟨hopen, -, hsame⟩ := hreservation.found hvalue
          cases hrest with
          | @step _ _ _ _ w₃ hwait₃ _ hclaimed =>
              have hheap₃ : w₃.heap = w₂.heap := heap_eq_of_waiting hwait₃
              simp only [pure, Routine.andThen, World.claim, Heap.claim, hheap₃, hvalue] at hclaimed
              cases hclaimed with
              | @step _ _ _ _ w₄ hwait₄ _ hused =>
                  have hheap₄ := heap_eq_of_waiting hwait₄
                  simp only [pure, Routine.andThen, hheap₄, hsame, hopen] at hused
                  exact not_hangs_ended hused

end Routine

/-- How a computation agrees with a lookup of the same key in the world in which both begin. It runs its
factory if the lookup finds nothing, or if it finds what an ancestor holds behind an entry without a
value. What a factory returns that leaves the stores alone is held by this very store from then on. In
all other cases the answers are the same, and the computation leaves the stores alone. -/
structure World.Agreement (w : World H) (runner : Runner H) (s : StoreId) (k : Key) {t : Ty}
    (factory : Program H (.datum t)) (cleanup : Option (Value → Program H .done)) : Prop where
  ends : (∃ marks outcome w',
      (Routine.compute s k t (.run factory) cleanup).Runs SameHeap @runner w marks outcome w') ∨
    (Routine.compute s k t (.run factory) cleanup).Hangs SameHeap @runner w
  computed : w.heap.get s k t = .ok none ∨ w.heap.Eclipsed s k → ∀ marks outcome w',
    (Routine.compute s k t (.run factory) cleanup).Runs SameHeap @runner w marks outcome w' →
      ∃ (c : Call H (.datum t)) (rest : List (Mark H)), marks = .called c :: rest ∧
        c.program = factory ∧
        ∀ datum, c.outcome = .returned datum → c.finish.heap = c.start.heap →
          ∃ v : Value, v.datum = datum.val ∧ rest = [] ∧ outcome = .returned (.ok v) ∧
            w'.heap.localValue? s k = some v ∧ w'.heap.get s k t = .ok (some v)
  found : w.heap.get s k t ≠ .ok none → ¬ w.heap.Eclipsed s k →
    ¬ (Routine.compute s k t (.run factory) cleanup).Hangs SameHeap @runner w ∧
      ∀ marks outcome w',
        (Routine.compute s k t (.run factory) cleanup).Runs SameHeap @runner w marks outcome w' →
          marks = [] ∧ w'.heap = w.heap ∧ ∃ answer : Except StoreError Value,
            outcome = .returned answer ∧ answer.map some = w.heap.get s k t

namespace Computation

variable {runner : Runner H} {w w' : World H} {s : StoreId} {k : Key} {t : Ty}
  {factory : Program H (.datum t)} {cleanup : Option (Value → Program H .done)}
  {marks : List (Mark H)} {outcome : Outcome (Except StoreError Value)}

/-- A computation that leaves no call behind has the answer of the lookup. -/
theorem answer_or_called (hcomputation :
    Computation @runner s k factory cleanup w marks outcome w') :
    (w.heap.get s k t ≠ .ok none ∧ ¬ w.heap.Eclipsed s k ∧ marks = [] ∧ w'.heap = w.heap ∧
        ∃ answer : Except StoreError Value, outcome = .returned answer ∧
          answer.map some = w.heap.get s k t) ∨
      (w.heap.get s k t = .ok none ∨ w.heap.Eclipsed s k) ∧
        ∃ (c : Call H (.datum t)) (rest : List (Mark H)), marks = .called c :: rest := by
  cases hcomputation with
  | refused hclosed hheap =>
      refine .inl ⟨?_, fun heclipsed => ?_, rfl, hheap, _, rfl, ?_⟩
      · rw [Heap.get_of_closed hclosed]
        exact fun herror => nomatch herror
      · rw [heclipsed.isOpen] at hclosed
        cases hclosed
      · rw [Heap.get_of_closed hclosed]
        rfl
  | found hopen hvalue hheap =>
      obtain ⟨hlookup, hseen⟩ := Heap.lookup?_of_found hvalue
      have hanswer := Heap.get_of_lookup? (t := t) hopen hlookup
      exact .inl ⟨Heap.get_ne_nothing hopen hlookup, hseen, rfl, hheap, _, rfl, hanswer.symm⟩
  | panicked hslot hvalue =>
      exact .inr ⟨hslot.nothing_or_eclipsed hvalue t, _, _, rfl⟩
  | computed hslot hvalue =>
      exact .inr ⟨hslot.nothing_or_eclipsed hvalue t, _, _, rfl⟩

/-- A factory that returns and leaves the stores alone has its value stored in this very store. -/
theorem stored (hwf : w.heap.WellFormed)
    (hcomputation : Computation @runner s k factory cleanup w marks outcome w')
    {c : Call H (.datum t)} {rest : List (Mark H)} (hmarks : marks = .called c :: rest) :
    c.program = factory ∧ ∀ datum, c.outcome = .returned datum → c.finish.heap = c.start.heap →
      ∃ v : Value, v.datum = datum.val ∧ rest = [] ∧ outcome = .returned (.ok v) ∧
        w'.heap.localValue? s k = some v ∧ w'.heap.get s k t = .ok (some v) := by
  cases hcomputation with
  | refused => cases hmarks
  | found => cases hmarks
  | panicked _ _ hprogram _ _ houtcome =>
      cases hmarks
      refine ⟨hprogram, fun datum hreturned => ?_⟩
      rw [houtcome] at hreturned
      cases hreturned
  | @computed i h₁ _ datum v filled _ _ _ hslot hvalue hprogram hstart hcall houtcome hdatum hheap huse =>
      cases hmarks
      refine ⟨hprogram, fun datum' hreturned hquiet => ?_⟩
      rw [houtcome] at hreturned
      cases hreturned
      have hfilled : filled.heap = (h₁.claim s i).2.fill s i ⟨v, cleanup.map fun f => f v⟩ := by
        rw [hheap, hquiet, hstart]
      obtain ⟨hopen, hentry⟩ := hslot.entry
      have hopen' : filled.heap.isClosed s = false := by
        rw [hfilled, Heap.isClosed]
        exact (congrArg Store.closed (Heap.store_claim s i s)).trans hopen
      obtain ⟨hrest, houtcome, hlast⟩ := Routine.runs_useSlot_of_open hopen' huse
      have hi : i < h₁.slots.length :=
        (hslot.wellFormed hwf).placed s k i (Store.mem_of_slot? hentry)
      have hlocal : w'.heap.localValue? s k = some v := by
        rw [hlast, hfilled]
        apply Heap.localValue?_fill
        · rw [Heap.length_slots_claim]
          exact hi
        · rw [Heap.store_claim]
          exact hentry
      have hty : v.ty = t := by
        rw [Value.ty, hdatum]
        exact datum.property
      have hcast : Heap.cast k t v = .ok v := Heap.cast_of_ty hty
      refine ⟨v, hdatum, hrest, ?_, hlocal, ?_⟩
      · rw [houtcome, hcast]
      · rw [← hlast] at hopen'
        rw [Heap.get_of_lookup? hopen' (Heap.lookup?_of_localValue? hlocal), hcast]
        rfl

end Computation

/-- A computation that has the stores to itself, and begins while no factory is running, agrees with a
lookup of the same key. -/
theorem compute_agrees_with_get {w : World H} (hw : w.Reachable)
    (hsettled : ∀ i, w.heap.isSettled i = true) (runner : Runner H) (s : StoreId) (k : Key) {t : Ty}
    (factory : Program H (.datum t)) (cleanup : Option (Value → Program H .done)) :
    w.Agreement @runner s k factory cleanup where
  ends := Routine.runs_or_hangs_compute hsettled
  computed hnothing marks outcome w' hruns := by
    have hcomputation := Routine.runs_compute hruns
    rcases hcomputation.answer_or_called with ⟨hget, hseen, -⟩ | ⟨-, c, rest, hmarks⟩
    · exact (hnothing.elim hget hseen).elim
    · exact ⟨c, rest, hmarks, hcomputation.stored hw.wellFormed hmarks⟩
  found hget hseen := by
    refine ⟨Routine.not_hangs_compute hget hseen, ?_⟩
    intro marks outcome w' hruns
    rcases (Routine.runs_compute hruns).answer_or_called with ⟨-, -, hanswer⟩ | ⟨hnothing, -⟩
    · exact hanswer
    · exact (hnothing.elim hget hseen).elim

/-- A factory panics in a child, and then the parent gets a value for the key. -/
def Program.eclipse : Program Host.bare .done :=
  .call (.newStore none) fun parent => .call (.newStore (some parent)) fun child =>
    .attempt (s := .done)
      (.compute child ⟨⟨["files"]⟩, "log"⟩ .unit (.panic .other) fun _ => .finish (.ok ())) fun _ =>
        .call (.put parent ⟨⟨["files"]⟩, "log"⟩ .unit) fun _ => .finish (.ok ())

theorem compute_agrees_with_get_eclipse :
    let w := ((Program.eclipse.exec 6 none).advance (World.initial ())).2
    let runner : Runner Host.bare := fun program => program.exec 1 none
    w.heap.Eclipsed 1 ⟨⟨["files"]⟩, "log"⟩ ∧
      w.Agreement @runner 1 ⟨⟨["files"]⟩, "log"⟩ (t := .unit) (.finish ⟨.unit, rfl⟩) none := by
  intro w runner
  refine ⟨⟨by decide, by decide, by decide, by decide⟩, ?_⟩
  have hreachable : w.Reachable := Program.reachable_advance 6 none Program.eclipse ()
  apply compute_agrees_with_get hreachable
  rintro (_ | _ | i)
  · rfl
  · rfl
  · rfl

/-- The child answers with a value of its own, although a lookup finds that of the parent. -/
theorem compute_disagrees_with_get :
    let w := ((Program.eclipse.exec 6 none).advance (World.initial ())).2
    let runner : Runner Host.bare := fun program => program.exec 1 none
    let factory : Program Host.bare (.datum .unit) := .finish ⟨.unit, rfl⟩
    let computing := Routine.compute 1 ⟨⟨["files"]⟩, "log"⟩ .unit (.run factory) none
    w.heap.get 1 ⟨⟨["files"]⟩, "log"⟩ .unit = .ok (some ⟨0, .unit⟩) ∧
      ∃ (c : Call Host.bare (.datum .unit)) (marks : List (Mark Host.bare)) (w' : World Host.bare),
        c.program = factory ∧ .called c ∈ marks ∧
          computing.Runs SameHeap @runner w marks (.returned (.ok ⟨1, .unit⟩)) w' := by
  intro w runner factory computing
  refine ⟨by decide, ?_⟩
  let c : Call Host.bare (.datum .unit) :=
    let start := ((w.reserve 1 ⟨⟨["files"]⟩, "log"⟩).2.claim 1 0).2
    ⟨factory, start, .returned ⟨.unit, rfl⟩, start⟩
  have hcall : (runner factory).Ends SameHeap c.start c.outcome c.finish := .ended .refl
  refine ⟨c, _, _, rfl, ?_, .step .refl rfl (.step .refl rfl (.call (c := c) .refl hcall
    (.step .refl rfl (.step .refl rfl (.ended .refl)))))⟩
  simp

end TimedInvocation
