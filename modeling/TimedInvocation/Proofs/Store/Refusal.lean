import TimedInvocation.Proofs.Store.Agreement
import TimedInvocation.Proofs.Store.Contention
import TimedInvocation.Proofs.Store.Growth

/-!
# Closed stores and refused operations

Nothing that can happen opens a closed store again or gives it an entry, so from the moment at which a
store is closed every operation on one of its keys is refused, wherever it is issued. A computation that
was overtaken by the closing of its store is refused as well, after it has run the cleanup action of its
value, unless somebody else has taken that action before. An operation that is refused, or finds a value of
another type, without having run a factory leaves the stores exactly as they were, unless it was waiting
for a value when the store was closed: then it may have to clean that value up.
-/

namespace TimedInvocation

open Relation World StoreOccurrence

variable {H : Host} {C : Type}

namespace Heap

variable {h h₁ h' : Heap C} {s : StoreId} {k : Key}

section Errors

variable {t : Ty} {e : StoreError}

/-- A value fails to be used only because it is not of the type asked for. -/
theorem of_cast_error {v : Value} (herror : cast k t v = .error e) :
    v.ty ≠ t ∧ e = .typeMismatch k t v.ty := by
  rw [cast, Value.downcast] at herror
  by_cases hty : v.ty = t
  · rw [if_pos hty] at herror
    cases herror
  · rw [if_neg hty] at herror
    cases herror
    exact ⟨hty, rfl⟩

theorem of_map_cast_error {α : Type} {v : Value} {f : Value → α}
    (herror : (cast k t v).map f = .error e) : v.ty ≠ t ∧ e = .typeMismatch k t v.ty := by
  cases hcast : cast k t v with
  | error e' =>
      rw [hcast] at herror
      cases herror
      exact of_cast_error hcast
  | ok v' =>
      rw [hcast] at herror
      cases herror

theorem of_get_error (hopen : h.isClosed s = false) (herror : h.get s k t = .error e) :
    ∃ v, h.lookup? s k = some v ∧ v.ty ≠ t ∧ e = .typeMismatch k t v.ty := by
  cases hvalue : h.lookup? s k with
  | none =>
      rw [get_of_nothing hopen hvalue] at herror
      cases herror
  | some v =>
      rw [get_of_lookup? hopen hvalue] at herror
      exact ⟨v, rfl, of_map_cast_error herror⟩

theorem of_remove_error (hopen : h.isClosed s = false) (herror : h.remove s k t = .error e) :
    ∃ v, h.localValue? s k = some v ∧ v.ty ≠ t ∧ e = .typeMismatch k t v.ty := by
  rw [Heap.remove, if_neg (Bool.eq_false_iff.mp hopen)] at herror
  cases hvalue : h.localValue? s k with
  | none =>
      rw [hvalue] at herror
      cases herror
  | some v =>
      rw [hvalue] at herror
      exact ⟨v, rfl, of_map_cast_error herror⟩

end Errors

end Heap

namespace World

variable {w w' : World H}

theorem Meanwhile.wellFormed (hmoves : Meanwhile w w') (hwf : w.heap.WellFormed) :
    w'.heap.WellFormed := by
  induction hmoves with
  | refl => exact hwf
  | tail _ hmove ih => exact hmove.wellFormed ih

/-- An open store takes whatever is put into it. -/
theorem put_ne_error {s : StoreId} (hopen : w.heap.isClosed s = false) (k : Key) (datum : Datum)
    (cleanup : Option (Value → Program H .done)) (e : StoreError) :
    (w.put s k datum cleanup).1 ≠ .error e := by
  rw [World.put, Heap.put_eq hopen]
  rintro ⟨⟩

theorem of_remove_error {s : StoreId} {k : Key} {t : Ty} {e : StoreError}
    (herror : (w.remove s k t).1 = .error e) :
    (w.remove s k t).2 = w ∧ w.heap.remove s k t = .error e := by
  rw [World.remove] at herror ⊢
  split at herror
  · next hremove =>
    cases herror
    exact ⟨rfl, hremove⟩
  · cases herror

/-- Reserving a slot changes nothing in a world but the heap. -/
theorem reserve_eq_self {s : StoreId} {k : Key} (hheap : (w.reserve s k).2.heap = w.heap) :
    (w.reserve s k).2 = w := by
  change { w with heap := (w.reserve s k).2.heap } = w
  rw [hheap]

/-- A move after which every slot that had a value still has it, and owes the cleanup action that it owed
unless that has been taken. -/
def Mindful (w w' : World H) : Prop :=
  Move w w' ∧ ∀ i v cleanup, w.heap.slot i = .holding ⟨v, cleanup⟩ →
    w'.heap.slot i = .holding ⟨v, cleanup⟩ ∨
      (w'.heap.slot i = .holding ⟨v, none⟩ ∧ cleaned i ∈ w.heap.since w'.heap)

theorem meanwhile_of_mindful (hwait : ReflTransGen Mindful w w') : Meanwhile w w' :=
  ReflTransGen.mono (fun _ _ hmindful => hmindful.1) _ _ hwait

/-- On the way from one world to another, somebody takes the cleanup action that a slot owes. -/
def TakenBetween (w w' : World H) (i : SlotId) (c : Program H .done) : Prop :=
  ∃ u u', ReflTransGen Mindful w u ∧ Mindful u u' ∧ ReflTransGen Mindful u' w' ∧
    u.takeCleanup i = (some c, u')

/-- A cleanup action is owed for as long as nobody takes it. -/
theorem owed_or_taken (hwait : ReflTransGen Mindful w w') {i : SlotId} {v : Value} {c : Program H .done}
    (howed : w.heap.slot i = .holding ⟨v, some c⟩) :
    w'.heap.slot i = .holding ⟨v, some c⟩ ∨
      (w'.heap.slot i = .holding ⟨v, none⟩ ∧ w.TakenBetween w' i c) := by
  induction hwait with
  | refl => exact .inl howed
  | @tail u u' hearlier hmindful ih =>
      rcases ih with hstill | ⟨hgone, u₁, u₂, hbefore, hmove, hafter, htaken⟩
      · refine (hmindful.2 i v _ hstill).imp_right fun ⟨hgone, hcleaned⟩ => ?_
        obtain rfl := hmindful.1.eq_takeCleanup hcleaned
        have hc : u.heap.cleanup? i = some c := by rw [Heap.cleanup?, hstill]
        have htaken : u.takeCleanup i = (some c, (u.takeCleanup i).2) :=
          Prod.ext (Heap.takeCleanup_of_some hc) rfl
        exact ⟨hgone, u, _, hearlier, hmindful, .refl, htaken⟩
      · have hstill : u'.heap.slot i = .holding ⟨v, none⟩ :=
          (hmindful.2 i v none hgone).elim id And.left
        exact .inr ⟨hstill, u₁, u₂, hbefore, hmove, hafter.tail hmindful, htaken⟩

end World

theorem Act.Ends.mono {α : Type} {others others' : World H → World H → Prop} {act : Act H α}
    {w w' : World H} {outcome : Outcome α} (hothers : ∀ w w', others w w' → others' w w')
    (hends : act.Ends others w outcome w') : act.Ends others' w outcome w' := by
  induction hends with
  | ended hwait => exact .ended (ReflTransGen.mono hothers _ _ hwait)
  | step hwait hover _ ih => exact .step (ReflTransGen.mono hothers _ _ hwait) hover ih

namespace Routine

variable {others : World H → World H → Prop} {runner : Runner H} {w w' : World H} {s : StoreId}
  {i : SlotId} {k : Key} {t : Ty} {factory : Program H (.datum t)}
  {cleanup : Option (Value → Program H .done)} {marks : List (Mark H)}

/-- The value found in a slot is the answer unless the store is closed by then. In that case it is cleaned
up and not used. -/
theorem runs_useSlot {v : Value} {outcome : Outcome (Except StoreError Value)}
    (hruns : (useSlot s k t i v).Runs others @runner w marks outcome w') :
    ∃ w₁, ReflTransGen others w w₁ ∧
      ((w₁.heap.isClosed s = false ∧ marks = [] ∧ outcome = .returned (Heap.cast k t v) ∧
          ReflTransGen others w₁ w') ∨
        (w₁.heap.isClosed s = true ∧ outcome = .returned (.error (.closed k)) ∧
          ∃ ending w₂, (cleanSlot k i).Runs others @runner w₁ marks (.returned ending) w₂ ∧
            (ending = none → ReflTransGen others w₂ w'))) := by
  obtain ⟨w₁, hwait, hrest⟩ := runs_view_bind hruns
  refine ⟨w₁, hwait, ?_⟩
  cases hclosed : w₁.heap.isClosed s with
  | false =>
      rw [hclosed] at hrest
      obtain ⟨hmarks, houtcome, hafter⟩ := runs_pure_iff.mp hrest
      exact .inl ⟨rfl, hmarks, houtcome, hafter⟩
  | true =>
      rw [hclosed] at hrest
      rcases runs_bind_iff.mp hrest with
        ⟨ending, w₂, first, second, hfirst, hsecond, rfl⟩ | ⟨payload, hfirst, rfl⟩
      · have hend : second = [] ∧ outcome = .returned (.error (.closed k)) ∧
            (ending = none → ReflTransGen others w₂ w') := by
          cases ending with
          | none =>
              obtain ⟨rfl, rfl, hafter⟩ := runs_pure_iff.mp hsecond
              exact ⟨rfl, rfl, fun _ => hafter⟩
          | some e =>
              obtain ⟨w₃, -, hlast⟩ := runs_log_bind hsecond
              obtain ⟨rfl, rfl, -⟩ := runs_pure_iff.mp hlast
              exact ⟨rfl, rfl, nofun⟩
        rw [hend.1, List.append_nil]
        exact .inr ⟨rfl, hend.2.1, ending, w₂, hfirst, hend.2.2⟩
      · obtain ⟨w₂, -, ⟨-, -, hreturned, -⟩ | ⟨_, -, -, hreturned, -⟩⟩ :=
          runs_cleanSlot_among hfirst
        · cases hreturned
        · cases hreturned

/-- Using a slot calls nothing but a cleanup action. -/
theorem marks_of_useSlot {v : Value} {outcome : Outcome (Except StoreError Value)}
    (hruns : (useSlot s k t i v).Runs others @runner w marks outcome w') :
    marks = [] ∨ ∃ c : Call H .done, marks = [.called c] := by
  obtain ⟨w₁, -, ⟨-, hnone, -⟩ | ⟨-, -, ending, w₂, hcleaned, -⟩⟩ := runs_useSlot hruns
  · exact .inl hnone
  · obtain ⟨w₃, -, ⟨-, hnone, -⟩ | ⟨c, -, hcalled, -⟩⟩ := runs_cleanSlot_among hcleaned
    · exact .inl hnone
    · exact .inr ⟨c, hcalled⟩

/-- A computation that called its factory was given a slot; a datum that the factory returned is stored in
that slot, and then the closed flag decides. -/
theorem runs_compute_called {c : Call H (.datum t)} {rest : List (Mark H)}
    {outcome : Outcome (Except StoreError Value)}
    (hruns : (compute s k t (run factory) cleanup).Runs others @runner w (.called c :: rest) outcome w') :
    ∃ i w₁ w₂, ReflTransGen others w w₁ ∧
      Heap.Reservation w₁.heap s k (.slot i) (w₁.reserve s k).2.heap ∧
      ReflTransGen others (w₁.reserve s k).2 w₂ ∧ ReflTransGen others (w₂.claim s i).2 c.start ∧
      (runner c.program).Ends others c.start c.outcome c.finish ∧
      ∀ datum, c.outcome = .returned datum → ∃ w₃, ReflTransGen others c.finish w₃ ∧
        (useSlot s k t i (w₃.fill s i datum.val cleanup).1).Runs others @runner
          (w₃.fill s i datum.val cleanup).2 rest outcome w' := by
  obtain ⟨w₁, hwait, hrest⟩ := runs_silent_update_bind hruns fun _ => rfl
  have hreservation : Heap.Reservation w₁.heap s k (w₁.reserve s k).1 (w₁.reserve s k).2.heap :=
    w₁.heap.reservation s k
  generalize (w₁.reserve s k).1 = admission at hrest hreservation
  cases admission with
  | refused => cases (runs_pure_iff.mp hrest).1
  | inherited v => cases (runs_pure_iff.mp hrest).1
  | slot i =>
      rcases runs_bind_iff.mp hrest with
        ⟨v, w₂, first, second, hfilled, hused, hmarks⟩ | ⟨payload, hfilled, rfl⟩
      · obtain ⟨w₃, hbefore, ⟨-, -, rfl, -⟩ |
            ⟨c', w₄, -, -, rfl, hstart, hends, hafter, hcalled⟩⟩ :=
          runs_fillSlot_among hfilled
        · -- The marks are those of the use of a value found, which calls no factory.
          rw [List.nil_append] at hmarks
          subst hmarks
          rcases marks_of_useSlot hused with hnone | ⟨c', hcalled⟩
          · cases hnone
          · cases hcalled
        · cases hmarks
          refine ⟨i, w₁, w₃, hwait, hreservation, hbefore, hstart, hends, ?_⟩
          intro datum hreturned
          rcases hcalled with ⟨payload, hpanicked, -⟩ | ⟨datum', hreturned', hv, hlast⟩
          · rw [hreturned] at hpanicked
            cases hpanicked
          · rw [hreturned] at hreturned'
            cases hreturned'
            cases hv
            exact ⟨w₄, hafter, hused.wait hlast⟩
      · obtain ⟨w₃, hbefore, ⟨-, -, hnone, -⟩ |
            ⟨c', w₄, -, -, hmarks, hstart, hends, hafter, hcalled⟩⟩ :=
          runs_fillSlot_among hfilled
        · cases hnone
        · cases hmarks
          refine ⟨i, w₁, w₃, hwait, hreservation, hbefore, hstart, hends, ?_⟩
          intro datum hreturned
          rcases hcalled with ⟨payload', hpanicked, -⟩ | ⟨datum', -, hv, -⟩
          · rw [hreturned] at hpanicked
            cases hpanicked
          · cases hv

end Routine

section Overtaken

variable {others : World H → World H → Prop} {runner : Runner H} {w w' : World H} {s : StoreId}
  {k : Key} {t : Ty} {factory : Program H (.datum t)} {cleanup : Option (Value → Program H .done)}

theorem World.extends_of_waiting (hothers : ∀ w w', others w w' → w.heap.Extends w'.heap)
    (hwait : ReflTransGen others w w') : w.heap.Extends w'.heap := by
  induction hwait with
  | refl => exact .refl _
  | tail _ hother ih => exact ih.trans (hothers _ _ hother)

theorem Act.Moves.extends {α : Type} {act : Act H α} {outcome : Outcome α} (hact : act.Moves)
    (hothers : ∀ w w', others w w' → w.heap.Extends w'.heap)
    (hends : act.Ends others w outcome w') : w.heap.Extends w'.heap := by
  induction hends with
  | ended hwait => exact extends_of_waiting hothers hwait
  | step hwait hover _ ih =>
      have hstep := (extends_of_waiting hothers hwait).trans (hact.1 _ hover).extends
      exact hstep.trans (ih (hact.2 _))

/-- A computation whose factory returned when its store was closed is refused. It has stored the value in its
slot and cleans the slot, unless that owes nothing any more. -/
theorem Routine.runs_compute_overtaken (hothers : ∀ w w', others w w' → w.heap.Extends w'.heap)
    (hrunner : Runner.Moves @runner) (hwf : ∀ w₁, ReflTransGen others w w₁ → w₁.heap.WellFormed)
    {c : Call H (.datum t)} {rest : List (Mark H)} {outcome : Outcome (Except StoreError Value)}
    {datum : DatumOf t}
    (hruns : (compute s k t (run factory) cleanup).Runs others @runner w (.called c :: rest) outcome w')
    (hreturned : c.outcome = .returned datum) (hclosed : c.finish.heap.isClosed s = true) :
    outcome = .returned (.error (.closed k)) ∧ ∃ w₁ i v w₂ w₃, ReflTransGen others c.finish w₁ ∧
      w₁.fill s i datum.val cleanup = (v, w₂) ∧
      w₂.heap.slot i = .holding ⟨v, cleanup.map fun f => f v⟩ ∧ ReflTransGen others w₂ w₃ ∧
      ((w₃.heap.cleanup? i = none ∧ rest = [] ∧ ReflTransGen others w₃ w') ∨
        ∃ c' : Call H .done, w₃.heap.cleanup? i = some c'.program ∧ rest = [.called c']) := by
  obtain ⟨i, w₁, w₂, hwait, hslot, hbefore, hstart, hends, hstored⟩ := runs_compute_called hruns
  obtain ⟨w₃, hafter, hused⟩ := hstored datum hreturned
  -- The store and the slot exist when the value is stored, so that both remain what they are.
  have hcomputed : (w₁.reserve s k).2.heap.Extends c.finish.heap := by
    have hclaimed : w₂.heap.Extends (w₂.claim s i).2.heap := (takesNone_claim w₂ s i).extends
    have hstarted := (hclaimed.trans (extends_of_waiting hothers hstart))
    have hcalled := hstarted.trans ((hrunner c.program).extends hothers hends)
    exact (extends_of_waiting hothers hbefore).trans hcalled
  have hwaited := extends_of_waiting hothers hafter
  obtain ⟨hopen, hentry⟩ := hslot.entry
  have hs : s < c.finish.heap.stores.length :=
    Nat.lt_of_lt_of_le (Heap.lt_length_of_open hopen) hcomputed.stores
  have hi : i < w₃.heap.slots.length := by
    have hplaced := (hslot.wellFormed (hwf w₁ hwait)).placed s k i (Store.mem_of_slot? hentry)
    exact Nat.lt_of_lt_of_le hplaced (hcomputed.trans hwaited).slots
  let v := (w₃.fill s i datum.val cleanup).1
  have hheld : (w₃.fill s i datum.val cleanup).2.heap.slot i =
      .holding ⟨v, cleanup.map fun f => f v⟩ := by
    rw [World.fill, Heap.fill, Heap.slot_recorded, Heap.slot_setSlot hi, if_pos rfl]
    rfl
  have hshut (w₄ : World H) (hlater : ReflTransGen others (w₃.fill s i datum.val cleanup).2 w₄) :
      w₄.heap.isClosed s = true := by
    have hfilled : w₃.heap.Extends (w₃.fill s i datum.val cleanup).2.heap := .fill s i _
    exact ((hwaited.trans hfilled).trans (extends_of_waiting hothers hlater)).closed s hs hclosed
  obtain ⟨w₄, hlooked, ⟨hstillOpen, -⟩ | ⟨-, houtcome, ending, w₅, hcleaned, hended⟩⟩ :=
    runs_useSlot hused
  · rw [hshut w₄ hlooked] at hstillOpen
    cases hstillOpen
  obtain ⟨w₆, htaking, htaken⟩ := runs_cleanSlot_among hcleaned
  refine ⟨houtcome, w₃, i, v, _, w₆, hafter, rfl, hheld, hlooked.trans htaking, ?_⟩
  rcases htaken with ⟨hnone, hrest, hreturned, hwaiting⟩ | ⟨c', hprogram, hrest, -⟩
  · exact .inl ⟨hnone, hrest, hwaiting.trans (hended (Outcome.returned.inj hreturned))⟩
  · exact .inr ⟨c', hprogram, hrest⟩

end Overtaken

/-- An operation that asks a store for a key. -/
inductive Access (H : Host) where
  | get (t : Ty)
  | put (datum : Datum) (cleanup : Option (Value → Program H .done))
  | remove (t : Ty)
  | compute (t : Ty) (factory : Program H (.datum t)) (cleanup : Option (Value → Program H .done))

namespace Access

/-- What the operation gives unless it fails. -/
@[reducible] def Answer : Access H → Type
  | get _ | put _ _ | remove _ => Option Value
  | compute _ _ _ => Value

def routine (s : StoreId) (k : Key) :
    (access : Access H) → Routine H (Except StoreError access.Answer)
  | get t => .get s k t
  | put datum cleanup => .put s k datum cleanup
  | remove t => .remove s k t
  | compute t program cleanup => .compute s k t (.run program) cleanup

/-- The type that is asked for, and the value that the operation finds under the key. -/
def found? (h : Heap C) (s : StoreId) (k : Key) : Access H → Option (Ty × Value)
  | get t | compute t _ _ => (h.lookup? s k).map fun v => (t, v)
  | remove t => (h.localValue? s k).map fun v => (t, v)
  | put _ _ => none

end Access

/-- A factory was called. -/
def Mark.isFactory : Mark H → Bool
  | @called _ (.datum _) _ => true
  | called _ | noted _ => false

namespace Access

variable {runner : Runner H} {w w' : World H} {s : StoreId} {k : Key}

/-- Every operation begins with a section that changes nothing in a world in which the store is closed, and
ends there. -/
theorem begins_with_section (access : Access H) (s : StoreId) (k : Key) :
    ∃ change next, access.routine s k = .step .none change next ∧
      ∀ w : World H, w.heap.isClosed s = true →
        change w = w ∧ next w = .ended (.returned (.error (.closed k))) := by
  cases access with
  | get t =>
      refine ⟨_, _, rfl, fun w hclosed => ⟨rfl, ?_⟩⟩
      simp only [Heap.get_of_closed hclosed]
      rfl
  | put datum cleanup =>
      refine ⟨_, _, rfl, fun w hclosed => ?_⟩
      have hput : w.put s k datum cleanup = (.error (.closed k), w) := by
        rw [World.put, Heap.put, if_pos hclosed]
      simp only [hput]
      exact ⟨trivial, rfl⟩
  | remove t =>
      refine ⟨_, _, rfl, fun w hclosed => ?_⟩
      have hremove : w.remove s k t = (.error (.closed k), w) := by
        rw [World.remove, Heap.remove, if_pos hclosed]
      simp only [hremove]
      exact ⟨trivial, rfl⟩
  | compute t program cleanup =>
      refine ⟨_, _, rfl, fun w hclosed => ?_⟩
      have hreserve : w.reserve s k = (.refused, w) := by
        rw [World.reserve, Heap.reserve, if_pos hclosed]
      simp only [hreserve]
      exact ⟨trivial, rfl⟩

/-- A closed store refuses the operation at once. -/
theorem advance_of_closed (access : Access H) (hclosed : w.heap.isClosed s = true) :
    ((access.routine s k).play @runner).advance w =
      (.ended (.returned (.error (.closed k))), w) := by
  obtain ⟨change, next, hroutine, hrefused⟩ := access.begins_with_section s k
  obtain ⟨hchange, hnext⟩ := hrefused w hclosed
  have hover : Pause.none.isOver w = true := rfl
  rw [hroutine, Routine.play, Act.advance, if_pos hover, hnext, hchange]
  rfl

/-- A store that remains closed refuses the operation, whatever others do. -/
theorem runs_of_closed {others : World H → World H → Prop} {access : Access H}
    {marks : List (Mark H)} {outcome : Outcome (Except StoreError access.Answer)}
    (hclosed : ∀ w₁, ReflTransGen others w w₁ → w₁.heap.isClosed s = true)
    (hruns : (access.routine s k).Runs others @runner w marks outcome w') :
    marks = [] ∧ outcome = .returned (.error (.closed k)) ∧ ReflTransGen others w w' := by
  obtain ⟨change, next, hroutine, hrefused⟩ := access.begins_with_section s k
  rw [hroutine] at hruns
  cases hruns with
  | @step _ _ _ _ w₁ _ _ _ hwait _ hrest =>
      obtain ⟨hchange, hnext⟩ := hrefused w₁ (hclosed w₁ hwait)
      rw [hnext] at hrest
      obtain ⟨rfl, rfl, hafter⟩ := Routine.runs_ended_iff.mp hrest
      rw [hchange] at hafter ⊢
      exact ⟨by simp, rfl, hwait.trans hafter⟩

/-- All that an operation has done, among others, that has failed and has called no factory. -/
inductive Refused (others : World H → World H → Prop) (runner : Runner H) (s : StoreId) (k : Key)
    (w : World H) : Access H → List (Mark H) → StoreError → World H → Prop where
  | closed {access : Access H} {w₁ w' : World H} (hwait : ReflTransGen others w w₁)
      (hclosed : w₁.heap.isClosed s = true) (hafter : ReflTransGen others w₁ w') :
      Refused others runner s k w access [] (.closed k) w'
  | mismatched {access : Access H} {t : Ty} {v : Value} {w₁ w' : World H}
      (hwait : ReflTransGen others w w₁) (hopen : w₁.heap.isClosed s = false)
      (hfound : access.found? w₁.heap s k = some (t, v)) (hty : v.ty ≠ t)
      (hafter : ReflTransGen others w₁ w') :
      Refused others runner s k w access [] (.typeMismatch k t v.ty) w'
  /-- The value that somebody else has computed in the slot is of another type. -/
  | waited {t : Ty} {factory : Program H (.datum t)} {cleanup : Option (Value → Program H .done)}
      {i : SlotId} {v : Value} {w₁ w₂ w' : World H} (hwait : ReflTransGen others w w₁)
      (hslot : Heap.Reservation w₁.heap s k (.slot i) (w₁.reserve s k).2.heap)
      (hwaited : ReflTransGen others (w₁.reserve s k).2 w₂)
      (hvalue : (w₂.heap.slot i).value? = some v) (hty : v.ty ≠ t)
      (hafter : ReflTransGen others w₂ w') :
      Refused others runner s k w (.compute t factory cleanup) [] (.typeMismatch k t v.ty) w'
  /-- The store was closed before the value could be used, and its cleanup action is no longer owed. -/
  | late {t : Ty} {factory : Program H (.datum t)} {cleanup : Option (Value → Program H .done)}
      {i : SlotId} {v : Value} {w₁ w₂ w₃ w' : World H} (hwait : ReflTransGen others w w₁)
      (hslot : Heap.Reservation w₁.heap s k (.slot i) (w₁.reserve s k).2.heap)
      (hwaited : ReflTransGen others (w₁.reserve s k).2 w₂)
      (hvalue : (w₂.heap.slot i).value? = some v) (hlooked : ReflTransGen others w₂ w₃)
      (hclosed : w₃.heap.isClosed s = true) (hafter : ReflTransGen others w₃ w') :
      Refused others runner s k w (.compute t factory cleanup) [] (.closed k) w'
  /-- The store was closed before the value could be used, and its cleanup action is still owed. It is run
  here then. -/
  | cleaning {t : Ty} {factory : Program H (.datum t)} {cleanup : Option (Value → Program H .done)}
      {i : SlotId} {v : Value} {w₁ w₂ w₃ w₄ w' : World H} {c : Call H .done}
      (hwait : ReflTransGen others w w₁)
      (hslot : Heap.Reservation w₁.heap s k (.slot i) (w₁.reserve s k).2.heap)
      (hwaited : ReflTransGen others (w₁.reserve s k).2 w₂)
      (hvalue : (w₂.heap.slot i).value? = some v) (hlooked : ReflTransGen others w₂ w₃)
      (hclosed : w₃.heap.isClosed s = true) (htaking : ReflTransGen others w₃ w₄)
      (howed : w₄.heap.cleanup? i = some c.program)
      (hstart : ReflTransGen others (w₄.takeCleanup i).2 c.start)
      (hends : (runner c.program).Ends others c.start c.outcome c.finish) :
      Refused others runner s k w (.compute t factory cleanup) [.called c] (.closed k) w'

/-- All that a computation has done that has failed and has called no factory. -/
theorem refused_of_compute {others : World H → World H → Prop} {t : Ty}
    {factory : Program H (.datum t)} {cleanup : Option (Value → Program H .done)}
    {marks : List (Mark H)} {e : StoreError}
    (hruns : (Routine.compute s k t (.run factory) cleanup).Runs others @runner w marks
      (.returned (.error e)) w') (hmarks : ∀ mark ∈ marks, mark.isFactory = false) :
    (compute t factory cleanup).Refused others @runner s k w marks e w' := by
  obtain ⟨w₁, hwait, hrest⟩ := Routine.runs_silent_update_bind hruns fun _ => rfl
  have hreservation : Heap.Reservation w₁.heap s k (w₁.reserve s k).1 (w₁.reserve s k).2.heap :=
    w₁.heap.reservation s k
  generalize hadmission : (w₁.reserve s k).1 = admission at hrest hreservation
  cases admission with
  | refused =>
      obtain ⟨rfl, hreturned, hafter⟩ := Routine.runs_pure_iff.mp hrest
      obtain ⟨hclosed, hsame⟩ := hreservation.of_refused
      rw [World.reserve_eq_self hsame] at hafter
      cases hreturned
      exact .closed hwait hclosed hafter
  | inherited v =>
      obtain ⟨rfl, hreturned, hafter⟩ := Routine.runs_pure_iff.mp hrest
      obtain ⟨hopen, ⟨hslot, hvalue⟩, hsame⟩ := hreservation.of_inherited
      obtain ⟨hty, rfl⟩ := Heap.of_cast_error (Outcome.returned.inj hreturned).symm
      rw [World.reserve_eq_self hsame] at hafter
      refine .mismatched hwait hopen ?_ hty hafter
      rw [found?, (Heap.lookup?_of_found (.inr ⟨hslot, hvalue⟩)).1]
      rfl
  | slot i =>
      rcases Routine.runs_bind_iff.mp hrest with
        ⟨v, w₂, first, second, hfilled, hused, rfl⟩ | ⟨payload, -, hpanicked⟩
      · obtain ⟨w₃, hwaited, ⟨v', hvalue, rfl, hreturned, hlooking⟩ | ⟨c, w₄, -, -, rfl, -⟩⟩ :=
          Routine.runs_fillSlot_among hfilled
        · cases hreturned
          obtain ⟨w₄, hlooked, ⟨-, rfl, hreturned, hafter⟩ |
              ⟨hclosed, hreturned, ending, w₅, hcleaned, hended⟩⟩ :=
            Routine.runs_useSlot hused
          · obtain ⟨hty, rfl⟩ := Heap.of_cast_error (Outcome.returned.inj hreturned).symm
            exact .waited hwait hreservation hwaited hvalue hty ((hlooking.trans hlooked).trans hafter)
          · cases hreturned
            obtain ⟨w₆, htaking, ⟨hnone, rfl, hreturned, hafter⟩ |
                ⟨c, howed, rfl, -, hstart, hends, -⟩⟩ :=
              Routine.runs_cleanSlot_among hcleaned
            · exact .late hwait hreservation hwaited hvalue (hlooking.trans hlooked) hclosed
                ((htaking.trans hafter).trans (hended (Outcome.returned.inj hreturned)))
            · exact .cleaning hwait hreservation hwaited hvalue (hlooking.trans hlooked) hclosed
                htaking howed hstart hends
        · have hfactory := hmarks (.called c) (List.mem_append_left _ List.mem_cons_self)
          cases hfactory
      · cases hpanicked

/-- An operation that fails, and has called no factory, has found the store closed or a value of another
type. It changes nothing, unless it is a computation that was given a slot before the store was closed. -/
theorem refused_of_error {others : World H → World H → Prop} {access : Access H}
    {marks : List (Mark H)} {e : StoreError}
    (hruns : (access.routine s k).Runs others @runner w marks (.returned (.error e)) w')
    (hmarks : ∀ mark ∈ marks, mark.isFactory = false) :
    access.Refused others @runner s k w marks e w' := by
  cases access with
  | get t =>
      obtain ⟨rfl, w₁, hwait, hreturned, hafter⟩ := Routine.runs_view_iff.mp hruns
      have herror := (Outcome.returned.inj hreturned).symm
      cases hclosed : w₁.heap.isClosed s with
      | true =>
          rw [Heap.get_of_closed hclosed] at herror
          cases herror
          exact .closed hwait hclosed hafter
      | false =>
          obtain ⟨v, hvalue, hty, rfl⟩ := Heap.of_get_error hclosed herror
          refine .mismatched hwait hclosed ?_ hty hafter
          rw [found?, hvalue]
          rfl
  | put datum cleanup =>
      obtain ⟨w₁, hwait, rfl, hreturned, hafter⟩ := Routine.runs_update_iff.mp hruns
      have herror := (Outcome.returned.inj hreturned).symm
      cases hclosed : w₁.heap.isClosed s with
      | true =>
          have hput : w₁.put s k datum cleanup = (.error (.closed k), w₁) := by
            rw [World.put, Heap.put, if_pos hclosed]
          rw [hput] at herror hafter ⊢
          cases herror
          rw [World.noted_self]
          exact .closed hwait hclosed hafter
      | false => exact absurd herror (put_ne_error hclosed k datum cleanup e)
  | remove t =>
      obtain ⟨w₁, hwait, rfl, hreturned, hafter⟩ := Routine.runs_update_iff.mp hruns
      obtain ⟨hsame, herror⟩ := World.of_remove_error (Outcome.returned.inj hreturned).symm
      rw [hsame] at hafter ⊢
      rw [World.noted_self]
      cases hclosed : w₁.heap.isClosed s with
      | true =>
          rw [Heap.remove, if_pos hclosed] at herror
          cases herror
          exact .closed hwait hclosed hafter
      | false =>
          obtain ⟨v, hvalue, hty, rfl⟩ := Heap.of_remove_error hclosed herror
          refine .mismatched hwait hclosed ?_ hty hafter
          rw [found?, hvalue]
          rfl
  | compute t factory cleanup => exact refused_of_compute hruns hmarks

/-- An operation that fails while nobody else touches the heap, and has called no factory, has found the
store closed or a value of another type, and has changed nothing. -/
theorem Refused.unchanged {access : Access H} {marks : List (Mark H)} {e : StoreError}
    (hrefused : access.Refused SameHeap @runner s k w marks e w') :
    w'.heap = w.heap ∧ marks = [] ∧ ((w.heap.isClosed s = true ∧ e = .closed k) ∨
      ∃ t v, w.heap.isClosed s = false ∧ access.found? w.heap s k = some (t, v) ∧ v.ty ≠ t ∧
        e = .typeMismatch k t v.ty) := by
  cases hrefused with
  | closed hwait hclosed hafter =>
      rw [heap_eq_of_waiting hwait] at hclosed
      exact ⟨(heap_eq_of_waiting hafter).trans (heap_eq_of_waiting hwait), rfl, .inl ⟨hclosed, rfl⟩⟩
  | mismatched hwait hopen hfound hty hafter =>
      rw [heap_eq_of_waiting hwait] at hopen hfound
      exact ⟨(heap_eq_of_waiting hafter).trans (heap_eq_of_waiting hwait), rfl,
        .inr ⟨_, _, hopen, hfound, hty, rfl⟩⟩
  | @waited t factory cleanup i v w₁ w₂ _ hwait hslot hwaited hvalue hty hafter =>
      rw [heap_eq_of_waiting hwaited] at hvalue
      obtain ⟨hopen, hlocal, hsame⟩ := hslot.found hvalue
      rw [heap_eq_of_waiting hwait] at hopen hlocal hsame
      have hfound : (compute t factory cleanup).found? w.heap s k = some (t, v) := by
        rw [found?, Heap.lookup?_of_localValue? hlocal]
        rfl
      exact ⟨((heap_eq_of_waiting hafter).trans (heap_eq_of_waiting hwaited)).trans hsame, rfl,
        .inr ⟨t, v, hopen, hfound, hty, rfl⟩⟩
  | late hwait hslot hwaited hvalue hlooked hclosed hafter =>
      rw [heap_eq_of_waiting hlooked, heap_eq_of_waiting hwaited] at hclosed
      have hopen := hslot.entry.1
      rw [hclosed] at hopen
      cases hopen
  | cleaning hwait hslot hwaited hvalue hlooked hclosed htaking howed hstart hends =>
      rw [heap_eq_of_waiting hlooked, heap_eq_of_waiting hwaited] at hclosed
      have hopen := hslot.entry.1
      rw [hclosed] at hopen
      cases hopen

end Access

/-- What it means from a world on that a store is closed, and what operations leave behind that fail. The
programs are run by a runner; others are on their way meanwhile, unless it is said that they leave the
stores alone. -/
structure World.RefusalLaw (w : World H) (runner : Runner H) (s : StoreId) : Prop where
  closing : ∀ entries w₁, w.beginClose s = (some entries, w₁) →
    s < w₁.heap.stores.length ∧ w₁.heap.isClosed s = true ∧ (w₁.heap.store s).entries = []
  absorbing : s < w.heap.stores.length → w.heap.isClosed s = true → ∀ w₁, Meanwhile w w₁ →
    w₁.heap.isClosed s = true ∧ (w₁.heap.store s).entries = []
  refused : s < w.heap.stores.length → w.heap.isClosed s = true → ∀ w₁, Meanwhile w w₁ →
    ∀ (access : Access H) k,
      ((access.routine s k).play @runner).advance w₁ =
          (.ended (.returned (.error (.closed k))), w₁) ∧
        ∀ marks outcome w₂, (access.routine s k).Runs Move @runner w₁ marks outcome w₂ →
          marks = [] ∧ outcome = .returned (.error (.closed k))
  overtaken : ∀ k t (program : Program H (.datum t)) cleanup (c : Call H (.datum t)) datum rest
    outcome w', (Routine.compute s k t (.run program) cleanup).Runs Mindful @runner w
      (.called c :: rest) outcome w' →
    c.outcome = .returned datum → c.finish.heap.isClosed s = true →
      outcome = .returned (.error (.closed k)) ∧ ∀ f, cleanup = some f →
        ∃ w₁ i v w₂, ReflTransGen Mindful c.finish w₁ ∧ w₁.fill s i datum.val cleanup = (v, w₂) ∧
          w₂.heap.slot i = .holding ⟨v, some (f v)⟩ ∧
          ((∃ c' : Call H .done, rest = [.called c'] ∧ c'.program = f v) ∨
            (rest = [] ∧ w₂.TakenBetween w' i (f v)))
  overtakenAlone : ∀ k t (program : Program H (.datum t)) cleanup (c : Call H (.datum t)) datum rest
    outcome w', (Routine.compute s k t (.run program) cleanup).Runs SameHeap @runner w
      (.called c :: rest) outcome w' →
    c.outcome = .returned datum → c.finish.heap.isClosed s = true →
      outcome = .returned (.error (.closed k)) ∧ ∀ f, cleanup = some f →
        ∃ v, v.datum = datum.val ∧ ∃ c' : Call H .done, rest = [.called c'] ∧ c'.program = f v
  rejected : ∀ (others : World H → World H → Prop) (access : Access H) k marks e w',
    (access.routine s k).Runs others @runner w marks (.returned (.error e)) w' →
    (∀ mark ∈ marks, mark.isFactory = false) → access.Refused others @runner s k w marks e w'
  unchanged : ∀ (access : Access H) k marks e w',
    (access.routine s k).Runs SameHeap @runner w marks (.returned (.error e)) w' →
    (∀ mark ∈ marks, mark.isFactory = false) →
      w'.heap = w.heap ∧ marks = [] ∧ ((w.heap.isClosed s = true ∧ e = .closed k) ∨
        ∃ t v, w.heap.isClosed s = false ∧ access.found? w.heap s k = some (t, v) ∧ v.ty ≠ t ∧
          e = .typeMismatch k t v.ty)

/-- Every world that moves lead to is one from which closed stores refuse for good, and in which failed
operations leave no trace. -/
theorem closed_stores_refuse_for_good {w : World H} (hw : w.Reachable) (fuel : Nat)
    (worker : Option Nat) (s : StoreId) :
    w.RefusalLaw (fun program => program.exec fuel worker) s where
  closing entries w₁ hclose := by
    rw [World.beginClose] at hclose
    split at hclose
    · cases hclose
    · next hbegin =>
      cases hclose
      have hs := Heap.lt_length_of_open (Heap.of_beginClose hbegin).1
      have hnone : Heap.NoneTaken none none w.heap _ := .beginClose hbegin
      refine ⟨Nat.lt_of_lt_of_le hs hnone.stores, Heap.isClosed_beginClose hbegin, ?_⟩
      rw [Heap.store_beginClose hbegin, if_pos rfl]
  absorbing hs hclosed w₁ hmoves := by
    have hstill := hmoves.extends.closed s hs hclosed
    exact ⟨hstill, (hmoves.wellFormed hw.wellFormed).emptied s hstill⟩
  refused hs hclosed w₁ hmoves access k := by
    have hstill (w₂ : World H) (hlater : Meanwhile w₁ w₂) : w₂.heap.isClosed s = true :=
      (hmoves.extends.trans hlater.extends).closed s hs hclosed
    refine ⟨access.advance_of_closed (hstill w₁ .refl), ?_⟩
    intro marks outcome w₂ hruns
    obtain ⟨hmarks, houtcome, -⟩ := Access.runs_of_closed hstill hruns
    exact ⟨hmarks, houtcome⟩
  overtaken k t program cleanup c datum rest outcome w' hruns hreturned hclosed := by
    have hothers (w w' : World H) (hmindful : Mindful w w') : w.heap.Extends w'.heap :=
      hmindful.1.extends
    have hwf (w₁ : World H) (hwait : ReflTransGen Mindful w w₁) : w₁.heap.WellFormed :=
      (meanwhile_of_mindful hwait).wellFormed hw.wellFormed
    obtain ⟨houtcome, w₁, i, v, w₂, w₃, hafter, hstored, howed, hlater, hcleaned⟩ :=
      Routine.runs_compute_overtaken hothers (Program.moves_exec fuel worker) hwf hruns hreturned
        hclosed
    refine ⟨houtcome, fun f hf => ?_⟩
    subst hf
    refine ⟨w₁, i, v, w₂, hafter, hstored, howed, ?_⟩
    rcases owed_or_taken hlater howed with hstill | ⟨hgone, u, u', hbefore, hmove, hrest, htaken⟩
    · have hsome : w₃.heap.cleanup? i = some (f v) := by rw [Heap.cleanup?, hstill]
      rcases hcleaned with ⟨hnone, -⟩ | ⟨c', hprogram, hmarks⟩
      · rw [hsome] at hnone
        cases hnone
      · exact .inl ⟨c', hmarks, Option.some.inj (hprogram.symm.trans hsome)⟩
    · have hnone : w₃.heap.cleanup? i = none := by rw [Heap.cleanup?, hgone]
      rcases hcleaned with ⟨-, hmarks, hwaiting⟩ | ⟨c', hprogram, -⟩
      · exact .inr ⟨hmarks, u, u', hbefore, hmove, hrest.trans hwaiting, htaken⟩
      · rw [hnone] at hprogram
        cases hprogram
  overtakenAlone k t program cleanup c datum rest outcome w' hruns hreturned hclosed := by
    have hothers (w w' : World H) (hsame : SameHeap w w') : w.heap.Extends w'.heap := by
      rw [show w'.heap = w.heap from hsame]
      exact .refl _
    have hwf (w₁ : World H) (hwait : ReflTransGen SameHeap w w₁) : w₁.heap.WellFormed := by
      rw [heap_eq_of_waiting hwait]
      exact hw.wellFormed
    obtain ⟨houtcome, w₁, i, v, w₂, w₃, -, hstored, howed, hlater, hcleaned⟩ :=
      Routine.runs_compute_overtaken hothers (Program.moves_exec fuel worker) hwf hruns hreturned
        hclosed
    refine ⟨houtcome, fun f hf => ?_⟩
    subst hf
    have hsome : w₃.heap.cleanup? i = some (f v) := by
      rw [heap_eq_of_waiting hlater, Heap.cleanup?, howed]
      rfl
    have hdatum : v.datum = datum.val := by
      rw [show v = (w₁.fill s i datum.val (some f)).1 by rw [hstored]]
      rfl
    rcases hcleaned with ⟨hnone, -⟩ | ⟨c', hprogram, hmarks⟩
    · rw [hsome] at hnone
      cases hnone
    · exact ⟨v, hdatum, c', hmarks, Option.some.inj (hprogram.symm.trans hsome)⟩
  rejected others access k marks e w' hruns hmarks := Access.refused_of_error hruns hmarks
  unchanged access k marks e w' hruns hmarks := (Access.refused_of_error hruns hmarks).unchanged

/-- A store is closed by the factory for one of its keys, whose value has a cleanup action. -/
def Program.closeWhileComputing : Program Host.bare .done :=
  .call (.newStore none) fun s =>
    .computeCloseable s ⟨⟨["files"]⟩, "log"⟩ .unit
      (.call (.close s) fun _ => .finish ⟨.unit, .refl Ty.unit⟩) (fun _ => .finish (.ok ()))
      fun _ => .finish (.ok ())

theorem closed_stores_refuse_for_good_whileComputing :
    let w := ((Program.closeWhileComputing.exec 4 none).advance (World.initial ())).2
    let runner : Runner Host.bare := fun program => program.exec 1 none
    w.heap.trace = [cleaned 0, filled 0 0 true, closed 0, factory 0 0, entered 0 0] ∧
      w.heap.isClosed 0 = true ∧ w.RefusalLaw @runner 0 := by
  intro w runner
  refine ⟨by decide, by decide, ?_⟩
  exact closed_stores_refuse_for_good
    (Program.reachable_advance 4 none Program.closeWhileComputing ()) 1 none 0

/-- A store is closed while the factory for one of its keys is running. The closing thread takes the cleanup
action of the value right after that was stored, so whoever computed the value is refused before anybody has
called that action. If the store is closed only when the value has been used, another caller who was waiting
for the value is refused as well, has run no factory, and calls the cleanup action. -/
theorem refused_before_cleaned :
    let runner : Runner Host.bare := fun program => program.exec 1 none
    let key : Key := ⟨⟨["files"]⟩, "log"⟩
    let w : World Host.bare := ((World.initial ()).newStore none).2
    let alone : Threads Host.bare Unit Unit := .start (fun _ => .opening) Unit 0 key w
    let both : Threads Host.bare Bool Unit := .start (fun _ => .opening) Unit 0 key w
    (∃ middle last, alone.Run @runner 0 key middle ∧ middle.Run @runner 0 key last ∧
      middle.world.heap.isClosed 0 = true ∧ (middle.callers ()).isAway = true ∧
      last.callers () = .own (.ended (.returned (.error (.closed key)))) ∧
      filled 0 0 true ∈ last.history ∧ last.calls.countP (CallStart.cleans 0) = 0) ∧
    ∃ middle last, both.Run @runner 0 key middle ∧ middle.Run @runner 0 key last ∧
      middle.callers false = .own (.ended (.returned (.ok ⟨0, .unit⟩))) ∧
      (middle.callers true).isAway = true ∧ (middle.closers ()).isAway = false ∧
      middle.calls.countP (CallStart.cleans 0) = 1 ∧
      last.callers true = .own (.ended (.returned (.error (.closed key)))) ∧
      last.history.countP (fun occurrence => occurrence matches .factory ..) = 1 := by
  intro runner key w alone both
  constructor
  · let before : List (Unit ⊕ Unit) := [.inl (), .inl (), .inl (), .inr ()]
    let after : List (Unit ⊕ Unit) := [.inl (), .inl (), .inr (), .inr (), .inl (), .inl ()]
    have hbefore := Threads.run_foldl_turn @runner 0 key alone before
    have hafter := Threads.run_foldl_turn @runner 0 key (before.foldl (Threads.turn @runner) alone) after
    refine ⟨_, _, hbefore, hafter, ?_, ?_, ?_, ?_, ?_⟩
    · decide +kernel
    · decide +kernel
    · exact Party.eq_of_answer? (by decide +kernel)
    · decide +kernel
    · decide +kernel
  · let before : List (Bool ⊕ Unit) :=
      [.inl false, .inl false, .inl true, .inl false, .inl false, .inl false, .inl true, .inl false,
        .inr (), .inl true, .inl true, .inl true]
    let after : List (Bool ⊕ Unit) := [.inl true, .inl true, .inl true]
    have hbefore := Threads.run_foldl_turn @runner 0 key both before
    have hafter := Threads.run_foldl_turn @runner 0 key (before.foldl (Threads.turn @runner) both) after
    refine ⟨_, _, hbefore, hafter, ?_, ?_, ?_, ?_, ?_, ?_⟩
    · exact Party.eq_of_answer? (by decide +kernel)
    · decide +kernel
    · decide +kernel
    · decide +kernel
    · exact Party.eq_of_answer? (by decide +kernel)
    · decide +kernel

end TimedInvocation
