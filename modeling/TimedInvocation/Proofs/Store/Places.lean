import TimedInvocation.Proofs.Ensemble
import TimedInvocation.Proofs.Store.Refusal

/-!
# Rules for computing keys and for closing stores

The places between the sections of someone who computes a key, with or without a cleanup action for its
value, and of someone who closes a store; and what each of the sections does to the store and to its slots.
-/

namespace TimedInvocation

open World

variable {H : Host}

/-- What someone asks for who computes a key: the key, the type, the factory and the cleanup action of the
value, if it is to have one. -/
structure Demand (H : Host) where
  key : Key
  type : Ty
  factory : Program H (.datum type)
  cleanup : Option (Value → Program H .done)

namespace Demand

/-- The computation of the key in a store. -/
def routine (demand : Demand H) (s : StoreId) : Routine H (Except StoreError Value) :=
  .compute s demand.key demand.type (.run demand.factory) demand.cleanup

/-- Where someone who computes a key is between two sections. -/
inductive Place (H : Host) where
  /-- Before the first section. -/
  | arriving
  /-- With a slot, before it is marked or its value is found. -/
  | given (i : SlotId)
  /-- In the factory, or before the section that makes its end known. -/
  | computing (i : SlotId)
  /-- With a value, before the look whether the store has been closed. -/
  | settled (i : SlotId)
  /-- After finding the store closed, before taking the cleanup action. -/
  | late (i : SlotId)
  /-- In the cleanup action that has been taken. -/
  | cleaning (action : Program H .done)
  /-- Refused. -/
  | refused
  /-- Through with the store, and not refused. -/
  | through

/-- Someone at the place has been given a slot and is not through with it. -/
def Place.Engaged : Place H → Prop
  | given _ | computing _ | settled _ | late _ | cleaning _ => True
  | arriving | refused | through => False

/-- The sections of a store by which someone who computes a key gets from place to place. -/
inductive Passes (s : StoreId) (k : Key) :
    Place H → Heap (Program H .done) → Heap (Program H .done) → Place H → Prop where
  | refused {h : Heap (Program H .done)} (hclosed : h.isClosed s = true) :
      Passes s k .arriving h h .refused
  | inherited {h : Heap (Program H .done)} (hopen : h.isClosed s = false) :
      Passes s k .arriving h h .through
  | given {h h' : Heap (Program H .done)} {i : SlotId} (hopen : h.isClosed s = false)
      (hgiven : h.Reservation s k (.slot i) h') : Passes s k .arriving h h' (.given i)
  | found {h : Heap (Program H .done)} {i : SlotId} : Passes s k (.given i) h h (.settled i)
  | marked {h : Heap (Program H .done)} {i : SlotId} (hslot : h.slot i = .vacant) :
      Passes s k (.given i) h (h.claim s i).2 (.computing i)
  | panicked {h : Heap (Program H .done)} {i : SlotId} :
      Passes s k (.computing i) h (h.vacate i) .through
  | filled {h : Heap (Program H .done)} {i : SlotId} (stored : Stored (Program H .done)) :
      Passes s k (.computing i) h (h.fill s i stored) (.settled i)
  | passed {h : Heap (Program H .done)} {i : SlotId} (hopen : h.isClosed s = false) :
      Passes s k (.settled i) h h .through
  | overtaken {h : Heap (Program H .done)} {i : SlotId} (hclosed : h.isClosed s = true) :
      Passes s k (.settled i) h h (.late i)
  | took {h : Heap (Program H .done)} {i : SlotId} {action : Program H .done}
      (howed : h.cleanup? i = some action) :
      Passes s k (.late i) h (h.takeCleanup i).2 (.cleaning action)
  | spared {h : Heap (Program H .done)} {i : SlotId} (hnone : h.cleanup? i = none) :
      Passes s k (.late i) h h .refused
  | logged {h : Heap (Program H .done)} : Passes s k .refused h h .refused

/-- The calls of user code by which someone who computes a key gets from place to place. -/
inductive Resumes (demand : Demand H) :
    Place H → ∀ {r : Reply}, Program H r → Outcome (r.Carrier H) → Place H → Prop where
  | computed (i : SlotId) (outcome : Outcome (DatumOf demand.type)) :
      Resumes demand (.computing i) (r := .datum demand.type) demand.factory outcome (.computing i)
  | cleaned (action : Program H .done) (outcome : Outcome (Except Failure Unit)) :
      Resumes demand (.cleaning action) (r := .done) action outcome .refused

/-- How someone who computes a key gets from place to place. -/
def rule (demand : Demand H) (s : StoreId) : Rule H (Place H) where
  passes place w w' place' := Move w w' ∧ Passes s demand.key place w.heap w'.heap place'
  resumes place _ program outcome place' := demand.Resumes place program outcome place'

/-- Whoever has ended is through with the store or refused, and the latter is what it returns. -/
def final (demand : Demand H) (outcome : Outcome (Except StoreError Value)) (place : Place H) : Prop :=
  place = .through ∨ place = .refused ∧ outcome = .returned (.error (.closed demand.key))

theorem follows_useSlot (demand : Demand H) (s : StoreId) (i : SlotId) (v : Value) :
    (Routine.useSlot s demand.key demand.type i v).Follows (demand.rule s) demand.final
      (.settled i) := by
  apply Routine.follows_view_bind
  intro w
  have hmove : Move w w := .plain (.unchanged w)
  cases hclosed : w.heap.isClosed s with
  | false => exact ⟨.through, ⟨hmove, .passed hclosed⟩, .inl rfl⟩
  | true =>
      refine ⟨.late i, ⟨hmove, .overtaken hclosed⟩, ?_⟩
      -- The cleanup action is taken if it is still owed.
      have hclean : (Routine.cleanSlot demand.key i).Follows (demand.rule s)
          (fun outcome place => (∃ error, outcome = .returned error) ∧ place = .refused)
          (.late i) := by
        apply Routine.follows_update_bind
        intro w
        have hmove : Move w (w.takeCleanup i).2 := .cleanupTaken w i
        cases howed : w.heap.cleanup? i with
        | none =>
            have htake := Heap.takeCleanup_of_none howed
            simp only [World.takeCleanup, htake] at hmove ⊢
            exact ⟨.refused, ⟨hmove, .spared howed⟩, ⟨none, rfl⟩, rfl⟩
        | some action =>
            have htake := Heap.takeCleanup_of_some howed
            simp only [World.takeCleanup, htake] at hmove ⊢
            refine ⟨.cleaning action, ⟨hmove, .took howed⟩, ?_⟩
            exact fun outcome => ⟨.refused, .cleaned action outcome, ⟨_, rfl⟩, rfl⟩
      apply hclean.bind
      · rintro error place ⟨-, rfl⟩
        cases error with
        | none => exact .inr ⟨rfl, rfl⟩
        | some e =>
            exact fun w _ => ⟨.refused, ⟨.plain (.logged w _), .logged⟩, .inr ⟨rfl, rfl⟩⟩
      · rintro payload place ⟨⟨error, hreturned⟩, -⟩
        cases hreturned

theorem follows_fillSlot (demand : Demand H) (s : StoreId) (i : SlotId) :
    (Routine.fillSlot s i (.run demand.factory) demand.cleanup).Follows (demand.rule s)
      (fun outcome place => match outcome with
        | .returned _ => place = .settled i
        | .panicked _ => place = .through) (.given i) := by
  apply Routine.follows_updateAfter_bind
  intro w hover
  have hsettled : w.heap.isSettled i = true := by simpa [Pause.isOver] using hover
  have hmove : Move w (w.claim s i).2 := .claimed w s i hsettled
  cases hvalue : (w.heap.slot i).value? with
  | some v =>
      simp only [World.claim, Heap.claim, hvalue] at hmove ⊢
      exact ⟨.settled i, ⟨hmove, .found⟩, rfl⟩
  | none =>
      have hslot := Heap.slot_of_isSettled hsettled hvalue
      have hmarked : Passes s demand.key (.given i) w.heap (w.heap.claim s i).2 (.computing i) :=
        .marked hslot
      simp only [World.claim, Heap.claim, hvalue] at hmove hmarked ⊢
      refine ⟨.computing i, ⟨hmove, hmarked⟩, ?_⟩
      intro outcome
      refine ⟨.computing i, .computed i outcome, ?_⟩
      cases outcome with
      | panicked payload =>
          exact fun w _ => ⟨.through, ⟨.vacated w i, .panicked⟩, rfl⟩
      | returned datum =>
          exact fun w _ => ⟨.settled i, ⟨.filled w s i datum.val demand.cleanup, .filled _⟩, rfl⟩

/-- Whoever computes a key goes by the rule. -/
theorem follows_routine (demand : Demand H) (s : StoreId) :
    (demand.routine s).Follows (demand.rule s) demand.final .arriving := by
  apply Routine.follows_update_bind
  intro w
  have hmove : Move w (w.reserve s demand.key).2 := .reserved w s demand.key
  have hreserve := w.heap.reservation s demand.key
  simp only [World.reserve] at hmove ⊢
  generalize w.heap.reserve s demand.key = reserved at hmove hreserve
  obtain ⟨admission, h'⟩ := reserved
  cases admission with
  | refused =>
      obtain ⟨hclosed, rfl⟩ := hreserve.of_refused
      exact ⟨.refused, ⟨hmove, .refused hclosed⟩, .inr ⟨rfl, rfl⟩⟩
  | inherited v =>
      obtain ⟨hopen, -, rfl⟩ := hreserve.of_inherited
      exact ⟨.through, ⟨hmove, .inherited hopen⟩, .inl rfl⟩
  | slot i =>
      have hopen : w.heap.isClosed s = false := by
        cases hreserve with
        | present hopen _ => exact hopen
        | made hopen _ _ => exact hopen
      refine ⟨.given i, ⟨hmove, .given hopen hreserve⟩, ?_⟩
      apply (demand.follows_fillSlot s i).bind
      · rintro v place rfl
        exact demand.follows_useSlot s i v
      · rintro payload place rfl
        exact .inl rfl

end Demand

/-- A cleanup action that whoever closes the store has taken, and how it ended. -/
structure Handled (H : Host) where
  owed : Owed (Program H .done)
  outcome : Outcome (Except Failure Unit)

/-- The errors that the cleanup action contributes. -/
def Handled.errors (handled : Handled H) : List CleanupError :=
  (Routine.cleanupFailure handled.owed.key handled.outcome).toList

namespace Closing

/-- Where someone who closes a store is between two sections: before the first one, with entries that are
still to be cleaned, or in the cleanup action of one of them; and what has become of those before. -/
inductive Place (H : Host) where
  | closing
  | cleaning (rest : List (Key × SlotId)) (handled : List (Handled H))
  | running (owed : Owed (Program H .done)) (rest : List (Key × SlotId)) (handled : List (Handled H))

namespace Place

/-- The entries that are still to be cleaned. -/
def rest : Place H → List (Key × SlotId)
  | closing => []
  | cleaning rest _ | running _ rest _ => rest

/-- The cleanup action that is being run. -/
def current? : Place H → Option (Owed (Program H .done))
  | closing | cleaning _ _ => none
  | running owed _ _ => some owed

def handled : Place H → List (Handled H)
  | closing => []
  | cleaning _ handled | running _ _ handled => handled

end Place

/-- The sections of a store by which someone who closes it gets from place to place. -/
inductive Passes (s : StoreId) :
    Place H → Heap (Program H .done) → Heap (Program H .done) → Place H → Prop where
  | already {h : Heap (Program H .done)} (hclosed : h.isClosed s = true) :
      Passes s .closing h h (.cleaning [] [])
  | began {h h' : Heap (Program H .done)} {entries : List (Key × SlotId)}
      (hbegin : h.beginClose s = some (entries, h')) :
      Passes s .closing h h' (.cleaning entries.reverse [])
  | logged {h : Heap (Program H .done)} {rest : List (Key × SlotId)} {handled : List (Handled H)} :
      Passes s (.cleaning rest handled) h h (.cleaning rest handled)
  | took {h : Heap (Program H .done)} {k : Key} {i : SlotId} {rest : List (Key × SlotId)}
      {handled : List (Handled H)} {action : Program H .done} (howed : h.cleanup? i = some action) :
      Passes s (.cleaning ((k, i) :: rest) handled) h (h.takeCleanup i).2
        (.running ⟨k, i, action⟩ rest handled)
  | spared {h : Heap (Program H .done)} {k : Key} {i : SlotId} {rest : List (Key × SlotId)}
      {handled : List (Handled H)} (hnone : h.cleanup? i = none) :
      Passes s (.cleaning ((k, i) :: rest) handled) h h (.cleaning rest handled)

/-- The calls of user code by which someone who closes a store gets from place to place. -/
inductive Resumes :
    Place H → ∀ {r : Reply}, Program H r → Outcome (r.Carrier H) → Place H → Prop where
  | cleaned (owed : Owed (Program H .done)) (rest : List (Key × SlotId)) (handled : List (Handled H))
      (outcome : Outcome (Except Failure Unit)) :
      Resumes (.running owed rest handled) (r := .done) owed.action outcome
        (.cleaning rest (handled ++ [⟨owed, outcome⟩]))

/-- How someone who closes a store gets from place to place. -/
def rule (s : StoreId) : Rule H (Place H) where
  passes place w w' place' := Move w w' ∧ Passes s place w.heap w'.heap place'
  resumes place _ program outcome place' := Resumes place program outcome place'

/-- The answer to whoever closes a store, after what has become of the cleanup actions. -/
def verdict (handled : List (Handled H)) : Except StoreCloseError Unit :=
  if handled.flatMap Handled.errors = [] then .ok () else .error ⟨handled.flatMap Handled.errors⟩

/-- Whoever has ended has nothing left to clean, and returns the errors. -/
def final (outcome : Outcome (Except StoreCloseError Unit)) (place : Place H) : Prop :=
  ∃ handled, place = .cleaning [] handled ∧ outcome = .returned (verdict handled)

theorem follows_cleanSlot (s : StoreId) (k : Key) (i : SlotId) (rest : List (Key × SlotId))
    (handled : List (Handled H)) :
    (Routine.cleanSlot k i).Follows (rule s)
      (fun outcome place => ∃ error later, outcome = .returned error ∧
        later.flatMap Handled.errors = error.toList ∧ place = .cleaning rest (handled ++ later))
      (.cleaning ((k, i) :: rest) handled) := by
  apply Routine.follows_update_bind
  intro w
  have hmove : Move w (w.takeCleanup i).2 := .cleanupTaken w i
  cases howed : w.heap.cleanup? i with
  | none =>
      have htake := Heap.takeCleanup_of_none howed
      simp only [World.takeCleanup, htake] at hmove ⊢
      exact ⟨_, ⟨hmove, .spared howed⟩, none, [], rfl, rfl, by rw [List.append_nil]⟩
  | some action =>
      have htake := Heap.takeCleanup_of_some howed
      simp only [World.takeCleanup, htake] at hmove ⊢
      refine ⟨_, ⟨hmove, .took howed⟩, fun outcome => ⟨_, .cleaned _ _ _ outcome, ?_⟩⟩
      exact ⟨_, [⟨⟨k, i, action⟩, outcome⟩], rfl, List.flatMap_singleton _ _, rfl⟩

theorem follows_cleanEntries (s : StoreId) (entries : List (Key × SlotId))
    (handled : List (Handled H)) :
    (Routine.cleanEntries entries).Follows (rule s)
      (fun outcome place => ∃ later, outcome = .returned (later.flatMap Handled.errors) ∧
        place = .cleaning [] (handled ++ later)) (.cleaning entries handled) := by
  induction entries generalizing handled with
  | nil => exact ⟨[], rfl, by rw [List.append_nil]⟩
  | cons entry rest ih =>
      apply (follows_cleanSlot s entry.1 entry.2 rest handled).bind
      · rintro error place ⟨_, first, ⟨⟩, herrors, rfl⟩
        apply (ih (handled ++ first)).bind
        · rintro errors place ⟨later, ⟨⟩, rfl⟩
          refine ⟨first ++ later, ?_, by rw [List.append_assoc]⟩
          rw [List.flatMap_append, herrors]
        · rintro payload place ⟨later, hreturned, -⟩
          cases hreturned
      · rintro payload place ⟨error, later, hreturned, -⟩
        cases hreturned

/-- Whoever closes a store goes by the rule. -/
theorem follows_close (s : StoreId) :
    (Routine.close s : Routine H _).Follows (rule s) final .closing := by
  apply Routine.follows_update_bind
  intro w
  have hmove : Move w (w.beginClose s).2 := .closeBegun w s
  cases hclosed : w.heap.isClosed s with
  | true =>
      have hbegin : w.beginClose s = (none, w) := by
        rw [World.beginClose, Heap.beginClose, if_pos hclosed]
      rw [hbegin] at hmove ⊢
      exact ⟨_, ⟨hmove, .already hclosed⟩, [], rfl, rfl⟩
  | false =>
      have hbegin := Heap.beginClose_eq hclosed
      simp only [World.beginClose, hbegin] at hmove ⊢
      refine ⟨_, ⟨hmove, .began hbegin⟩, fun w _ => ⟨_, ⟨.plain (.logged w _), .logged⟩, ?_⟩⟩
      apply (follows_cleanEntries s _ []).bind
      · rintro errors place ⟨handled, ⟨⟩, rfl⟩
        -- Both ways to end are the same function of the errors.
        cases herrors : handled.flatMap Handled.errors with
        | nil => exact ⟨handled, rfl, by rw [verdict, if_pos herrors]⟩
        | cons error errors =>
            refine ⟨handled, rfl, ?_⟩
            rw [verdict, if_neg (by simp [herrors]), herrors]
      · rintro payload place ⟨later, hreturned, -⟩
        cases hreturned

end Closing

section Slots

variable {s : StoreId} {k : Key} {i : SlotId} {h h' : Heap (Program H .done)}

/-- A section of someone who computes a key changes a slot only if it is the one that is being computed,
is marked for that now, or owes the cleanup action that is taken. -/
theorem Demand.Passes.slot_or {a b : Demand.Place H} (hpasses : Passes s k a h h' b)
    (hi : i < h.slots.length) :
    h'.slot i = h.slot i ∨ a = .computing i ∨ h.slot i = .vacant ∧ b = .computing i ∨
      ∃ action, a = .late i ∧ h.cleanup? i = some action ∧ b = .cleaning action ∧
        h' = (h.takeCleanup i).2 := by
  cases hpasses with
  | given hopen hgiven =>
      refine .inl ?_
      cases hgiven with
      | present _ _ => rfl
      | made _ _ _ => rw [Heap.slot_addEntry, if_neg (Nat.ne_of_lt hi)]
  | @marked _ j hslot =>
      by_cases hj : i = j
      · rw [hj]
        exact .inr (.inr (.inl ⟨hslot, rfl⟩))
      · rw [Heap.claim, hslot]
        exact .inl (Heap.slot_setSlot_of_ne _ hj)
  | @panicked _ j =>
      by_cases hj : i = j
      · rw [hj]
        exact .inr (.inl rfl)
      · exact .inl (Heap.slot_setSlot_of_ne _ hj)
  | @filled _ j stored =>
      by_cases hj : i = j
      · rw [hj]
        exact .inr (.inl rfl)
      · exact .inl (Heap.slot_setSlot_of_ne _ hj)
  | @took _ j action howed =>
      by_cases hj : i = j
      · rw [hj]
        exact .inr (.inr (.inr ⟨action, rfl, howed, rfl, rfl⟩))
      · exact .inl (Heap.slot_takeCleanup_of_ne hj)
  | refused | inherited | found | passed | overtaken | spared | logged => exact .inl rfl

/-- A section of someone who closes a store changes a slot only by taking its cleanup action. -/
theorem Closing.Passes.slot_or {a b : Closing.Place H} (hpasses : Passes s a h h' b) :
    h'.slot i = h.slot i ∨ ∃ k action rest handled, a = .cleaning ((k, i) :: rest) handled ∧
      h.cleanup? i = some action ∧ b = .running ⟨k, i, action⟩ rest handled := by
  cases hpasses with
  | began hbegin =>
      obtain ⟨-, -, rfl⟩ := Heap.of_beginClose hbegin
      exact .inl rfl
  | @took _ k j rest handled action howed =>
      by_cases hj : i = j
      · rw [hj]
        exact .inr ⟨k, action, rest, handled, rfl, howed, rfl⟩
      · exact .inl (Heap.slot_takeCleanup_of_ne hj)
  | already | logged | spared => exact .inl rfl

theorem Demand.Passes.of_computing {a : Demand.Place H} (hpasses : Passes s k a h h' (.computing i)) :
    a = .given i ∧ h.slot i = .vacant ∧ h' = (h.setSlot i .computing).recorded (.factory s i) := by
  cases hpasses with
  | marked hslot =>
      refine ⟨rfl, hslot, ?_⟩
      rw [Heap.claim, hslot]
      rfl

theorem Demand.Passes.of_given {a : Demand.Place H} (hpasses : Passes s k a h h' (.given i)) :
    (k, i) ∈ (h'.store s).entries := by
  cases hpasses with
  | given hopen hgiven => exact Store.mem_of_slot? hgiven.entry.2

theorem Demand.Passes.of_refused {b : Demand.Place H} (hpasses : Passes s k .refused h h' b) :
    b = .refused := by
  cases hpasses with
  | logged => rfl

/-- Nobody is given a slot of a closed store. -/
theorem Demand.Passes.engaged {a b : Demand.Place H} (hpasses : Passes s k a h h' b)
    (hclosed : h.isClosed s = true) (hengaged : b.Engaged) : a.Engaged := by
  cases hpasses with
  | given hopen hgiven =>
      rw [hopen] at hclosed
      cases hclosed
  | refused | inherited | panicked | passed | spared | logged => exact hengaged.elim
  | found | marked | filled | overtaken | took => trivial

theorem Demand.Passes.isClosed {a b : Demand.Place H} (hpasses : Passes s k a h h' b) :
    h'.isClosed s = h.isClosed s := by
  cases hpasses with
  | given hopen hgiven => rw [hopen, hgiven.entry.1]
  | marked hslot =>
      rw [Heap.isClosed, Heap.store_claim]
      rfl
  | took howed => exact Heap.isClosed_takeCleanup _ s
  | _ => rfl

theorem Demand.Resumes.engaged {demand : Demand H} {a b : Demand.Place H} {r : Reply}
    {program : Program H r} {outcome : Outcome (r.Carrier H)}
    (hresumes : demand.Resumes a program outcome b) : a.Engaged := by
  cases hresumes with
  | computed | cleaned => trivial

namespace Closing.Passes

variable {a b : Closing.Place H}

theorem ne_closing (hpasses : Passes s a h h' b) : b ≠ .closing := by
  cases hpasses <;> simp

theorem handled_eq (hpasses : Passes s a h h' b) (hclosing : a ≠ .closing) :
    b.handled = a.handled := by
  cases hpasses with
  | already | began => exact absurd rfl hclosing
  | logged | took | spared => rfl

theorem rest_subset (hpasses : Passes s a h h' b) (hclosing : a ≠ .closing) : b.rest ⊆ a.rest := by
  cases hpasses with
  | already | began => exact absurd rfl hclosing
  | logged => exact List.Subset.refl _
  | took | spared => exact List.subset_cons_self _ _

theorem current?_ne_some {owed : Owed (Program H .done)} (hpasses : Passes s a h h' b) :
    a.current? ≠ some owed := by
  cases hpasses <;> simp [Place.current?]

/-- The first section closes the store and takes its entries, if it is open. -/
theorem of_closing (hpasses : Passes s a h h' b) (hclosing : a = .closing)
    (hopen : h.isClosed s = false) : h.beginClose s = some ((h.store s).entries, h') ∧
      b = .cleaning (h.store s).entries.reverse [] := by
  subst hclosing
  cases hpasses with
  | already hclosed =>
      rw [hopen] at hclosed
      cases hclosed
  | began hbegin =>
      obtain ⟨-, rfl, -⟩ := Heap.of_beginClose hbegin
      exact ⟨hbegin, rfl⟩

/-- Whoever closes the store comes to a cleanup action that is owed, or leaves it owed. -/
theorem awaiting {owed : Owed (Program H .done)} (hpasses : Passes s a h h' b)
    (hclosing : a ≠ .closing)
    (hapart : ∀ k k' i, (k, i) ∈ a.rest → (k', i) ∈ a.rest → k = k')
    (howed : h.cleanup? owed.slot = some owed.action) (hrest : (owed.key, owed.slot) ∈ a.rest) :
    (h'.cleanup? owed.slot = some owed.action ∧ (owed.key, owed.slot) ∈ b.rest) ∨
      b.current? = some owed := by
  cases hpasses with
  | already | began => exact absurd rfl hclosing
  | logged => exact .inl ⟨howed, hrest⟩
  | spared hnone =>
      rcases List.mem_cons.mp hrest with hhead | htail
      · cases hhead
        rw [hnone] at howed
        cases howed
      · exact .inl ⟨howed, htail⟩
  | @took _ k i _ _ action haction =>
      by_cases hslot : owed.slot = i
      · -- No other key has this slot.
        have hkey : owed.key = k := by
          rw [hslot] at hrest
          exact hapart _ _ i hrest List.mem_cons_self
        rw [hslot, haction] at howed
        cases howed
        rw [Place.current?, ← hkey, ← hslot]
        exact .inr rfl
      · refine .inl ⟨?_, (List.mem_cons.mp hrest).resolve_left fun hhead => hslot (congrArg Prod.snd hhead)⟩
        rw [Heap.cleanup?_of_slot_eq (Heap.slot_takeCleanup_of_ne hslot)]
        exact howed

end Closing.Passes

end Slots

end TimedInvocation
