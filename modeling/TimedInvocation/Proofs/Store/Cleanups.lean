import TimedInvocation.Proofs.Composition
import TimedInvocation.Proofs.Store.Frame
import TimedInvocation.Proofs.Store.Handover

/-!
# Cleanup actions in sequential runs

Whatever programs do, in factories, in cleanup actions and around them, keeps the heap sound and
respects what surrounding operations are in the middle of. The history of a sound heap tells that a
cleanup action runs at most once, not before its store was closed, and never after its value was handed
back.
-/

namespace TimedInvocation

open StoreOccurrence World

variable {H : Host} {α β : Type} {C : Type}

namespace Heap

variable {h h₀ h₁ h' : Heap C} {s : StoreId} {i j : SlotId}

/-- Complete operations lead from one heap to another, which is sound. -/
structure LeadsTo (h h' : Heap C) : Prop where
  sound : h'.Sound
  respects : h.Respects h'

theorem LeadsTo.refl (hsound : h.Sound) : h.LeadsTo h :=
  ⟨hsound, .refl h⟩

theorem LeadsTo.trans (hfirst : h.LeadsTo h₁) (hrest : h₁.LeadsTo h') : h.LeadsTo h' :=
  ⟨hrest.sound, hfirst.respects.trans hrest.respects⟩

theorem LeadsTo.claim (hleads : h₀.LeadsTo h) (hgrants : h₀.Grants i) (hi : i < h.slots.length)
    (s : StoreId) : h₀.LeadsTo (h.claim s i).2 :=
  ⟨hleads.sound.claim hi s, hleads.respects.claim hgrants s⟩

theorem LeadsTo.vacate (hleads : h₀.LeadsTo h) (hgrants : h₀.Grants i) (hi : i < h.slots.length)
    (hvalue : (h.slot i).value? = none) : h₀.LeadsTo (h.vacate i) :=
  ⟨hleads.sound.vacate hi hvalue, hleads.respects.vacate hgrants⟩

theorem LeadsTo.fill (hleads : h₀.LeadsTo h) (hgrants : h₀.Grants i)
    (hentered : StoreOccurrence.entered s i ∈ h.trace) (hvalue : (h.slot i).value? = none)
    (stored : Stored C) : h₀.LeadsTo (h.fill s i stored) :=
  ⟨hleads.sound.fill hentered hvalue stored, hleads.respects.fill hgrants s stored⟩

/-- A slot that a closed store got, with a value that was not handed back or with none. -/
structure Leftover (h : Heap C) (s : StoreId) (i : SlotId) : Prop where
  entered : StoreOccurrence.entered s i ∈ h.trace
  closed : StoreOccurrence.closed s ∈ h.trace
  kept : released i ∉ h.trace

namespace Leftover

theorem not_attached (hleft : h.Leftover s i) (hsound : h.Sound) : ¬ h.Attached i := by
  rintro ⟨s', k, hentry⟩
  have hstore : s' = s :=
    hsound.consistent.store_unique (hsound.entered_of_mem hentry) hleft.entered
  rw [hstore, hsound.emptied s ((hsound.closed_iff s).mp hleft.closed).2] at hentry
  exact List.not_mem_nil hentry

theorem lt_length (hleft : h.Leftover s i) (hsound : h.Sound) : i < h.slots.length :=
  (hsound.entered_lt s i hleft.entered).2

/-- Complete operations leave it as it is. -/
theorem leadsTo (hleft : h.Leftover s i) (hsound : h.Sound) (hleads : h.LeadsTo h') :
    h'.Leftover s i ∧ h'.slot i = h.slot i := by
  obtain ⟨-, hslot, hreleased⟩ :=
    hleads.respects.detached i (hleft.lt_length hsound) (hleft.not_attached hsound)
  refine ⟨⟨hleads.respects.mem_trace hleft.entered, hleads.respects.mem_trace hleft.closed, ?_⟩,
    hslot⟩
  intro hmem
  exact hleft.kept (hreleased hmem)

theorem takeCleanup (hleft : h.Leftover s i) (j : SlotId) : (h.takeCleanup j).2.Leftover s i := by
  rw [Heap.takeCleanup]
  split
  · refine ⟨List.mem_cons_of_mem _ hleft.entered, List.mem_cons_of_mem _ hleft.closed, ?_⟩
    simpa [recorded] using hleft.kept
  · exact hleft

end Leftover

theorem LeadsTo.takeCleanup (hleads : h₀.LeadsTo h) (hleft : h.Leftover s i)
    (hattached : i < h₀.slots.length → h₀.Attached i) : h₀.LeadsTo (h.takeCleanup i).2 :=
  ⟨hleads.sound.takeCleanup hleft.entered hleft.closed hleft.kept,
    hleads.respects.takeCleanup hattached⟩

/-- A slot that is filled after its store was closed is left over. -/
theorem Sound.leftover_of_fill (hsound : h.Sound)
    (hentered : StoreOccurrence.entered s i ∈ h.trace) (hvalue : (h.slot i).value? = none)
    (hclosed : h.isClosed s = true) (stored : Stored C) : (h.fill s i stored).Leftover s i := by
  have hmem : StoreOccurrence.closed s ∈ h.trace :=
    (hsound.closed_iff s).mpr ⟨(hsound.entered_lt s i hentered).1, hclosed⟩
  refine ⟨List.mem_cons_of_mem _ hentered, List.mem_cons_of_mem _ hmem, ?_⟩
  simpa [Heap.fill, recorded] using hsound.not_released hvalue

/-- The slot that a computation gets is one of an open store, found there or new. -/
theorem Sound.of_reserve_slot (hsound : h.Sound) {k : Key} (hslot : (h.reserve s k).1 = .slot i) :
    (h.reserve s k).2.isClosed s = false ∧
      StoreOccurrence.entered s i ∈ (h.reserve s k).2.trace ∧
      (i < h.slots.length → h.Attached i) := by
  rw [Heap.reserve] at hslot ⊢
  split at hslot
  · cases hslot
  · next hclosed =>
    have hopen : h.isClosed s = false := Bool.eq_false_iff.mpr hclosed
    rw [if_neg hclosed]
    split at hslot
    · next j hfound =>
      cases hslot
      have hentry : (k, i) ∈ (h.store s).entries := Store.mem_of_slot? hfound
      exact ⟨hopen, hsound.entered_of_mem hentry, fun _ => ⟨s, k, hentry⟩⟩
    · split at hslot
      · cases hslot
      · cases hslot
        refine ⟨?_, List.mem_cons_self, fun hlt => absurd hlt (Nat.lt_irrefl _)⟩
        change (h.addEntry s k .vacant).2.isClosed s = false
        rw [isClosed, store_addEntry hopen, if_pos rfl]
        exact hopen

/-- The entries that are taken out of a store when it is closed are left over. -/
theorem Sound.leftover_of_beginClose (hsound : h.Sound) {entries : List (Key × SlotId)}
    (hclose : h.beginClose s = some (entries, h')) {entry : Key × SlotId}
    (hentry : entry ∈ entries) : h'.Leftover s entry.2 ∧ h.Attached entry.2 := by
  obtain ⟨-, rfl, rfl⟩ := of_beginClose hclose
  -- The entries were in the store up to now, so none of their values was handed back.
  have hattached : h.Attached entry.2 := ⟨s, entry.1, hentry⟩
  refine ⟨⟨?_, List.mem_cons_self, ?_⟩, hattached⟩
  · exact List.mem_cons_of_mem _ (hsound.entered_of_mem hentry)
  · simpa [recorded] using hsound.held entry.2 hattached

end Heap

/-- Plain moves lead to sound heaps. -/
theorem World.Plain.leadsTo {w w' : World H} (hplain : Plain w w') (hsound : w.heap.Sound) :
    w.heap.LeadsTo w'.heap := by
  cases hplain.heapEffect with
  | same hheap =>
      rw [hheap]
      exact .refl hsound
  | storeMade ancestors _ hheap =>
      rw [hheap]
      exact ⟨hsound.addStore _, .addStore _⟩
  | put hput => exact ⟨hsound.put hput, .put hput⟩
  | removed hremove => exact ⟨hsound.remove hremove, .remove hremove⟩

/-- An act that, with a sound heap to itself, leads from it to sound heaps all the time. -/
def Act.Safe (act : Act H α) : Prop :=
  ∀ h, h.Sound → act.Always h.LeadsTo (fun _ _ => True) h

namespace Act

theorem Safe.andThen {act : Act H α} {rest : α → Act H β} (hact : act.Safe)
    (hrest : ∀ a, (rest a).Safe) : (act.andThen rest).Safe := by
  intro h hsound
  apply (hact h hsound).andThen
  · intro a h₁ hleads _
    exact (hrest a h₁ hleads.sound).mono (fun _ hmore => hleads.trans hmore) fun _ _ _ _ => trivial
  · intros
    trivial

theorem Safe.attempt {act : Act H α} (hact : act.Safe) : act.attempt.Safe := by
  intro h hsound
  exact (hact h hsound).attempt.mono (fun _ hleads => hleads) fun _ _ _ _ => trivial

/-- A safe act leads on from whatever heap it starts in. -/
theorem Safe.from {act : Act H α} (hact : act.Safe) {h₀ h : Heap (Program H .done)}
    (hleads : h₀.LeadsTo h) : act.Always h₀.LeadsTo (fun _ => h.LeadsTo) h :=
  (hact h hleads.sound).mono (fun _ hmore => hleads.trans hmore) fun _ _ hmore _ => hmore

end Act

namespace Routine

variable {runner : Runner H} {h₀ h : Heap (Program H .done)} {s : StoreId} {i : SlotId}

/-- Cleaning a slot of a closed store leaves the other slots of that store to be cleaned. -/
theorem always_cleanSlot (hrunner : ∀ {r : Reply} (program : Program H r), (runner program).Safe)
    (hleads : h₀.LeadsTo h) (hleft : h.Leftover s i)
    (hattached : i < h₀.slots.length → h₀.Attached i) (k : Key) :
    (cleanSlot k i).Always @runner h₀.LeadsTo
      (fun _ h' => ∀ j, h.Leftover s j → h'.Leftover s j) h := by
  apply always_update_bind hleads
  rintro w rfl
  have htaken : h₀.LeadsTo (w.heap.takeCleanup i).2 := hleads.takeCleanup hleft hattached
  change Always @runner h₀.LeadsTo _ _ (w.heap.takeCleanup i).2
  cases (w.takeCleanup i).1 with
  | none => exact always_pure htaken fun j hj => hj.takeCleanup i
  | some cleanup =>
      apply always_attempt_run_bind ((hrunner cleanup).from htaken)
      intro outcome h' hafter hcall
      apply always_pure hafter
      intro j hj
      exact ((hj.takeCleanup i).leadsTo htaken.sound hcall).1

theorem always_cleanEntries
    (hrunner : ∀ {r : Reply} (program : Program H r), (runner program).Safe)
    (hleads : h₀.LeadsTo h) (entries : List (Key × SlotId))
    (hentries : ∀ entry ∈ entries, h.Leftover s entry.2 ∧ h₀.Attached entry.2) :
    (cleanEntries entries).Always @runner h₀.LeadsTo (fun _ _ => True) h := by
  induction entries generalizing h with
  | nil => exact always_pure hleads trivial
  | cons entry rest ih =>
      obtain ⟨hleft, hattached⟩ := hentries entry List.mem_cons_self
      apply (always_cleanSlot hrunner hleads hleft (fun _ => hattached) entry.1).bind
      · intro error h₁ hleads₁ hstill
        apply Always.bind (Q := fun _ _ => True)
        · apply ih hleads₁
          intro other hother
          obtain ⟨hleft', hattached'⟩ := hentries other (List.mem_cons_of_mem _ hother)
          exact ⟨hstill _ hleft', hattached'⟩
        · intro errors h₂ hleads₂ _
          exact always_pure hleads₂ trivial
        · intros
          trivial
      · intros
        trivial

theorem always_close (hrunner : ∀ {r : Reply} (program : Program H r), (runner program).Safe)
    (hsound : h.Sound) (s : StoreId) :
    (close s).Always @runner h.LeadsTo (fun _ _ => True) h := by
  apply always_update_bind (.refl hsound)
  rintro w rfl
  cases hclose : w.heap.beginClose s with
  | none =>
      simp only [World.beginClose, hclose]
      exact always_pure (.refl hsound) trivial
  | some made =>
      obtain ⟨entries, h'⟩ := made
      simp only [World.beginClose, hclose]
      have hbegun : w.heap.LeadsTo h' := ⟨hsound.beginClose hclose, .beginClose hclose⟩
      apply always_log_bind hbegun
      apply Always.bind (Q := fun _ _ => True)
      · apply always_cleanEntries hrunner hbegun
        intro entry hentry
        exact hsound.leftover_of_beginClose hclose (List.mem_reverse.mp hentry)
      · intro errors h₁ hleads₁ _
        split
        · exact always_pure hleads₁ trivial
        · exact always_pure hleads₁ trivial
      · intros
        trivial

/-- Whoever marks a slot may fill it in the end. If the store was closed in the meantime, the slot is
left over for the cleanup. -/
theorem always_fillSlot {t : Ty} {factory : Routine H (DatumOf t)}
    (hfactory : (factory.play @runner).Safe) (cleanup : Option (Value → Program H .done))
    (hleads : h₀.LeadsTo h) (hopen : h.isClosed s = false)
    (hentered : entered s i ∈ h.trace) (hattached : i < h₀.slots.length → h₀.Attached i) :
    (fillSlot s i factory cleanup).Always @runner h₀.LeadsTo
      (fun outcome h' => ∀ v, outcome = .returned v → h'.isClosed s = true → h'.Leftover s i) h := by
  apply always_updateAfter_bind hleads
  rintro w rfl hover
  have hi : i < w.heap.slots.length := (hleads.sound.entered_lt s i hentered).2
  -- The wait is over, so nobody who began before is computing the slot.
  have hgrants : h₀.Grants i := by
    refine ⟨hattached, fun hmarked => ?_⟩
    have hcomputing := hleads.respects.computing i hmarked
    simp [Pause.isOver, Heap.isSettled, hcomputing] at hover
  have hclaimed : h₀.LeadsTo (w.heap.claim s i).2 := hleads.claim hgrants hi s
  cases hvalue : (w.heap.slot i).value? with
  | some v =>
      simp only [World.claim, Heap.claim, hvalue]
      apply always_pure hleads
      intro v' _ hclosed
      exact absurd (hopen.symm.trans hclosed) Bool.false_ne_true
  | none =>
      simp only [Heap.claim, hvalue] at hclaimed
      simp only [World.claim, Heap.claim, hvalue]
      have hmarked : ((w.heap.setSlot i .computing).recorded (.factory s i)).slot i = .computing := by
        rw [Heap.slot_recorded, Heap.slot_setSlot hi, if_pos rfl]
      apply (Always.attempt (hfactory.from hclaimed)).bind
      · rintro outcome h₁ hleads₁ ⟨inner, hinner, hfactory₁⟩
        cases hinner
        -- Whatever the factory did, it has left the marked slot to this computation.
        have hcomputing : h₁.slot i = .computing := hfactory₁.respects.computing i hmarked
        have hvalue₁ : (h₁.slot i).value? = none := by
          rw [hcomputing]
          rfl
        have hentered₁ : entered s i ∈ h₁.trace :=
          hfactory₁.respects.mem_trace (List.mem_cons_of_mem _ hentered)
        have hi₁ : i < h₁.slots.length := (hleads₁.sound.entered_lt s i hentered₁).2
        cases outcome with
        | panicked payload =>
            apply always_change_bind hleads₁
            rintro w₁ rfl
            refine ⟨hleads₁.vacate hgrants hi₁ hvalue₁, ?_⟩
            intro v hreturned
            cases hreturned
        | returned datum =>
            apply always_update hleads₁
            rintro w₁ rfl
            refine ⟨hleads₁.fill hgrants hentered₁ hvalue₁ _, ?_⟩
            intro v _ hclosed
            exact hleads₁.sound.leftover_of_fill hentered₁ hvalue₁ hclosed _
      · rintro payload h₁ - ⟨inner, hinner, -⟩
        cases hinner

theorem always_useSlot (hrunner : ∀ {r : Reply} (program : Program H r), (runner program).Safe)
    (hleads : h₀.LeadsTo h) (hleft : h.isClosed s = true → h.Leftover s i)
    (hattached : i < h₀.slots.length → h₀.Attached i) (k : Key) (t : Ty) (v : Value) :
    (useSlot s k t i v).Always @runner h₀.LeadsTo (fun _ _ => True) h := by
  apply always_view_bind hleads
  rintro w rfl
  cases hclosed : w.heap.isClosed s with
  | false => exact always_pure hleads trivial
  | true =>
      apply (always_cleanSlot hrunner hleads (hleft hclosed) hattached k).bind
      · intro error h₁ hleads₁ _
        cases error with
        | none => exact always_pure hleads₁ trivial
        | some error => exact always_log_bind hleads₁ (always_pure hleads₁ trivial)
      · intros
        trivial

theorem always_compute (hrunner : ∀ {r : Reply} (program : Program H r), (runner program).Safe)
    {t : Ty} {factory : Routine H (DatumOf t)} (hfactory : (factory.play @runner).Safe)
    (cleanup : Option (Value → Program H .done)) (hsound : h.Sound) (s : StoreId) (k : Key) :
    (compute s k t factory cleanup).Always @runner h.LeadsTo (fun _ _ => True) h := by
  apply always_update_bind (.refl hsound)
  rintro w rfl
  have hreserved : w.heap.LeadsTo (w.heap.reserve s k).2 := ⟨hsound.reserve s k, .reserve s k⟩
  change Always @runner w.heap.LeadsTo _ _ (w.heap.reserve s k).2
  cases hadmission : (w.reserve s k).1 with
  | refused => exact always_pure hreserved trivial
  | inherited v => exact always_pure hreserved trivial
  | slot i =>
      obtain ⟨hopen, hentered, hattached⟩ := hsound.of_reserve_slot hadmission
      apply (always_fillSlot hfactory cleanup hreserved hopen hentered hattached).bind
      · intro v h₁ hleads₁ hleft
        exact always_useSlot hrunner hleads₁ (hleft v rfl) hattached k t v
      · intros
        trivial

/-- Whatever is composed of plain moves, safe calls, computations and closings is safe. -/
theorem Composed.safe (hrunner : ∀ {r : Reply} (program : Program H r), (runner program).Safe)
    {routine : Routine H α} (hroutine : routine.Composed) : (routine.play @runner).Safe := by
  induction hroutine with
  | ended outcome => exact fun h hsound => ⟨.refl hsound, trivial⟩
  | @step α pause change next hplain _ _ ih =>
      intro h hsound
      refine ⟨.refl hsound, ?_⟩
      rintro w rfl -
      have hleads : w.heap.LeadsTo (change w).heap := (hplain w).leadsTo hsound
      exact (ih w _ hleads.sound).mono (fun _ hmore => hleads.trans hmore) fun _ _ _ _ => trivial
  | call program _ ih => exact (hrunner program).attempt.andThen ih
  | andThen _ _ hfirst hrest =>
      rw [play_andThen]
      exact hfirst.andThen hrest
  | attempt _ ih =>
      rw [play_attempt]
      exact ih.attempt
  | compute s k t cleanup _ ih => exact fun h hsound => always_compute hrunner ih cleanup hsound s k
  | close s => exact fun h hsound => always_close hrunner hsound s

end Routine

theorem Act.compositional_safe : Act.Compositional fun {_} (act : Act H _) => act.Safe where
  ended _ := fun _ hsound => ⟨.refl hsound, trivial⟩
  forever := fun _ hsound =>
    ⟨.refl hsound, fun _ _ hover => by simp [Pause.isOver, Pause.endless] at hover⟩
  andThen hact hrest := hact.andThen hrest
  attempt hact := hact.attempt
  play hroutine _ hrunner := hroutine.safe hrunner

/-- Whatever programs do to the heap is safe. -/
theorem Program.safe_exec (fuel : Nat) (worker : Option Nat) {r : Reply} (program : Program H r) :
    (program.exec fuel worker).Safe :=
  Act.compositional_safe.exec fuel worker program

namespace Heap

variable {h h' : Heap C} {s : StoreId} {k : Key} {v : Value}

/-- Whoever takes the value of an entry out of a store has it recorded that it was handed back. -/
theorem mem_trace_forget (hvalue : h.localValue? s k = some v) :
    ∃ i, (k, i) ∈ (h.store s).entries ∧ (h.slot i).value? = some v ∧
      released i ∈ (h.forget s k).trace := by
  rw [localValue?] at hvalue
  obtain ⟨i, hslot, hvalue⟩ := Option.bind_eq_some_iff.mp hvalue
  refine ⟨i, Store.mem_of_slot? hslot, hvalue, ?_⟩
  simp [forget, releasing, hslot, hvalue, recorded]

theorem handed_back_of_put {stored : Stored C} (hput : h.put s k stored = .ok (some v, h')) :
    ∃ i, (k, i) ∈ (h.store s).entries ∧ (h.slot i).value? = some v ∧ released i ∈ h'.trace := by
  obtain ⟨-, hvalue, rfl⟩ := of_put hput
  obtain ⟨i, hentry, hslot, hreleased⟩ := mem_trace_forget hvalue.symm
  exact ⟨i, hentry, hslot, List.mem_cons_of_mem _ (List.mem_cons_of_mem _ hreleased)⟩

theorem handed_back_of_remove {t : Ty} (hremove : h.remove s k t = .ok (some v, h')) :
    ∃ i, (k, i) ∈ (h.store s).entries ∧ (h.slot i).value? = some v ∧ released i ∈ h'.trace := by
  rcases of_remove hremove with ⟨hnone, -⟩ | ⟨hvalue, rfl⟩
  · cases hnone
  · exact mem_trace_forget hvalue.symm

/-- A cleanup action that was taken was given to a value of a store that has been closed since. -/
theorem Sound.closed_of_cleaned {h : Heap C} (hsound : h.Sound) {i : SlotId}
    (hcleaned : cleaned i ∈ h.trace) :
    ∃ s, entered s i ∈ h.trace ∧ filled s i true ∈ h.trace ∧ closed s ∈ h.trace := by
  obtain ⟨later, earlier, htrace⟩ := List.append_of_mem hcleaned
  have hconsistent := hsound.consistent
  rw [htrace] at hconsistent
  have hhere := hconsistent.of_append
  obtain ⟨s, hfilled, hclosed⟩ := hhere.1
  have hearlier : earlier ⊆ h.trace := by
    rw [htrace]
    exact fun o ho => List.mem_append_right _ (List.mem_cons_of_mem _ ho)
  exact ⟨s, hearlier (hhere.tail.entered_of_filled hfilled), hearlier hfilled, hearlier hclosed⟩

theorem cleanup?_empty (i : SlotId) : (empty : Heap C).cleanup? i = none := by
  simp [cleanup?, slot, empty]

end Heap

theorem World.heap_put {w w' : World H} {s : StoreId} {k : Key} {datum : Datum}
    {cleanup : Option (Value → Program H .done)} {previous : Option Value}
    (hput : w.put s k datum cleanup = (.ok previous, w')) :
    ∃ stored, w.heap.put s k stored = .ok (previous, w'.heap) := by
  refine ⟨⟨⟨w.values, datum⟩, cleanup.map fun f => f ⟨w.values, datum⟩⟩, ?_⟩
  rw [World.put] at hput
  split at hput
  · cases hput
  · next hheap =>
    cases hput
    exact hheap

theorem World.heap_remove {w w' : World H} {s : StoreId} {k : Key} {t : Ty} {taken : Option Value}
    (hremove : w.remove s k t = (.ok taken, w')) : w.heap.remove s k t = .ok (taken, w'.heap) := by
  rw [World.remove] at hremove
  split at hremove
  · cases hremove
  · next hheap =>
    cases hremove
    exact hheap

/-- What holds of the cleanup actions that are called in a run up to a world. Each of them is called by whoever
has just taken it, is one that was given to a value, and is called once at most: not before the store that owns
it was closed, and never if its value is handed back by a put or a removal. -/
structure CleanupLaw (notes : List (Note H)) (w : World H) : Prop where
  due : ∀ c, .called c ∈ notes → c.Due
  given : ∀ c, .called c ∈ notes → ∀ i cleanup, c.cleaning? = some (i, cleanup) →
    ∃ x, .made x ∈ notes ∧ x.Gives i cleanup
  once : ∀ i, notes.countP (Note.cleans i) ≤ 1
  afterClose : ∀ c, .called c ∈ notes → ∀ i cleanup, c.cleaning? = some (i, cleanup) →
    ∃ s, entered s i ∈ c.start.heap.trace ∧ filled s i true ∈ c.start.heap.trace ∧
      closed s ∈ c.start.heap.trace
  notHandedBack : ∀ i, released i ∈ w.heap.trace → notes.countP (Note.cleans i) = 0
  put : ∀ x, .made x ∈ notes → ∀ s k datum cleanup v,
    x.found.put s k datum cleanup = (.ok (some v), x.left) →
      ∃ i, (k, i) ∈ (x.found.heap.store s).entries ∧ (x.found.heap.slot i).value? = some v ∧
        notes.countP (Note.cleans i) = 0
  remove : ∀ x, .made x ∈ notes → ∀ s k t v, x.found.remove s k t = (.ok (some v), x.left) →
    ∃ i, (k, i) ∈ (x.found.heap.store s).entries ∧ (x.found.heap.slot i).value? = some v ∧
      notes.countP (Note.cleans i) = 0

section Law

variable {fuel : Nat} {worker : Option Nat} {r : Reply} {program : Program H r} {state : H.State}
  {w : World H} {notes : List (Note H)} {ending : Option (Outcome (r.Carrier H))}

/-- Whatever world is told of, its heap is sound. -/
theorem Program.sound_of_goes
    (hgoes : (program.tale fuel worker).Goes SameHeap none (World.initial state) notes ending w) :
    w.heap.Sound := by
  have hvisits := hgoes.visits
  rw [program.act_tale] at hvisits
  exact ((program.safe_exec fuel worker _ .empty).visits hvisits).sound

theorem Program.sound_start
    (hgoes : (program.tale fuel worker).Goes SameHeap none (World.initial state) notes ending w)
    {c : CallStart H} (hc : .called c ∈ notes) : c.start.heap.Sound := by
  have hvisits := hgoes.visits_start hc
  rw [program.act_tale] at hvisits
  exact ((program.safe_exec fuel worker _ .empty).visits hvisits).sound

/-- In a run from the beginning there are not more calls of a cleanup action than marks of it. -/
theorem Program.countP_cleans_le
    (hgoes : (program.tale fuel worker).Goes SameHeap none (World.initial state) notes ending w)
    (i : SlotId) : notes.countP (Note.cleans i) ≤ w.heap.trace.count (cleaned i) := by
  obtain ⟨rest, hcount, -⟩ := hgoes.countP_cleans (program.punctual_tale fuel worker rfl) i
  rw [owing_of_idle rfl] at hcount
  omega

/-- A slot whose value is handed back in a section of the run is not cleaned. -/
theorem Program.countP_cleans_of_released
    (hgoes : (program.tale fuel worker).Goes SameHeap none (World.initial state) notes ending w)
    {i : SlotId} (hreleased : released i ∈ w.heap.trace) : notes.countP (Note.cleans i) = 0 := by
  have hle := countP_cleans_le hgoes i
  have hnot := (sound_of_goes hgoes).consistent.not_cleaned_of_released hreleased
  rw [List.count_eq_zero_of_not_mem hnot] at hle
  exact Nat.le_zero.mp hle

theorem Program.cleanupLaw
    (hgoes : (program.tale fuel worker).Goes SameHeap none (World.initial state) notes ending w) :
    CleanupLaw notes w := by
  have hpunctual : (program.tale fuel worker).Punctual none := program.punctual_tale fuel worker rfl
  have hsound := sound_of_goes hgoes
  have hback {x : Section H} (hx : .made x ∈ notes) {i : SlotId}
      (hreleased : released i ∈ x.left.heap.trace) : notes.countP (Note.cleans i) = 0 :=
    countP_cleans_of_released hgoes ((hgoes.extends_of_made hpunctual hx).trace.subset hreleased)
  refine ⟨fun c hc => hgoes.due hpunctual hc, fun c hc i cleanup hcleans => ?_, fun i => ?_,
    fun c hc i cleanup hcleans => ?_, fun i => countP_cleans_of_released hgoes,
    fun x hx s k datum cleanup v hput => ?_, fun x hx s k t v hremove => ?_⟩
  · have hnothing (j : SlotId) (p : Program H .done)
        (howed : (World.initial state).heap.cleanup? j = some p) : False :=
      nomatch (Heap.cleanup?_empty j).symm.trans howed
    exact (hgoes.given hpunctual hnothing (fun _ _ hnone => nomatch hnone) hc hcleans).resolve_left id
  · exact Nat.le_trans (countP_cleans_le hgoes i) (hsound.consistent.count_cleaned_le_one i)
  · exact (sound_start hgoes hc).closed_of_cleaned
      (hgoes.cleaned_start (fun _ hnone => nomatch hnone) hc hcleans)
  · obtain ⟨stored, hheap⟩ := World.heap_put hput
    obtain ⟨i, hentry, hvalue, hreleased⟩ := Heap.handed_back_of_put hheap
    exact ⟨i, hentry, hvalue, hback hx hreleased⟩
  · obtain ⟨i, hentry, hvalue, hreleased⟩ := Heap.handed_back_of_remove (World.heap_remove hremove)
    exact ⟨i, hentry, hvalue, hback hx hreleased⟩

end Law

/-- Wherever a sequential run of a program gets to, what is told of it follows the law: every cleanup action is
called at most once, after the store that owns it was closed, and not if its value is handed back. -/
theorem cleanup_runs_once_after_close (fuel : Nat) (worker : Option Nat) {r : Reply}
    (program : Program H r) (state : H.State) (w : World H)
    (hvisits : (program.exec fuel worker).Visits SameHeap (World.initial state) w) :
    (program.tale fuel worker).act = program.exec fuel worker ∧
      (∃ notes ending,
        (program.tale fuel worker).Goes SameHeap none (World.initial state) notes ending w) ∧
      ∀ notes ending,
        (program.tale fuel worker).Goes SameHeap none (World.initial state) notes ending w →
          CleanupLaw notes w := by
  have hact := program.act_tale fuel worker
  refine ⟨hact, ?_, fun notes ending hgoes => Program.cleanupLaw hgoes⟩
  rw [← hact] at hvisits
  exact Tale.goes_of_visits hvisits

/-- A store gets a value with a cleanup action and is closed, twice. -/
def Program.putAndClose : Program Host.bare .done :=
  .call (.newStore none) fun s =>
    .putWithCleanup s ⟨⟨["files"]⟩, "log"⟩ .unit (fun _ => .finish (.ok ())) fun _ =>
      .call (.close s) fun _ => .call (.close s) fun _ => .finish (.ok ())

theorem cleanup_runs_once_after_close_putAndClose :
    let w := ((Program.putAndClose.exec 6 none).advance (World.initial ())).2
    w.heap.trace = [cleaned 0, closed 0, filled 0 0 true, entered 0 0] ∧
      ∃ notes ending,
        (Program.putAndClose.tale 6 none).Goes SameHeap none (World.initial ()) notes ending w ∧
          notes.countP (Note.cleans 0) = 1 ∧ CleanupLaw notes w := by
  intro w
  have hends : (Program.putAndClose.exec 6 none).Ends SameHeap (World.initial ())
      (.returned (.ok ())) w := Act.ends_advance rfl
  obtain ⟨hact, -, hlaw⟩ :=
    cleanup_runs_once_after_close 6 none Program.putAndClose () w (Act.visits_advance _ _)
  rw [← hact] at hends
  obtain ⟨notes, hgoes⟩ := Tale.goes_of_ends hends
  have htrace : w.heap.trace = [cleaned 0, closed 0, filled 0 0 true, entered 0 0] := by decide
  have hpunctual : (Program.putAndClose.tale 6 none).Punctual none :=
    Program.putAndClose.punctual_tale 6 none rfl
  obtain ⟨rest, hcount, hended⟩ := hgoes.countP_cleans hpunctual 0
  refine ⟨htrace, notes, _, hgoes, ?_, hlaw notes _ hgoes⟩
  rw [htrace, hended rfl, owing_of_idle rfl] at hcount
  exact hcount

end TimedInvocation
