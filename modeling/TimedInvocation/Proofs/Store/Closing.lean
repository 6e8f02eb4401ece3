import TimedInvocation.Proofs.Store.Cleanups
import TimedInvocation.Proofs.Store.Computation

/-!
# Closing a store

When an open store is closed, it loses its entries, and then the cleanup actions that were owed for them
run one after another, those of the newest entries first, whatever becomes of each of them and whatever
each of them does. The store stays closed, so that closing it again, from within a cleanup action or
later, does nothing.
-/

namespace TimedInvocation

open Relation StoreOccurrence World

variable {H : Host} {C : Type}

/-- A cleanup action that is owed for an entry of a store. -/
structure Owed (C : Type) where
  key : Key
  slot : SlotId
  action : C

namespace Heap

variable {h h' : Heap C} {s s' : StoreId} {i j : SlotId} {k : Key} {c : C}

/-- The cleanup actions that are owed for some entries, in the order of the entries. -/
def owed (h : Heap C) (entries : List (Key × SlotId)) : List (Owed C) :=
  entries.filterMap fun entry => (h.cleanup? entry.2).map (Owed.mk entry.1 entry.2)

theorem owed_congr {entries : List (Key × SlotId)}
    (hslots : ∀ entry ∈ entries, h'.slot entry.2 = h.slot entry.2) :
    h'.owed entries = h.owed entries := by
  apply List.filterMap_congr
  intro entry hentry
  rw [cleanup?, cleanup?, hslots entry hentry]

theorem map_slot_owed_sublist (h : Heap C) (entries : List (Key × SlotId)) :
    ((h.owed entries).map Owed.slot).Sublist (entries.map Prod.snd) := by
  induction entries with
  | nil => exact .slnil
  | cons entry rest ih =>
      rw [owed, List.filterMap_cons]
      cases h.cleanup? entry.2 with
      | none => exact ih.cons _
      | some c => exact ih.cons_cons _

/-- The history tells that a store was closed, and the heap is sound. -/
structure Shut (h : Heap C) (s : StoreId) : Prop where
  sound : h.Sound
  closed : StoreOccurrence.closed s ∈ h.trace

namespace Shut

theorem isClosed (hshut : h.Shut s) : h.isClosed s = true :=
  ((hshut.sound.closed_iff s).mp hshut.closed).2

theorem leadsTo (hshut : h.Shut s) (hleads : h.LeadsTo h') : h'.Shut s :=
  ⟨hleads.sound, hleads.respects.mem_trace hshut.closed⟩

theorem takeCleanup (hshut : h.Shut s) (hleft : h.Leftover s i) : (h.takeCleanup i).2.Shut s :=
  ⟨hshut.sound.takeCleanup hleft.entered hleft.closed hleft.kept, (hleft.takeCleanup i).closed⟩

end Shut

/-- Taking and running the cleanup action of one slot leaves what another one owes. -/
theorem Leftover.after_cleaning (hleft : h.Leftover s j) (hsound : (h.takeCleanup i).2.Sound)
    (hj : j ≠ i) (hleads : (h.takeCleanup i).2.LeadsTo h') :
    h'.Leftover s j ∧ h'.slot j = h.slot j := by
  obtain ⟨hleft', hslot⟩ := (hleft.takeCleanup i).leadsTo hsound hleads
  refine ⟨hleft', ?_⟩
  rw [hslot, slot_takeCleanup_of_ne hj]

/-- The slots of the entries that are taken out of a store are left over, each of them once, and owe
what they owed before. -/
theorem Sound.taken_by_beginClose (hsound : h.Sound) {entries : List (Key × SlotId)}
    (hclose : h.beginClose s = some (entries, h')) :
    h'.Shut s ∧ (∀ entry ∈ entries.reverse, h'.Leftover s entry.2) ∧
      (entries.reverse.map Prod.snd).Nodup ∧ h'.owed entries.reverse = h.owed entries.reverse := by
  have hleft (entry : Key × SlotId) (hentry : entry ∈ entries.reverse) : h'.Leftover s entry.2 :=
    (hsound.leftover_of_beginClose hclose (List.mem_reverse.mp hentry)).1
  have hsound' := hsound.beginClose hclose
  obtain ⟨-, rfl, rfl⟩ := of_beginClose hclose
  refine ⟨⟨hsound', List.mem_cons_self⟩, hleft, ?_, owed_congr fun _ _ => rfl⟩
  rw [List.map_reverse]
  exact List.nodup_reverse.mpr (hsound.nodup_slots s)

end Heap

/-- The stores stay as they are. -/
def World.SameStores (w w' : World H) : Prop :=
  ∀ s, w'.heap.store s = w.heap.store s

theorem World.SameHeap.sameStores {w w' : World H} (hheap : w'.heap = w.heap) : SameStores w w' := by
  intro s
  rw [hheap]

/-- The errors that the end of a cleanup action for a key contributes. -/
inductive CleanupReport (k : Key) : Outcome (Except Failure Unit) → List CleanupError → Prop where
  | succeeded : CleanupReport k (.returned (.ok ())) []
  | failed (e : Failure) : CleanupReport k (.returned (.error e)) [⟨k, e.chain⟩]
  | panicked (payload : Panic) : CleanupReport k (.panicked payload)
      [⟨k, .single ("cleanup panicked: " ++ payload.message?.getD "(non-string payload)")⟩]

theorem CleanupReport.ofOutcome (k : Key) (outcome : Outcome (Except Failure Unit)) :
    CleanupReport k outcome (Routine.cleanupFailure k outcome).toList := by
  cases outcome with
  | returned answer =>
      cases answer with
      | ok => exact .succeeded
      | error e => exact .failed e
  | panicked payload => exact .panicked payload

/-- Cleanup actions that are owed run one after another, each once and in this order, and contribute
errors. No store changes but by what they do. -/
inductive Cleanings (runner : Runner H) : World H → List (Owed (Program H .done)) →
    List (Call H .done) → List CleanupError → World H → Prop where
  | done {w w' : World H} (hgap : SameStores w w') : Cleanings @runner w [] [] [] w'
  | run {w w' : World H} {o : Owed (Program H .done)} {owed : List (Owed (Program H .done))}
      {c : Call H .done} {calls : List (Call H .done)} {own errors : List CleanupError}
      (hgap : SameStores w c.start) (hprogram : c.program = o.action)
      (hcall : (runner c.program).Ends SameHeap c.start c.outcome c.finish)
      (hreport : CleanupReport o.key c.outcome own)
      (hrest : Cleanings @runner c.finish owed calls errors w') :
      Cleanings @runner w (o :: owed) (c :: calls) (own ++ errors) w'

/-- There are no errors if and only if every cleanup action succeeded. -/
theorem Cleanings.errors_eq_nil_iff {runner : Runner H} {w w' : World H}
    {owed : List (Owed (Program H .done))} {calls : List (Call H .done)} {errors : List CleanupError}
    (hcleanings : Cleanings @runner w owed calls errors w') :
    errors = [] ↔ ∀ c ∈ calls, c.outcome = .returned (.ok ()) := by
  induction hcleanings with
  | done _ => simp
  | @run _ _ _ _ c _ own _ _ _ _ hreport _ ih =>
      have hown : own = [] ↔ c.outcome = .returned (.ok ()) := by
        generalize c.outcome = outcome at hreport
        cases hreport <;> simp
      rw [List.append_eq_nil_iff, List.forall_mem_cons, hown, ih]

theorem Cleanings.gap {runner : Runner H} {w₀ w w' : World H} {owed : List (Owed (Program H .done))}
    {calls : List (Call H .done)} {errors : List CleanupError} (hgap : SameStores w₀ w)
    (hcleanings : Cleanings @runner w owed calls errors w') :
    Cleanings @runner w₀ owed calls errors w' := by
  cases hcleanings with
  | done hlater => exact .done fun s => (hlater s).trans (hgap s)
  | run hlater hprogram hcall hreport hrest =>
      exact .run (fun s => (hlater s).trans (hgap s)) hprogram hcall hreport hrest

namespace Routine

variable {runner : Runner H} {w w' : World H} {s : StoreId} {marks : List (Mark H)}

/-- To clean a slot is to take the cleanup action that it owes by then, if any, and to run it. -/
theorem runs_cleanSlot_among {others : World H → World H → Prop} {k : Key} {i : SlotId}
    {outcome : Outcome (Option CleanupError)}
    (hruns : (cleanSlot k i).Runs others @runner w marks outcome w') :
    ∃ w₁, ReflTransGen others w w₁ ∧
      ((w₁.heap.cleanup? i = none ∧ marks = [] ∧ outcome = .returned none ∧
          ReflTransGen others w₁ w') ∨
        ∃ c : Call H .done, w₁.heap.cleanup? i = some c.program ∧ marks = [.called c] ∧
          outcome = .returned (cleanupFailure k c.outcome) ∧
          ReflTransGen others (w₁.takeCleanup i).2 c.start ∧
          (runner c.program).Ends others c.start c.outcome c.finish ∧
          ReflTransGen others c.finish w') := by
  obtain ⟨w₁, hwait, hrest⟩ := runs_silent_update_bind hruns fun _ => rfl
  refine ⟨w₁, hwait, ?_⟩
  cases hcleanup : w₁.heap.cleanup? i with
  | none =>
      have htaken : w₁.takeCleanup i = (none, w₁) := by
        rw [World.takeCleanup, Heap.takeCleanup_of_none hcleanup]
      rw [htaken] at hrest
      obtain ⟨rfl, rfl, hafter⟩ := runs_pure_iff.mp hrest
      exact .inl ⟨rfl, rfl, rfl, hafter⟩
  | some cleanup =>
      have htaken : (w₁.takeCleanup i).1 = some cleanup := Heap.takeCleanup_of_some hcleanup
      rw [htaken] at hrest
      rcases runs_bind_iff.mp hrest with
        ⟨ending, w₂, first, second, hfirst, hsecond, rfl⟩ | ⟨payload, hfirst, rfl⟩
      · obtain ⟨ending', hending, hcall⟩ := runs_attempt_iff.mp hfirst
        cases hending
        obtain ⟨c, rfl, hbefore, hends, hafter, rfl, rfl⟩ := runs_run_iff.mp hcall
        obtain ⟨rfl, rfl, hlast⟩ := runs_pure_iff.mp hsecond
        exact .inr ⟨c, rfl, rfl, rfl, hbefore, hends, hafter.trans hlast⟩
      · obtain ⟨ending', hending, -⟩ := runs_attempt_iff.mp hfirst
        cases hending

/-- To clean a slot is to run the cleanup action that it owes, if any. -/
theorem runs_cleanSlot {k : Key} {i : SlotId} {outcome : Outcome (Option CleanupError)}
    (hruns : (cleanSlot k i).Runs SameHeap @runner w marks outcome w') :
    (w.heap.cleanup? i = none ∧ marks = [] ∧ outcome = .returned none ∧ w'.heap = w.heap) ∨
      ∃ c : Call H .done, w.heap.cleanup? i = some c.program ∧ marks = [.called c] ∧
        outcome = .returned (cleanupFailure k c.outcome) ∧
        c.start.heap = (w.heap.takeCleanup i).2 ∧
        (runner c.program).Ends SameHeap c.start c.outcome c.finish ∧ w'.heap = c.finish.heap := by
  obtain ⟨w₁, hwait, hcleaned⟩ := runs_cleanSlot_among hruns
  rw [← heap_eq_of_waiting hwait]
  exact hcleaned.imp
    (fun ⟨hnone, hmarks, houtcome, hafter⟩ => ⟨hnone, hmarks, houtcome, heap_eq_of_waiting hafter⟩)
    fun ⟨c, hsome, hmarks, houtcome, hbefore, hends, hafter⟩ =>
      ⟨c, hsome, hmarks, houtcome, heap_eq_of_waiting hbefore, hends, heap_eq_of_waiting hafter⟩

/-- Cleaning one slot of a closed store leaves what the others owe, and is at most one step of the
cleanings of several slots. -/
theorem cleanings_step (hrunner : ∀ {r : Reply} (program : Program H r), (runner program).Safe)
    {k : Key} {i : SlotId} {w₁ : World H} {error : Option CleanupError}
    (hshut : w.heap.Shut s) (hleft : w.heap.Leftover s i)
    (hruns : (cleanSlot k i).Runs SameHeap @runner w marks (.returned error) w₁) :
    w₁.heap.Shut s ∧
      (∀ j, j ≠ i → w.heap.Leftover s j →
        w₁.heap.Leftover s j ∧ w₁.heap.slot j = w.heap.slot j) ∧
      ∃ calls : List (Call H .done), marks = calls.map .called ∧
        (∀ c ∈ calls, c.start.heap.Shut s) ∧
        ∀ owed later errors w', Cleanings @runner w₁ owed later errors w' →
          Cleanings @runner w (w.heap.owed [(k, i)] ++ owed) (calls ++ later)
            (error.toList ++ errors) w' := by
  rcases runs_cleanSlot hruns with
    ⟨hnone, rfl, hreturned, hheap⟩ | ⟨c, hsome, rfl, hreturned, hstart, hends, hfinish⟩
  · cases hreturned
    rw [hheap]
    refine ⟨hshut, fun j _ hj => ⟨hj, rfl⟩, [], rfl, List.forall_mem_nil _, ?_⟩
    intro owed later errors w' hcleanings
    have howed : w.heap.owed [(k, i)] = [] := by simp [Heap.owed, hnone]
    rw [howed]
    exact hcleanings.gap (SameHeap.sameStores hheap)
  · cases hreturned
    have hshut₁ : (w.heap.takeCleanup i).2.Shut s := hshut.takeCleanup hleft
    have hleads : (w.heap.takeCleanup i).2.LeadsTo c.finish.heap := by
      rw [← hstart] at hshut₁ ⊢
      exact ((hrunner c.program _ hshut₁.sound).ends hends).1
    rw [hfinish]
    refine ⟨hshut₁.leadsTo hleads, ?_, [c], rfl, ?_, ?_⟩
    · intro j hne hj
      exact hj.after_cleaning hshut₁.sound hne hleads
    · intro c' hc'
      rw [List.mem_singleton.mp hc', hstart]
      exact hshut₁
    · intro owed later errors w' hcleanings
      have howed : w.heap.owed [(k, i)] = [⟨k, i, c.program⟩] := by simp [Heap.owed, hsome]
      rw [howed]
      apply Cleanings.run _ rfl hends (.ofOutcome k c.outcome)
      · exact hcleanings.gap (SameHeap.sameStores hfinish)
      · intro s'
        rw [hstart, Heap.store_takeCleanup]

theorem runs_cleanEntries_cons {entry : Key × SlotId} {rest : List (Key × SlotId)}
    {outcome : Outcome (List CleanupError)}
    (hruns : (cleanEntries (entry :: rest)).Runs SameHeap @runner w marks outcome w') :
    ∃ error w₁ first second answer,
      (cleanSlot entry.1 entry.2).Runs SameHeap @runner w first (.returned error) w₁ ∧
        (cleanEntries rest).Runs SameHeap @runner w₁ second answer w' ∧ marks = first ++ second ∧
        ∀ errors, answer = .returned errors → outcome = .returned (error.toList ++ errors) := by
  rcases runs_bind_iff.mp hruns with
    ⟨error, w₁, first, second, hfirst, hsecond, rfl⟩ | ⟨payload, hfirst, rfl⟩
  · rcases runs_bind_iff.mp hsecond with
      ⟨errors, w₂, later, last, hlater, hlast, rfl⟩ | ⟨payload, hlater, rfl⟩
    · obtain ⟨rfl, rfl, hwait⟩ := runs_pure_iff.mp hlast
      rw [List.append_nil]
      refine ⟨error, w₁, first, later, _, hfirst, hlater.wait_after hwait, rfl, ?_⟩
      rintro errors' ⟨⟩
      rfl
    · refine ⟨error, w₁, first, second, _, hfirst, hlater, rfl, ?_⟩
      rintro errors' ⟨⟩
  · rcases runs_cleanSlot hfirst with ⟨-, -, hreturned, -⟩ | ⟨_, -, -, hreturned, -⟩
    · cases hreturned
    · cases hreturned

/-- Cleaning the slots of a closed store runs the cleanup actions that they owe. The store is still
closed whenever one begins, and at the end. -/
theorem runs_cleanEntries (hrunner : ∀ {r : Reply} (program : Program H r), (runner program).Safe)
    {entries : List (Key × SlotId)} {outcome : Outcome (List CleanupError)}
    (hshut : w.heap.Shut s) (hleft : ∀ entry ∈ entries, w.heap.Leftover s entry.2)
    (hnodup : (entries.map Prod.snd).Nodup)
    (hruns : (cleanEntries entries).Runs SameHeap @runner w marks outcome w') :
    ∃ calls errors, marks = calls.map .called ∧ outcome = .returned errors ∧
      Cleanings @runner w (w.heap.owed entries) calls errors w' ∧
      (∀ c ∈ calls, c.start.heap.Shut s) ∧ w'.heap.Shut s := by
  induction entries generalizing w marks outcome with
  | nil =>
      obtain ⟨rfl, rfl, hwait⟩ := runs_pure_iff.mp hruns
      have hheap : w'.heap = w.heap := heap_eq_of_waiting hwait
      refine ⟨[], [], rfl, rfl, .done (SameHeap.sameStores hheap), List.forall_mem_nil _, ?_⟩
      rw [hheap]
      exact hshut
  | cons entry rest ih =>
      obtain ⟨error, w₁, first, second, answer, hfirst, hsecond, rfl, houtcome⟩ :=
        runs_cleanEntries_cons hruns
      obtain ⟨hshut₁, hothers, own, rfl, hstarts, hstep⟩ :=
        cleanings_step hrunner hshut (hleft entry List.mem_cons_self) hfirst
      -- The slots are different, so the later ones still owe what they owed in the beginning.
      have hkept : ∀ other ∈ rest, w₁.heap.Leftover s other.2 ∧
          w₁.heap.slot other.2 = w.heap.slot other.2 := by
        intro other hother
        apply hothers _ _ (hleft other (List.mem_cons_of_mem _ hother))
        intro hslot
        have hmem : other.2 ∈ rest.map Prod.snd := List.mem_map_of_mem hother
        rw [hslot] at hmem
        exact (List.nodup_cons.mp hnodup).1 hmem
      obtain ⟨calls, errors, rfl, rfl, hcleanings, hlater, hend⟩ :=
        ih hshut₁ (fun other hother => (hkept other hother).1) (List.nodup_cons.mp hnodup).2 hsecond
      rw [Heap.owed_congr fun other hother => (hkept other hother).2] at hcleanings
      have howed : w.heap.owed (entry :: rest) = w.heap.owed [entry] ++ w.heap.owed rest :=
        List.filterMap_append (l := [entry])
      refine ⟨own ++ calls, _, by simp, houtcome errors rfl, ?_, ?_, hend⟩
      · rw [howed]
        exact hstep _ _ _ _ hcleanings
      · intro c hc
        rcases List.mem_append.mp hc with hc | hc
        · exact hstarts c hc
        · exact hlater c hc

/-- Closing a store that is closed does nothing. -/
theorem runs_close_of_closed {outcome : Outcome (Except StoreCloseError Unit)}
    (hclosed : w.heap.isClosed s = true)
    (hruns : (close s).Runs SameHeap @runner w marks outcome w') :
    marks = [] ∧ outcome = .returned (.ok ()) ∧ w'.heap = w.heap := by
  obtain ⟨w₁, later, hwait, rfl, hrest⟩ := runs_update_bind hruns
  have hheap : w₁.heap = w.heap := heap_eq_of_waiting hwait
  have hnone : w₁.beginClose s = (none, w₁) := by
    rw [World.beginClose, hheap, Heap.beginClose, if_pos hclosed]
  rw [hnone] at hrest ⊢
  obtain ⟨rfl, rfl, hafter⟩ := runs_pure_iff.mp hrest
  refine ⟨?_, rfl, (heap_eq_of_waiting hafter).trans hheap⟩
  rw [World.noted_self, List.append_nil]

/-- Closing an open store begins by taking its entries out of it. -/
theorem runs_close_begun {entries : List (Key × SlotId)} {h' : Heap (Program H .done)}
    {outcome : Outcome (Except StoreCloseError Unit)}
    (hbegin : w.heap.beginClose s = some (entries, h'))
    (hruns : (close s).Runs SameHeap @runner w marks outcome w') :
    ∃ begun : World H, begun.heap = h' ∧
      (do let errors ← cleanEntries entries.reverse
          if errors.isEmpty then return .ok () else return .error ⟨errors⟩ :
        Routine H (Except StoreCloseError Unit)).Runs SameHeap @runner begun marks outcome w' := by
  have hsilent (w : World H) : (w.beginClose s).2.trace = w.trace := by
    rw [World.beginClose]
    split <;> rfl
  obtain ⟨w₁, hwait, hrest⟩ := runs_silent_update_bind hruns hsilent
  have hheap : w₁.heap = w.heap := heap_eq_of_waiting hwait
  simp only [World.beginClose, hheap, hbegin] at hrest
  obtain ⟨w₂, hwait₂, hclean⟩ := runs_log_bind hrest
  have hheap₂ := heap_eq_of_waiting hwait₂
  exact ⟨w₂.logged _, hheap₂, hclean⟩

/-- Closing an open store is to clean the slots of the entries that were taken out of it. -/
theorem runs_close_cleanEntries (hopen : w.heap.isClosed s = false)
    {outcome : Outcome (Except StoreCloseError Unit)}
    (hruns : (close s).Runs SameHeap @runner w marks outcome w') :
    ∃ begun answer, w.heap.beginClose s = some ((w.heap.store s).entries, begun.heap) ∧
      (cleanEntries (w.heap.store s).entries.reverse).Runs SameHeap @runner begun marks answer w' ∧
      ∀ errors, answer = .returned errors →
        outcome = .returned (if errors = [] then .ok () else .error ⟨errors⟩) := by
  have hbegin := Heap.beginClose_eq hopen
  obtain ⟨begun, hheap, hclean⟩ := runs_close_begun hbegin hruns
  rw [← hheap] at hbegin
  rcases runs_bind_iff.mp hclean with
    ⟨errors, w₁, first, last, hcleanings, hlast, rfl⟩ | ⟨payload, hcleanings, rfl⟩
  · -- Both ways in which closing ends are the same function of the errors.
    have hresult : last = [] ∧
        outcome = .returned (if errors = [] then .ok () else .error ⟨errors⟩) ∧
          ReflTransGen SameHeap w₁ w' := by
      cases errors with
      | nil => exact runs_pure_iff.mp hlast
      | cons _ _ => exact runs_pure_iff.mp hlast
    obtain ⟨rfl, rfl, hafter⟩ := hresult
    rw [List.append_nil]
    refine ⟨begun, _, hbegin, hcleanings.wait_after hafter, ?_⟩
    rintro errors' ⟨⟩
    rfl
  · refine ⟨begun, _, hbegin, hcleanings, ?_⟩
    rintro errors' ⟨⟩

/-- Closing an open store runs the cleanup actions that are owed for its entries, those of the newest
ones first. -/
theorem runs_close_of_open (hrunner : ∀ {r : Reply} (program : Program H r), (runner program).Safe)
    (hsound : w.heap.Sound) (hopen : w.heap.isClosed s = false)
    {outcome : Outcome (Except StoreCloseError Unit)}
    (hruns : (close s).Runs SameHeap @runner w marks outcome w') :
    ∃ begun calls errors, marks = calls.map .called ∧
      outcome = .returned (if errors = [] then .ok () else .error ⟨errors⟩) ∧
      (∀ s', begun.heap.store s' = if s' = s then
        { w.heap.store s with closed := true, entries := [] } else w.heap.store s') ∧
      Cleanings @runner begun (w.heap.owed (w.heap.store s).entries.reverse) calls errors w' ∧
      (∀ c ∈ calls, c.start.heap.Shut s) ∧ w'.heap.Shut s := by
  obtain ⟨begun, answer, hbegin, hclean, houtcome⟩ := runs_close_cleanEntries hopen hruns
  obtain ⟨hshut, hleft, hnodup, howed⟩ := hsound.taken_by_beginClose hbegin
  obtain ⟨calls, errors, hmarks, hanswer, hrun, hstarts, hend⟩ :=
    runs_cleanEntries hrunner hshut hleft hnodup hclean
  rw [howed] at hrun
  exact ⟨begun, calls, errors, hmarks, houtcome errors hanswer, Heap.store_beginClose hbegin, hrun,
    hstarts, hend⟩

theorem canGoOn_cleanSlot (others : World H → World H → Prop) (k : Key) (i : SlotId) :
    (cleanSlot k i : Routine H _).CanGoOn others := by
  apply canGoOn_update_bind
  intro w
  cases (w.takeCleanup i).1 with
  | none => trivial
  | some cleanup => exact fun _ => trivial

theorem canGoOn_cleanEntries (others : World H → World H → Prop) (entries : List (Key × SlotId)) :
    (cleanEntries entries : Routine H _).CanGoOn others := by
  induction entries with
  | nil => trivial
  | cons entry rest ih =>
      apply (canGoOn_cleanSlot others entry.1 entry.2).bind
      intro error
      exact ih.bind fun _ => trivial

/-- Closing a store waits for nothing. -/
theorem canGoOn_close (others : World H → World H → Prop) (s : StoreId) :
    (close s : Routine H _).CanGoOn others := by
  apply canGoOn_update_bind
  intro w
  cases (w.beginClose s).1 with
  | none => trivial
  | some entries =>
      apply canGoOn_update_bind (f := fun w => ((), w.logged _))
      intro _
      apply (canGoOn_cleanEntries others entries.reverse).bind
      intro errors
      split
      · trivial
      · trivial

end Routine

/-- Wherever programs get to from this world, the store is closed, and closing it again does nothing. -/
def World.StaysClosed (w : World H) (s : StoreId) : Prop :=
  ∀ (fuel : Nat) (worker : Option Nat) (r : Reply) (program : Program H r) (w₁ : World H),
    (program.exec fuel worker).Visits SameHeap w w₁ → w₁.heap.isClosed s = true ∧
      ∀ (runner : Runner H) (marks : List (Mark H)) (outcome : Outcome (Except StoreCloseError Unit))
        (w₂ : World H), (Routine.close s).Runs SameHeap @runner w₁ marks outcome w₂ →
          marks = [] ∧ outcome = .returned (.ok ()) ∧ w₂.heap = w₁.heap

theorem Heap.Shut.staysClosed {w : World H} {s : StoreId} (hshut : w.heap.Shut s) :
    w.StaysClosed s := by
  intro fuel worker r program w₁ hvisits
  have hleads : w.heap.LeadsTo w₁.heap :=
    (program.safe_exec fuel worker _ hshut.sound).visits hvisits
  have hclosed : w₁.heap.isClosed s = true := (hshut.leadsTo hleads).isClosed
  refine ⟨hclosed, ?_⟩
  intro runner marks outcome w₂ hruns
  exact Routine.runs_close_of_closed hclosed hruns

/-- The entries of a store are in the order in which they were made. To put a value makes an entry at the
end, in place of the one for the same key; to remove one drops its entry and leaves the others in their
order; to look a key up moves nothing, and neither does a computation that finds a value or a slot for
one. -/
structure World.EntryOrder (runner : Runner H) (w : World H) (s : StoreId) : Prop where
  created : ((w.heap.store s).entries.map Prod.snd).Sublist (enteredSlots s w.heap.trace)
  increasing : (enteredSlots s w.heap.trace).Pairwise (· < ·)
  put : ∀ k datum cleanup marks previous w',
    (Routine.put s k datum cleanup).Runs SameHeap @runner w marks (.returned (.ok previous)) w' →
      (w'.heap.store s).entries = (w.heap.store s).entries.filter (fun entry => entry.1 ≠ k) ++
          [(k, w.heap.slots.length)] ∧
        enteredSlots s w'.heap.trace = enteredSlots s w.heap.trace ++ [w.heap.slots.length]
  remove : ∀ k t marks v w',
    (Routine.remove s k t).Runs SameHeap @runner w marks (.returned (.ok (some v))) w' →
      (w'.heap.store s).entries = (w.heap.store s).entries.filter fun entry => entry.1 ≠ k
  get : ∀ k t marks outcome w',
    (Routine.get s k t).Runs SameHeap @runner w marks outcome w' → w'.heap = w.heap
  compute : ∀ k t factory cleanup marks outcome w' v, w.heap.localValue? s k = some v →
    (Routine.compute s k t factory cleanup).Runs SameHeap @runner w marks outcome w' →
      w'.heap = w.heap
  pending : ∀ k i, (w.heap.store s).slot? k = some i → w.heap.reserve s k = (.slot i, w.heap)
  computing : ∀ i stored s', (w.heap.claim s i).2.store s' = w.heap.store s' ∧
    (w.heap.vacate i).store s' = w.heap.store s' ∧
    (w.heap.fill s i stored).store s' = w.heap.store s'

namespace Heap

variable {h h' : Heap C} {s : StoreId} {k : Key}

theorem enteredSlots_forget (s' : StoreId) :
    enteredSlots s' (h.forget s k).trace = enteredSlots s' h.trace := by
  rw [forget, trace_modifyStore, releasing]
  split
  · rfl
  · split
    · rfl
    · rfl

/-- To put a value makes the newest entry of the store. -/
theorem entries_of_put {stored : Stored C} {previous : Option Value}
    (hput : h.put s k stored = .ok (previous, h')) :
    (h'.store s).entries = (h.store s).entries.filter (fun entry => entry.1 ≠ k) ++
        [(k, h.slots.length)] ∧
      enteredSlots s h'.trace = enteredSlots s h.trace ++ [h.slots.length] := by
  obtain ⟨hopen, -, rfl⟩ := of_put hput
  constructor
  · change (((h.forget s k).addEntry s k .vacant).2.store s).entries = _
    rw [store_addEntry hopen, if_pos rfl, store_forget, if_pos rfl, Store.insert_erase,
      slots_forget]
    rfl
  · change enteredSlots s (.entered s (h.forget s k).slots.length :: (h.forget s k).trace) = _
    rw [enteredSlots, if_pos rfl, enteredSlots_forget, slots_forget]

theorem entries_of_remove {t : Ty} {v : Value} (hremove : h.remove s k t = .ok (some v, h')) :
    (h'.store s).entries = (h.store s).entries.filter fun entry => entry.1 ≠ k := by
  rcases of_remove hremove with ⟨hnone, -⟩ | ⟨-, rfl⟩
  · cases hnone
  · rw [store_forget, if_pos rfl]
    rfl

theorem reserve_of_slot? {i : SlotId} (hslot : (h.store s).slot? k = some i)
    (hopen : h.isClosed s = false) : h.reserve s k = (.slot i, h) := by
  rw [reserve, if_neg (Bool.eq_false_iff.mp hopen), hslot]

end Heap

namespace Routine

variable {runner : Runner H} {w w' : World H} {s : StoreId} {k : Key} {marks : List (Mark H)}

theorem heap_of_fillSlot {t : Ty} {factory : Routine H (DatumOf t)}
    {cleanup : Option (Value → Program H .done)} {i : SlotId} {v : Value} {outcome : Outcome Value}
    (hruns : (fillSlot s i factory cleanup).Runs SameHeap @runner w marks outcome w')
    (hvalue : (w.heap.slot i).value? = some v) :
    w'.heap = w.heap := by
  obtain ⟨w₁, later, hwait, -, -, hclaimed⟩ := runs_updateAfter_bind hruns
  have hheap : w₁.heap = w.heap := heap_eq_of_waiting hwait
  simp only [World.claim, Heap.claim, hheap, hvalue] at hclaimed
  obtain ⟨-, -, hafter⟩ := runs_pure_iff.mp hclaimed
  have hheap' := heap_eq_of_waiting hafter
  exact hheap'

/-- A computation that finds a value in its own store leaves the heap alone. -/
theorem heap_of_compute {t : Ty} {factory : Routine H (DatumOf t)}
    {cleanup : Option (Value → Program H .done)} {v : Value}
    {outcome : Outcome (Except StoreError Value)} (hopen : w.heap.isClosed s = false)
    (hvalue : w.heap.localValue? s k = some v)
    (hruns : (compute s k t factory cleanup).Runs SameHeap @runner w marks outcome w') :
    w'.heap = w.heap := by
  obtain ⟨i, hslot, hvalue⟩ := Option.bind_eq_some_iff.mp hvalue
  obtain ⟨w₁, hwait, hrest⟩ := runs_silent_update_bind hruns fun _ => rfl
  have hheap : w₁.heap = w.heap := heap_eq_of_waiting hwait
  simp only [World.reserve, hheap, Heap.reserve_of_slot? hslot hopen] at hrest
  rcases runs_bind_iff.mp hrest with
    ⟨v', w₂, first, second, hfilled, hused, -⟩ | ⟨payload, hfilled, -⟩
  · have hheap₂ := heap_of_fillSlot hfilled hvalue
    rw [← hheap₂] at hopen
    obtain ⟨-, -, hheap'⟩ := runs_useSlot_of_open hopen hused
    exact hheap'.trans hheap₂
  · have hheap' := heap_of_fillSlot hfilled hvalue
    exact hheap'

end Routine

/-- In a sound heap, the entries of an open store are in the order in which they were made. -/
theorem Heap.Sound.entryOrder {runner : Runner H} {w : World H} {s : StoreId}
    (hsound : w.heap.Sound) (hopen : w.heap.isClosed s = false) : w.EntryOrder @runner s where
  created := hsound.created s
  increasing := hsound.consistent.pairwise_enteredSlots s
  put k datum cleanup marks previous w' hruns := by
    obtain ⟨w₁, hwait, -, hreturned, hafter⟩ := Routine.runs_update_iff.mp hruns
    have hheap : w₁.heap = w.heap := heap_eq_of_waiting hwait
    rw [heap_eq_of_waiting hafter, ← hheap]
    rw [World.put] at hreturned ⊢
    split at hreturned
    · cases hreturned
    · next hput => exact Heap.entries_of_put hput
  remove k t marks v w' hruns := by
    obtain ⟨w₁, hwait, -, hreturned, hafter⟩ := Routine.runs_update_iff.mp hruns
    have hheap : w₁.heap = w.heap := heap_eq_of_waiting hwait
    rw [heap_eq_of_waiting hafter, ← hheap]
    rw [World.remove] at hreturned ⊢
    split at hreturned
    · cases hreturned
    · next hremove =>
      cases hreturned
      exact Heap.entries_of_remove hremove
  get k t marks outcome w' hruns := by
    obtain ⟨-, w₁, hwait, -, hafter⟩ := Routine.runs_view_iff.mp hruns
    exact (heap_eq_of_waiting hafter).trans (heap_eq_of_waiting hwait)
  compute k t factory cleanup marks outcome w' v hvalue hruns :=
    Routine.heap_of_compute hopen hvalue hruns
  pending k i hslot := Heap.reserve_of_slot? hslot hopen
  computing i stored s' := ⟨Heap.store_claim s i s', rfl, rfl⟩

/-- Closing an open store that a sequential run gets to runs the cleanup actions that are owed for its
entries, each once and those of the newest entries first, past every failure; it returns the errors of
those that failed, in the order in which they ran. -/
theorem close_runs_owed_cleanups_newest_first {fuel₀ : Nat} {worker₀ : Option Nat} {r : Reply}
    {program : Program H r} {state : H.State} {w : World H} {s : StoreId}
    (hvisits : (program.exec fuel₀ worker₀).Visits SameHeap (World.initial state) w)
    (hopen : w.heap.isClosed s = false) (fuel : Nat) (worker : Option Nat) :
    let runner : Runner H := fun program => program.exec fuel worker
    let owed := w.heap.owed (w.heap.store s).entries.reverse
    w.EntryOrder @runner s ∧
      (owed.map Owed.slot).reverse.Sublist (enteredSlots s w.heap.trace) ∧
      (∀ marks outcome w', (Routine.close s).Runs SameHeap @runner w marks outcome w' →
        ∃ begun calls errors, marks = calls.map .called ∧
          (∀ s', begun.heap.store s' = if s' = s then
            { w.heap.store s with closed := true, entries := [] } else w.heap.store s') ∧
          Cleanings @runner begun owed calls errors w' ∧
          outcome = .returned (if errors = [] then .ok () else .error ⟨errors⟩) ∧
          (outcome = .returned (.ok ()) ↔ ∀ c ∈ calls, c.outcome = .returned (.ok ())) ∧
          (∀ c ∈ calls, c.start.StaysClosed s) ∧ w'.StaysClosed s) ∧
      ((∃ marks outcome w', (Routine.close s).Runs SameHeap @runner w marks outcome w') ∨
        (Routine.close s).Hangs SameHeap @runner w) := by
  intro runner owed
  have hsound : w.heap.Sound := ((program.safe_exec fuel₀ worker₀ _ .empty).visits hvisits).sound
  have hrunner {r : Reply} (program : Program H r) : (runner program).Safe :=
    program.safe_exec fuel worker
  refine ⟨hsound.entryOrder hopen, ?_, ?_, ?_⟩
  · have howed := (w.heap.map_slot_owed_sublist (w.heap.store s).entries.reverse).reverse
    rw [List.map_reverse, List.reverse_reverse] at howed
    exact howed.trans (hsound.created s)
  · intro marks outcome w' hruns
    obtain ⟨begun, calls, errors, hmarks, houtcome, hstores, hcleanings, hstarts, hend⟩ :=
      Routine.runs_close_of_open hrunner hsound hopen hruns
    refine ⟨begun, calls, errors, hmarks, hstores, hcleanings, houtcome, ?_, ?_, hend.staysClosed⟩
    · rw [houtcome, ← hcleanings.errors_eq_nil_iff]
      by_cases hnil : errors = []
      · simp [hnil]
      · simp [hnil]
    · intro c hc
      exact (hstarts c hc).staysClosed
  · exact (Routine.canGoOn_close SameHeap s).runs_or_hangs w

/-- A store gets two values with cleanup actions, the second one of which panics. -/
def Program.putTwo : Program Host.bare .done :=
  .call (.newStore none) fun s =>
    .putWithCleanup s ⟨⟨["files"]⟩, "log"⟩ .unit (fun _ => .finish (.ok ())) fun _ =>
      .putWithCleanup s ⟨⟨["files"]⟩, "lock"⟩ .unit (fun _ => .panic .other) fun _ =>
        .finish (.ok ())

theorem close_runs_owed_cleanups_newest_first_putTwo :
    let runner : Runner Host.bare := fun program => program.exec 2 none
    let w := ((Program.putTwo.exec 5 none).advance (World.initial ())).2
    let owed := w.heap.owed (w.heap.store 0).entries.reverse
    w.heap.isClosed 0 = false ∧ owed.map Owed.slot = [1, 0] ∧
      ∀ marks outcome w', (Routine.close 0).Runs SameHeap @runner w marks outcome w' →
        ∃ begun calls errors, marks = calls.map .called ∧
          Cleanings @runner begun owed calls errors w' ∧
          outcome = .returned (if errors = [] then .ok () else .error ⟨errors⟩) := by
  intro runner w owed
  refine ⟨by decide, by decide, ?_⟩
  intro marks outcome w' hruns
  have hlaw := close_runs_owed_cleanups_newest_first (s := 0)
    (Act.visits_advance (Program.putTwo.exec 5 none) (World.initial ())) (by decide) 2 none
  obtain ⟨begun, calls, errors, hmarks, -, hcleanings, houtcome, -⟩ :=
    hlaw.2.2.1 marks outcome w' hruns
  exact ⟨begun, calls, errors, hmarks, hcleanings, houtcome⟩

end TimedInvocation
