import Mathlib.Data.List.Forall2
import TimedInvocation.Proofs.Store.Closing

/-!
# The order of teardown

Closing a store runs the cleanup actions in the order of the entries, the newest first. An entry is made
when its key is asked for, and its value may come much later. So a value that became available later is
cleaned up earlier, unless its entry was there already when the other one was made: because its factory
was still running, or because it had panicked. Such a value is cleaned up after what it may have been
built from.
-/

namespace TimedInvocation

open Relation StoreOccurrence World

variable {H : Host} {α β : Type}

theorem sublist_of_forall₂ {R : α → β → Prop} {as : List α} {bs chosen : List β}
    (hall : List.Forall₂ R as bs) (hchosen : chosen.Sublist bs) :
    ∃ related : List α, related.Sublist as ∧ List.Forall₂ R related chosen := by
  induction hchosen generalizing as with
  | slnil => exact ⟨[], List.nil_sublist as, .nil⟩
  | cons b _ ih =>
    cases hall with
    | cons _ hrest =>
      obtain ⟨related, hsub, hrelated⟩ := ih hrest
      exact ⟨related, hsub.cons _, hrelated⟩
  | cons_cons b _ ih =>
    cases hall with
    | cons hb hrest =>
      obtain ⟨related, hsub, hrelated⟩ := ih hrest
      exact ⟨_ :: related, hsub.cons_cons _, .cons hb hrelated⟩

theorem pair_sublist_of_pairwise {R : α → α → Prop} {l : List α} (hl : l.Pairwise R) {a b : α}
    (ha : a ∈ l) (hb : b ∈ l) (hne : a ≠ b) (hba : ¬ R b a) : [a, b].Sublist l := by
  obtain ⟨before, after, rfl⟩ := List.append_of_mem ha
  rcases List.mem_append.mp hb with hbefore | hafter
  · exact absurd ((List.pairwise_append.mp hl).2.2 b hbefore a List.mem_cons_self) hba
  · rcases List.mem_cons.mp hafter with rfl | hafter
    · exact absurd rfl hne
    · exact ((List.singleton_sublist.mpr hafter).cons_cons a).trans (List.sublist_append_right _ _)

namespace StoreOccurrence

variable {trace earlier later : List StoreOccurrence} {s s' : StoreId} {i j : SlotId}

/-- Slots are numbered in the order in which they are entered. -/
theorem Consistent.lt_of_entered_before (htrace : Consistent trace)
    (hbefore : [entered s j, entered s' i].Sublist trace) : i < j := by
  obtain ⟨newer, older, rfl, hj, hi⟩ := List.cons_sublist_iff.mp hbefore
  obtain ⟨after, between, rfl⟩ := List.append_of_mem hj
  rw [List.append_assoc, List.cons_append] at htrace
  exact htrace.of_append.1 s' i (List.mem_append_right _ (List.singleton_sublist.mp hi))

/-- What has a smaller number was entered before. -/
theorem Consistent.entered_earlier (htrace : Consistent (later ++ entered s j :: earlier))
    (hi : entered s' i ∈ later ++ entered s j :: earlier) (hlt : i < j) :
    entered s' i ∈ earlier := by
  induction later with
  | nil =>
    rcases List.mem_cons.mp hi with hsame | hi
    · cases hsame
      exact absurd hlt (Nat.lt_irrefl _)
    · exact hi
  | cons o later ih =>
    rcases List.mem_cons.mp hi with rfl | hi
    · have hafter : j < i := htrace.1 s j (List.mem_append_right _ List.mem_cons_self)
      exact absurd hlt (Nat.lt_asymm hafter)
    · exact ih htrace.tail hi

/-- A slot is filled once. -/
theorem Consistent.ne_of_filled (htrace : Consistent trace) {owed owed' : Bool}
    (hfilled : [filled s i owed, filled s' j owed'].Sublist trace) : i ≠ j := by
  rintro rfl
  obtain ⟨newer, older, rfl, hnewer, holder⟩ := List.cons_sublist_iff.mp hfilled
  obtain ⟨after, between, rfl⟩ := List.append_of_mem hnewer
  rw [List.append_assoc, List.cons_append] at htrace
  exact htrace.of_append.2.1 s' owed' (List.mem_append_right _ (List.singleton_sublist.mp holder))

/-- A slot with a smaller number that was filled later was entered before the other one, so it had no
value when the other one was entered. -/
theorem Consistent.order_of_lt (htrace : Consistent trace) {owed owed' : Bool}
    (hfilled : [filled s i owed, filled s' j owed'].Sublist trace) (hlt : i < j) :
    [filled s i owed, filled s' j owed', entered s' j, entered s i].Sublist trace := by
  have hi : entered s i ∈ trace :=
    htrace.entered_of_filled (hfilled.subset List.mem_cons_self)
  obtain ⟨newest, older, rfl, hfilledᵢ, hrest⟩ := List.cons_sublist_iff.mp hfilled
  obtain ⟨newer, oldest, rfl⟩ := List.append_of_mem (List.singleton_sublist.mp hrest)
  have hj : entered s' j ∈ oldest := htrace.of_append.of_append.1
  obtain ⟨between, first, rfl⟩ := List.append_of_mem hj
  have hsplit : newest ++ (newer ++ filled s' j owed' :: (between ++ entered s' j :: first)) =
      (newest ++ newer ++ filled s' j owed' :: between) ++ entered s' j :: first := by simp
  rw [hsplit] at htrace hi
  have hfirst : entered s i ∈ first := htrace.entered_earlier hi hlt
  have hentered : [entered s' j, entered s i].Sublist (between ++ entered s' j :: first) :=
    ((List.singleton_sublist.mpr hfirst).cons_cons _).trans (List.sublist_append_right _ _)
  exact List.cons_sublist_iff.mpr ⟨newest, _, rfl, hfilledᵢ,
    (hentered.cons_cons _).trans (List.sublist_append_right _ _)⟩

end StoreOccurrence

/-- A call runs the cleanup action that is owed for an entry, which has just been taken. -/
structure Call.Cleans (c : Call H .done) (o : Owed (Program H .done)) : Prop where
  action : c.program = o.action
  taken : ∃ earlier, c.start.heap.trace = cleaned o.slot :: earlier

/-- The calls for two cleanup actions are made in the order in which the actions are owed. -/
theorem calls_of_pair {calls : List (Call H .done)} {owed : List (Owed (Program H .done))}
    (hcalls : List.Forall₂ Call.Cleans calls owed) {first second : Owed (Program H .done)}
    (hpair : [first, second].Sublist owed) :
    ∃ c c' : Call H .done, [c, c'].Sublist calls ∧ c.Cleans first ∧ c'.Cleans second := by
  obtain ⟨related, hsub, hrelated⟩ := sublist_of_forall₂ hcalls hpair
  obtain ⟨c, rest, hfirst, hrest, rfl⟩ := List.forall₂_cons_right_iff.mp hrelated
  obtain ⟨c', rest, hsecond, hnil, rfl⟩ := List.forall₂_cons_right_iff.mp hrest
  obtain rfl := List.forall₂_nil_right_iff.mp hnil
  exact ⟨c, c', hsub, hfirst, hsecond⟩

namespace Heap

variable {C : Type} {h : Heap C} {s : StoreId} {k : Key} {i : SlotId} {c : C}

theorem trace_takeCleanup_of_some (hsome : h.cleanup? i = some c) :
    (h.takeCleanup i).2.trace = cleaned i :: h.trace := by
  rw [cleanup?] at hsome
  rw [takeCleanup]
  split
  · rfl
  · next hother =>
    split at hsome
    · next stored hslot =>
      obtain ⟨v, cleanup⟩ := stored
      cases hsome
      exact absurd hslot (hother v c)
    · cases hsome
    · cases hsome

theorem mem_owed {entries : List (Key × SlotId)} (hentry : (k, i) ∈ entries)
    (hsome : h.cleanup? i = some c) : ⟨k, i, c⟩ ∈ h.owed entries :=
  List.mem_filterMap.mpr ⟨(k, i), hentry, by simp [hsome]⟩

/-- Cleanup actions are owed in the order of the entries, the newest first. -/
theorem Sound.pairwise_owed (hsound : h.Sound) (s : StoreId) :
    (h.owed (h.store s).entries.reverse).Pairwise fun newer older => older.slot < newer.slot := by
  have hslots : ((h.store s).entries.reverse.map Prod.snd).Pairwise (fun i j => j < i) := by
    rw [List.map_reverse, List.pairwise_reverse]
    exact (hsound.consistent.pairwise_enteredSlots s).sublist (hsound.created s)
  exact List.pairwise_map.mp (hslots.sublist (h.map_slot_owed_sublist _))

end Heap

namespace Routine

variable {runner : Runner H} {w w' : World H} {s : StoreId} {marks : List (Mark H)}

/-- The calls that are made while the slots of a closed store are cleaned are those of the cleanup
actions that they owe, in the order of the slots. -/
theorem calls_cleanEntries (hrunner : ∀ {r : Reply} (program : Program H r), (runner program).Safe)
    {entries : List (Key × SlotId)} {outcome : Outcome (List CleanupError)}
    (hshut : w.heap.Shut s) (hleft : ∀ entry ∈ entries, w.heap.Leftover s entry.2)
    (hnodup : (entries.map Prod.snd).Nodup)
    (hruns : (cleanEntries entries).Runs SameHeap @runner w marks outcome w') :
    ∃ calls : List (Call H .done), marks = calls.map .called ∧
      List.Forall₂ Call.Cleans calls (w.heap.owed entries) := by
  induction entries generalizing w marks outcome with
  | nil =>
    obtain ⟨rfl, -, -⟩ := runs_pure_iff.mp hruns
    exact ⟨[], rfl, .nil⟩
  | cons entry rest ih =>
    obtain ⟨error, w₁, first, second, answer, hfirst, hsecond, rfl, -⟩ :=
      runs_cleanEntries_cons hruns
    obtain ⟨hshut₁, hothers, -⟩ :=
      cleanings_step hrunner hshut (hleft entry List.mem_cons_self) hfirst
    obtain ⟨hfresh, hrest⟩ := List.nodup_cons.mp hnodup
    have hkept : ∀ other ∈ rest, w₁.heap.Leftover s other.2 ∧
        w₁.heap.slot other.2 = w.heap.slot other.2 := by
      intro other hother
      refine hothers _ (fun hslot => ?_) (hleft other (List.mem_cons_of_mem _ hother))
      exact hfresh (hslot ▸ List.mem_map_of_mem hother)
    obtain ⟨calls, rfl, hcalls⟩ :=
      ih hshut₁ (fun other hother => (hkept other hother).1) hrest hsecond
    rw [Heap.owed_congr fun other hother => (hkept other hother).2] at hcalls
    rcases runs_cleanSlot hfirst with ⟨hnone, rfl, -⟩ | ⟨c, hsome, rfl, -, hstart, -⟩
    · refine ⟨calls, rfl, ?_⟩
      simpa [Heap.owed, hnone] using hcalls
    · have hclean : c.Cleans ⟨entry.1, entry.2, c.program⟩ :=
        ⟨rfl, w.heap.trace, by rw [hstart, Heap.trace_takeCleanup_of_some hsome]⟩
      refine ⟨c :: calls, rfl, ?_⟩
      simpa [Heap.owed, hsome] using List.Forall₂.cons hclean hcalls

/-- The calls that are made while an open store is closed. -/
theorem calls_close (hrunner : ∀ {r : Reply} (program : Program H r), (runner program).Safe)
    {outcome : Outcome (Except StoreCloseError Unit)} (hsound : w.heap.Sound)
    (hopen : w.heap.isClosed s = false)
    (hruns : (close s).Runs SameHeap @runner w marks outcome w') :
    ∃ calls : List (Call H .done), marks = calls.map .called ∧
      List.Forall₂ Call.Cleans calls (w.heap.owed (w.heap.store s).entries.reverse) := by
  obtain ⟨begun, answer, hbegin, hclean, -⟩ := runs_close_cleanEntries hopen hruns
  obtain ⟨hshut, hleft, hnodup, howed⟩ := hsound.taken_by_beginClose hbegin
  rw [← howed]
  exact calls_cleanEntries hrunner hshut hleft hnodup hclean

end Routine

/-- The entry of a slot was there already when another one was made, and its value came only after the
value of the other one. -/
def Heap.Outlasts {C : Type} (h : Heap C) (s : StoreId) (i j : SlotId) : Prop :=
  [filled s i true, filled s j true, entered s j, entered s i].Sublist h.trace

/-- Of two entries of an open store with cleanup actions, closing the store cleans up first the one
whose value became available later, unless its entry was there already when the other one was made; then
it is cleaned up after it. -/
theorem close_cleans_later_value_first_unless_entered_before {fuel₀ : Nat} {worker₀ : Option Nat}
    {r : Reply} {program : Program H r} {state : H.State} {w : World H} {s : StoreId}
    (hvisits : (program.exec fuel₀ worker₀).Visits SameHeap (World.initial state) w)
    (hopen : w.heap.isClosed s = false) {a b : Key} {i j : SlotId}
    (ha : (a, i) ∈ (w.heap.store s).entries) (hb : (b, j) ∈ (w.heap.store s).entries)
    {cleanA cleanB : Program H .done} (hcleanA : w.heap.cleanup? i = some cleanA)
    (hcleanB : w.heap.cleanup? j = some cleanB)
    (hlater : [filled s i true, filled s j true].Sublist w.heap.trace)
    (fuel : Nat) (worker : Option Nat) :
    let runner : Runner H := fun program => program.exec fuel worker
    (∀ marks outcome w', (Routine.close s).Runs SameHeap @runner w marks outcome w' →
      ∃ (calls : List (Call H .done)) (callA callB : Call H .done),
        marks = calls.map .called ∧ callA.Cleans ⟨a, i, cleanA⟩ ∧ callB.Cleans ⟨b, j, cleanB⟩ ∧
          (¬ w.heap.Outlasts s i j → [callA, callB].Sublist calls) ∧
          (w.heap.Outlasts s i j → [callB, callA].Sublist calls)) ∧
      ((∃ marks outcome w', (Routine.close s).Runs SameHeap @runner w marks outcome w') ∨
        (Routine.close s).Hangs SameHeap @runner w) := by
  intro runner
  have hsound : w.heap.Sound := ((program.safe_exec fuel₀ worker₀ _ .empty).visits hvisits).sound
  have hrunner {r : Reply} (program : Program H r) : (runner program).Safe :=
    program.safe_exec fuel worker
  refine ⟨fun marks outcome w' hruns => ?_, (Routine.canGoOn_close SameHeap s).runs_or_hangs w⟩
  obtain ⟨calls, rfl, hcalls⟩ := Routine.calls_close hrunner hsound hopen hruns
  have howedA := Heap.mem_owed (List.mem_reverse.mpr ha) hcleanA
  have howedB := Heap.mem_owed (List.mem_reverse.mpr hb) hcleanB
  have hordered := hsound.pairwise_owed s
  rcases Nat.lt_or_gt_of_ne (hsound.consistent.ne_of_filled hlater) with hlt | hgt
  · have houtlasts : w.heap.Outlasts s i j := hsound.consistent.order_of_lt hlater hlt
    have hpair := pair_sublist_of_pairwise hordered howedB howedA
      (fun h => Nat.ne_of_gt hlt (congrArg Owed.slot h)) (Nat.lt_asymm hlt)
    obtain ⟨callB, callA, hsub, hcallB, hcallA⟩ := calls_of_pair hcalls hpair
    exact ⟨calls, callA, callB, rfl, hcallA, hcallB, fun h => absurd houtlasts h, fun _ => hsub⟩
  · have hfirst : ¬ w.heap.Outlasts s i j := fun houtlasts =>
      Nat.lt_asymm hgt (hsound.consistent.lt_of_entered_before
        (((List.Sublist.refl _).cons _).cons _ |>.trans houtlasts))
    have hpair := pair_sublist_of_pairwise hordered howedA howedB
      (fun h => Nat.ne_of_gt hgt (congrArg Owed.slot h)) (Nat.lt_asymm hgt)
    obtain ⟨callA, callB, hsub, hcallA, hcallB⟩ := calls_of_pair hcalls hpair
    exact ⟨calls, callA, callB, rfl, hcallA, hcallB, fun _ => hsub, fun h => absurd h hfirst⟩

/-- The factory of a connection obtains another one from the same store. -/
def Program.nestedConnections (after : StoreId → Program Host.bare .done) :
    Program Host.bare .done :=
  .call (.newStore none) fun s =>
    .computeCloseable s ⟨⟨["pool"]⟩, "outer"⟩ .unit
      (.computeCloseable s ⟨⟨["pool"]⟩, "inner"⟩ .unit (.finish ⟨.unit, .refl Ty.unit⟩)
        (fun _ => .finish (.ok ())) fun _ => .finish ⟨.unit, .refl Ty.unit⟩)
      (fun _ => .finish (.ok ())) fun _ => after s

theorem close_cleans_later_value_first_unless_entered_before_nested :
    let program := Program.nestedConnections fun _ => .finish (.ok ())
    let runner : Runner Host.bare := fun program => program.exec 2 none
    let w := ((program.exec 6 none).advance (World.initial ())).2
    w.heap.isClosed 0 = false ∧ w.heap.Outlasts 0 0 1 ∧
      ∀ marks outcome w', (Routine.close 0).Runs SameHeap @runner w marks outcome w' →
        ∃ (calls : List (Call Host.bare .done)) (outer inner : Call Host.bare .done),
          marks = calls.map .called ∧
            outer.Cleans ⟨⟨⟨["pool"]⟩, "outer"⟩, 0, .finish (.ok ())⟩ ∧
            inner.Cleans ⟨⟨⟨["pool"]⟩, "inner"⟩, 1, .finish (.ok ())⟩ ∧
            [inner, outer].Sublist calls := by
  intro program runner w
  have hopen : w.heap.isClosed 0 = false := by decide
  have houtlasts : [StoreOccurrence.filled 0 0 true, filled 0 1 true, entered 0 1,
    entered 0 0].Sublist w.heap.trace := by decide
  refine ⟨hopen, houtlasts, fun marks outcome w' hruns => ?_⟩
  obtain ⟨calls, outer, inner, hmarks, houter, hinner, -, hreversed⟩ :=
    (close_cleans_later_value_first_unless_entered_before
      (Act.visits_advance (program.exec 6 none) (World.initial ())) hopen
      (by decide : (⟨⟨["pool"]⟩, "outer"⟩, 0) ∈ (w.heap.store 0).entries)
      (by decide : (⟨⟨["pool"]⟩, "inner"⟩, 1) ∈ (w.heap.store 0).entries) rfl rfl (by decide)
      2 none).1 marks outcome w' hruns
  exact ⟨calls, outer, inner, hmarks, houter, hinner, hreversed houtlasts⟩

/-- The factory of a connection panics, another connection is made, and then the factory succeeds. -/
def Program.retriedConnection : Program Host.bare .done :=
  let compute (s : StoreId) (key : String) (factory : Program Host.bare (.datum .unit))
      (next : Program Host.bare .done) : Program Host.bare .done :=
    .computeCloseable s ⟨⟨["pool"]⟩, key⟩ .unit factory (fun _ => .finish (.ok ())) fun _ => next
  .call (.newStore none) fun s =>
    .attempt (compute s "first" (.panic .other) (.finish (.ok ()))) fun _ =>
      compute s "second" (.finish ⟨.unit, .refl Ty.unit⟩) <|
        compute s "first" (.finish ⟨.unit, .refl Ty.unit⟩) <|
          .call (.close s) fun _ => .finish (.ok ())

/-- A connection that was built from another one, and one that was built later than another one after
its factory had panicked, are cleaned up after the other one. -/
theorem dependent_cleaned_after_dependency :
    let nested := Program.nestedConnections fun s => .call (.close s) fun _ => .finish (.ok ())
    ∀ program ∈ [nested, Program.retriedConnection],
      let w := ((program.exec 8 none).advance (World.initial ())).2
      (program.exec 8 none).Ends SameHeap (World.initial ()) (.returned (.ok ())) w ∧
        [filled 0 0 true, filled 0 1 true].Sublist w.heap.trace ∧
        released 0 ∉ w.heap.trace ∧ released 1 ∉ w.heap.trace ∧
        [cleaned 0, cleaned 1].Sublist w.heap.trace := by
  intro nested program hprogram
  rcases List.mem_pair.mp hprogram with rfl | rfl
  · exact ⟨Act.ends_advance rfl, by decide, by decide, by decide, by decide⟩
  · exact ⟨Act.ends_advance rfl, by decide, by decide, by decide, by decide⟩

end TimedInvocation
