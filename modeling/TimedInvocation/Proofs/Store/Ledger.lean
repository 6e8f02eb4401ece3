import Mathlib.Data.Finset.Card
import TimedInvocation.Proofs.Interleaving
import TimedInvocation.Proofs.Store.Handover

/-!
# What several threads take and call

When threads take turns, others may do something between the section in which a thread takes a cleanup action
and the call of it. A ledger keeps what the threads' own sections add to the history, what each of them did
last, and all their calls. The cleanup actions of a slot that were taken are those that were called and those
that some thread is about to call.
-/

namespace TimedInvocation

open StoreOccurrence World

variable {H : Host} {ι α : Type}

/-- What several threads have done: what their own sections have added to the history, newest first, the last
section of each of them unless it has called user code since, and their calls, newest first. -/
structure Ledger (H : Host) (ι : Type) where
  history : List StoreOccurrence
  last : ι → Option (Section H)
  calls : List (CallStart H)

/-- What a thread takes it calls next, from where it is. -/
def Party.Punctual : Party H α → Option (Section H) → Prop
  | .own routine, last => routine.Punctual last
  | .away _ next, last => pending? last = none ∧
      ∀ outcome later, pending? later = none → (next outcome).Punctual later

namespace Ledger

/-- Nothing has been done yet. -/
def blank (H : Host) (ι : Type) : Ledger H ι :=
  ⟨[], fun _ => none, []⟩

/-- A thread takes a step from one world to another, which adds to the history. -/
def enter [DecidableEq ι] (ledger : Ledger H ι) (who : ι) (w : World H)
    (added : List StoreOccurrence) (w' : World H) : Party H α → Ledger H ι
  | .own (.step _ _ _) => ⟨added ++ ledger.history,
      Function.update ledger.last who (some ⟨w, w'⟩), ledger.calls⟩
  | .own (@Routine.call _ _ r program _) => ⟨added ++ ledger.history,
      Function.update ledger.last who none, ⟨ledger.last who, ⟨r, program⟩, w⟩ :: ledger.calls⟩
  | .own (.ended _) | .away _ _ => ⟨added ++ ledger.history, ledger.last, ledger.calls⟩

variable {ledger : Ledger H ι} {who : ι} {party party' : Party H α} {w w' : World H}
  {added : List StoreOccurrence} {runner : Runner H}
  {allowed : Heap (Program H .done) → List StoreOccurrence → Heap (Program H .done) → Prop}

section Enter

variable [DecidableEq ι]

@[simp]
theorem history_enter (party : Party H α) :
    (ledger.enter who w added w' party).history = added ++ ledger.history := by
  unfold enter
  split <;> rfl

theorem last_enter_of_ne {other : ι} (hother : other ≠ who) (party : Party H α) :
    (ledger.enter who w added w' party).last other = ledger.last other := by
  unfold enter
  split
  · exact Function.update_of_ne hother _ _
  · exact Function.update_of_ne hother _ _
  · rfl
  · rfl

end Enter

/-- A section that some thread did last, or did right before one of its calls. -/
def Made (ledger : Ledger H ι) (x : Section H) : Prop :=
  (∃ who, ledger.last who = some x) ∨ ∃ c ∈ ledger.calls, c.last = some x

/-- A step makes no section but its own. -/
theorem made_enter [DecidableEq ι] {x : Section H}
    (hmade : (ledger.enter who w added w' party).Made x) : ledger.Made x ∨ x = ⟨w, w'⟩ := by
  unfold enter at hmade
  split at hmade
  · rcases hmade with ⟨j, hj⟩ | hcalled
    · by_cases hwho : j = who
      · subst hwho
        simp only [Function.update_self] at hj
        exact .inr (Option.some.inj hj).symm
      · simp only [Function.update_of_ne hwho] at hj
        exact .inl (.inl ⟨j, hj⟩)
    · exact .inl (.inr hcalled)
  · rcases hmade with ⟨j, hj⟩ | ⟨c, hc, hlast⟩
    · by_cases hwho : j = who
      · subst hwho
        simp only [Function.update_self] at hj
        cases hj
      · simp only [Function.update_of_ne hwho] at hj
        exact .inl (.inl ⟨j, hj⟩)
    · rcases List.mem_cons.mp hc with rfl | hearlier
      · exact .inl (.inl ⟨who, hlast⟩)
      · exact .inl (.inr ⟨c, hearlier, hlast⟩)
  · exact .inl hmade
  · exact .inl hmade

/-- The calls are due, the history has a mark for whatever was taken, and the cleanup actions of a slot that
were taken are those that were called and those that some thread is about to call. -/
structure Kept (ledger : Ledger H ι) : Prop where
  due : ∀ c ∈ ledger.calls, c.Due
  marked : ∀ x, ledger.Made x → ∀ i cleanup, x.taken? = some (i, cleanup) → cleaned i ∈ ledger.history
  counted : ∀ i, ∃ takers : Finset ι, (∀ who, who ∈ takers ↔ owing (ledger.last who) i = 1) ∧
    ledger.history.count (cleaned i) = ledger.calls.countP (CallStart.cleans i) + takers.card

theorem kept_blank : (blank H ι).Kept where
  due := by simp [blank]
  marked x hmade := by
    rcases hmade with ⟨_, hnone⟩ | ⟨c, hc, -⟩
    · cases hnone
    · cases hc
  counted i := ⟨∅, by simp [blank, owing, pending?], by simp [blank]⟩

/-- A step of the heap that takes no cleanup action. -/
theorem Kept.of_untaken (hkept : ledger.Kept) (huntaken : ∀ i, cleaned i ∉ added) :
    Kept ⟨added ++ ledger.history, ledger.last, ledger.calls⟩ where
  due := hkept.due
  marked x hmade i cleanup htaken := List.mem_append_right _ (hkept.marked x hmade i cleanup htaken)
  counted i := by
    obtain ⟨takers, htakers, hcount⟩ := hkept.counted i
    refine ⟨takers, htakers, ?_⟩
    rw [List.count_append, List.count_eq_zero_of_not_mem (huntaken i), Nat.zero_add, hcount]

section Steps

variable [DecidableEq ι]

/-- Who has taken a cleanup action of the slot, after one of the threads did something else last. -/
theorem takers_update {last : ι → Option (Section H)} {takers : Finset ι} {i : SlotId}
    (htakers : ∀ j, j ∈ takers ↔ owing (last j) i = 1) (who : ι) (x : Option (Section H)) :
    ∃ takers' : Finset ι, (∀ j, j ∈ takers' ↔ owing (Function.update last who x j) i = 1) ∧
      takers'.card + owing (last who) i = takers.card + owing x i := by
  have hothers : ∀ j, j ≠ who → (j ∈ takers ↔ owing (Function.update last who x j) i = 1) := by
    intro j hj
    rw [Function.update_of_ne hj]
    exact htakers j
  have hbefore := owing_le_one (last who) i
  have herase : (takers.erase who).card + owing (last who) i = takers.card := by
    by_cases hwho : who ∈ takers
    · rw [(htakers who).mp hwho]
      exact Finset.card_erase_add_one hwho
    · rw [Finset.erase_eq_of_notMem hwho]
      have hnot := mt (htakers who).mpr hwho
      omega
  rcases Nat.le_one_iff_eq_zero_or_eq_one.mp (owing_le_one x i) with hx | hx
  · refine ⟨takers.erase who, fun j => ?_, by omega⟩
    by_cases hj : j = who
    · subst hj
      simp [hx]
    · rw [Finset.mem_erase, and_iff_right hj]
      exact hothers j hj
  · refine ⟨insert who (takers.erase who), fun j => ?_, ?_⟩
    · by_cases hj : j = who
      · subst hj
        simp [hx]
      · rw [Finset.mem_insert, or_iff_right hj, Finset.mem_erase, and_iff_right hj]
        exact hothers j hj
    · rw [Finset.card_insert_of_notMem (Finset.notMem_erase who takers)]
      omega

/-- A section of one of the threads, none of which it owes a call for. -/
theorem Kept.made (hkept : ledger.Kept) (hidle : pending? (ledger.last who) = none)
    {x : Section H} (hx : x.Honest) :
    Kept ⟨x.found.heap.since x.left.heap ++ ledger.history,
      Function.update ledger.last who (some x), ledger.calls⟩ where
  due := hkept.due
  marked y hmade i cleanup htaken := by
    rcases hmade with ⟨j, hj⟩ | hcalled
    · by_cases hwho : j = who
      · subst hwho
        simp only [Function.update_self] at hj
        cases hj
        simp [(Section.of_taken? htaken).2]
      · simp only [Function.update_of_ne hwho] at hj
        exact List.mem_append_right _ (hkept.marked y (.inl ⟨j, hj⟩) i cleanup htaken)
    · exact List.mem_append_right _ (hkept.marked y (.inr hcalled) i cleanup htaken)
  counted i := by
    obtain ⟨takers, htakers, hcount⟩ := hkept.counted i
    obtain ⟨takers', htakers', hcard⟩ := takers_update htakers who (some x)
    rw [owing_of_idle hidle] at hcard
    refine ⟨takers', htakers', ?_⟩
    simp only [List.count_append, hx.count_since, hcount]
    omega

/-- One of the threads calls user code. -/
theorem Kept.called (hkept : ledger.Kept) {code : (r : Reply) × Program H r}
    (hdue : CallStart.Due ⟨ledger.last who, code, w⟩) :
    Kept ⟨ledger.history, Function.update ledger.last who none,
      ⟨ledger.last who, code, w⟩ :: ledger.calls⟩ where
  due c hc := by
    rcases List.mem_cons.mp hc with rfl | hearlier
    · exact hdue
    · exact hkept.due c hearlier
  marked y hmade i cleanup htaken := by
    refine hkept.marked y ?_ i cleanup htaken
    rcases hmade with ⟨j, hj⟩ | ⟨c, hc, hlast⟩
    · by_cases hwho : j = who
      · subst hwho
        simp only [Function.update_self] at hj
        cases hj
      · simp only [Function.update_of_ne hwho] at hj
        exact .inl ⟨j, hj⟩
    · rcases List.mem_cons.mp hc with rfl | hearlier
      · exact .inl ⟨who, hlast⟩
      · exact .inr ⟨c, hearlier, hlast⟩
  counted i := by
    obtain ⟨takers, htakers, hcount⟩ := hkept.counted i
    obtain ⟨takers', htakers', hcard⟩ := takers_update htakers who none
    have hnone : owing (none : Option (Section H)) i = 0 := owing_of_idle rfl i
    rw [hnone] at hcard
    refine ⟨takers', htakers', ?_⟩
    have hcalls : (CallStart.mk (ledger.last who) code w :: ledger.calls).countP (CallStart.cleans i) =
        ledger.calls.countP (CallStart.cleans i) + owing (ledger.last who) i :=
      List.countP_cons
    simp only [hcount, hcalls]
    omega

/-- Whatever step a punctual thread takes, the ledger stays kept and the thread punctual. -/
theorem Kept.enter (hkept : ledger.Kept) (hparty : party.Punctual (ledger.last who))
    (hallowed : ∀ {h h' : Heap (Program H .done)} {added : List StoreOccurrence},
      allowed h added h' → ∀ i, cleaned i ∉ added)
    (hstep : party.Step @runner allowed w added party' w') :
    (ledger.enter who w added w' party).Kept ∧
      party'.Punctual ((ledger.enter who w added w' party).last who) := by
  cases hstep with
  | own hover =>
      obtain ⟨hhonest, hnext⟩ := hparty.2 w hover
      refine ⟨hkept.made hparty.1 hhonest, ?_⟩
      simpa [Ledger.enter, Party.Punctual] using hnext
  | leave =>
      refine ⟨hkept.called (hparty.1 w), ?_⟩
      simp only [Ledger.enter, Function.update_self]
      exact ⟨rfl, hparty.2⟩
  | user _ hchange => exact ⟨hkept.of_untaken (hallowed hchange), hparty⟩
  | back => exact ⟨hkept.of_untaken (by simp), hparty.2 _ _ hparty.1⟩

end Steps

end Ledger

end TimedInvocation
