import TimedInvocation.Proofs.Store.Places

/-!
# Who learns of a failed cleanup action

A store is closed while any number of keys of it are computed, with or without a cleanup action for their
values. Whoever closes it takes the cleanup actions that are owed, one after another, and returns the
errors of all those that failed. So does not someone who computes a key: whoever was given a slot before
the store was closed, and looks whether it is closed after that, takes the cleanup action of the slot too,
if it comes first, and nobody is told when that one fails.
-/

namespace TimedInvocation

open Relation World

variable {H : Host} {ι : Type}

namespace Rivals

/-- What one of those involved in closing a store answers: the one who closes it, or one of those who
compute keys of it. -/
@[reducible] def Answer (ι : Type) : Option ι → Type
  | none => Except StoreCloseError Unit
  | some _ => Except StoreError Value

/-- What each of them does. -/
def routines (crew : ι → Demand H) (s : StoreId) : ∀ j : Option ι, Routine H (Answer ι j)
  | none => .close s
  | some j => (crew j).routine s

@[reducible] def Place (H : Host) (ι : Type) : Option ι → Type
  | none => Closing.Place H
  | some _ => Demand.Place H

def rules (crew : ι → Demand H) (s : StoreId) : ∀ j : Option ι, Rule H (Place H ι j)
  | none => Closing.rule s
  | some j => (crew j).rule s

def final (crew : ι → Demand H) : ∀ j : Option ι, Outcome (Answer ι j) → Place H ι j → Prop
  | none => Closing.final
  | some j => (crew j).final

def places : ∀ j : Option ι, Place H ι j
  | none => .closing
  | some _ => .arriving

/-- Whatever leaves a store open or closed, and leaves alone the slots that somebody involved has found in
it. -/
def Bystanding (s : StoreId) (log : List (Deed H (Option ι))) (w w' : World H) : Prop :=
  Move w w' ∧ w'.heap.isClosed s = w.heap.isClosed s ∧
    ∀ deed ∈ log, ∀ k i, deed.Shows s k i → w'.heap.slot i = w.heap.slot i

/-- Somebody has passed a section. -/
def Began (log : List (Deed H (Option ι))) (j : Option ι) : Prop :=
  ∃ before after, .passed j before after ∈ log

theorem Began.of_mem_cons {log : List (Deed H (Option ι))} {j : Option ι} {deed : Deed H (Option ι)}
    (hbegan : Began log j) : Began (deed :: log) j := by
  obtain ⟨before, after, hdeed⟩ := hbegan
  exact ⟨before, after, List.mem_cons_of_mem _ hdeed⟩

/-- Someone who computes a key has taken a cleanup action after the store was closed, and had passed a
section before that. -/
def Taken (earlier later : List (Deed H (Option ι))) (owed : Owed (Program H .done)) (j : ι) : Prop :=
  Began earlier (some j) ∧ ∃ before after, .passed (some j) before after ∈ later ∧
    before.heap.cleanup? owed.slot = some owed.action ∧
    after.heap = (before.heap.takeCleanup owed.slot).2

theorem Taken.of_mem_cons {earlier later : List (Deed H (Option ι))} {owed : Owed (Program H .done)}
    {j : ι} {deed : Deed H (Option ι)} (htaken : Taken earlier later owed j) :
    Taken earlier (deed :: later) owed j := by
  obtain ⟨hbegan, before, after, hdeed, htook⟩ := htaken
  exact ⟨hbegan, before, after, List.mem_cons_of_mem _ hdeed, htook⟩

section Updates

variable [DecidableEq ι] {places : ∀ j, Place H ι j}

theorem update_some_none (j : ι) (place : Demand.Place H) :
    Function.update places (some j) place none = places none :=
  Function.update_of_ne (by simp) _ _

theorem update_some_self (j : ι) (place : Demand.Place H) :
    Function.update places (some j) place (some j) = place :=
  Function.update_self (some j) _ _

theorem update_some_of_ne {j j' : ι} (hj : j' ≠ j) (place : Demand.Place H) :
    Function.update places (some j) place (some j') = places (some j') :=
  Function.update_of_ne (by simpa using hj) _ _

theorem update_none_self (place : Closing.Place H) :
    Function.update places none place none = place :=
  Function.update_self none _ _

theorem update_none_some (place : Closing.Place H) (j : ι) :
    Function.update places none place (some j) = places (some j) :=
  Function.update_of_ne (by simp) _ _

end Updates

/-- What holds in every scene, before and after the store is closed. -/
structure Tidy (s : StoreId) (scene : Scene H (Place H ι)) : Prop where
  made : s < scene.world.heap.stores.length
  wellFormed : scene.world.heap.WellFormed
  created : ∀ deed ∈ scene.log, ∀ k i, deed.Shows s k i → i < scene.world.heap.slots.length
  shown : ∀ j i, scene.places (some j) = .given i ∨ scene.places (some j) = .computing i →
    ∃ deed ∈ scene.log, ∃ k, deed.Shows s k i
  computing : ∀ j i, scene.places (some j) = .computing i → scene.world.heap.slot i = .computing
  single : ∀ j j' i, scene.places (some j) = .computing i → scene.places (some j') = .computing i →
    j = j'
  began : ∀ j, scene.places (some j) ≠ .arriving → Began scene.log (some j)

section Tidy

variable {s : StoreId} {scene : Scene H (Place H ι)}

theorem Tidy.lt_length (htidy : Tidy s scene) {j : ι} {i : SlotId}
    (hplace : scene.places (some j) = .given i ∨ scene.places (some j) = .computing i) :
    i < scene.world.heap.slots.length := by
  obtain ⟨deed, hdeed, k, hshows⟩ := htidy.shown j i hplace
  exact htidy.created deed hdeed k i hshows

/-- The slots that a section shows have been made. -/
theorem Tidy.created_passed (htidy : Tidy s scene) {w : World H} (hmove : Move scene.world w)
    (j : Option ι) : ∀ deed ∈ Deed.passed j scene.world w :: scene.log, ∀ k i, deed.Shows s k i →
      i < w.heap.slots.length := by
  intro deed hdeed k i hshows
  have hgrown := hmove.extends.slots
  rcases List.mem_cons.mp hdeed with rfl | hold
  · rcases hshows with hbefore | hafter
    · exact Nat.lt_of_lt_of_le (htidy.wellFormed.placed s k i hbefore) hgrown
    · exact (hmove.wellFormed htidy.wellFormed).placed s k i hafter
  · exact Nat.lt_of_lt_of_le (htidy.created deed hold k i hshows) hgrown

theorem Tidy.others (htidy : Tidy s scene) {w : World H}
    (hothers : Bystanding s scene.log scene.world w) : Tidy s ⟨w, scene.places, scene.log⟩ where
  made := Nat.lt_of_lt_of_le htidy.made hothers.1.extends.stores
  wellFormed := hothers.1.wellFormed htidy.wellFormed
  created deed hdeed k i hshows :=
    Nat.lt_of_lt_of_le (htidy.created deed hdeed k i hshows) hothers.1.extends.slots
  shown := htidy.shown
  computing j i hplace := by
    obtain ⟨deed, hdeed, k, hshows⟩ := htidy.shown j i (.inr hplace)
    exact (hothers.2.2 deed hdeed k i hshows).trans (htidy.computing j i hplace)
  single := htidy.single
  began := htidy.began

/-- A call of user code that has ended leaves everything tidy, if nobody gets anything by it. -/
theorem Tidy.called (htidy : Tidy s scene) {who : Option ι} {r : Reply} {program : Program H r}
    {outcome : Outcome (r.Carrier H)} {places : ∀ j, Place H ι j}
    (hplaces : ∀ j : ι, (∀ i, places (some j) = .given i → scene.places (some j) = .given i) ∧
      (∀ i, places (some j) = .computing i → scene.places (some j) = .computing i) ∧
      (places (some j) ≠ .arriving → scene.places (some j) ≠ .arriving)) :
    Tidy s ⟨scene.world, places, .called who program outcome :: scene.log⟩ where
  made := htidy.made
  wellFormed := htidy.wellFormed
  created deed hdeed k i hshows := by
    rcases List.mem_cons.mp hdeed with rfl | hold
    · exact hshows.elim
    · exact htidy.created deed hold k i hshows
  shown j i hplace := by
    obtain ⟨deed, hdeed, hshows⟩ :=
      htidy.shown j i (hplace.imp ((hplaces j).1 i) ((hplaces j).2.1 i))
    exact ⟨deed, List.mem_cons_of_mem _ hdeed, hshows⟩
  computing j i hplace := htidy.computing j i ((hplaces j).2.1 i hplace)
  single j j' i hplace hplace' :=
    htidy.single j j' i ((hplaces j).2.1 i hplace) ((hplaces j').2.1 i hplace')
  began j hplace := (htidy.began j ((hplaces j).2.2 hplace)).of_mem_cons

variable [DecidableEq ι]

/-- Someone who computes a key passes a section. -/
theorem Tidy.caller (htidy : Tidy s scene) {k : Key} {j : ι} {w : World H} {place : Demand.Place H}
    (hmove : Move scene.world w)
    (hpasses : Demand.Passes s k (scene.places (some j)) scene.world.heap w.heap place) :
    Tidy s ⟨w, Function.update scene.places (some j) place,
      .passed (some j) scene.world w :: scene.log⟩ := by
  constructor
  case made => exact Nat.lt_of_lt_of_le htidy.made hmove.extends.stores
  case wellFormed => exact hmove.wellFormed htidy.wellFormed
  case created => exact htidy.created_passed hmove (some j)
  case shown =>
    intro j' i hplace
    by_cases hj : j' = j
    · subst hj
      simp only [update_some_self] at hplace
      rcases hplace with rfl | rfl
      · exact ⟨_, List.mem_cons_self, k, .inr hpasses.of_given⟩
      · obtain ⟨deed, hdeed, hshows⟩ := htidy.shown j' i (.inl hpasses.of_computing.1)
        exact ⟨deed, List.mem_cons_of_mem _ hdeed, hshows⟩
    · simp only [update_some_of_ne hj] at hplace
      obtain ⟨deed, hdeed, hshows⟩ := htidy.shown j' i hplace
      exact ⟨deed, List.mem_cons_of_mem _ hdeed, hshows⟩
  case computing =>
    intro j' i hplace
    by_cases hj : j' = j
    · subst hj
      simp only [update_some_self] at hplace
      subst hplace
      obtain ⟨hgiven, -, hheap⟩ := hpasses.of_computing
      rw [hheap, Heap.slot_recorded, Heap.slot_setSlot (htidy.lt_length (.inl hgiven)), if_pos rfl]
    · simp only [update_some_of_ne hj] at hplace
      have hslot := htidy.computing j' i hplace
      rcases hpasses.slot_or (htidy.lt_length (.inr hplace)) with
        hsame | hmine | ⟨hvacant, -⟩ | ⟨action, -, howed, -⟩
      · exact hsame.trans hslot
      · exact absurd (htidy.single j' j i hplace hmine) hj
      · rw [hslot] at hvacant
        cases hvacant
      · rw [Heap.cleanup?, hslot] at howed
        cases howed
  case single =>
    -- Nobody else computes a slot that is being marked.
    have hfresh {j' : ι} {i : SlotId} (hj : j' ≠ j) (hplace : place = .computing i) :
        scene.places (some j') ≠ .computing i := by
      intro hbusy
      subst hplace
      obtain ⟨-, hvacant, -⟩ := hpasses.of_computing
      rw [htidy.computing j' i hbusy] at hvacant
      cases hvacant
    intro j₁ j₂ i h₁ h₂
    by_cases hj₁ : j₁ = j
    · by_cases hj₂ : j₂ = j
      · rw [hj₁, hj₂]
      · subst hj₁
        simp only [update_some_self] at h₁
        simp only [update_some_of_ne hj₂] at h₂
        exact absurd h₂ (hfresh hj₂ h₁)
    · simp only [update_some_of_ne hj₁] at h₁
      by_cases hj₂ : j₂ = j
      · subst hj₂
        simp only [update_some_self] at h₂
        exact absurd h₁ (hfresh hj₁ h₂)
      · simp only [update_some_of_ne hj₂] at h₂
        exact htidy.single j₁ j₂ i h₁ h₂
  case began =>
    intro j' hplace
    by_cases hj : j' = j
    · subst hj
      exact ⟨_, _, List.mem_cons_self⟩
    · simp only [update_some_of_ne hj] at hplace
      exact (htidy.began j' hplace).of_mem_cons

/-- Someone who computes a key comes back from a call of user code. -/
theorem Tidy.callerResumes (htidy : Tidy s scene) {demand : Demand H} {j : ι} {place : Demand.Place H}
    {r : Reply} {program : Program H r} {outcome : Outcome (r.Carrier H)}
    (hresumes : demand.Resumes (scene.places (some j)) program outcome place) :
    Tidy s ⟨scene.world, Function.update scene.places (some j) place,
      .called (some j) program outcome :: scene.log⟩ := by
  apply htidy.called
  intro j'
  by_cases hj : j' = j
  · subst hj
    rw [Function.update_self]
    generalize scene.places (some j') = before at hresumes
    cases hresumes with
    | computed i outcome => exact ⟨fun _ => id, fun _ => id, id⟩
    | cleaned action outcome => simp
  · rw [Function.update_of_ne (by simpa using hj)]
    exact ⟨fun _ => id, fun _ => id, id⟩

/-- Whoever closes the store passes a section. -/
theorem Tidy.closer (htidy : Tidy s scene) {w : World H} {place : Closing.Place H}
    (hmove : Move scene.world w)
    (hpasses : Closing.Passes s (scene.places none) scene.world.heap w.heap place) :
    Tidy s ⟨w, Function.update scene.places none place, .passed none scene.world w :: scene.log⟩ := by
  constructor
  case made => exact Nat.lt_of_lt_of_le htidy.made hmove.extends.stores
  case wellFormed => exact hmove.wellFormed htidy.wellFormed
  case created => exact htidy.created_passed hmove none
  case shown =>
    intro j i hplace
    simp only [update_none_some] at hplace
    obtain ⟨deed, hdeed, hshows⟩ := htidy.shown j i hplace
    exact ⟨deed, List.mem_cons_of_mem _ hdeed, hshows⟩
  case computing =>
    intro j i hplace
    simp only [update_none_some] at hplace
    have hslot := htidy.computing j i hplace
    rcases hpasses.slot_or (i := i) with hsame | ⟨k, action, rest, handled, -, howed, -⟩
    · exact hsame.trans hslot
    · rw [Heap.cleanup?, hslot] at howed
      cases howed
  case single =>
    intro j j' i hplace hplace'
    simp only [update_none_some] at hplace hplace'
    exact htidy.single j j' i hplace hplace'
  case began =>
    intro j hplace
    simp only [update_none_some] at hplace
    exact (htidy.began j hplace).of_mem_cons

/-- Whoever closes the store comes back from a cleanup action. -/
theorem Tidy.closerResumes (htidy : Tidy s scene) {r : Reply} {program : Program H r}
    {outcome : Outcome (r.Carrier H)} (place : Closing.Place H) :
    Tidy s ⟨scene.world, Function.update scene.places none place,
      .called none program outcome :: scene.log⟩ := by
  apply htidy.called
  intro j
  rw [Function.update_of_ne (by simp)]
  exact ⟨fun _ => id, fun _ => id, id⟩

/-- Every step leaves everything tidy. -/
theorem Tidy.step (htidy : Tidy s scene) {crew : ι → Demand H} {scene' : Scene H (Place H ι)}
    (hstep : scene.Step (rules crew s) (Bystanding s) scene') : Tidy s scene' := by
  cases hstep with
  | passed j hpasses =>
      cases j with
      | none => exact htidy.closer hpasses.1 hpasses.2
      | some j => exact htidy.caller hpasses.1 hpasses.2
  | called j hresumes =>
      cases j with
      | none => exact htidy.closerResumes _
      | some j => exact htidy.callerResumes hresumes
  | others hothers => exact htidy.others hothers

end Tidy

/-- What has become of a cleanup action that was owed when the store was closed. Either whoever closes the
store has yet to come to it, or runs it, or has run it; or someone who computes a key has taken it, runs
it and is refused. -/
inductive Accounted (scene : Scene H (Place H ι)) (earlier later : List (Deed H (Option ι)))
    (owed : Owed (Program H .done)) : Prop where
  | awaiting (howed : scene.world.heap.cleanup? owed.slot = some owed.action)
      (hrest : (owed.key, owed.slot) ∈ (scene.places none).rest) : Accounted scene earlier later owed
  | running (hcurrent : (scene.places none).current? = some owed) : Accounted scene earlier later owed
  | handled (outcome : Outcome (Except Failure Unit))
      (hhandled : ⟨owed, outcome⟩ ∈ (scene.places none).handled) : Accounted scene earlier later owed
  | taken (j : ι) (htaken : Taken earlier later owed j)
      (hplace : scene.places (some j) = .cleaning owed.action ∨
        scene.places (some j) = .refused ∧ ∃ outcome, .called (some j) owed.action outcome ∈ later) :
      Accounted scene earlier later owed

/-- What holds in every scene after the store was closed by a section. -/
structure Marked (s : StoreId) (scene : Scene H (Place H ι)) (earlier : List (Deed H (Option ι)))
    (before after : World H) (later : List (Deed H (Option ι))) : Prop where
  log : scene.log = later ++ .passed none before after :: earlier
  first : ¬ Began earlier none
  begins : before.heap.beginClose s = some ((before.heap.store s).entries, after.heap)
  closed : scene.world.heap.isClosed s = true
  closing : scene.places none ≠ .closing
  engaged : ∀ j, (scene.places (some j)).Engaged → Began earlier (some j)
  apart : ∀ k k' i, (k, i) ∈ (scene.places none).rest → (k', i) ∈ (scene.places none).rest → k = k'
  reported : ∀ handled ∈ (scene.places none).handled,
    .called none handled.owed.action handled.outcome ∈ later
  accounted : ∀ owed ∈ before.heap.owed (before.heap.store s).entries.reverse,
    Accounted scene earlier later owed

section Marked

variable {s : StoreId} {scene : Scene H (Place H ι)} {earlier later : List (Deed H (Option ι))}
  {before after : World H} {owed : Owed (Program H .done)}

theorem Marked.shows (hmarked : Marked s scene earlier before after later)
    (howed : owed ∈ before.heap.owed (before.heap.store s).entries.reverse) :
    ∃ deed ∈ scene.log, deed.Shows s owed.key owed.slot := by
  refine ⟨.passed none before after, ?_, .inl ?_⟩
  · rw [hmarked.log]
    exact List.mem_append_right _ List.mem_cons_self
  · obtain ⟨entry, hentry, hsome⟩ := List.mem_filterMap.mp howed
    obtain ⟨action, -, rfl⟩ := Option.map_eq_some_iff.mp hsome
    exact List.mem_reverse.mp hentry

theorem Marked.others (hmarked : Marked s scene earlier before after later) {w : World H}
    (hothers : Bystanding s scene.log scene.world w) :
    Marked s ⟨w, scene.places, scene.log⟩ earlier before after later where
  log := hmarked.log
  first := hmarked.first
  begins := hmarked.begins
  closed := hothers.2.1.trans hmarked.closed
  closing := hmarked.closing
  engaged := hmarked.engaged
  apart := hmarked.apart
  reported := hmarked.reported
  accounted owed howed := by
    obtain ⟨deed, hdeed, hshows⟩ := hmarked.shows howed
    have hslot := hothers.2.2 deed hdeed _ _ hshows
    cases hmarked.accounted owed howed with
    | awaiting hstill hrest => exact .awaiting ((Heap.cleanup?_of_slot_eq hslot).trans hstill) hrest
    | running hcurrent => exact .running hcurrent
    | handled outcome hhandled => exact .handled outcome hhandled
    | taken j htaken hplace => exact .taken j htaken hplace

variable [DecidableEq ι]

/-- Someone who computes a key passes a section of the closed store. -/
theorem Marked.caller (hmarked : Marked s scene earlier before after later) (htidy : Tidy s scene)
    {k : Key} {j : ι} {w : World H} {place : Demand.Place H} (hmove : Move scene.world w)
    (hpasses : Demand.Passes s k (scene.places (some j)) scene.world.heap w.heap place) :
    Marked s ⟨w, Function.update scene.places (some j) place,
      .passed (some j) scene.world w :: scene.log⟩ earlier before after
      (.passed (some j) scene.world w :: later) := by
  constructor
  case log => rw [hmarked.log, List.cons_append]
  case first => exact hmarked.first
  case begins => exact hmarked.begins
  case closed => exact hmove.extends.closed s htidy.made hmarked.closed
  case closing =>
    simp only [update_some_none]
    exact hmarked.closing
  case engaged =>
    intro j' hengaged
    by_cases hj : j' = j
    · subst hj
      simp only [update_some_self] at hengaged
      exact hmarked.engaged j' (hpasses.engaged hmarked.closed hengaged)
    · simp only [update_some_of_ne hj] at hengaged
      exact hmarked.engaged j' hengaged
  case apart =>
    simp only [update_some_none]
    exact hmarked.apart
  case reported =>
    simp only [update_some_none]
    exact fun handled hhandled => List.mem_cons_of_mem _ (hmarked.reported handled hhandled)
  case accounted =>
    intro owed howed
    cases hmarked.accounted owed howed with
    | awaiting hstill hrest =>
        obtain ⟨deed, hdeed, hshows⟩ := hmarked.shows howed
        rcases hpasses.slot_or (htidy.created deed hdeed _ _ hshows) with
          hsame | hcomputing | ⟨hvacant, -⟩ | ⟨action, hlate, haction, rfl, htook⟩
        · refine .awaiting ((Heap.cleanup?_of_slot_eq hsame).trans hstill) ?_
          simp only [update_some_none]
          exact hrest
        · rw [Heap.cleanup?, htidy.computing j _ hcomputing] at hstill
          cases hstill
        · rw [Heap.cleanup?, hvacant] at hstill
          cases hstill
        · rw [hstill] at haction
          cases haction
          have hbegan : Began earlier (some j) := hmarked.engaged j (by rw [hlate]; trivial)
          exact .taken j ⟨hbegan, _, _, List.mem_cons_self, hstill, htook⟩ (.inl (update_some_self ..))
    | running hcurrent => exact .running (by simp only [update_some_none]; exact hcurrent)
    | handled outcome hhandled => exact .handled outcome (by simp only [update_some_none]; exact hhandled)
    | taken j' htaken hplace =>
        refine .taken j' htaken.of_mem_cons ?_
        by_cases hj : j' = j
        · subst hj
          simp only [update_some_self]
          rcases hplace with hcleaning | ⟨hrefused, outcome, hcalled⟩
          · rw [hcleaning] at hpasses
            cases hpasses
          · rw [hrefused] at hpasses
            exact .inr ⟨hpasses.of_refused, outcome, List.mem_cons_of_mem _ hcalled⟩
        · simp only [update_some_of_ne hj]
          rcases hplace with hcleaning | ⟨hrefused, outcome, hcalled⟩
          · exact .inl hcleaning
          · exact .inr ⟨hrefused, outcome, List.mem_cons_of_mem _ hcalled⟩

/-- Someone who computes a key comes back from a call of user code. -/
theorem Marked.callerResumes (hmarked : Marked s scene earlier before after later)
    {demand : Demand H} {j : ι} {place : Demand.Place H} {r : Reply} {program : Program H r}
    {outcome : Outcome (r.Carrier H)}
    (hresumes : demand.Resumes (scene.places (some j)) program outcome place) :
    Marked s ⟨scene.world, Function.update scene.places (some j) place,
      .called (some j) program outcome :: scene.log⟩ earlier before after
      (.called (some j) program outcome :: later) := by
  constructor
  case log => rw [hmarked.log, List.cons_append]
  case first => exact hmarked.first
  case begins => exact hmarked.begins
  case closed => exact hmarked.closed
  case closing =>
    simp only [update_some_none]
    exact hmarked.closing
  case engaged =>
    intro j' hengaged
    by_cases hj : j' = j
    · subst hj
      simp only [update_some_self] at hengaged
      exact hmarked.engaged j' hresumes.engaged
    · simp only [update_some_of_ne hj] at hengaged
      exact hmarked.engaged j' hengaged
  case apart =>
    simp only [update_some_none]
    exact hmarked.apart
  case reported =>
    simp only [update_some_none]
    exact fun handled hhandled => List.mem_cons_of_mem _ (hmarked.reported handled hhandled)
  case accounted =>
    intro owed howed
    cases hmarked.accounted owed howed with
    | awaiting hstill hrest => exact .awaiting hstill (by simp only [update_some_none]; exact hrest)
    | running hcurrent => exact .running (by simp only [update_some_none]; exact hcurrent)
    | handled outcome hhandled => exact .handled outcome (by simp only [update_some_none]; exact hhandled)
    | taken j' htaken hplace =>
        refine .taken j' htaken.of_mem_cons ?_
        by_cases hj : j' = j
        · subst hj
          simp only [update_some_self]
          rcases hplace with hcleaning | ⟨hrefused, -⟩
          · rw [hcleaning] at hresumes
            cases hresumes with
            | cleaned action outcome => exact .inr ⟨rfl, outcome, List.mem_cons_self⟩
          · rw [hrefused] at hresumes
            cases hresumes
        · simp only [update_some_of_ne hj]
          exact hplace.imp id fun ⟨hrefused, outcome, hcalled⟩ =>
            ⟨hrefused, outcome, List.mem_cons_of_mem _ hcalled⟩

/-- Whoever closes the store passes a section after the one that closed it. -/
theorem Marked.closer (hmarked : Marked s scene earlier before after later) (htidy : Tidy s scene)
    {w : World H} {place : Closing.Place H} (hmove : Move scene.world w)
    (hpasses : Closing.Passes s (scene.places none) scene.world.heap w.heap place) :
    Marked s ⟨w, Function.update scene.places none place,
      .passed none scene.world w :: scene.log⟩ earlier before after
      (.passed none scene.world w :: later) := by
  constructor
  case log => rw [hmarked.log, List.cons_append]
  case first => exact hmarked.first
  case begins => exact hmarked.begins
  case closed => exact hmove.extends.closed s htidy.made hmarked.closed
  case closing =>
    simp only [update_none_self]
    exact hpasses.ne_closing
  case engaged =>
    simp only [update_none_some]
    exact hmarked.engaged
  case apart =>
    simp only [update_none_self]
    have hsubset := hpasses.rest_subset hmarked.closing
    exact fun k k' i hk hk' => hmarked.apart k k' i (hsubset hk) (hsubset hk')
  case reported =>
    simp only [update_none_self, hpasses.handled_eq hmarked.closing]
    exact fun handled hhandled => List.mem_cons_of_mem _ (hmarked.reported handled hhandled)
  case accounted =>
    intro owed howed
    cases hmarked.accounted owed howed with
    | awaiting hstill hrest =>
        rcases hpasses.awaiting hmarked.closing hmarked.apart hstill hrest with
          ⟨hstill, hrest⟩ | hcurrent
        · exact .awaiting hstill (by simp only [update_none_self]; exact hrest)
        · exact .running (by simp only [update_none_self]; exact hcurrent)
    | running hcurrent => exact absurd hcurrent hpasses.current?_ne_some
    | handled outcome hhandled =>
        refine .handled outcome ?_
        simp only [update_none_self, hpasses.handled_eq hmarked.closing]
        exact hhandled
    | taken j htaken hplace =>
        refine .taken j htaken.of_mem_cons ?_
        simp only [update_none_some]
        exact hplace.imp id fun ⟨hrefused, outcome, hcalled⟩ =>
          ⟨hrefused, outcome, List.mem_cons_of_mem _ hcalled⟩

/-- Whoever closes the store comes back from a cleanup action. -/
theorem Marked.closerResumes (hmarked : Marked s scene earlier before after later)
    {place : Closing.Place H} {r : Reply} {program : Program H r} {outcome : Outcome (r.Carrier H)}
    (hresumes : Closing.Resumes (scene.places none) program outcome place) :
    Marked s ⟨scene.world, Function.update scene.places none place,
      .called none program outcome :: scene.log⟩ earlier before after
      (.called none program outcome :: later) := by
  generalize hbefore : scene.places none = place₀ at hresumes
  cases hresumes with
  | cleaned running rest handled outcome =>
      constructor
      case log => rw [hmarked.log, List.cons_append]
      case first => exact hmarked.first
      case begins => exact hmarked.begins
      case closed => exact hmarked.closed
      case closing => simp
      case engaged =>
        simp only [update_none_some]
        exact hmarked.engaged
      case apart =>
        simp only [update_none_self]
        have hapart := hmarked.apart
        rw [hbefore] at hapart
        exact hapart
      case reported =>
        simp only [update_none_self]
        intro one hone
        rcases List.mem_append.mp hone with hold | hnew
        · refine List.mem_cons_of_mem _ (hmarked.reported one ?_)
          rw [hbefore]
          exact hold
        · rw [List.mem_singleton.mp hnew]
          exact List.mem_cons_self
      case accounted =>
        intro owed howed
        cases hmarked.accounted owed howed with
        | awaiting hstill hrest =>
            rw [hbefore] at hrest
            exact .awaiting hstill (by simp only [update_none_self]; exact hrest)
        | running hcurrent =>
            rw [hbefore] at hcurrent
            cases hcurrent
            refine .handled outcome ?_
            simp only [update_none_self]
            exact List.mem_append_right _ (List.mem_singleton_self _)
        | handled outcome' hhandled =>
            rw [hbefore] at hhandled
            refine .handled outcome' ?_
            simp only [update_none_self]
            exact List.mem_append_left _ hhandled
        | taken j htaken hplace =>
            refine .taken j htaken.of_mem_cons ?_
            simp only [update_none_some]
            exact hplace.imp id fun ⟨hrefused, outcome, hcalled⟩ =>
              ⟨hrefused, outcome, List.mem_cons_of_mem _ hcalled⟩

/-- Every step after the section that closed the store keeps the account. -/
theorem Marked.step (hmarked : Marked s scene earlier before after later) (htidy : Tidy s scene)
    {crew : ι → Demand H} {scene' : Scene H (Place H ι)}
    (hstep : scene.Step (rules crew s) (Bystanding s) scene') :
    ∃ later', Marked s scene' earlier before after later' := by
  cases hstep with
  | passed j hpasses =>
      cases j with
      | none => exact ⟨_, hmarked.closer htidy hpasses.1 hpasses.2⟩
      | some j => exact ⟨_, hmarked.caller htidy hpasses.1 hpasses.2⟩
  | called j hresumes =>
      cases j with
      | none => exact ⟨_, hmarked.closerResumes hresumes⟩
      | some j => exact ⟨_, hmarked.callerResumes hresumes⟩
  | others hothers => exact ⟨_, hmarked.others hothers⟩

end Marked

section Standing

variable {s : StoreId} {scene : Scene H (Place H ι)}

/-- Whoever closes the store has yet to do so. -/
structure Ahead (s : StoreId) (scene : Scene H (Place H ι)) : Prop where
  place : scene.places none = .closing
  isOpen : scene.world.heap.isClosed s = false
  quiet : ¬ Began scene.log none

variable [DecidableEq ι]

theorem Ahead.step (hahead : Ahead s scene) (htidy : Tidy s scene) {crew : ι → Demand H}
    {scene' : Scene H (Place H ι)} (hstep : scene.Step (rules crew s) (Bystanding s) scene') :
    Ahead s scene' ∨ ∃ earlier before after later, Marked s scene' earlier before after later := by
  obtain ⟨hplace, hopen, hquiet⟩ := hahead
  have hstill {deed : Deed H (Option ι)} (hdeed : ∀ before after, deed ≠ .passed none before after) :
      ¬ Began (deed :: scene.log) none := by
    rintro ⟨before, after, hmem⟩
    rcases List.mem_cons.mp hmem with rfl | hold
    · exact hdeed _ _ rfl
    · exact hquiet ⟨before, after, hold⟩
  cases hstep with
  | @passed j w place hpasses =>
      cases j with
      | some j =>
          exact .inl ⟨(update_some_none j place).trans hplace, hpasses.2.isClosed.trans hopen,
            hstill (by simp)⟩
      | none =>
          obtain ⟨hmove, hcloses⟩ := hpasses
          obtain ⟨hbegin, rfl⟩ := hcloses.of_closing hplace hopen
          refine .inr ⟨scene.log, scene.world, w, [], ?_⟩
          constructor
          case log => rfl
          case first => exact hquiet
          case begins => exact hbegin
          case closed => exact Heap.isClosed_beginClose hbegin
          case closing =>
            simp only [update_none_self]
            exact fun hsame => nomatch hsame
          case engaged =>
            intro j hengaged
            simp only [update_none_some] at hengaged
            refine htidy.began j fun harriving => ?_
            rw [harriving] at hengaged
            exact hengaged
          case apart =>
            intro k k' i hk hk'
            simp only [update_none_self, Closing.Place.rest, List.mem_reverse] at hk hk'
            exact (htidy.wellFormed.apart s s k k' i hk hk').2
          case reported =>
            simp only [update_none_self]
            exact List.forall_mem_nil _
          case accounted =>
            intro owed howed
            obtain ⟨entry, hentry, hsome⟩ := List.mem_filterMap.mp howed
            obtain ⟨action, haction, rfl⟩ := Option.map_eq_some_iff.mp hsome
            refine .awaiting ?_ (by simp only [update_none_self]; exact hentry)
            obtain ⟨-, -, hheap⟩ := Heap.of_beginClose hbegin
            simp only [hheap]
            exact haction
  | @called j r program outcome place hresumes =>
      cases j with
      | some j =>
          exact .inl ⟨(update_some_none j place).trans hplace, hopen, hstill (by simp)⟩
      | none =>
          rw [hplace] at hresumes
          cases hresumes
  | others hothers => exact .inl ⟨hplace, hothers.2.1.trans hopen, hquiet⟩

/-- Every scene on the way is tidy. In it whoever closes the store has yet to do so, or the cleanup actions
that were owed when it was closed are accounted for. -/
theorem standing_of_steps {crew : ι → Demand H} {w : World H} (hwf : w.heap.WellFormed)
    (hopen : w.heap.isClosed s = false)
    (hsteps : ReflTransGen (Scene.Step (rules crew s) (Bystanding s)) ⟨w, places, []⟩ scene) :
    Tidy s scene ∧
      (Ahead s scene ∨ ∃ earlier before after later, Marked s scene earlier before after later) := by
  induction hsteps with
  | refl =>
      refine ⟨?_, .inl ⟨rfl, hopen, ?_⟩⟩
      · constructor
        case made => exact Heap.lt_length_of_open hopen
        case wellFormed => exact hwf
        case created => exact List.forall_mem_nil _
        case shown => simp [places]
        case computing => simp [places]
        case single => simp [places]
        case began => simp [places]
      · rintro ⟨before, after, hmem⟩
        cases hmem
  | tail _ hstep ih =>
      obtain ⟨htidy, hahead | ⟨earlier, before, after, later, hmarked⟩⟩ := ih
      · exact ⟨htidy.step hstep, hahead.step htidy hstep⟩
      · obtain ⟨later', hmarked'⟩ := hmarked.step htidy hstep
        exact ⟨htidy.step hstep, .inr ⟨earlier, before, after, later', hmarked'⟩⟩

end Standing

/-- What the answer to whoever closes a store tells, after what it has handled. The cleanup actions in
question are those that were owed for the entries when the store was closed; before that the members have
done one thing, after that another. -/
structure Answered [DecidableEq ι] (crew : ι → Demand H) (last : Ensemble H (Answer ι))
    (earlier later : List (Deed H (Option ι))) (debts : List (Owed (Program H .done)))
    (handled : List (Handled H)) (answer : Except StoreCloseError Unit) : Prop where
  /-- Whatever has been handled was run, and ended in that way. -/
  ran : ∀ one ∈ handled, .called none one.owed.action one.outcome ∈ later
  /-- The answer is good exactly if all that was handled succeeded. -/
  ok_iff : answer = .ok () ↔ ∀ one ∈ handled, one.outcome = .returned (.ok ())
  /-- Otherwise it has the errors of all that failed, in order. -/
  errors : ∀ e, answer = .error e → e.errors = handled.flatMap Handled.errors
  /-- A cleanup action that was not handled has been taken by someone who computes a key, had passed a
  section before the store was closed, and runs the action, to be refused after that. -/
  accounted : ∀ owed ∈ debts, (∃ outcome, ⟨owed, outcome⟩ ∈ handled) ∨
    ∃ j, Taken earlier later owed j ∧ ∀ outcome, last.members (some j) = .own (.ended outcome) →
      outcome = .returned (.error (.closed (crew j).key)) ∧
        ∃ ending, .called (some j) owed.action ending ∈ later
  /-- All have been handled if nobody has passed a section both before and after the store was closed. -/
  undisturbed : (∀ j, Began earlier (some j) → ¬ Began later (some j)) →
    ∀ owed ∈ debts, ∃ outcome, ⟨owed, outcome⟩ ∈ handled

theorem Handled.errors_eq_nil_iff {handled : Handled H} :
    handled.errors = [] ↔ handled.outcome = .returned (.ok ()) := by
  obtain ⟨owed, outcome⟩ := handled
  cases outcome with
  | panicked payload => simp [Handled.errors, Routine.cleanupFailure]
  | returned answer =>
      cases answer with
      | error e => simp [Handled.errors, Routine.cleanupFailure]
      | ok done => simp [Handled.errors, Routine.cleanupFailure]

/-- The answer tells about all that was handled. -/
theorem Marked.answered [DecidableEq ι] {crew : ι → Demand H} {s : StoreId}
    {last : Ensemble H (Answer ι)} {scene : Scene H (Place H ι)}
    {earlier later : List (Deed H (Option ι))} {before after : World H} {handled : List (Handled H)}
    (hmarked : Marked s scene earlier before after later)
    (hat : last.At (rules crew s) (final crew) scene) (hplace : scene.places none = .cleaning [] handled) :
    Answered crew last earlier later (before.heap.owed (before.heap.store s).entries.reverse) handled
      (Closing.verdict handled) := by
  have haccounted : ∀ owed ∈ before.heap.owed (before.heap.store s).entries.reverse,
      (∃ outcome, ⟨owed, outcome⟩ ∈ handled) ∨
        ∃ j, Taken earlier later owed j ∧ ∀ outcome, last.members (some j) = .own (.ended outcome) →
          outcome = .returned (.error (.closed (crew j).key)) ∧
            ∃ ending, .called (some j) owed.action ending ∈ later := by
    intro owed howed
    cases hmarked.accounted owed howed with
    | awaiting _ hrest =>
        rw [hplace] at hrest
        cases hrest
    | running hcurrent =>
        rw [hplace] at hcurrent
        cases hcurrent
    | handled outcome hhandled =>
        rw [hplace] at hhandled
        exact .inl ⟨outcome, hhandled⟩
    | taken j htaken hplace =>
        refine .inr ⟨j, htaken, fun outcome hended => ?_⟩
        have hfinal : (crew j).final outcome (scene.places (some j)) := hat.of_ended hended
        rcases hplace with hcleaning | ⟨hrefused, hcalled⟩
        · rw [hcleaning] at hfinal
          rcases hfinal with hthrough | ⟨hrefused, -⟩
          · cases hthrough
          · cases hrefused
        · rw [hrefused] at hfinal
          rcases hfinal with hthrough | ⟨-, houtcome⟩
          · cases hthrough
          · exact ⟨houtcome, hcalled⟩
  constructor
  case ran =>
    intro one hone
    apply hmarked.reported one
    rw [hplace]
    exact hone
  case ok_iff =>
    have herrors : handled.flatMap Handled.errors = [] ↔
        ∀ one ∈ handled, one.outcome = .returned (.ok ()) := by
      rw [List.flatMap_eq_nil_iff]
      exact forall₂_congr fun one _ => Handled.errors_eq_nil_iff
    rw [← herrors, Closing.verdict]
    split
    · next hnil => exact ⟨fun _ => hnil, fun _ => rfl⟩
    · next hsome => simpa using hsome
  case errors =>
    intro e herror
    rw [Closing.verdict] at herror
    split at herror
    · cases herror
    · cases herror
      rfl
  case accounted => exact haccounted
  case undisturbed =>
    intro hapart owed howed
    rcases haccounted owed howed with hhandled | ⟨j, ⟨hbegan, before', after', hlate, -⟩, -⟩
    · exact hhandled
    · exact absurd ⟨before', after', hlate⟩ (hapart j hbegan)

variable [DecidableEq ι]

/-- One thread closes an open store while any number of others compute keys of it, in any interleaving of
their sections. The answer has the errors of all cleanup actions that whoever closes the store has run.
Those are the ones that were owed when it was closed, except for what has been taken by others, who had
begun to compute a key before that. -/
theorem close_answers_for_what_it_handled {crew : ι → Demand H} {s : StoreId} {w : World H}
    {last : Ensemble H (Answer ι)} {outcome : Outcome (Except StoreCloseError Unit)}
    (hw : w.Reachable) (hopen : w.heap.isClosed s = false)
    (hrun : (Ensemble.start (routines crew s) w).Run (Bystanding s) last)
    (hended : last.members none = .own (.ended outcome)) :
    ∃ earlier before after later handled answer,
      last.log = later ++ .passed none before after :: earlier ∧ ¬ Began earlier none ∧
        before.heap.beginClose s = some ((before.heap.store s).entries, after.heap) ∧
        outcome = .returned answer ∧
        Answered crew last earlier later (before.heap.owed (before.heap.store s).entries.reverse)
          handled answer := by
  have hstart : (Ensemble.start (routines crew s) w).At (rules crew s) (final crew)
      ⟨w, places, []⟩ := by
    apply Ensemble.At.start
    rintro (_ | j)
    · exact Closing.follows_close s
    · exact (crew j).follows_routine s
  obtain ⟨scene, hat, hsteps⟩ := hstart.run hrun
  obtain ⟨handled, hplace, hverdict⟩ : Closing.final outcome (scene.places none) :=
    hat.of_ended hended
  obtain ⟨-, hahead | ⟨earlier, before, after, later, hmarked⟩⟩ :=
    standing_of_steps hw.wellFormed hopen hsteps
  · rw [hahead.place] at hplace
    cases hplace
  · have hlog := hat.log.symm.trans hmarked.log
    exact ⟨earlier, before, after, later, handled, _, hlog, hmarked.first, hmarked.begins, hverdict,
      hmarked.answered hat hplace⟩

end Rivals

/-- Someone who computes a value whose cleanup action fails. -/
def Demand.leaking (name : String) : Demand Host.bare where
  key := ⟨⟨["files"]⟩, name⟩
  type := .unit
  factory := .finish ⟨.unit, .refl Ty.unit⟩
  cleanup := some fun _ => .finish (.error (.plain (.single "still locked")))

namespace Rivals

/-- Of two who compute values, one is done before the store is closed. The other one has stored a value,
but looks only after that whether the store has been closed. -/
theorem close_answers_for_what_it_handled_twoCallers :
    let w : World Host.bare := ((World.initial ()).newStore none).2
    let crew (j : Bool) : Demand Host.bare := .leaking (if j then "lock" else "log")
    ∃ last, (Ensemble.start (routines crew 0) w).Run (Bystanding 0) last ∧
      last.members none = .own (.ended (.returned (.error
        ⟨[⟨⟨⟨["files"]⟩, "lock"⟩, .single "still locked"⟩]⟩))) ∧
      last.members (some false) = .own (.ended (.returned (.error
        (.closed ⟨⟨["files"]⟩, "log"⟩)))) ∧
      ∃ earlier before after later handled answer,
        last.log = later ++ .passed none before after :: earlier ∧
          Answered crew last earlier later
            (before.heap.owed (before.heap.store 0).entries.reverse) handled answer := by
  intro w crew
  let turns : List (Option Bool) :=
    List.replicate 5 (some false) ++ List.replicate 6 (some true) ++ [none] ++
      List.replicate 5 (some false) ++ List.replicate 5 none
  let first := Ensemble.start (routines crew 0) w
  have hw : w.Reachable := ⟨(), .single (.plain (.storeMade _ none))⟩
  have hrun := Ensemble.run_foldl_turn (Bystanding 0) first turns
  have hended : (turns.foldl Ensemble.turn first).members none =
      .own (.ended (.returned (.error ⟨[⟨⟨⟨["files"]⟩, "lock"⟩, .single "still locked"⟩]⟩))) :=
    Ensemble.ended_of_answer? (by decide +kernel)
  refine ⟨_, hrun, hended, Ensemble.ended_of_answer? (by decide +kernel), ?_⟩
  obtain ⟨earlier, before, after, later, handled, answer, hlog, -, -, -, hanswered⟩ :=
    close_answers_for_what_it_handled hw (by decide) hrun hended
  exact ⟨earlier, before, after, later, handled, answer, hlog, hanswered⟩

/-- The turns of one who computes a value of a store and one who closes it. The store is closed between
the section that stores the value and the look whether the store has been closed. -/
def overtakingTurns : List (Option Unit) :=
  List.replicate 5 (some ()) ++ [none] ++ List.replicate 5 (some ()) ++ [none, none]

/-- The two of them after a number of their turns. -/
def overtaking (turns : Nat) : Ensemble Host.bare (Answer Unit) :=
  (overtakingTurns.take turns).foldl Ensemble.turn
    (.start (routines (fun _ => .leaking "log") 0) ((World.initial ()).newStore none).2)

/-- Closing a store does not report the failure of every cleanup action that was owed for a stored value
when the store was closed. -/
theorem close_misses_failure_of_overtaken :
    ¬ ∀ (crew : Unit → Demand Host.bare) (s : StoreId) (w : World Host.bare)
      (last : Ensemble Host.bare (Answer Unit)) (answer : Except StoreCloseError Unit),
      w.Reachable → w.heap.isClosed s = false →
      (Ensemble.start (routines crew s) w).Run (Bystanding s) last →
      last.members none = .own (.ended (.returned answer)) →
      ∀ earlier before after later, last.log = later ++ .passed none before after :: earlier →
        ¬ Began earlier none →
        ∀ owed ∈ before.heap.owed (before.heap.store s).entries.reverse, ∀ j outcome error,
          .called j owed.action outcome ∈ later →
          Routine.cleanupFailure owed.key outcome = some error →
          ∃ e, answer = .error e ∧ error ∈ e.errors := by
  intro hall
  let e : Failure := .plain (.single "still locked")
  have hw : ((World.initial ()).newStore none : StoreId × World Host.bare).2.Reachable :=
    ⟨(), .single (.plain (.storeMade _ none))⟩
  have hrun := Ensemble.run_foldl_turn (Bystanding 0) (overtaking 0) overtakingTurns
  have hended : (overtaking 13).members none = .own (.ended (.returned (.ok ()))) :=
    Ensemble.ended_of_answer? (by decide +kernel)
  have hlog : (overtaking 13).log = (overtaking 13).log.take 6 ++
      .passed none (overtaking 5).world (overtaking 6).world :: (overtaking 5).log := rfl
  have hquiet : ¬ Began (overtaking 5).log none := by
    rintro ⟨before, after, hmem⟩
    have hothers : ∀ deed ∈ (overtaking 5).log, deed.who = some () := by decide +kernel
    cases hothers _ hmem
  have howed : (overtaking 5).world.heap.owed ((overtaking 5).world.heap.store 0).entries.reverse =
      [⟨⟨⟨["files"]⟩, "log"⟩, 0, .finish (.error e)⟩] := rfl
  have hcalled : .called (some ()) (.finish (.error e) : Program Host.bare .done) (.returned (.error e)) ∈
      (overtaking 13).log.take 6 :=
    List.mem_of_getElem? (i := 3) rfl
  obtain ⟨_, hok, -⟩ := hall _ 0 _ (overtaking 13) _ hw (by decide) hrun hended _ _ _ _ hlog hquiet _
    (by rw [howed]; exact List.mem_singleton_self _) _ _ _ hcalled rfl
  cases hok

end Rivals

end TimedInvocation
