import TimedInvocation.Proofs.Store.Growth
import TimedInvocation.Proofs.Store.Sequential
import TimedInvocation.Proofs.Tales

/-!
# From taking a cleanup action to running it

Whoever takes the cleanup action that a slot owes calls it next, and nobody calls a cleanup action that he
has not taken. So the calls of cleanup actions in a run can be counted by the marks that taking them leaves
in the history, and each of them runs what was given for the value in its slot.
-/

namespace TimedInvocation

open StoreOccurrence World

variable {H : Host} {α β : Type}

namespace Section

/-- The cleanup action that is taken in a section: the history tells of which slot, and the slot owed it. -/
def taken? (x : Section H) : Option (SlotId × Program H .done) :=
  match x.found.heap.since x.left.heap with
  | [.cleaned i] => (x.found.heap.cleanup? i).map fun cleanup => (i, cleanup)
  | _ => none

/-- A callback is announced in a section. -/
def Announces (x : Section H) : Prop :=
  ∃ o : Occurrence, o.IsCallback ∧ x.left = x.found.recorded o

/-- A cleanup action is given in a section to the value of a slot that is filled. -/
def Gives (x : Section H) (i : SlotId) (cleanup : Program H .done) : Prop :=
  x.found.Gift x.left (some cleanup) ∧ (∃ s, filled s i true ∈ x.found.heap.since x.left.heap) ∧
    x.left.heap.cleanup? i = some cleanup

/-- A section takes no cleanup action, or the one that a slot owes. -/
inductive Honest (x : Section H) : Prop where
  | none (hnone : x.found.TakesNone x.left)
  | taken (i : SlotId) (howed : (x.found.heap.cleanup? i).isSome)
      (hleft : x.left = (x.found.takeCleanup i).2)

theorem taken?_of_takesNone {x : Section H} (hnone : x.found.TakesNone x.left) : x.taken? = none := by
  obtain ⟨gift, back, -, -, hnone⟩ := hnone
  rw [taken?]
  split
  · next i hsince =>
    have huntaken := hnone.untaken i
    rw [hsince] at huntaken
    exact absurd (List.mem_singleton_self _) huntaken
  · rfl

theorem taken?_takeCleanup {w : World H} {i : SlotId} {cleanup : Program H .done}
    (howed : w.heap.cleanup? i = some cleanup) :
    (Section.mk w (w.takeCleanup i).2).taken? = some (i, cleanup) := by
  have hsince : w.heap.since (w.takeCleanup i).2.heap = [cleaned i] :=
    Heap.since_of_trace_cons (Heap.trace_takeCleanup howed)
  simp [taken?, hsince, howed]

/-- What is taken is owed by a slot, and the history tells that it was taken. -/
theorem of_taken? {x : Section H} {i : SlotId} {cleanup : Program H .done}
    (htaken : x.taken? = some (i, cleanup)) :
    x.found.heap.cleanup? i = some cleanup ∧ x.found.heap.since x.left.heap = [cleaned i] := by
  rw [taken?] at htaken
  split at htaken
  · next j hsince =>
    obtain ⟨c, howed, hpair⟩ := Option.map_eq_some_iff.mp htaken
    cases hpair
    exact ⟨howed, hsince⟩
  · cases htaken

theorem Honest.extends {x : Section H} (hx : x.Honest) : x.found.heap.Extends x.left.heap := by
  cases hx with
  | none hnone => exact hnone.extends
  | taken i _ hleft =>
      rw [hleft]
      exact .takeCleanup i

/-- Whatever is owed after a section was owed before it, unless the section gives it. -/
theorem Honest.owed {x : Section H} (hx : x.Honest) {i : SlotId} {cleanup : Program H .done}
    (howed : x.left.heap.cleanup? i = some cleanup) :
    x.found.heap.cleanup? i = some cleanup ∨ x.Gives i cleanup := by
  cases hx with
  | none hnone =>
      obtain ⟨gift, back, hgift, -, hnone⟩ := hnone
      refine (hnone.given i cleanup howed).imp_right ?_
      rintro ⟨rfl, hfilled⟩
      exact ⟨hgift, hfilled, howed⟩
  | taken j hj hleft =>
      rw [hleft] at howed
      by_cases hi : i = j
      · subst hi
        exact absurd howed (by simp [World.takeCleanup, Heap.cleanup?_takeCleanup])
      · rw [World.takeCleanup, Heap.cleanup?_of_slot_eq (Heap.slot_takeCleanup_of_ne hi)] at howed
        exact .inl howed

end Section

/-- The cleanup action that was taken right before, and is not called yet. -/
def pending? (last : Option (Section H)) : Option (SlotId × Program H .done) :=
  last.bind Section.taken?

/-- The cleanup action that is called, with its slot. -/
def CallStart.cleaning? (c : CallStart H) : Option (SlotId × Program H .done) :=
  pending? c.last

/-- A cleanup action that was taken is called next, and nothing else. Code that replies nothing is only called
if it was taken as a cleanup action, or is a callback that was announced. -/
def CallStart.Due (c : CallStart H) : Prop :=
  match c.cleaning? with
  | some (_, cleanup) => c.code = ⟨.done, cleanup⟩
  | none => c.code.1 = .done → ∃ x, c.last = some x ∧ x.Announces

/-- The cleanup action of a slot is called. -/
def CallStart.cleans (i : SlotId) (c : CallStart H) : Bool :=
  c.cleaning?.any fun taken => taken.1 == i

theorem CallStart.cleans_iff {i : SlotId} {c : CallStart H} :
    c.cleans i = true ↔ ∃ cleanup, c.cleaning? = some (i, cleanup) := by
  rw [CallStart.cleans]
  cases c.cleaning? with
  | none => simp
  | some taken =>
      obtain ⟨j, cleanup⟩ := taken
      simp

theorem CallStart.Due.code_eq {c : CallStart H} (hdue : c.Due) {i : SlotId} {cleanup : Program H .done}
    (hcleaning : c.cleaning? = some (i, cleanup)) : c.code = ⟨.done, cleanup⟩ := by
  rw [CallStart.Due, hcleaning] at hdue
  exact hdue

/-- The cleanup action of a slot is called. -/
def Note.cleans (i : SlotId) : Note H → Bool
  | .made _ => false
  | .called c => c.cleans i

/-- How many cleanup actions of a slot the thread has taken and not called yet. -/
def owing (last : Option (Section H)) (i : SlotId) : Nat :=
  if (pending? last).any fun taken => taken.1 == i then 1 else 0

theorem owing_of_idle {last : Option (Section H)} (hlast : pending? last = none) (i : SlotId) :
    owing last i = 0 := by
  simp [owing, hlast]

theorem owing_le_one (last : Option (Section H)) (i : SlotId) : owing last i ≤ 1 := by
  rw [owing]
  split
  · exact Nat.le_refl _
  · exact Nat.zero_le _

/-- Taking a cleanup action is what leaves a mark of it in the history. -/
theorem Section.Honest.count_since {x : Section H} (hx : x.Honest) (i : SlotId) :
    (x.found.heap.since x.left.heap).count (cleaned i) = owing (some x) i := by
  cases hx with
  | none hnone =>
      have hidle : pending? (some x) = .none := taken?_of_takesNone hnone
      obtain ⟨gift, back, -, -, hnone⟩ := hnone
      rw [List.count_eq_zero_of_not_mem (hnone.untaken i), owing_of_idle hidle]
  | taken j howed hleft =>
      obtain ⟨cleanup, howed⟩ := Option.isSome_iff_exists.mp howed
      have hpending : pending? (some x) = some (j, cleanup) := by
        rw [← taken?_takeCleanup howed, ← hleft]
        rfl
      have hsince : x.found.heap.since x.left.heap = [cleaned j] := by
        rw [hleft]
        exact Heap.since_of_trace_cons (Heap.trace_takeCleanup howed)
      rw [hsince, List.count_singleton]
      simp [owing, hpending]

theorem Section.Honest.count_cleaned {x : Section H} (hx : x.Honest) (i : SlotId) :
    x.left.heap.trace.count (cleaned i) = x.found.heap.trace.count (cleaned i) + owing (some x) i := by
  rw [hx.extends.trace_eq, List.count_append, hx.count_since, Nat.add_comm]

theorem countP_cleans_made (i : SlotId) (x : Section H) (notes : List (Note H)) :
    (Note.made x :: notes).countP (Note.cleans i) = notes.countP (Note.cleans i) := by
  simp [Note.cleans]

theorem countP_cleans_called (i : SlotId) (c : CallStart H) (notes : List (Note H)) :
    (Note.called c :: notes).countP (Note.cleans i) =
      notes.countP (Note.cleans i) + owing c.last i := by
  rw [List.countP_cons]
  rfl

/-- What a thread takes it calls next. -/
def Routine.Punctual : Routine H α → Option (Section H) → Prop
  | .ended _, last => pending? last = none
  | .step pause change next, last => pending? last = none ∧ ∀ w, pause.isOver w = true →
      Section.Honest ⟨w, change w⟩ ∧ (next w).Punctual (some ⟨w, change w⟩)
  | @Routine.call _ _ r program next, last => (∀ w, CallStart.Due ⟨last, ⟨r, program⟩, w⟩) ∧
      ∀ outcome later, pending? later = none → (next outcome).Punctual later

/-- What a thread takes it calls next. -/
def Tale.Punctual : Tale H α → Option (Section H) → Prop
  | .ended _, last => pending? last = none
  | .step pause change next, last => pending? last = none ∧ ∀ w, pause.isOver w = true →
      Section.Honest ⟨w, change w⟩ ∧ (next w).Punctual (some ⟨w, change w⟩)
  | .enters code next, last => (∀ w, CallStart.Due ⟨last, code, w⟩) ∧ next.Punctual none

section Punctual

variable {last : Option (Section H)}

namespace Tale

theorem Punctual.andThen {tale : Tale H α} {rest : α → Tale H β} (htale : tale.Punctual last)
    (hrest : ∀ a later, pending? later = none → (rest a).Punctual later) :
    (tale.andThen rest).Punctual last := by
  induction tale generalizing last with
  | ended outcome =>
      cases outcome with
      | returned a => exact hrest a last htale
      | panicked payload => exact htale
  | step pause change next ih =>
      exact ⟨htale.1, fun w hover => ⟨(htale.2 w hover).1, ih w (htale.2 w hover).2⟩⟩
  | enters code next ih => exact ⟨htale.1, ih htale.2⟩

theorem Punctual.attempt {tale : Tale H α} (htale : tale.Punctual last) :
    tale.attempt.Punctual last := by
  induction tale generalizing last with
  | ended outcome => exact htale
  | step pause change next ih =>
      exact ⟨htale.1, fun w hover => ⟨(htale.2 w hover).1, ih w (htale.2 w hover).2⟩⟩
  | enters code next ih => exact ⟨htale.1, ih htale.2⟩

end Tale

namespace Routine

theorem Punctual.bind {routine : Routine H α} {rest : α → Routine H β}
    (hroutine : routine.Punctual last)
    (hrest : ∀ a later, pending? later = none → (rest a).Punctual later) :
    (routine >>= rest).Punctual last := by
  change (routine.andThen rest).Punctual last
  induction routine generalizing last with
  | ended outcome =>
      cases outcome with
      | returned a => exact hrest a last hroutine
      | panicked payload => exact hroutine
  | step pause change next ih =>
      exact ⟨hroutine.1, fun w hover => ⟨(hroutine.2 w hover).1, ih w (hroutine.2 w hover).2⟩⟩
  | call program next ih =>
      exact ⟨hroutine.1, fun outcome later hlater => ih outcome (hroutine.2 outcome later hlater)⟩

theorem Punctual.attempt {routine : Routine H α} (hroutine : routine.Punctual last) :
    routine.attempt.Punctual last := by
  induction routine generalizing last with
  | ended outcome => exact hroutine
  | step pause change next ih =>
      exact ⟨hroutine.1, fun w hover => ⟨(hroutine.2 w hover).1, ih w (hroutine.2 w hover).2⟩⟩
  | call program next ih =>
      exact ⟨hroutine.1, fun outcome later hlater => ih outcome (hroutine.2 outcome later hlater)⟩

theorem Punctual.tell {sub : {r : Reply} → Program H r → Tale H (r.Carrier H)} {routine : Routine H α}
    (hroutine : routine.Punctual last)
    (hsub : ∀ {r : Reply} (program : Program H r), (sub program).Punctual none) :
    (routine.tell sub).Punctual last := by
  induction routine generalizing last with
  | ended outcome => exact hroutine
  | step pause change next ih =>
      exact ⟨hroutine.1, fun w hover => ⟨(hroutine.2 w hover).1, ih w (hroutine.2 w hover).2⟩⟩
  | call program next ih =>
      refine ⟨hroutine.1, (hsub program).attempt.andThen fun outcome later hlater => ?_⟩
      exact ih outcome (hroutine.2 outcome later hlater)

/-- From when nothing is left to be called on, what the thread takes it calls next. -/
def Conscientious (routine : Routine H α) : Prop :=
  ∀ last, pending? last = none → routine.Punctual last

namespace Conscientious

theorem inherited : Inherited TakesNone (· ≠ .done) fun {_} (routine : Routine H _) =>
    routine.Conscientious where
  ended _ _ hlast := hlast
  bind hroutine hrest last hlast := (hroutine last hlast).bind hrest
  attempt hroutine last hlast := (hroutine last hlast).attempt
  run hother program last hlast := by
    refine ⟨fun w => ?_, fun outcome later hlater => hlater⟩
    simp only [CallStart.Due, CallStart.cleaning?, hlast]
    exact fun hdone => absurd hdone hother
  updateAfter hwait hsteps last hlast :=
    ⟨hlast, fun w _ => ⟨.none (hsteps w), Section.taken?_of_takesNone (hsteps w)⟩⟩

/-- The link between taking a cleanup action and running it. -/
theorem cleanSlot (k : Key) (i : SlotId) : (Routine.cleanSlot k i : Routine H _).Conscientious := by
  intro last hlast
  refine ⟨hlast, fun w _ => ?_⟩
  cases howed : w.heap.cleanup? i with
  | none =>
      have hnone : w.TakesNone (w.takeCleanup i).2 := by
        refine .of_heap_eq ?_
        simp [World.takeCleanup, Heap.takeCleanup_of_none howed]
      refine ⟨.none hnone, ?_⟩
      simp only [World.takeCleanup, Heap.takeCleanup_of_none howed] at hnone ⊢
      exact Section.taken?_of_takesNone hnone
  | some cleanup =>
      have htaken := Section.taken?_takeCleanup howed
      refine ⟨.taken i (by simp [howed]) rfl, ?_⟩
      simp only [World.takeCleanup, Heap.takeCleanup_of_some howed] at htaken ⊢
      refine ⟨fun w₁ => ?_, fun outcome later hlater => hlater⟩
      simp only [CallStart.Due, CallStart.cleaning?, pending?, Option.bind_some, htaken]

theorem storing : Storing fun {_} (routine : Routine H _) => routine.Conscientious where
  toInherited := inherited.mono (fun w w' hstep => by
    cases hstep with
    | unchanged => exact .of_heap_eq rfl
    | logged => exact .of_heap_eq rfl
    | reserved s k => exact takesNone_reserve w s k
    | vacated i => exact takesNone_vacate w i
    | filled s i datum cleanup => exact takesNone_fill w s i datum cleanup
    | closeBegun s => exact takesNone_beginClose w s) fun _ => False.elim
  cleanSlot := cleanSlot
  claim s i := inherited.updateAfter (Pause.canEnd_isSettled i) fun w => takesNone_claim w s i

theorem callback {o : Occurrence} (ho : o.IsCallback) (program : Program H .done) :
    (do Routine.record o; Routine.run program : Routine H _).Conscientious := by
  intro last hlast
  refine ⟨hlast, fun w _ => ?_⟩
  have hnone : w.TakesNone (w.recorded o) := .of_heap_eq rfl
  have htaken : (Section.mk w (w.recorded o)).taken? = none := Section.taken?_of_takesNone hnone
  refine ⟨.none hnone, fun w₁ => ?_, fun outcome later hlater => hlater⟩
  simp only [CallStart.Due, CallStart.cleaning?, pending?, Option.bind_some, htaken]
  exact fun _ => ⟨_, rfl, o, ho, rfl⟩

theorem compositional : Compositional fun {_} (routine : Routine H _) => routine.Conscientious where
  toInherited := inherited.mono (fun _ _ hstep => hstep.plain.takesNone) fun _ => id
  callback := callback
  compute s k t _ cleanup hfactory := storing.compute s k t cleanup hfactory
  close := storing.close

end Conscientious

end Routine

/-- What any program takes, at any depth of calls, it calls next. -/
theorem Program.punctual_tale (fuel : Nat) (worker : Option Nat) {r : Reply} (program : Program H r)
    (hlast : pending? last = none) : (program.tale fuel worker).Punctual last := by
  induction fuel generalizing r last with
  | zero =>
      refine ⟨hlast, fun w hover => ?_⟩
      simp [Pause.isOver, Pause.endless] at hover
  | succ fuel ih =>
      rw [tale]
      split
      · exact hlast
      · next body next _ =>
        exact (ih body hlast).attempt.andThen fun outcome later hlater => ih _ hlater
      · next routine next hpiece =>
        have hroutine := Routine.Conscientious.compositional.piece hpiece last hlast
        refine (hroutine.tell fun program => ih program rfl).andThen fun a later hlater => ?_
        exact ih _ hlater

end Punctual

namespace Tale.Goes

variable {tale : Tale H α} {last : Option (Section H)} {w w' : World H} {notes : List (Note H)}
  {ending : Option (Outcome α)} {others : World H → World H → Prop}

/-- Whoever is punctual calls no cleanup action that he has not taken. -/
theorem due (hgoes : tale.Goes others last w notes ending w') (htale : tale.Punctual last)
    {c : CallStart H} (hc : .called c ∈ notes) : c.Due := by
  induction hgoes with
  | here | ended => cases hc
  | step _ hover _ ih =>
      rcases List.mem_cons.mp hc with hhere | hlater
      · cases hhere
      · exact ih (htale.2 _ hover).2 hlater
  | enters _ _ ih =>
      rcases List.mem_cons.mp hc with hhere | hlater
      · cases hhere
        exact htale.1 _
      · exact ih htale.2 hlater

/-- What is called was taken before, and others do not touch what is owed. -/
theorem cleaned_start (hgoes : tale.Goes SameHeap last w notes ending w')
    (hlast : ∀ x, last = some x → w.heap = x.left.heap) {c : CallStart H} (hc : .called c ∈ notes)
    {i : SlotId} {cleanup : Program H .done} (hcleans : c.cleaning? = some (i, cleanup)) :
    cleaned i ∈ c.start.heap.trace := by
  induction hgoes with
  | here | ended => cases hc
  | step _ _ _ ih =>
      rcases List.mem_cons.mp hc with hhere | hlater
      · cases hhere
      · refine ih (fun x hx => ?_) hlater
        cases hx
        rfl
  | enters hwait _ ih =>
      rcases List.mem_cons.mp hc with hhere | hlater
      · cases hhere
        obtain ⟨x, hx, htaken⟩ := Option.bind_eq_some_iff.mp hcleans
        have hsince : cleaned i ∈ x.found.heap.since x.left.heap := by
          simp [(Section.of_taken? htaken).2]
        rw [heap_eq_of_waiting hwait, hlast x hx]
        exact List.mem_of_mem_take hsince
      · exact ih (fun x hx => nomatch hx) hlater

/-- Each cleanup action that is called was given before, or is given on the way. -/
theorem given (hgoes : tale.Goes SameHeap last w notes ending w') (htale : tale.Punctual last)
    {before : SlotId → Program H .done → Prop}
    (howed : ∀ i cleanup, w.heap.cleanup? i = some cleanup → before i cleanup)
    (hlast : ∀ i cleanup, pending? last = some (i, cleanup) → before i cleanup)
    {c : CallStart H} (hc : .called c ∈ notes) {i : SlotId} {cleanup : Program H .done}
    (hcleans : c.cleaning? = some (i, cleanup)) :
    before i cleanup ∨ ∃ x, .made x ∈ notes ∧ x.Gives i cleanup := by
  induction hgoes generalizing before with
  | here | ended => cases hc
  | @step pause change next last w w₁ w' notes ending hwait hover _ ih =>
      obtain ⟨hhonest, hnext⟩ := htale.2 _ hover
      have hfound : ∀ j p, w₁.heap.cleanup? j = some p → before j p := by
        rw [heap_eq_of_waiting hwait]
        exact howed
      let x : Section H := ⟨w₁, change w₁⟩
      have hsofar : ∀ j p, (change w₁).heap.cleanup? j = some p → before j p ∨ x.Gives j p :=
        fun j p hj => (hhonest.owed hj).imp_left (hfound j p)
      have hpending : ∀ j p, pending? (some x) = some (j, p) → before j p ∨ x.Gives j p :=
        fun j p hj => .inl (hfound j p (Section.of_taken? hj).1)
      have hlater := (List.mem_cons.mp hc).resolve_left (by simp)
      rcases ih hnext hsofar hpending hlater with (hbefore | hgives) | ⟨y, hy, hgives⟩
      · exact .inl hbefore
      · exact .inr ⟨x, List.mem_cons_self, hgives⟩
      · exact .inr ⟨y, List.mem_cons_of_mem _ hy, hgives⟩
  | enters hwait _ ih =>
      rcases List.mem_cons.mp hc with hhere | hlater
      · cases hhere
        exact .inl (hlast i cleanup hcleans)
      · refine (ih htale.2 ?_ (fun _ _ hj => nomatch hj) hlater).imp_right ?_
        · rw [heap_eq_of_waiting hwait]
          exact howed
        · rintro ⟨x, hx, hgives⟩
          exact ⟨x, List.mem_cons_of_mem _ hx, hgives⟩

theorem heap_extends (hgoes : tale.Goes SameHeap last w notes ending w')
    (htale : tale.Punctual last) : w.heap.Extends w'.heap := by
  induction hgoes with
  | here hwait | ended hwait =>
      rw [heap_eq_of_waiting hwait]
      exact .refl _
  | step hwait hover _ ih =>
      obtain ⟨hhonest, hnext⟩ := htale.2 _ hover
      rw [← heap_eq_of_waiting hwait]
      exact hhonest.extends.trans (ih hnext)
  | enters hwait _ ih =>
      rw [← heap_eq_of_waiting hwait]
      exact ih htale.2

/-- What a section of the run leaves is not lost. -/
theorem extends_of_made (hgoes : tale.Goes SameHeap last w notes ending w')
    (htale : tale.Punctual last) {x : Section H} (hx : .made x ∈ notes) :
    x.left.heap.Extends w'.heap := by
  induction hgoes with
  | here | ended => cases hx
  | step _ hover hrest ih =>
      have hnext := (htale.2 _ hover).2
      rcases List.mem_cons.mp hx with hhere | hlater
      · cases hhere
        exact hrest.heap_extends hnext
      · exact ih hnext hlater
  | enters _ _ ih => exact ih htale.2 ((List.mem_cons.mp hx).resolve_left (by simp))

/-- The calls of the cleanup action of a slot are as many as the marks of it, apart from one that is still to
come when the thread has not ended. -/
theorem countP_cleans (hgoes : tale.Goes SameHeap last w notes ending w')
    (htale : tale.Punctual last) (i : SlotId) :
    ∃ rest, notes.countP (Note.cleans i) + w.heap.trace.count (cleaned i) + rest =
      w'.heap.trace.count (cleaned i) + owing last i ∧ (ending.isSome → rest = 0) := by
  induction hgoes with
  | @here tale last w w' hwait =>
      refine ⟨owing last i, ?_, by simp⟩
      rw [heap_eq_of_waiting hwait, List.countP_nil]
      omega
  | ended hwait =>
      refine ⟨0, ?_, fun _ => rfl⟩
      rw [heap_eq_of_waiting hwait, List.countP_nil, owing_of_idle htale]
      omega
  | step hwait hover _ ih =>
      obtain ⟨hhonest, hnext⟩ := htale.2 _ hover
      obtain ⟨rest, hrest, hended⟩ := ih hnext
      refine ⟨rest, ?_, hended⟩
      have hcount := hhonest.count_cleaned i
      simp only [heap_eq_of_waiting hwait] at hcount
      rw [countP_cleans_made, owing_of_idle htale.1]
      omega
  | enters hwait _ ih =>
      obtain ⟨rest, hrest, hended⟩ := ih htale.2
      refine ⟨rest, ?_, hended⟩
      rw [heap_eq_of_waiting hwait, owing_of_idle rfl] at hrest
      simp only [countP_cleans_called]
      omega

end Tale.Goes

end TimedInvocation
