import TimedInvocation.Proofs.Runs

/-!
# Acts that have the heap to themselves

When nobody else touches the heap, what a step finds there is what the step before it has left. So a
property of the heap can be followed from step to step, with a rule for each way in which acts and
routines are composed.
-/

namespace TimedInvocation

open Relation

variable {H : Host} {α β : Type}

/-- Others leave the heap alone. -/
def World.SameHeap (w w' : World H) : Prop :=
  w'.heap = w.heap

theorem World.heap_eq_of_waiting {w w' : World H} (hwait : ReflTransGen SameHeap w w') :
    w'.heap = w.heap := by
  induction hwait with
  | refl => rfl
  | tail _ hsame ih => exact hsame.trans ih

variable {P P' : Heap (Program H .done) → Prop} {Q Q' : Outcome α → Heap (Program H .done) → Prop}
  {R : Outcome β → Heap (Program H .done) → Prop} {h : Heap (Program H .done)}

/-- An act that has a heap to itself keeps it in `P` all the time, and ends in `Q` if it ends. -/
def Act.Always (P : Heap (Program H .done) → Prop) (Q : Outcome α → Heap (Program H .done) → Prop) :
    Act H α → Heap (Program H .done) → Prop
  | .ended outcome, h => P h ∧ Q outcome h
  | .step pause change next, h => P h ∧ ∀ w : World H, w.heap = h → pause.isOver w = true →
      (next w).Always P Q (change w).heap

namespace Act

theorem Always.here {act : Act H α} (hact : act.Always P Q h) : P h := by
  cases act with
  | ended outcome => exact hact.1
  | step pause change next => exact hact.1

theorem Always.mono {act : Act H α} (hact : act.Always P Q h) (hP : ∀ h, P h → P' h)
    (hQ : ∀ outcome h, P h → Q outcome h → Q' outcome h) : act.Always P' Q' h := by
  induction act generalizing h with
  | ended outcome => exact ⟨hP h hact.1, hQ outcome h hact.1 hact.2⟩
  | step pause change next ih =>
      refine ⟨hP h hact.1, ?_⟩
      intro w hheap hover
      exact ih w (hact.2 w hheap hover)

/-- Every world that the act gets to has its heap in `P`. -/
theorem Always.visits {act : Act H α} {w w' : World H} (hact : act.Always P Q w.heap)
    (hvisits : act.Visits World.SameHeap w w') : P w'.heap := by
  induction hvisits with
  | here hwait =>
      rw [World.heap_eq_of_waiting hwait]
      exact hact.here
  | step hwait hover _ ih => exact ih (hact.2 _ (World.heap_eq_of_waiting hwait) hover)

/-- Whenever the act ends, the heap is in `P` and the outcome in `Q`. -/
theorem Always.ends {act : Act H α} {w w' : World H} {outcome : Outcome α}
    (hact : act.Always P Q w.heap) (hends : act.Ends World.SameHeap w outcome w') :
    P w'.heap ∧ Q outcome w'.heap := by
  induction hends with
  | ended hwait =>
      rw [World.heap_eq_of_waiting hwait]
      exact hact
  | step hwait hover _ ih => exact ih (hact.2 _ (World.heap_eq_of_waiting hwait) hover)

theorem Always.andThen {act : Act H α} {rest : α → Act H β} (hact : act.Always P Q h)
    (hreturned : ∀ a h, P h → Q (.returned a) h → (rest a).Always P R h)
    (hpanicked : ∀ payload h, P h → Q (.panicked payload) h → R (.panicked payload) h) :
    (act.andThen rest).Always P R h := by
  induction act generalizing h with
  | ended outcome =>
      cases outcome with
      | returned a => exact hreturned a h hact.1 hact.2
      | panicked payload => exact ⟨hact.1, hpanicked payload h hact.1 hact.2⟩
  | step pause change next ih =>
      refine ⟨hact.1, ?_⟩
      intro w hheap hover
      exact ih w (hact.2 w hheap hover)

theorem Always.attempt {act : Act H α} (hact : act.Always P Q h) :
    act.attempt.Always P (fun outcome h => ∃ inner, outcome = .returned inner ∧ Q inner h) h := by
  induction act generalizing h with
  | ended outcome => exact ⟨hact.1, outcome, rfl, hact.2⟩
  | step pause change next ih =>
      refine ⟨hact.1, ?_⟩
      intro w hheap hover
      exact ih w (hact.2 w hheap hover)

theorem andThen_assoc {γ : Type} (act : Act H α) (rest : α → Act H β) (last : β → Act H γ) :
    (act.andThen rest).andThen last = act.andThen fun a => (rest a).andThen last := by
  induction act with
  | ended outcome => cases outcome <;> rfl
  | step pause change next ih =>
      simp only [Act.andThen]
      congr 1
      funext w
      exact ih w

/-- What comes after a caught panic is caught by itself. -/
theorem attempt_andThen_attempt (act : Act H α) (rest : Outcome α → Act H β) :
    (act.attempt.andThen rest).attempt = act.attempt.andThen fun outcome => (rest outcome).attempt := by
  induction act with
  | ended outcome => rfl
  | step pause change next ih =>
      simp only [Act.attempt, Act.andThen]
      congr 1
      funext w
      exact ih w

end Act

namespace Routine

variable {runner : Runner H}

theorem play_andThen (routine : Routine H α) (rest : α → Routine H β) :
    (routine.andThen rest).play @runner =
      (routine.play @runner).andThen fun a => (rest a).play @runner := by
  induction routine with
  | ended outcome => cases outcome <;> rfl
  | step pause change next ih =>
      simp only [Routine.andThen, play, Act.andThen]
      congr 1
      funext w
      exact ih w
  | call program next ih =>
      simp only [Routine.andThen, play]
      rw [Act.andThen_assoc]
      congr 1
      funext outcome
      exact ih outcome

theorem play_attempt (routine : Routine H α) :
    routine.attempt.play @runner = (routine.play @runner).attempt := by
  induction routine with
  | ended outcome => rfl
  | step pause change next ih =>
      simp only [Routine.attempt, play, Act.attempt]
      congr 1
      funext w
      exact ih w
  | call program next ih =>
      simp only [Routine.attempt, play]
      rw [Act.attempt_andThen_attempt]
      congr 1
      funext outcome
      exact ih outcome

/-- A routine that has a heap to itself, with a runner for the user code, keeps it in `P` all the time,
and ends in `Q` if it ends. -/
def Always (runner : Runner H) (P : Heap (Program H .done) → Prop)
    (Q : Outcome α → Heap (Program H .done) → Prop) (routine : Routine H α)
    (h : Heap (Program H .done)) : Prop :=
  (routine.play @runner).Always P Q h

theorem always_pure {a : α} (hP : P h) (hQ : Q (.returned a) h) :
    (pure a : Routine H α).Always @runner P Q h :=
  ⟨hP, hQ⟩

theorem Always.bind {routine : Routine H α} {rest : α → Routine H β}
    (hroutine : routine.Always @runner P Q h)
    (hreturned : ∀ a h, P h → Q (.returned a) h → (rest a).Always @runner P R h)
    (hpanicked : ∀ payload h, P h → Q (.panicked payload) h → R (.panicked payload) h) :
    (routine >>= rest).Always @runner P R h := by
  change ((routine.andThen rest).play @runner).Always P R h
  rw [play_andThen]
  exact Act.Always.andThen hroutine hreturned hpanicked

theorem Always.attempt {routine : Routine H α} (hroutine : routine.Always @runner P Q h) :
    routine.attempt.Always @runner P
      (fun outcome h => ∃ inner, outcome = .returned inner ∧ Q inner h) h := by
  rw [Always, play_attempt]
  exact Act.Always.attempt hroutine

theorem always_update {f : World H → α × World H} (hP : P h)
    (hend : ∀ w : World H, w.heap = h → P (f w).2.heap ∧ Q (.returned (f w).1) (f w).2.heap) :
    (update f).Always @runner P Q h :=
  ⟨hP, fun w hheap _ => hend w hheap⟩

theorem always_updateAfter_bind {pause : Pause H} {f : World H → α × World H}
    {rest : α → Routine H β} (hP : P h)
    (hrest : ∀ w : World H, w.heap = h → pause.isOver w = true →
      (rest (f w).1).Always @runner P R (f w).2.heap) :
    (updateAfter pause f >>= rest).Always @runner P R h :=
  ⟨hP, hrest⟩

theorem always_update_bind {f : World H → α × World H} {rest : α → Routine H β} (hP : P h)
    (hrest : ∀ w : World H, w.heap = h → (rest (f w).1).Always @runner P R (f w).2.heap) :
    (update f >>= rest).Always @runner P R h :=
  ⟨hP, fun w hheap _ => hrest w hheap⟩

theorem always_view_bind {f : World H → α} {rest : α → Routine H β} (hP : P h)
    (hrest : ∀ w : World H, w.heap = h → (rest (f w)).Always @runner P R h) :
    (view f >>= rest).Always @runner P R h := by
  refine ⟨hP, ?_⟩
  intro w hheap _
  change (rest (f w)).Always @runner P R w.heap
  rw [hheap]
  exact hrest w hheap

theorem always_change_bind {f : World H → World H} {rest : Unit → Routine H β} (hP : P h)
    (hrest : ∀ w : World H, w.heap = h → (rest ()).Always @runner P R (f w).heap) :
    (change f >>= rest).Always @runner P R h :=
  ⟨hP, fun w hheap _ => hrest w hheap⟩

theorem always_log_bind {e : Event} {rest : Unit → Routine H β} (hP : P h)
    (hrest : (rest ()).Always @runner P R h) : (log e >>= rest).Always @runner P R h := by
  apply always_change_bind hP
  intro w hheap
  change (rest ()).Always @runner P R w.heap
  rw [hheap]
  exact hrest

/-- A call of user code whose panic is caught. -/
theorem always_attempt_run_bind {r : Reply} {program : Program H r}
    {rest : Outcome (r.Carrier H) → Routine H β}
    {S : Outcome (r.Carrier H) → Heap (Program H .done) → Prop}
    (hcall : (runner program).Always P S h)
    (hrest : ∀ outcome h, P h → S outcome h → (rest outcome).Always @runner P R h) :
    (Routine.attempt (run program) >>= rest).Always @runner P R h := by
  apply Act.Always.andThen hcall.attempt
  · rintro outcome h hP ⟨inner, hinner, hS⟩
    cases hinner
    exact hrest outcome h hP hS
  · rintro payload h - ⟨inner, hinner, -⟩
    cases hinner

end Routine

end TimedInvocation
