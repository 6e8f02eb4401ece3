import TimedInvocation.Proofs.Store.Sequential

/-!
# Acts with an exception

An act that has the heap to itself may keep a promise unless the heap gets into a certain condition on
the way. There is a rule for each way in which acts are composed. If the promise is not kept, there is
a world that the act passes through on its way to the end, in which the heap is in that condition.
-/

namespace TimedInvocation

open Relation World

variable {H : Host} {α β : Type} {others : World H → World H → Prop}

/-- An act that starts in a world passes through another one and ends with an outcome in a third. -/
inductive Act.Passes (others : World H → World H → Prop) :
    Act H α → World H → World H → Outcome α → World H → Prop where
  | here {act : Act H α} {w w₁ w' : World H} {outcome : Outcome α}
      (hwait : ReflTransGen others w w₁) (hends : act.Ends others w₁ outcome w') :
      Passes others act w w₁ outcome w'
  | step {pause : Pause H} {change : World H → World H} {next : World H → Act H α}
      {w w₁ w₂ w' : World H} {outcome : Outcome α} (hwait : ReflTransGen others w w₁)
      (hover : pause.isOver w₁ = true) (hrest : Passes others (next w₁) (change w₁) w₂ outcome w') :
      Passes others (.step pause change next) w w₂ outcome w'

variable {P B : Heap (Program H .done) → Prop} {Q Q' : Outcome α → Heap (Program H .done) → Prop}
  {R : Outcome β → Heap (Program H .done) → Prop} {h : Heap (Program H .done)}

/-- An act that has a heap to itself ends in `Q`, unless the heap gets into `B` on the way. -/
def Act.Unless (B : Heap (Program H .done) → Prop) (Q : Outcome α → Heap (Program H .done) → Prop) :
    Act H α → Heap (Program H .done) → Prop
  | .ended outcome, h => ¬ B h → Q outcome h
  | .step pause change next, h => ¬ B h → ∀ w : World H, w.heap = h → pause.isOver w = true →
      (next w).Unless B Q (change w).heap

namespace Act

theorem Unless.mono {act : Act H α} (hact : act.Unless B Q h)
    (hQ : ∀ outcome h, ¬ B h → Q outcome h → Q' outcome h) : act.Unless B Q' h := by
  induction act generalizing h with
  | ended outcome => exact fun hB => hQ outcome h hB (hact hB)
  | step pause change next ih => exact fun hB w hheap hover => ih w (hact hB w hheap hover)

theorem Unless.andThen {act : Act H α} {rest : α → Act H β} (hact : act.Unless B Q h)
    (hreturned : ∀ a h, ¬ B h → Q (.returned a) h → (rest a).Unless B R h)
    (hpanicked : ∀ payload h, ¬ B h → Q (.panicked payload) h → R (.panicked payload) h) :
    (act.andThen rest).Unless B R h := by
  induction act generalizing h with
  | ended outcome =>
      cases outcome with
      | returned a =>
          change (rest a).Unless B R h
          by_cases hB : B h
          · cases rest a with
            | ended outcome => exact fun hnot => absurd hB hnot
            | step pause change next => exact fun hnot => absurd hB hnot
          · exact hreturned a h hB (hact hB)
      | panicked payload => exact fun hB => hpanicked payload h hB (hact hB)
  | step pause change next ih => exact fun hB w hheap hover => ih w (hact hB w hheap hover)

theorem Unless.attempt {act : Act H α} (hact : act.Unless B Q h) :
    act.attempt.Unless B (fun outcome h => ∃ inner, outcome = .returned inner ∧ Q inner h) h := by
  induction act generalizing h with
  | ended outcome => exact fun hB => ⟨outcome, rfl, hact hB⟩
  | step pause change next ih => exact fun hB w hheap hover => ih w (hact hB w hheap hover)

/-- An act that ends keeps its promise, or passes through a world with the exception. -/
theorem Unless.ends {act : Act H α} {w w' : World H} {outcome : Outcome α}
    (hact : act.Unless B Q w.heap) (hends : act.Ends SameHeap w outcome w') :
    Q outcome w'.heap ∨ ∃ w₁, act.Passes SameHeap w w₁ outcome w' ∧ B w₁.heap := by
  induction hends with
  | @ended outcome w w' hwait =>
      by_cases hB : B w.heap
      · exact .inr ⟨w, .here .refl (.ended hwait), hB⟩
      · rw [heap_eq_of_waiting hwait]
        exact .inl (hact hB)
  | @step pause change next w w₁ w' outcome hwait hover hrest ih =>
      by_cases hB : B w.heap
      · exact .inr ⟨w, .here .refl (.step hwait hover hrest), hB⟩
      · rcases ih (hact hB w₁ (heap_eq_of_waiting hwait) hover) with hQ | ⟨w₂, hpasses, hB₂⟩
        · exact .inl hQ
        · exact .inr ⟨w₂, .step hwait hover hpasses, hB₂⟩

end Act

namespace Routine

variable {runner : Runner H}

/-- A routine that has a heap to itself, with a runner for the user code, ends in `Q` unless the heap gets
into `B` on the way. -/
def Unless (runner : Runner H) (B : Heap (Program H .done) → Prop)
    (Q : Outcome α → Heap (Program H .done) → Prop) (routine : Routine H α)
    (h : Heap (Program H .done)) : Prop :=
  (routine.play @runner).Unless B Q h

theorem Unless.bind {routine : Routine H α} {rest : α → Routine H β}
    (hroutine : routine.Unless @runner B Q h)
    (hreturned : ∀ a h, ¬ B h → Q (.returned a) h → (rest a).Unless @runner B R h)
    (hpanicked : ∀ payload h, ¬ B h → Q (.panicked payload) h → R (.panicked payload) h) :
    (routine >>= rest).Unless @runner B R h := by
  change ((routine.andThen rest).play @runner).Unless B R h
  rw [play_andThen]
  exact Act.Unless.andThen hroutine hreturned hpanicked

theorem Unless.attempt {routine : Routine H α} (hroutine : routine.Unless @runner B Q h) :
    routine.attempt.Unless @runner B (fun outcome h => ∃ inner, outcome = .returned inner ∧ Q inner h)
      h := by
  rw [Unless, play_attempt]
  exact Act.Unless.attempt hroutine

end Routine

end TimedInvocation
