import Mathlib.Logic.Function.Basic
import TimedInvocation.Proofs.Runs

/-!
# Ensembles of operations

Any number of operations are under way in one world at the same time. Each of them is in a section of its
own or in a call of user code. What user code does meanwhile counts among what others do, apart from the
operations that it asks for, which may belong to the ensemble themselves.

A rule says by which sections, and by which answers of user code, an operation gets from place to place.
Where all operations follow their rules, only their places matter: every step of the ensemble is a step of
a scene.
-/

namespace TimedInvocation

open Relation

variable {H : Host} {α β : Type}

/-- An operation under way: in a part of its own, or in a call of user code. -/
inductive Progress (H : Host) (α : Type) where
  | own (routine : Routine H α)
  | away {r : Reply} (program : Program H r) (next : Outcome (r.Carrier H) → Routine H α)

/-- What a member of an ensemble has done: a section of its own, between two worlds, or a call of user
code, which has ended. -/
inductive Deed (H : Host) (ι : Type) where
  | passed (who : ι) (before after : World H)
  | called (who : ι) {r : Reply} (program : Program H r) (outcome : Outcome (r.Carrier H))

def Deed.who {ι : Type} : Deed H ι → ι
  | .passed who _ _ | .called who _ _ => who

/-- A member found or left an entry in a store. -/
def Deed.Shows {ι : Type} (s : StoreId) (k : Key) (i : SlotId) : Deed H ι → Prop
  | .passed _ before after =>
      (k, i) ∈ (before.heap.store s).entries ∨ (k, i) ∈ (after.heap.store s).entries
  | .called _ _ _ => False

/-- A way for an operation to get from place to place: the sections that do it, and the answers of user
code. -/
structure Rule (H : Host) (Place : Type) where
  passes : Place → World H → World H → Place → Prop
  resumes : Place → ∀ {r : Reply}, Program H r → Outcome (r.Carrier H) → Place → Prop

section Follows

variable {Place : Type} {rule : Rule H Place} {Q : Outcome α → Place → Prop}
  {R : Outcome β → Place → Prop} {place : Place}

/-- From a place on, all that the routine does itself is what the rule says, and its end satisfies `Q`. -/
def Routine.Follows (rule : Rule H Place) (Q : Outcome α → Place → Prop) :
    Routine H α → Place → Prop
  | .ended outcome, place => Q outcome place
  | .step pause change next, place => ∀ w, pause.isOver w = true →
      ∃ place', rule.passes place w (change w) place' ∧ (next w).Follows rule Q place'
  | .call program next, place => ∀ outcome,
      ∃ place', rule.resumes place program outcome place' ∧ (next outcome).Follows rule Q place'

namespace Routine

theorem Follows.bind {routine : Routine H α} {rest : α → Routine H β}
    (hroutine : routine.Follows rule Q place)
    (hrest : ∀ a place', Q (.returned a) place' → (rest a).Follows rule R place')
    (hpanic : ∀ payload place', Q (.panicked payload) place' → R (.panicked payload) place') :
    (routine >>= rest).Follows rule R place := by
  change (routine.andThen rest).Follows rule R place
  induction routine generalizing place with
  | ended outcome =>
      cases outcome with
      | returned a => exact hrest a place hroutine
      | panicked payload => exact hpanic payload place hroutine
  | step pause change next ih =>
      intro w hover
      obtain ⟨place', hpasses, hnext⟩ := hroutine w hover
      exact ⟨place', hpasses, ih w hnext⟩
  | call program next ih =>
      intro outcome
      obtain ⟨place', hresumes, hnext⟩ := hroutine outcome
      exact ⟨place', hresumes, ih outcome hnext⟩

theorem follows_update_bind {f : World H → α × World H} {rest : α → Routine H β}
    (hrest : ∀ w, ∃ place', rule.passes place w (f w).2 place' ∧
      (rest (f w).1).Follows rule R place') : (update f >>= rest).Follows rule R place :=
  fun w _ => hrest w

theorem follows_updateAfter_bind {pause : Pause H} {f : World H → α × World H} {rest : α → Routine H β}
    (hrest : ∀ w, pause.isOver w = true → ∃ place', rule.passes place w (f w).2 place' ∧
      (rest (f w).1).Follows rule R place') : (updateAfter pause f >>= rest).Follows rule R place :=
  hrest

theorem follows_view_bind {f : World H → α} {rest : α → Routine H β}
    (hrest : ∀ w, ∃ place', rule.passes place w w place' ∧ (rest (f w)).Follows rule R place') :
    (view f >>= rest).Follows rule R place :=
  fun w _ => hrest w

theorem follows_change_bind {f : World H → World H} {rest : Unit → Routine H β}
    (hrest : ∀ w, ∃ place', rule.passes place w (f w) place' ∧ (rest ()).Follows rule R place') :
    (change f >>= rest).Follows rule R place :=
  fun w _ => hrest w

end Routine

/-- From a place on, all that the operation does itself is what the rule says. -/
def Progress.Follows (rule : Rule H Place) (Q : Outcome α → Place → Prop) :
    Progress H α → Place → Prop
  | .own routine, place => routine.Follows rule Q place
  | .away program next, place => (Routine.call program next).Follows rule Q place

end Follows

/-- Operations under way in a world, with what they have done so far, newest first. -/
structure Ensemble (H : Host) {ι : Type} (α : ι → Type) where
  world : World H
  members : ∀ j, Progress H (α j)
  log : List (Deed H ι)

/-- What is left of an ensemble when only the places of its members matter. -/
structure Scene (H : Host) {ι : Type} (Place : ι → Type) where
  world : World H
  places : ∀ j, Place j
  log : List (Deed H ι)

section Steps

variable {ι : Type} {α Place : ι → Type} {others : List (Deed H ι) → World H → World H → Prop}
  {rules : ∀ j, Rule H (Place j)} {final : ∀ j, Outcome (α j) → Place j → Prop}

/-- The ensemble of some operations before any of them has done anything. -/
def Ensemble.start (routines : ∀ j, Routine H (α j)) (w : World H) : Ensemble H α :=
  ⟨w, fun j => .own (routines j), []⟩

/-- The members of the ensemble follow their rules from where they are in the scene. -/
structure Ensemble.At (rules : ∀ j, Rule H (Place j)) (final : ∀ j, Outcome (α j) → Place j → Prop)
    (e : Ensemble H α) (scene : Scene H Place) : Prop where
  world : scene.world = e.world
  log : scene.log = e.log
  members : ∀ j, (e.members j).Follows (rules j) (final j) (scene.places j)

/-- A member that has ended satisfies what its rule says about the end. -/
theorem Ensemble.At.of_ended {e : Ensemble H α} {scene : Scene H Place} {j : ι}
    {outcome : Outcome (α j)} (hat : e.At rules final scene)
    (hended : e.members j = .own (.ended outcome)) : final j outcome (scene.places j) := by
  have hfollows := hat.members j
  rw [hended] at hfollows
  exact hfollows

/-- In the beginning every operation is at the place from which it follows its rule. -/
theorem Ensemble.At.start {routines : ∀ j, Routine H (α j)} {places : ∀ j, Place j}
    (hroutines : ∀ j, (routines j).Follows (rules j) (final j) (places j)) (w : World H) :
    (Ensemble.start routines w).At rules final ⟨w, places, []⟩ :=
  ⟨rfl, rfl, hroutines⟩

variable [DecidableEq ι]

/-- A member passes a section, leaves for a call of user code or comes back from one with any outcome; or
others change the world, in ways that may depend on what the members have done. -/
inductive Ensemble.Step (others : List (Deed H ι) → World H → World H → Prop) :
    Ensemble H α → Ensemble H α → Prop where
  | own {e : Ensemble H α} (j : ι) {pause : Pause H} {change : World H → World H}
      {next : World H → Routine H (α j)} (hat : e.members j = .own (.step pause change next))
      (hover : pause.isOver e.world = true) :
      Step others e ⟨change e.world, Function.update e.members j (.own (next e.world)),
        .passed j e.world (change e.world) :: e.log⟩
  | leave {e : Ensemble H α} (j : ι) {r : Reply} {program : Program H r}
      {next : Outcome (r.Carrier H) → Routine H (α j)}
      (hat : e.members j = .own (.call program next)) :
      Step others e ⟨e.world, Function.update e.members j (.away program next), e.log⟩
  | back {e : Ensemble H α} (j : ι) {r : Reply} {program : Program H r}
      {next : Outcome (r.Carrier H) → Routine H (α j)} (outcome : Outcome (r.Carrier H))
      (hat : e.members j = .away program next) :
      Step others e ⟨e.world, Function.update e.members j (.own (next outcome)),
        .called j program outcome :: e.log⟩
  | others {e : Ensemble H α} {w : World H} (hothers : others e.log e.world w) :
      Step others e ⟨w, e.members, e.log⟩

/-- Any interleaving of steps. -/
abbrev Ensemble.Run (others : List (Deed H ι) → World H → World H → Prop) :
    Ensemble H α → Ensemble H α → Prop :=
  ReflTransGen (Step others)

/-- A member gets to another place as its rule says, or others change the world. -/
inductive Scene.Step (rules : ∀ j, Rule H (Place j))
    (others : List (Deed H ι) → World H → World H → Prop) :
    Scene H Place → Scene H Place → Prop where
  | passed {scene : Scene H Place} (j : ι) {w : World H} {place : Place j}
      (hpasses : (rules j).passes (scene.places j) scene.world w place) :
      Step rules others scene
        ⟨w, Function.update scene.places j place, .passed j scene.world w :: scene.log⟩
  | called {scene : Scene H Place} (j : ι) {r : Reply} {program : Program H r}
      {outcome : Outcome (r.Carrier H)} {place : Place j}
      (hresumes : (rules j).resumes (scene.places j) program outcome place) :
      Step rules others scene ⟨scene.world, Function.update scene.places j place,
        .called j program outcome :: scene.log⟩
  | others {scene : Scene H Place} {w : World H} (hothers : others scene.log scene.world w) :
      Step rules others scene ⟨w, scene.places, scene.log⟩

/-- Whatever has been done remains in the log. -/
theorem Scene.mem_log_of_steps {scene scene' : Scene H Place} {deed : Deed H ι}
    (hsteps : ReflTransGen (Step rules others) scene scene') (hdeed : deed ∈ scene.log) :
    deed ∈ scene'.log := by
  induction hsteps with
  | refl => exact hdeed
  | tail _ hstep ih =>
      cases hstep with
      | passed | called => exact List.mem_cons_of_mem _ ih
      | others => exact ih

namespace Ensemble

variable {e e' : Ensemble H α} {scene : Scene H Place}

theorem At.update {e : Ensemble H α} {scene : Scene H Place} (hat : e.At rules final scene)
    (w : World H) (log : List (Deed H ι)) (j : ι) {member : Progress H (α j)} {place : Place j}
    (hmember : member.Follows (rules j) (final j) place) :
    At rules final ⟨w, Function.update e.members j member, log⟩
      ⟨w, Function.update scene.places j place, log⟩ := by
  refine ⟨rfl, rfl, fun j' => ?_⟩
  by_cases hj : j' = j
  · subst hj
    simpa using hmember
  · simpa [hj] using hat.members j'

/-- A step of the ensemble is one of the scene, unless it only leaves for user code. -/
theorem At.step (hat : e.At rules final scene) (hstep : e.Step others e') :
    ∃ scene', e'.At rules final scene' ∧ (scene' = scene ∨ scene.Step rules others scene') := by
  obtain ⟨w, places, log⟩ := scene
  obtain rfl : w = e.world := hat.world
  obtain rfl : log = e.log := hat.log
  cases hstep with
  | own j hmember hover =>
      have hfollows := hat.members j
      rw [hmember] at hfollows
      obtain ⟨place, hpasses, hnext⟩ := hfollows e.world hover
      exact ⟨_, hat.update _ _ j hnext, .inr (.passed j hpasses)⟩
  | @leave j r program next hmember =>
      have hfollows : (Progress.own (.call program next)).Follows (rules j) (final j) (places j) := by
        rw [← hmember]
        exact hat.members j
      have hleft : At rules final
          ⟨e.world, Function.update e.members j (.away program next), e.log⟩
          ⟨e.world, Function.update places j (places j), e.log⟩ :=
        hat.update e.world e.log j hfollows
      rw [Function.update_eq_self] at hleft
      exact ⟨_, hleft, .inl rfl⟩
  | back j outcome hmember =>
      have hfollows := hat.members j
      rw [hmember] at hfollows
      obtain ⟨place, hresumes, hnext⟩ := hfollows outcome
      exact ⟨_, hat.update _ _ j hnext, .inr (.called j hresumes)⟩
  | others hothers => exact ⟨⟨_, places, e.log⟩, ⟨rfl, rfl, hat.members⟩, .inr (.others hothers)⟩

/-- However the members take turns, they follow their rules through the scenes. -/
theorem At.run (hat : e.At rules final scene) (hrun : e.Run others e') :
    ∃ scene', e'.At rules final scene' ∧ ReflTransGen (Scene.Step rules others) scene scene' := by
  induction hrun with
  | refl => exact ⟨scene, hat, .refl⟩
  | tail _ hstep ih =>
      obtain ⟨scene₁, hat₁, hscenes⟩ := ih
      obtain ⟨scene₂, hat₂, rfl | hstep₂⟩ := hat₁.step hstep
      · exact ⟨scene₂, hat₂, hscenes⟩
      · exact ⟨scene₂, hat₂, hscenes.tail hstep₂⟩

/-- On the way the log only gets longer. Whoever has done nothing is where it was, or has left for user
code. -/
theorem log_of_run (hrun : e.Run others e') : ∃ later, e'.log = later ++ e.log ∧
    ∀ j, (∃ deed ∈ later, deed.who = j) ∨ e'.members j = e.members j ∨
      ∃ (r : Reply) (program : Program H r) (next : Outcome (r.Carrier H) → Routine H (α j)),
        e'.members j = .away program next := by
  induction hrun with
  | refl => exact ⟨[], rfl, fun _ => .inr (.inl rfl)⟩
  | @tail e₁ e₂ _ hstep ih =>
      obtain ⟨later, hlog, hmembers⟩ := ih
      have hone (j : ι) {member : Progress H (α j)} {deed : Deed H ι} (hwho : deed.who = j) (j' : ι) :
          (∃ deed' ∈ deed :: later, deed'.who = j') ∨
            Function.update e₁.members j member j' = e.members j' ∨
            ∃ (r : Reply) (program : Program H r) (next : Outcome (r.Carrier H) → Routine H (α j')),
              Function.update e₁.members j member j' = .away program next := by
        by_cases hj : j' = j
        · exact .inl ⟨deed, List.mem_cons_self, hwho.trans hj.symm⟩
        · rw [Function.update_of_ne hj]
          rcases hmembers j' with ⟨deed', hdeed', hwho'⟩ | hstill
          · exact .inl ⟨deed', List.mem_cons_of_mem _ hdeed', hwho'⟩
          · exact .inr hstill
      cases hstep with
      | own j hat hover => exact ⟨_ :: later, congrArg _ hlog, hone j rfl⟩
      | back j outcome hat => exact ⟨_ :: later, congrArg _ hlog, hone j rfl⟩
      | others hothers => exact ⟨later, hlog, hmembers⟩
      | @leave j r program next hat =>
          refine ⟨later, hlog, fun j' => ?_⟩
          by_cases hj : j' = j
          · subst hj
            exact .inr (.inr ⟨r, program, next, Function.update_self j' _ _⟩)
          · simp only [Function.update_of_ne hj]
            exact hmembers j'

end Ensemble

end Steps

/-- The answer of user code that does nothing but to end. -/
def Program.answer? {r : Reply} : Program H r → Option (Outcome (r.Carrier H))
  | .finish reply => some (.returned reply)
  | .panic payload => some (.panicked payload)
  | _ => none

namespace Ensemble

variable {ι : Type} {α : ι → Type}

/-- How a member has ended, if it has done so by returning. -/
def answer? (e : Ensemble H α) (j : ι) : Option (α j) :=
  match e.members j with
  | .own (.ended (.returned answer)) => some answer
  | _ => none

theorem ended_of_answer? {e : Ensemble H α} {j : ι} {answer : α j}
    (hanswer : e.answer? j = some answer) : e.members j = .own (.ended (.returned answer)) := by
  unfold answer? at hanswer
  split at hanswer
  · next hmember =>
    cases hanswer
    exact hmember
  · cases hanswer

variable [DecidableEq ι]

/-- The ensemble after one of its members has had its turn, if that need not wait and user code does
nothing but to end. -/
def turn (e : Ensemble H α) (j : ι) : Ensemble H α :=
  match e.members j with
  | .own (.ended _) => e
  | .own (.step pause change next) =>
    if pause.isOver e.world then
      ⟨change e.world, Function.update e.members j (.own (next e.world)),
        .passed j e.world (change e.world) :: e.log⟩
    else e
  | .own (.call program next) => ⟨e.world, Function.update e.members j (.away program next), e.log⟩
  | .away program next =>
    match program.answer? with
    | none => e
    | some outcome => ⟨e.world, Function.update e.members j (.own (next outcome)),
        .called j program outcome :: e.log⟩

/-- Turns in any order are a run. -/
theorem run_foldl_turn (others : List (Deed H ι) → World H → World H → Prop) (e : Ensemble H α)
    (turns : List ι) : e.Run others (turns.foldl turn e) := by
  induction turns generalizing e with
  | nil => exact .refl
  | cons j turns ih =>
      apply ReflTransGen.trans (b := e.turn j) _ (ih _)
      rw [turn]
      split
      · exact .refl
      · next hat =>
        split
        · next hover => exact .single (.own j hat hover)
        · exact .refl
      · next hat => exact .single (.leave j hat)
      · next hat =>
        split
        · exact .refl
        · next outcome _ => exact .single (.back j outcome hat)

end Ensemble

end TimedInvocation
