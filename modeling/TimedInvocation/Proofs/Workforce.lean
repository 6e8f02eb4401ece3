import Mathlib.Logic.Function.Basic
import TimedInvocation.Proofs.Visibility

/-!
# Workers at work

The threads of the workers act in any order, and others change the world in between. The thread of a
worker begins with the body that the worker was started for, takes its steps one by one, and is gone
once it has reported how the body ended. So at any time the result of a worker is missing, and then its
thread is not gone, or it is how the worker's own body has ended.
-/

namespace TimedInvocation

open Relation World

variable {H : Host}

/-- Where the thread of a worker is: it has not begun, it is in the middle of an act, or it has ended. -/
inductive Place (H : Host) where
  | unbegun
  | busy (act : Act H (Except Failure H.Result))
  | gone

/-- The world with the threads of the workers. Only workers that were started have begun, and none of
them delivers a result as long as it is busy. -/
structure Workforce (H : Host) where
  world : World H
  place : WorkerId → Place H
  exists_of_begun : ∀ id, place id ≠ .unbegun → id < world.workers.length
  quiet_of_busy : ∀ id act, place id = .busy act → act.Quiet

namespace Workforce

/-- One step: the thread of a worker begins with its body, for which there is an amount of fuel, takes
the next step of its act, or reports how the body has ended; or others change the world. -/
inductive Step (fuel : Nat) (x y : Workforce H) : Prop where
  | begins {id : WorkerId} {worker : Worker H} (hworker : x.world.workers[id]? = some worker)
      (hplace : x.place id = .unbegun) (hworld : y.world = x.world)
      (hplaces : y.place =
        Function.update x.place id (.busy (worker.body.exec fuel (some worker.number))))
  | works {id : WorkerId} {pause : Pause H} {change : World H → World H}
      {next : World H → Act H (Except Failure H.Result)}
      (hplace : x.place id = .busy (.step pause change next)) (hover : pause.isOver x.world = true)
      (hworld : y.world = change x.world)
      (hplaces : y.place = Function.update x.place id (.busy (next x.world)))
  | reports {id : WorkerId} {outcome : Outcome (Except Failure H.Result)}
      (hplace : x.place id = .busy (.ended outcome)) (hworld : y.world = x.world.deliver id outcome)
      (hplaces : y.place = Function.update x.place id .gone)
  | others (hquiet : x.world.Quiet y.world) (hplaces : y.place = x.place)

/-- What may happen while the caller of a worker does nothing. -/
abbrev Later (fuel : Nat) : Workforce H → Workforce H → Prop :=
  ReflTransGen (Step fuel)

variable {fuel : Nat} {x y : Workforce H}

theorem quiet_of_works {id : WorkerId} {pause : Pause H} {change : World H → World H}
    {next : World H → Act H (Except Failure H.Result)}
    (hplace : x.place id = .busy (.step pause change next)) (hover : pause.isOver x.world = true) :
    x.world.Quiet (change x.world) :=
  (x.quiet_of_busy id _ hplace).1 _ hover

theorem Step.meanwhile (hstep : Step fuel x y) : Meanwhile x.world y.world := by
  cases hstep with
  | begins hworker hplace hworld hplaces => rw [hworld]
  | works hplace hover hworld hplaces =>
      rw [hworld]
      exact .single (quiet_of_works hplace hover).1
  | reports hplace hworld hplaces =>
      rw [hworld]
      exact .single (.delivered _ _ _)
  | others hquiet hplaces => exact .single hquiet.1

theorem Later.meanwhile (hlater : Later fuel x y) : Meanwhile x.world y.world := by
  induction hlater with
  | refl => exact .refl
  | tail _ hstep ih => exact ih.trans hstep.meanwhile

end Workforce

/-- The start of a worker for a body with a token. -/
structure Launch (H : Host) where
  before : World H
  number : Nat
  token : TokenId
  body : TokenId → Program H .result

namespace Launch

/-- The worker that is started. -/
def id (launch : Launch H) : WorkerId :=
  launch.before.workers.length

/-- The world after the start. -/
def after (launch : Launch H) : World H :=
  (launch.before.startWorker launch.number launch.token launch.body).2

/-- What the worker is started for. -/
def act (launch : Launch H) (fuel : Nat) : Act H (Except Failure H.Result) :=
  (launch.body launch.token).exec fuel (some launch.number)

theorem after_workers (launch : Launch H) : launch.after.workers[launch.id]? =
    some ⟨launch.number, launch.body launch.token, none⟩ := by
  simp [after, id, World.startWorker]

end Launch

namespace Workforce

/-- How far a worker has got that was started. Its thread has not begun; or it is busy with what is left
of its own body; or it is gone, and its result is how its own body has ended. -/
inductive Tracks (fuel : Nat) (launch : Launch H) (x : Workforce H) : Prop where
  | waiting (hplace : x.place launch.id = .unbegun)
      (hworker : x.world.workers[launch.id]? =
        some ⟨launch.number, launch.body launch.token, none⟩)
      (hmoves : Meanwhile launch.after x.world)
  | working {act : Act H (Except Failure H.Result)} (hplace : x.place launch.id = .busy act)
      (hworker : x.world.workers[launch.id]? =
        some ⟨launch.number, launch.body launch.token, none⟩)
      (hrest : ∀ outcome w', act.Ends Move x.world outcome w' →
        (launch.act fuel).Ends Move launch.after outcome w')
  | done {outcome : Outcome (Except Failure H.Result)} {w₁ : World H}
      (hplace : x.place launch.id = .gone)
      (hworker : x.world.workers[launch.id]? =
        some ⟨launch.number, launch.body launch.token, some outcome⟩)
      (hends : (launch.act fuel).Ends Move launch.after outcome w₁)
      (hmoves : Meanwhile w₁ x.world)

variable {fuel : Nat} {launch : Launch H} {x y : Workforce H}

theorem Tracks.exists_worker (htracks : x.Tracks fuel launch) :
    ∃ worker, x.world.workers[launch.id]? = some worker := by
  cases htracks with
  | waiting _ hworker => exact ⟨_, hworker⟩
  | working _ hworker => exact ⟨_, hworker⟩
  | done _ hworker => exact ⟨_, hworker⟩

/-- A step that is not one of the worker's own thread leaves it where it is. -/
theorem Tracks.frame (htracks : x.Tracks fuel launch) (hmoves : Meanwhile x.world y.world)
    (hplace : y.place launch.id = x.place launch.id)
    (hworker : y.world.workers[launch.id]? = x.world.workers[launch.id]?) :
    y.Tracks fuel launch := by
  cases htracks with
  | waiting hunbegun hold hsince =>
      exact .waiting (hplace.trans hunbegun) (hworker.trans hold) (hsince.trans hmoves)
  | working hbusy hold hrest =>
      exact .working (hplace.trans hbusy) (hworker.trans hold) fun outcome w' hends =>
        hrest outcome w' (hends.wait hmoves)
  | done hgone hold hends hsince =>
      exact .done (hplace.trans hgone) (hworker.trans hold) hends (hsince.trans hmoves)

theorem Tracks.frame_of_quiet (htracks : x.Tracks fuel launch) (hquiet : x.world.Quiet y.world)
    (hplace : y.place launch.id = x.place launch.id) : y.Tracks fuel launch := by
  obtain ⟨worker, hworker⟩ := htracks.exists_worker
  refine htracks.frame (.single hquiet.1) hplace ?_
  obtain ⟨more, hmore⟩ := hquiet.2.workers
  rw [← hmore, List.getElem?_append_left (List.getElem?_eq_some_iff.mp hworker).1]

/-- Wherever the threads go, the worker gets on with its own body only. -/
theorem Tracks.step (htracks : x.Tracks fuel launch) (hstep : Step fuel x y) :
    y.Tracks fuel launch := by
  have hmoves := hstep.meanwhile
  cases hstep with
  | @begins id worker hworker hplace hworld hplaces =>
      by_cases hid : launch.id = id
      · subst hid
        cases htracks with
        | waiting _ hold hsince =>
            obtain rfl : worker = _ := Option.some.inj (hworker.symm.trans hold)
            exact .working (by rw [hplaces, Function.update_self]; rfl) (hworld ▸ hold)
              fun outcome w' hends => hends.wait (hsince.trans hmoves)
        | working hbusy => simp [hplace] at hbusy
        | done hgone => simp [hplace] at hgone
      · exact htracks.frame hmoves (by rw [hplaces, Function.update_of_ne hid]) (by rw [hworld])
  | @works id pause change next hplace hover hworld hplaces =>
      by_cases hid : launch.id = id
      · subst hid
        cases htracks with
        | waiting hunbegun => simp [hplace] at hunbegun
        | working hbusy hold hrest =>
            obtain rfl : Act.step pause change next = _ := Place.busy.inj (hplace.symm.trans hbusy)
            obtain ⟨more, hmore⟩ := (quiet_of_works hplace hover).2.workers
            refine .working (by rw [hplaces, Function.update_self]) ?_ fun outcome w' hends =>
              hrest outcome w' (.step .refl hover (hworld ▸ hends))
            rw [hworld, ← hmore, List.getElem?_append_left (List.getElem?_eq_some_iff.mp hold).1]
            exact hold
        | done hgone => simp [hplace] at hgone
      · exact htracks.frame_of_quiet (hworld ▸ quiet_of_works hplace hover)
          (by rw [hplaces, Function.update_of_ne hid])
  | @reports id outcome hplace hworld hplaces =>
      by_cases hid : launch.id = id
      · subst hid
        cases htracks with
        | waiting hunbegun => simp [hplace] at hunbegun
        | working hbusy hold hrest =>
            obtain rfl : Act.ended outcome = _ := Place.busy.inj (hplace.symm.trans hbusy)
            refine .done (by rw [hplaces, Function.update_self]) ?_ (hrest _ _ (.ended .refl)) hmoves
            simp [hworld, World.deliver, hold]
        | done hgone => simp [hplace] at hgone
      · refine htracks.frame hmoves (by rw [hplaces, Function.update_of_ne hid]) ?_
        simp [hworld, World.deliver, Ne.symm hid]
  | others hquiet hplaces => exact htracks.frame_of_quiet hquiet (by rw [hplaces])

theorem Tracks.later (htracks : x.Tracks fuel launch) (hlater : Later fuel x y) :
    y.Tracks fuel launch := by
  induction hlater with
  | refl => exact htracks
  | tail _ hstep ih => exact ih.step hstep

/-- The thread of a worker is gone exactly if the worker has a result. -/
theorem Tracks.gone_iff (htracks : x.Tracks fuel launch) :
    x.place launch.id = .gone ↔ (x.world.workerResult launch.id).isSome = true := by
  cases htracks with
  | waiting hplace hworker => simp [hplace, World.workerResult, hworker]
  | working hplace hworker => simp [hplace, World.workerResult, hworker]
  | done hplace hworker => simp [hplace, World.workerResult, hworker]

/-- The result of a worker is how its own body has ended. -/
theorem Tracks.ends (htracks : x.Tracks fuel launch) {ending : Outcome (Except Failure H.Result)}
    (hresult : x.world.workerResult launch.id = some ending) :
    ∃ w₁, (launch.act fuel).Ends Move launch.after ending w₁ ∧ Meanwhile w₁ x.world := by
  cases htracks with
  | waiting _ hworker => simp [World.workerResult, hworker] at hresult
  | working _ hworker => simp [World.workerResult, hworker] at hresult
  | done _ hworker hends hmoves =>
      obtain rfl : _ = ending := by simpa [World.workerResult, hworker] using hresult
      exact ⟨_, hends, hmoves⟩

end Workforce

end TimedInvocation
