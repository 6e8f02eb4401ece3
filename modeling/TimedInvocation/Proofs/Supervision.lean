import TimedInvocation.Proofs.Enforcement
import TimedInvocation.Proofs.Legs

/-!
# Supervision of workers

The caller of a worker waits while the workers' threads and others act in any order. What it is told is
decided by what is there at the poll that ends its wait: a result goes before a stop request, and that
goes before the deadline.

A routine is followed through all of its own steps, with whatever may happen before each of them. It
guarantees a law about its end, and that it is held up only in circumstances that are named. So it
gets to its end once these circumstances are over.
-/

namespace TimedInvocation

open Relation World

variable {H : Host} {α β : Type}

namespace Stride

/-- The step asks for a thread for a worker, with the error if there is none to be had. -/
def Spawns (s : Stride H) (error : Option String) : Prop :=
  s.found.world.spawn = (error, s.left.world)

/-- The step cancels nothing. -/
def Calm (s : Stride H) : Prop :=
  ∀ t, s.left.world.isCancelled t = s.found.world.isCancelled t

end Stride

/-- From a workforce on, after some steps of its own, a routine is held up only in the circumstances of
`waits`, and it ends in accordance with `law`. -/
def Routine.Guarantees (fuel : Nat) (caller : Option WorkerId)
    (waits : List (Stride H) → Workforce H → Prop)
    (law : List (Stride H) → Outcome α → Workforce H → Prop) :
    Routine H α → List (Stride H) → Workforce H → Prop
  | .ended outcome, own, x => ∀ y, x.Later fuel y → law own outcome y
  | .step pause change next, own, x =>
      (∀ y, x.Later fuel y → pause.isOver y.world = false → waits own y) ∧
        ∀ s : Stride H, x.Later fuel s.found → pause.isOver s.found.world = true →
          s.Makes caller change →
          (next s.found.world).Guarantees fuel caller waits law (own ++ [s]) s.left
  | .call _ _, _, _ => False

namespace Routine

variable {fuel : Nat} {caller : Option WorkerId} {waits : List (Stride H) → Workforce H → Prop}
  {law : List (Stride H) → Outcome β → Workforce H → Prop} {own : List (Stride H)} {x : Workforce H}

theorem guarantees_update_bind {f : World H → α × World H} {rest : α → Routine H β}
    (hrest : ∀ s : Stride H, x.Later fuel s.found → s.Makes caller (fun w => (f w).2) →
      (rest (f s.found.world).1).Guarantees fuel caller waits law (own ++ [s]) s.left) :
    (update f >>= rest).Guarantees fuel caller waits law own x :=
  ⟨fun _ _ hover => by simp [Pause.isOver, Pause.none] at hover, fun s hlater _ => hrest s hlater⟩

theorem guarantees_viewAfter_bind {pause : Pause H} {f : World H → α} {rest : α → Routine H β}
    (hwaits : ∀ y, x.Later fuel y → pause.isOver y.world = false → waits own y)
    (hrest : ∀ s : Stride H, x.Later fuel s.found → pause.isOver s.found.world = true →
      s.Makes caller id →
      (rest (f s.found.world)).Guarantees fuel caller waits law (own ++ [s]) s.left) :
    (viewAfter pause f >>= rest).Guarantees fuel caller waits law own x :=
  ⟨hwaits, hrest⟩

theorem guarantees_view_bind {f : World H → α} {rest : α → Routine H β}
    (hrest : ∀ s : Stride H, x.Later fuel s.found → s.Makes caller id →
      (rest (f s.found.world)).Guarantees fuel caller waits law (own ++ [s]) s.left) :
    (view f >>= rest).Guarantees fuel caller waits law own x :=
  guarantees_update_bind (f := fun w => (f w, w)) hrest

theorem guarantees_change_bind {f : World H → World H} {rest : Unit → Routine H β}
    (hrest : ∀ s : Stride H, x.Later fuel s.found → s.Makes caller f →
      (rest ()).Guarantees fuel caller waits law (own ++ [s]) s.left) :
    (change f >>= rest).Guarantees fuel caller waits law own x :=
  guarantees_update_bind (f := fun w => ((), f w)) hrest

theorem Guarantees.later {routine : Routine H β} {y : Workforce H}
    (hroutine : routine.Guarantees fuel caller waits law own x) (hlater : x.Later fuel y) :
    routine.Guarantees fuel caller waits law own y := by
  cases routine with
  | ended outcome => exact fun z hz => hroutine z (hlater.trans hz)
  | step pause change next =>
      exact ⟨fun z hz => hroutine.1 z (hlater.trans hz), fun s hs => hroutine.2 s (hlater.trans hs)⟩
  | call program next => exact hroutine

theorem Guarantees.mono {routine : Routine H β}
    {law' : List (Stride H) → Outcome β → Workforce H → Prop}
    (hroutine : routine.Guarantees fuel caller waits law own x)
    (hlaw : ∀ own outcome y, law own outcome y → law' own outcome y) :
    routine.Guarantees fuel caller waits law' own x := by
  induction routine generalizing own x with
  | ended outcome => exact fun y hlater => hlaw own outcome y (hroutine y hlater)
  | step pause change next ih =>
      exact ⟨hroutine.1, fun s hlater hover hmakes => ih _ (hroutine.2 s hlater hover hmakes)⟩
  | call program next => exact hroutine

/-- What a routine guarantees of its own steps holds of all its runs. -/
theorem Guarantees.runsAmong {runner : Runner H} {legs : List (Leg H)} {routine : Routine H β}
    {outcome : Outcome β} {y : Workforce H}
    (hroutine : routine.Guarantees fuel caller waits law own x)
    (hruns : routine.RunsAmong fuel caller @runner x legs outcome y) :
    ∃ more, legs = more.map .own ∧ law (own ++ more) outcome y := by
  induction hruns generalizing own with
  | ended hlater =>
      refine ⟨[], rfl, ?_⟩
      rw [List.append_nil]
      exact hroutine _ hlater
  | @step _ _ _ _ _ s _ _ hlater hover hmakes _ ih =>
      obtain ⟨more, rfl, hlaw⟩ := ih (hroutine.2 s hlater hover hmakes)
      exact ⟨s :: more, rfl, by simpa using hlaw⟩
  | call => exact hroutine.elim

section Machine

variable {runner : Runner H} {m m' : Machine H}

/-- The steps that the first thread takes without having to wait. -/
theorem Guarantees.advance {routine : Routine H β} (hquiet : routine.Quiet)
    (hroutine : routine.Guarantees fuel none waits law own x) (hm : m.Embodies x) :
    ∃ (left : Routine H β) (own' : List (Stride H)) (y : Workforce H),
      ((routine.play @runner).advance m.world).1 = left.play @runner ∧ left.Quiet ∧
        left.Guarantees fuel none waits law own' y ∧
        Machine.Embodies ⟨((routine.play @runner).advance m.world).2, m.threads, m.started⟩ y := by
  induction routine generalizing m x own with
  | ended outcome => exact ⟨_, own, x, rfl, hquiet, hroutine, hm⟩
  | step pause change next ih =>
      rw [play, Act.advance]
      by_cases hover : pause.isOver m.world = true
      · rw [if_pos hover]
        have hstep : x.world.Quiet (change m.world) := by
          rw [hm.world]
          exact hquiet.1.1 _ hover
        let s : Stride H := ⟨x, x.inWorld (change m.world) hstep.2.workers.length_le⟩
        have hmakes : s.Makes none change := ⟨by rw [hm.world]; rfl, fun _ _ => rfl⟩
        have hfound : s.found.world = m.world := hm.world
        have hrest := hroutine.2 s .refl (hfound ▸ hover) hmakes
        rw [hfound] at hrest
        exact ih m.world (hquiet.2 _) hrest (hm.inWorld hstep.2.workers.length_le)
      · rw [if_neg hover]
        exact ⟨_, own, x, rfl, hquiet, hroutine, hm⟩
  | call program next => exact hroutine.elim

/-- The first thread of a machine keeps what its routine guarantees for every order of steps. -/
theorem Guarantees.drive {routine : Routine H β} {rounds : Nat} {outcome : Outcome β}
    (hquiet : routine.Quiet) (hroutine : routine.Guarantees fuel none waits law own x)
    (hm : m.Embodies x)
    (hdrive : Machine.drive fuel rounds (routine.play @runner) m = some (outcome, m')) :
    ∃ own' y, m'.Embodies y ∧ law own' outcome y := by
  induction rounds generalizing routine own x m with
  | zero => cases hdrive
  | succ rounds ih =>
      obtain ⟨left, own', y, hleft, hquiet', hrest, hy⟩ := hroutine.advance hquiet hm
      rcases Machine.drive_succ hdrive with ⟨hended, rfl⟩ | ⟨m₁, hdrive', hturns⟩
      · rw [hleft] at hended
        cases left with
        | ended outcome' =>
            cases hended
            exact ⟨own', y, hy, hrest y .refl⟩
        | step pause change next => cases hended
        | call program next => exact hrest.elim
      · obtain ⟨z, hlater, hz⟩ := hturns y hy
        rw [hleft] at hdrive'
        exact ih hquiet' (hrest.later hlater) hz hdrive'

end Machine

end Routine

/-- The change neither records nor cancels anything. -/
structure Harmless (change : World H → World H) : Prop where
  plain : ∀ w, Plain w (change w)
  trace : ∀ w, (change w).trace = w.trace
  tokens : ∀ w t, (change w).isCancelled t = w.isCancelled t

namespace Harmless

theorem id : Harmless (id : World H → World H) :=
  ⟨.unchanged, fun _ => rfl, fun _ _ => rfl⟩

theorem logged (event : Event) : Harmless fun w : World H => w.logged event :=
  ⟨fun w => .logged w event, fun _ => rfl, fun _ _ => rfl⟩

theorem newToken : Harmless fun w : World H => w.newToken.2 := by
  refine ⟨.tokenMade, fun _ => rfl, fun w t => ?_⟩
  simp only [World.isCancelled, World.newToken, List.getElem?_append]
  split
  · rfl
  · next hnew =>
    rw [List.getElem?_eq_none (Nat.le_of_not_lt hnew)]
    cases t - w.tokens.length <;> rfl

theorem nextWorker (e : EnforcerId) : Harmless fun w : World H => (w.nextWorker e).2 :=
  ⟨fun w => .workerCounted w e, fun _ => rfl, fun _ _ => rfl⟩

theorem spawn : Harmless fun w : World H => w.spawn.2 :=
  ⟨.spawned, fun _ => rfl, fun _ _ => rfl⟩

end Harmless

namespace Stride

variable {caller : Option WorkerId} {change : World H → World H} {s : Stride H}

theorem Makes.noted_eq_nil (hmakes : s.Makes caller change) (hchange : Harmless change) :
    s.noted = [] :=
  noted_of_trace_eq (hmakes.1 ▸ hchange.trace _)

theorem Makes.calm (hmakes : s.Makes caller change) (hchange : Harmless change) : s.Calm := fun t =>
  hmakes.1 ▸ hchange.tokens _ t

theorem Makes.meanwhile (hmakes : s.Makes caller change) (hchange : Harmless change) :
    Meanwhile s.found.world s.left.world :=
  hmakes.1 ▸ .single (.plain (hchange.plain _))

end Stride

/-- From one workforce to another a caller has taken steps that neither record nor cancel anything. -/
structure Steady (x : Workforce H) (own : List (Stride H)) (y : Workforce H) : Prop where
  moves : Meanwhile x.world y.world
  silent : own.flatMap Stride.noted = []
  calm : ∀ s ∈ own, s.Calm

theorem Steady.nil (x : Workforce H) : Steady x [] x :=
  ⟨.refl, rfl, by simp⟩

theorem Steady.snoc {fuel : Nat} {caller : Option WorkerId} {change : World H → World H}
    {x y : Workforce H} {own : List (Stride H)} {s : Stride H} (hsteady : Steady x own y)
    (hlater : y.Later fuel s.found) (hmakes : s.Makes caller change) (hchange : Harmless change) :
    Steady x (own ++ [s]) s.left where
  moves := (hsteady.moves.trans hlater.meanwhile).trans (hmakes.meanwhile hchange)
  silent := by simp [hsteady.silent, hmakes.noted_eq_nil hchange]
  calm := by simpa [or_imp, forall_and, hmakes.calm hchange] using hsteady.calm

/-- A worker has been started for a body: the body is started this once, and neither the worker nor
its token was there before. The time of the start is read just before. -/
structure Launched (body : TokenId → Program H .result) (x : Workforce H) (own : List (Stride H))
    (launch : Launch H) (start : Nat) : Prop where
  program : launch.body = body
  started : ∃ s ∈ own, s.found.world = launch.before ∧ s.left.world = launch.after
  once : own.flatMap Stride.noted = [.noted (.body launch.token)]
  newWorker : x.world.workers.length ≤ launch.id
  newToken : x.world.tokens.length ≤ launch.token
  time : x.world.clock ≤ start ∧ start ≤ launch.before.clock

/-- The caller waits for the result of a worker that is not gone, while no stop is requested and the
deadline has not passed. -/
def Unsettled (e : EnforcerId) (duration : Duration) (body : TokenId → Program H .result)
    (x : Workforce H) (own : List (Stride H)) (y : Workforce H) : Prop :=
  ∃ launch start, Launched body x own launch start ∧ y.place launch.id ≠ .gone ∧
    y.world.workerResult launch.id = none ∧ y.world.stopRequested e = false ∧
    y.world.clock < start + duration.toSpan.toNanos

/-- The caller has cancelled the token of a worker, which therefore is cancelled at the end. -/
def GivenUp (launch : Launch H) (own : List (Stride H)) (last : Workforce H) : Prop :=
  (∃ s ∈ own, s.left.world = s.found.world.cancel launch.token) ∧
    last.world.isCancelled launch.token = true

/-- What the caller of a worker is told, by what is there when it looks. A result is how the worker's
own body has ended, and then nothing is cancelled. Without a result the worker is given up, at a stop
request or else at the deadline. -/
inductive Verdict (fuel : Nat) (e : EnforcerId) (kind : Kind) (duration : Duration) (launch : Launch H)
    (start : Nat) (own : List (Stride H)) (seen last : Workforce H) :
    Outcome (Except InvocationError H.Result) → Prop where
  | finished {ending : Outcome (Except Failure H.Result)} {w : World H}
      (hresult : seen.world.workerResult launch.id = some ending)
      (hends : (launch.act fuel).Ends Move launch.after ending w) (hmoves : Meanwhile w seen.world)
      (hcalm : ∀ s ∈ own, s.Calm) :
      Verdict fuel e kind duration launch start own seen last (bodyOutcome ending)
  | stopped (hresult : seen.world.workerResult launch.id = none)
      (hstop : seen.world.stopRequested e = true) (hgivenUp : GivenUp launch own last) :
      Verdict fuel e kind duration launch start own seen last (.returned (.error (.cancelled kind)))
  | timedOut {elapsed : Nat} (hresult : seen.world.workerResult launch.id = none)
      (hstop : seen.world.stopRequested e = false)
      (hdeadline : start + duration.toSpan.toNanos ≤ seen.world.clock)
      (hlimit : duration.toSpan.toNanos ≤ elapsed) (hgivenUp : GivenUp launch own last) :
      Verdict fuel e kind duration launch start own seen last
        (.returned (.error (.timeout ⟨kind, duration, elapsed, .separateThread, none⟩)))

/-- What running a body on a worker comes to. If there is no worker to be had, the body is not started.
If there is one, the caller's next step after the start is its look at how things are; the worker is
gone only if its result is there. -/
inductive Supervised (fuel : Nat) (e : EnforcerId) (kind : Kind) (duration : Duration)
    (body : TokenId → Program H .result) (x : Workforce H) (own : List (Stride H)) :
    Outcome (Except InvocationError H.Result) → Workforce H → Prop where
  | unspawned {s : Stride H} {message : String} {last : Workforce H} (hmem : s ∈ own)
      (hspawn : s.Spawns (some message))
      (hsilent : own.flatMap Stride.noted = []) :
      Supervised fuel e kind duration body x own
        (.returned (.error (.workerSpawn (.single message)))) last
  | spawned {s start poll : Stride H} {launch : Launch H} {time : Nat} {last : Workforce H}
      {outcome : Outcome (Except InvocationError H.Result)} (hmem : s ∈ own) (hspawn : s.Spawns none)
      (hlaunched : Launched body x own launch time) (hnext : [start, poll] <:+: own)
      (hstart : start.left.world = launch.after)
      (hreported : poll.found.place launch.id = .gone ↔
        (poll.found.world.workerResult launch.id).isSome = true)
      (hverdict : Verdict fuel e kind duration launch time own poll.found last outcome) :
      Supervised fuel e kind duration body x own outcome last

section Call

variable {fuel : Nat} {caller : Option WorkerId} {e : EnforcerId} {kind : Kind} {duration : Duration}
  {body : TokenId → Program H .result} {x y : Workforce H} {own : List (Stride H)}
  {launch : Launch H} {start : Nat} {s : Stride H}

theorem World.isCancelled_of_meanwhile {w w' : World H} (hmoves : Meanwhile w w') {t : TokenId}
    (hcancelled : w.isCancelled t = true) : w'.isCancelled t = true := by
  have htoken : w.landmarks.tokens[t]? = some true := by
    simpa [isCancelled, Option.getD_eq_iff] using hcancelled
  have hstill : w'.tokens[t]? = some true := hmoves.grows.tokens t htoken
  simp [isCancelled, hstill]

theorem World.isCancelled_cancel {w : World H} {t : TokenId} (htoken : t < w.tokens.length) :
    (w.cancel t).isCancelled t = true := by
  simp [isCancelled, cancel, htoken]

section Poll

variable {w : World H} {id : WorkerId} {deadline : Nat}

/-- The wait for a worker is over if there is a result, a stop request or no time left. -/
theorem isOver_awaitWorker_iff :
    Pause.isOver ⟨fun w => (w.pollWorker e id deadline).isSome, some deadline⟩ w = true ↔
      (w.workerResult id).isSome = true ∨ w.stopRequested e = true ∨ deadline ≤ w.clock := by
  cases hresult : w.workerResult id <;> cases hstop : w.stopRequested e <;>
    by_cases hdeadline : deadline ≤ w.clock <;>
      simp [Pause.isOver, pollWorker, pollWait, hresult, hstop, hdeadline]

theorem isOver_awaitWorker_eq_false_iff :
    Pause.isOver ⟨fun w => (w.pollWorker e id deadline).isSome, some deadline⟩ w = false ↔
      w.workerResult id = none ∧ w.stopRequested e = false ∧ w.clock < deadline := by
  rw [← Bool.not_eq_true, isOver_awaitWorker_iff]
  simp

theorem pollWorker_finished {ending : Outcome (Except Failure H.Result)}
    (hresult : w.workerResult id = some ending) :
    w.pollWorker e id deadline = some (.finished ending) := by
  simp [pollWorker, pollWait, hresult]

theorem pollWorker_stopped (hresult : w.workerResult id = none) (hstop : w.stopRequested e = true) :
    w.pollWorker e id deadline = some .stopped := by
  simp [pollWorker, pollWait, hresult, hstop]

theorem pollWorker_timedOut (hresult : w.workerResult id = none)
    (hstop : w.stopRequested e = false) (hdeadline : deadline ≤ w.clock) :
    w.pollWorker e id deadline = some .timedOut := by
  simp [pollWorker, pollWait, hresult, hstop, hdeadline]

end Poll

theorem Launched.append (hlaunched : Launched body x own launch start) {more : List (Stride H)}
    (hmore : more.flatMap Stride.noted = []) : Launched body x (own ++ more) launch start where
  program := hlaunched.program
  started := by
    obtain ⟨s, hmem, hstarts⟩ := hlaunched.started
    exact ⟨s, List.mem_append_left _ hmem, hstarts⟩
  once := by rw [List.flatMap_append, hlaunched.once, hmore, List.append_nil]
  newWorker := hlaunched.newWorker
  newToken := hlaunched.newToken
  time := hlaunched.time

/-- A verdict at the first step after the start of the worker, with nothing recorded since. -/
theorem supervised_of_verdict {poll : Stride H} {more : List (Stride H)} {last : Workforce H}
    {outcome : Outcome (Except InvocationError H.Result)}
    (hlaunched : Launched body x (own ++ [s]) launch start)
    (hspawn : ∃ s' ∈ own, s'.Spawns none)
    (hstart : s.left.world = launch.after) (htracks : poll.found.Tracks fuel launch)
    (hsilent : (poll :: more).flatMap Stride.noted = [])
    (hverdict : Verdict fuel e kind duration launch start (own ++ [s] ++ poll :: more) poll.found last
      outcome) :
    Supervised fuel e kind duration body x (own ++ [s] ++ poll :: more) outcome last := by
  obtain ⟨spawning, hmem, hspawned⟩ := hspawn
  exact .spawned (by simp [hmem]) hspawned (hlaunched.append hsilent) ⟨own, more, by simp⟩ hstart
    htracks.gone_iff hverdict

/-- A worker is given up by a note in the log and the cancellation of its token. -/
theorem Routine.giveUp_guarantees {waits : List (Stride H) → Workforce H → Prop}
    {law : List (Stride H) → Outcome (Except InvocationError H.Result) → Workforce H → Prop}
    {event : Event} {error : InvocationError} (htoken : launch.token < x.world.tokens.length)
    (hlaw : ∀ more last, more.flatMap Stride.noted = [] → GivenUp launch (own ++ more) last →
      law (own ++ more) (.returned (.error error)) last) :
    (do log event; cancel launch.token; return .error error :
      Routine H (Except InvocationError H.Result)).Guarantees fuel caller waits law own x := by
  refine guarantees_change_bind fun report hreport hlogs =>
    guarantees_change_bind fun cancel hcancel hcancels last hafter => ?_
  have hmoves : Meanwhile x.world cancel.found.world :=
    ((Steady.nil x).snoc hreport hlogs (.logged event)).moves.trans hcancel.meanwhile
  have hcancelled : cancel.left.world.isCancelled launch.token = true := by
    rw [hcancels.1]
    exact isCancelled_cancel (Nat.lt_of_lt_of_le htoken hmoves.tokens_le)
  have hsilent : [report, cancel].flatMap Stride.noted = [] := by
    have hnoted : cancel.noted = [] := noted_of_trace_eq (hcancels.1 ▸ rfl)
    simp [hlogs.noted_eq_nil (.logged event), hnoted]
  rw [List.append_assoc]
  exact hlaw _ last hsilent
    ⟨⟨cancel, by simp, hcancels.1⟩, isCancelled_of_meanwhile hafter.meanwhile hcancelled⟩

/-- From the start of a worker on, its caller is told what it finds at its next step, and cancels the
worker's token unless there is a result. -/
theorem Routine.followWorker_guarantees (hlaunched : Launched body x (own ++ [s]) launch start)
    (hspawn : ∃ s' ∈ own, s'.Spawns none)
    (hcalm : ∀ s' ∈ own ++ [s], s'.Calm) (hstart : s.left.world = launch.after)
    (htoken : launch.token < s.left.world.tokens.length) (htracks : s.left.Tracks fuel launch) :
    (Routine.followWorker e kind duration launch.number start launch.token launch.id).Guarantees fuel
      caller (Unsettled e duration body x) (Supervised fuel e kind duration body x) (own ++ [s])
      s.left := by
  refine guarantees_viewAfter_bind (fun y hlater hover => ?_) fun poll hpoll hover hpolls =>
    guarantees_view_bind fun look hlook hlooks => ?_
  · obtain ⟨hresult, hstop, hdeadline⟩ := isOver_awaitWorker_eq_false_iff.mp hover
    refine ⟨launch, start, hlaunched, ?_, hresult, hstop, hdeadline⟩
    simp [(htracks.later hlater).gone_iff, hresult]
  have htracks' : poll.found.Tracks fuel launch := htracks.later hpoll
  have hsteady : Steady s.left [poll, look] look.left :=
    ((Steady.nil _).snoc hpoll hpolls .id).snoc hlook hlooks .id
  cases hresult : poll.found.world.workerResult launch.id with
  | some ending =>
      obtain ⟨w, hends, hbefore⟩ := htracks'.ends hresult
      have hcalm' : ∀ s' ∈ own ++ [s] ++ [poll, look], s'.Calm := fun s' hmem =>
        (List.mem_append.mp hmem).elim (hcalm s') (hsteady.calm s')
      have hlaw (last : Workforce H) : Supervised fuel e kind duration body x
          (own ++ [s] ++ [poll] ++ [look]) (bodyOutcome ending) last := by
        have hverdict : Verdict fuel e kind duration launch start (own ++ [s] ++ [poll, look])
            poll.found last (bodyOutcome ending) := .finished hresult hends hbefore hcalm'
        simpa using supervised_of_verdict hlaunched hspawn hstart htracks' hsteady.silent hverdict
      simp only [pollWorker_finished hresult, Option.getD_some]
      cases ending with
      | returned result => exact fun last _ => hlaw last
      | panicked payload => exact fun last _ => hlaw last
  | none =>
      have htoken' : launch.token < look.left.world.tokens.length :=
        Nat.lt_of_lt_of_le htoken hsteady.moves.tokens_le
      have hsilent (more : List (Stride H)) (hmore : more.flatMap Stride.noted = []) :
          (poll :: look :: more).flatMap Stride.noted = [] := by
        simpa [hmore] using hsteady.silent
      cases hstop : poll.found.world.stopRequested e with
      | true =>
          simp only [pollWorker_stopped hresult hstop, Option.getD_some]
          refine giveUp_guarantees htoken' fun more last hmore hgivenUp => ?_
          simpa using supervised_of_verdict hlaunched hspawn hstart htracks' (hsilent more hmore)
            (.stopped hresult hstop (by simpa using hgivenUp))
      | false =>
          have hdeadline : start + duration.toSpan.toNanos ≤ poll.found.world.clock := by
            simpa [hresult, hstop] using isOver_awaitWorker_iff.mp hover
          have helapsed : poll.found.world.clock ≤ look.found.world.clock :=
            World.Meanwhile.clock_le ((hpolls.meanwhile .id).trans hlook.meanwhile)
          simp only [pollWorker_timedOut hresult hstop hdeadline, Option.getD_some]
          refine giveUp_guarantees htoken' fun more last hmore hgivenUp => ?_
          simpa using supervised_of_verdict hlaunched hspawn hstart htracks' (hsilent more hmore)
            (.timedOut hresult hstop hdeadline (by omega) (by simpa using hgivenUp))

/-- The thread of a worker that is just being started has not begun. -/
theorem Stride.Makes.tracks_launch (hmakes : s.Makes caller fun w =>
      (w.startWorker launch.number launch.token launch.body).2)
    (hfound : s.found.world = launch.before) (hcaller : some launch.id ≠ caller) :
    s.left.Tracks fuel launch := by
  have hafter : s.left.world = launch.after := by rw [hmakes.1, hfound]; rfl
  refine .waiting ?_ (hafter ▸ launch.after_workers) (hafter ▸ .refl)
  rw [hmakes.2 _ hcaller]
  by_contra hbegun
  exact absurd (s.found.exists_of_begun _ hbegun) (by simp [hfound, Launch.id])

/-- A worker is started with a new token, after steps that neither record nor cancel anything. -/
theorem launched_of_start {number : Nat} {token : TokenId} (hsteady : Steady x own y)
    (hlater : y.Later fuel s.found)
    (hstarts : s.Makes caller fun w => (w.startWorker number token body).2)
    (hnew : x.world.tokens.length ≤ token) (hbegan : x.world.clock ≤ start)
    (hread : start ≤ y.world.clock) :
    Launched body x (own ++ [s]) ⟨s.found.world, number, token, body⟩ start where
  program := rfl
  started := ⟨s, by simp, rfl, hstarts.1⟩
  once := by
    rw [List.flatMap_append, hsteady.silent, List.nil_append, List.flatMap_singleton]
    exact noted_of_trace_cons (hstarts.1 ▸ rfl)
  newWorker := by
    have hgrows := World.Meanwhile.grows (hsteady.moves.trans hlater.meanwhile)
    simpa [Launch.id] using hgrows.bodies.length_le
  newToken := hnew
  time := ⟨hbegan, Nat.le_trans hread hlater.meanwhile.clock_le⟩

/-- A call on a worker for which there is a thread. -/
theorem Routine.startWorker_guarantees {number : Nat} {token : TokenId} (hsteady : Steady x own y)
    (hspawn : ∃ s ∈ own, s.Spawns none) (hcaller : ∀ c ∈ caller, c < x.world.workers.length)
    (hnew : x.world.tokens.length ≤ token) (htoken : token < y.world.tokens.length)
    (hbegan : x.world.clock ≤ start) (hread : start ≤ y.world.clock) :
    (do
      let id ← startWorker number token body
      followWorker e kind duration number start token id :
        Routine H (Except InvocationError H.Result)).Guarantees fuel caller
      (Unsettled e duration body x) (Supervised fuel e kind duration body x) own y := by
  refine guarantees_update_bind fun s hlater hstarts => ?_
  have hlaunched := launched_of_start hsteady hlater hstarts hnew hbegan hread
  have hother : some s.found.world.workers.length ≠ caller := fun hsame =>
    absurd (hcaller _ hsame.symm) (Nat.not_lt.mpr hlaunched.newWorker)
  have htoken' : token < s.left.world.tokens.length := by
    rw [hstarts.1]
    exact Nat.lt_of_lt_of_le htoken hlater.meanwhile.tokens_le
  have hcalm : ∀ s' ∈ own ++ [s], s'.Calm := by
    have hstart : s.Calm := fun t => hstarts.1 ▸ rfl
    simpa [or_imp, forall_and, hstart] using hsteady.calm
  exact followWorker_guarantees hlaunched hspawn hcalm hstarts.1 htoken'
    (hstarts.tracks_launch rfl hother)

/-- A call on a worker for which a thread is asked for. -/
theorem Routine.runOnWorker_guarantees (hsteady : Steady x own y)
    (hcaller : ∀ c ∈ caller, c < x.world.workers.length) :
    (Routine.runOnWorker e kind duration body).Guarantees fuel caller
      (Unsettled e duration body x) (Supervised fuel e kind duration body x) own y := by
  refine guarantees_update_bind fun s₁ h₁ hmakes =>
    guarantees_update_bind fun s₂ h₂ hcounts =>
    guarantees_view_bind fun s₃ h₃ hreads =>
    guarantees_update_bind fun s₄ h₄ hspawns => ?_
  have hcounted : Steady x (own ++ [s₁] ++ [s₂]) s₂.left :=
    (hsteady.snoc h₁ hmakes .newToken).snoc h₂ hcounts (.nextWorker e)
  have hspawned : Steady x (own ++ [s₁] ++ [s₂] ++ [s₃] ++ [s₄]) s₄.left :=
    (hcounted.snoc h₃ hreads .id).snoc h₄ hspawns .spawn
  have hspawn : s₄.Spawns s₄.found.world.spawn.1 := by rw [Stride.Spawns, hspawns.1]
  cases hanswer : s₄.found.world.spawn.1 with
  | some message => exact fun last _ => .unspawned (by simp) (hanswer ▸ hspawn) hspawned.silent
  | none =>
      have htoken : s₁.found.world.newToken.1 < s₁.left.world.tokens.length := by
        simp [hmakes.1, World.newToken]
      have hsinceRead : Meanwhile s₃.found.world s₄.left.world :=
        (hreads.meanwhile .id).trans (h₄.meanwhile.trans (hspawns.meanwhile .spawn))
      have hsinceMade : Meanwhile s₁.left.world s₄.left.world :=
        (h₂.meanwhile.trans ((hcounts.meanwhile (.nextWorker e)).trans h₃.meanwhile)).trans hsinceRead
      exact startWorker_guarantees hspawned ⟨s₄, by simp, hanswer ▸ hspawn⟩ hcaller
        (World.Meanwhile.tokens_le (hsteady.moves.trans h₁.meanwhile))
        (Nat.lt_of_lt_of_le htoken hsinceMade.tokens_le)
        (World.Meanwhile.clock_le (hcounted.moves.trans h₃.meanwhile)) hsinceRead.clock_le

theorem Routine.runWithTimeout_guarantees (hcaller : ∀ c ∈ caller, c < x.world.workers.length) :
    (Routine.runWithTimeout e kind (some ⟨duration, .separateThread⟩) body).Guarantees fuel caller
      (Unsettled e duration body x) (Supervised fuel e kind duration body x) [] x :=
  guarantees_change_bind fun _ hlog hlogs =>
    runOnWorker_guarantees ((Steady.nil x).snoc hlog hlogs (.logged _)) hcaller

/-- A body on a worker, in whatever order the worker's thread, other threads and the clock act, is
started once, if there is a worker to be had. Its caller waits only as long as there is no result, no
stop request and time left, and is told what it then finds. This is so for the machine, too. -/
theorem worker_call_ends_with_verdict (fuel : Nat) (e : EnforcerId) (kind : Kind) (duration : Duration)
    (body : TokenId → Program H .result) (x : Workforce H) :
    (∀ caller : Option WorkerId, (∀ c ∈ caller, c < x.world.workers.length) →
      (Routine.runWithTimeout e kind (some ⟨duration, .separateThread⟩) body).Guarantees fuel caller
        (Unsettled e duration body x) (Supervised fuel e kind duration body x) [] x) ∧
    ∀ (runner : Runner H) (rounds : Nat) (m m' : Machine H)
      (outcome : Outcome (Except InvocationError H.Result)), m.Embodies x →
      Machine.drive fuel rounds
        ((Routine.runWithTimeout e kind (some ⟨duration, .separateThread⟩) body).play @runner) m =
          some (outcome, m') →
      ∃ own y, m'.Embodies y ∧ Supervised fuel e kind duration body x own outcome y := by
  refine ⟨fun caller hcaller => Routine.runWithTimeout_guarantees hcaller, ?_⟩
  intro runner rounds m m' outcome hm hdrive
  have hguarantees : (Routine.runWithTimeout e kind (some ⟨duration, .separateThread⟩) body).Guarantees
      fuel none (Unsettled e duration body x) (Supervised fuel e kind duration body x) [] x :=
    Routine.runWithTimeout_guarantees (by simp)
  exact hguarantees.drive (Routine.compositional_composed.runWithTimeout _ _ _ _).quiet hm hdrive

end Call

namespace Abandonment

/-- A body that takes its time. -/
def sleeping (nanos : Nat) : TokenId → Program Host.bare .result := fun _ =>
  .call (.sleep nanos) fun _ => .finish (.ok ())

def duration : Duration :=
  ⟨3, .nanoseconds, by decide, by decide⟩

def runner : Runner Host.bare := fun program => program.exec 3 none

def call (nanos : Nat) : Routine Host.bare (Except InvocationError Unit) :=
  .runWithTimeout 0 .test (some ⟨duration, .separateThread⟩) (sleeping nanos)

/-- A machine with an enforcer. -/
def machine : Machine Host.bare :=
  ⟨((World.initial ()).newToken.2.newEnforcer 0 false).2, [], 0⟩

/-- The machine after a worker has been given up. -/
def afterFirst : Machine Host.bare :=
  ((Machine.drive 3 9 ((call 5).play @runner) machine).get rfl).2

/-- The machine after another worker has returned, and in the meantime the first one. -/
def afterSecond : Machine Host.bare :=
  ((Machine.drive 3 9 ((call 2).play @runner) afterFirst).get rfl).2

end Abandonment

open Abandonment in
/-- The first of two workers is given up. Its result comes while the caller waits for the second one,
and is not what it gets. -/
theorem worker_call_ends_with_verdict_twice :
    ∃ x own y,
      Machine.drive 3 9 ((call 5).play @runner) machine =
        some (.returned (.error (.timeout ⟨.test, duration, 3, .separateThread, none⟩)), afterFirst) ∧
      Machine.drive 3 9 ((call 2).play @runner) afterFirst = some (.returned (.ok ()), afterSecond) ∧
      afterSecond.world.workers.map Worker.result =
        [some (.returned (.ok ())), some (.returned (.ok ()))] ∧
      afterFirst.Embodies x ∧ afterSecond.Embodies y ∧
      Supervised 3 0 .test duration (sleeping 2) x own (.returned (.ok ())) y ∧
      (call 2).Guarantees 3 (some 0) (Unsettled 0 duration (sleeping 2) x)
        (Supervised 3 0 .test duration (sleeping 2) x) [] x := by
  have hfirst : Machine.drive 3 9 ((call 5).play @runner) machine =
      some (.returned (.error (.timeout ⟨.test, duration, 3, .separateThread, none⟩)), afterFirst) :=
    rfl
  have hsecond : Machine.drive 3 9 ((call 2).play @runner) afterFirst =
      some (.returned (.ok ()), afterSecond) := rfl
  obtain ⟨x₀, hx₀⟩ := Machine.embodies_of_no_threads machine.world
  obtain ⟨-, x, hx, -⟩ :=
    (worker_call_ends_with_verdict 3 0 .test duration (sleeping 5) x₀).2 @runner 9 _ _ _ hx₀ hfirst
  obtain ⟨own, y, hy, hlaw⟩ :=
    (worker_call_ends_with_verdict 3 0 .test duration (sleeping 2) x).2 @runner 9 _ _ _ hx hsecond
  have hcaller : ∀ c ∈ some 0, c < x.world.workers.length := by
    rw [hx.world]
    decide
  exact ⟨x, own, y, hfirst, hsecond, rfl, hx, hy, hlaw,
    (worker_call_ends_with_verdict 3 0 .test duration (sleeping 2) x).1 (some 0) hcaller⟩

end TimedInvocation
