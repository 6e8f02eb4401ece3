import Mathlib.Data.List.Nodup
import TimedInvocation.Proofs.Composition
import TimedInvocation.Proofs.Workforce

/-!
# The schedule of the machine

The machine lets the threads of the workers take turns in a fixed order. Each of its turns is a sequence
of steps of the workforce that it embodies, so what holds for every order of the steps holds for the
machine.
-/

namespace TimedInvocation

open Relation World

variable {H : Host} {fuel : Nat}

namespace Workforce

variable {x : Workforce H}

/-- The workforce with another world, in which there are at least as many workers. -/
def inWorld (x : Workforce H) (w : World H)
    (hworkers : x.world.workers.length ≤ w.workers.length) : Workforce H where
  world := w
  place := x.place
  exists_of_begun id hbegun := Nat.lt_of_lt_of_le (x.exists_of_begun id hbegun) hworkers
  quiet_of_busy := x.quiet_of_busy

/-- The workforce with the thread of one of its workers at another place. -/
def withPlace (x : Workforce H) (id : WorkerId) (place : Place H)
    (hexists : id < x.world.workers.length) (hquiet : ∀ act, place = .busy act → act.Quiet) :
    Workforce H where
  world := x.world
  place := Function.update x.place id place
  exists_of_begun other hbegun := by
    by_cases hother : other = id
    · exact hother ▸ hexists
    · rw [Function.update_of_ne hother] at hbegun
      exact x.exists_of_begun other hbegun
  quiet_of_busy other act hbusy := by
    by_cases hother : other = id
    · rw [hother, Function.update_self] at hbusy
      exact hquiet act hbusy
    · rw [Function.update_of_ne hother] at hbusy
      exact x.quiet_of_busy other act hbusy

variable (fuel) in
/-- Others can make quiet moves while no thread acts. -/
theorem exists_later_of_quiet {w : World H} (hwait : ReflTransGen World.Quiet x.world w) :
    ∃ y, x.Later fuel y ∧ y.world = w := by
  induction hwait with
  | refl => exact ⟨x, .refl, rfl⟩
  | tail _ hquiet ih =>
      obtain ⟨y, hlater, rfl⟩ := ih
      exact ⟨y.inWorld _ hquiet.2.workers.length_le, hlater.tail (.others hquiet rfl), rfl⟩

variable (fuel) in
/-- The thread of a worker can take the steps of its act up to one that has to wait. -/
theorem later_advance {id : WorkerId} {act : Act H (Except Failure H.Result)}
    (hplace : x.place id = .busy act) :
    ∃ y, x.Later fuel y ∧ y.world = (act.advance x.world).2 ∧
      y.place = Function.update x.place id (.busy (act.advance x.world).1) := by
  induction act generalizing x with
  | ended outcome =>
      refine ⟨x, .refl, rfl, ?_⟩
      rw [Act.advance, ← hplace, Function.update_eq_self]
  | step pause change next ih =>
      rw [Act.advance]
      by_cases hover : pause.isOver x.world = true
      · rw [if_pos hover]
        have hquiet := quiet_of_works hplace hover
        have hexists : id < (change x.world).workers.length :=
          Nat.lt_of_lt_of_le (x.exists_of_begun id (by simp [hplace])) hquiet.2.workers.length_le
        let x₁ : Workforce H := (x.inWorld (change x.world) hquiet.2.workers.length_le).withPlace id
          (.busy (next x.world)) hexists fun act hact =>
            Place.busy.inj hact ▸ (x.quiet_of_busy id _ hplace).2 x.world
        have hstep : x.Step fuel x₁ := .works hplace hover rfl rfl
        obtain ⟨y, hlater, hworld, hplaces⟩ :=
          ih x.world (x := x₁) (by simp [x₁, withPlace])
        exact ⟨y, .head hstep hlater, hworld, by rw [hplaces]; simp [x₁, withPlace, inWorld]⟩
      · rw [if_neg hover]
        refine ⟨x, .refl, rfl, ?_⟩
        rw [← hplace, Function.update_eq_self]

end Workforce

namespace Machine

/-- The machine has the world of a workforce, and a thread for each worker that it lets act. -/
structure Embodies (m : Machine H) (x : Workforce H) : Prop where
  world : x.world = m.world
  started : m.started ≤ m.world.workers.length
  nodup : (m.threads.map Thread.worker).Nodup
  busy : ∀ thread ∈ m.threads, x.place thread.worker = .busy thread.act
  begun : ∀ thread ∈ m.threads, thread.worker < m.started
  unbegun : ∀ id, m.started ≤ id → x.place id = .unbegun

variable {m m' : Machine H} {x : Workforce H}

/-- The first thread, or the clock, changes the world. -/
theorem Embodies.inWorld (hm : m.Embodies x) {w : World H}
    (hworkers : x.world.workers.length ≤ w.workers.length) :
    Embodies ⟨w, m.threads, m.started⟩ (x.inWorld w hworkers) :=
  ⟨rfl, Nat.le_trans hm.started (hm.world ▸ hworkers), hm.nodup, hm.busy, hm.begun, hm.unbegun⟩

variable (fuel) in
/-- The next worker that has no thread is given one. -/
theorem Embodies.startThread (hm : m.Embodies x) {worker : Worker H}
    (hworker : m.world.workers[m.started]? = some worker) :
    ∃ y, x.Later fuel y ∧ Embodies ⟨m.world,
      m.threads ++ [⟨m.started, worker.body.exec fuel (some worker.number)⟩], m.started + 1⟩ y := by
  rw [← hm.world] at hworker
  have hunbegun : x.place m.started = .unbegun := hm.unbegun _ (Nat.le_refl _)
  have hexists : m.started < x.world.workers.length := (List.getElem?_eq_some_iff.mp hworker).1
  let y : Workforce H := x.withPlace m.started (.busy (worker.body.exec fuel (some worker.number)))
    hexists fun act hact => Place.busy.inj hact ▸ worker.body.quiet_exec fuel _
  refine ⟨y, .single (.begins hworker hunbegun rfl rfl), hm.world, hm.world ▸ hexists, ?_, ?_, ?_, ?_⟩
  · have hfresh (thread : Thread H) (hmem : thread ∈ m.threads) : thread.worker ≠ m.started :=
      Nat.ne_of_lt (hm.begun thread hmem)
    simpa [List.nodup_append, hm.nodup] using hfresh
  · intro thread hmem
    rcases List.mem_append.mp hmem with hold | hnew
    · have hother : thread.worker ≠ m.started := Nat.ne_of_lt (hm.begun thread hold)
      simp only [y, Workforce.withPlace, Function.update_of_ne hother]
      exact hm.busy thread hold
    · rw [List.mem_singleton.mp hnew]
      exact Function.update_self _ _ _
  · intro thread hmem
    rcases List.mem_append.mp hmem with hold | hnew
    · exact Nat.lt_succ_of_lt (hm.begun thread hold)
    · rw [List.mem_singleton.mp hnew]
      exact Nat.lt_succ_self _
  · intro id hid
    have hother : id ≠ m.started := by simp only at hid; omega
    simp only [y, Workforce.withPlace, Function.update_of_ne hother]
    exact hm.unbegun id (by simp only at hid; omega)

/-- Giving threads to workers starts with the next one that has none. -/
theorem startThreads_of_getElem? {worker : Worker H}
    (hworker : m.world.workers[m.started]? = some worker) :
    m.startThreads fuel = startThreads fuel ⟨m.world,
      m.threads ++ [⟨m.started, worker.body.exec fuel (some worker.number)⟩], m.started + 1⟩ := by
  obtain ⟨hexists, rfl⟩ := List.getElem?_eq_some_iff.mp hworker
  have hdrop : m.world.workers.zipIdx.drop m.started =
      (m.world.workers[m.started], m.started) :: m.world.workers.zipIdx.drop (m.started + 1) := by
    rw [List.drop_eq_getElem_cons (by simpa using hexists)]
    simp
  simp only [startThreads, hdrop, List.map_cons, List.append_assoc, List.singleton_append]

variable (fuel) in
theorem Embodies.startThreads (hm : m.Embodies x) :
    ∃ y, x.Later fuel y ∧ (m.startThreads fuel).Embodies y := by
  obtain ⟨missing, hmissing⟩ : ∃ missing, m.world.workers.length - m.started = missing := ⟨_, rfl⟩
  induction missing generalizing m x with
  | zero =>
      have hall : m.started = m.world.workers.length := by have := hm.started; omega
      have hnone : m.world.workers.zipIdx.drop m.started = [] :=
        List.drop_eq_nil_of_le (by simp [hall])
      have hsame : m.startThreads fuel = m := by
        simp [Machine.startThreads, hnone, ← hall]
      exact ⟨x, .refl, hsame.symm ▸ hm⟩
  | succ missing ih =>
      have hexists : m.started < m.world.workers.length := by omega
      have hworker := List.getElem?_eq_getElem hexists
      obtain ⟨y, hlater, hy⟩ := hm.startThread fuel hworker
      obtain ⟨z, hlater', hz⟩ := ih hy (by simp only; omega)
      exact ⟨z, hlater.trans hlater', startThreads_of_getElem? hworker ▸ hz⟩

/-- The first thread that need not wait has its turn, and the others stay where they are. -/
theorem turnOfFirst_cases {threads left : List (Thread H)} {w w' : World H}
    (hturn : Thread.turnOfFirst threads w = some (left, w')) :
    ∃ before thread after, threads = before ++ thread :: after ∧
      left = before ++ ((thread.turn w).1.toList ++ after) ∧ w' = (thread.turn w).2 := by
  induction threads generalizing left with
  | nil => simp [Thread.turnOfFirst] at hturn
  | cons thread rest ih =>
      rw [Thread.turnOfFirst] at hturn
      split at hturn
      · obtain ⟨rfl, rfl⟩ := Prod.mk.inj (Option.some.inj hturn)
        exact ⟨[], thread, rest, rfl, rfl, rfl⟩
      · obtain ⟨⟨left', w''⟩, hrest, heq⟩ := Option.map_eq_some_iff.mp hturn
        obtain ⟨rfl, rfl⟩ := Prod.mk.inj heq
        obtain ⟨before, thread', after, rfl, rfl, hworld⟩ := ih hrest
        exact ⟨thread :: before, thread', after, rfl, rfl, hworld⟩

/-- A thread gets to another place or comes to its end, and the others stay where they are. -/
theorem Embodies.replace (hm : m.Embodies x) {before after : List (Thread H)} {thread : Thread H}
    (hthreads : m.threads = before ++ thread :: after) {y : Workforce H} {place : Place H}
    {left : Option (Thread H)} (hplaces : y.place = Function.update x.place thread.worker place)
    (hleft : ∀ t ∈ left, t.worker = thread.worker ∧ place = .busy t.act)
    (hworkers : m.world.workers.length ≤ y.world.workers.length) :
    Embodies ⟨y.world, before ++ (left.toList ++ after), m.started⟩ y := by
  obtain ⟨hdistinct, hnodup⟩ : thread.worker ∉ (before ++ after).map Thread.worker ∧
      ((before ++ after).map Thread.worker).Nodup := by
    have hall := hm.nodup
    rw [hthreads, List.map_append, List.map_cons, List.nodup_middle, List.nodup_cons] at hall
    simpa using hall
  have hbegun : thread.worker < m.started := hm.begun thread (by simp [hthreads])
  have hstay (t : Thread H) (hmem : t ∈ before ++ after) :
      y.place t.worker = .busy t.act ∧ t.worker < m.started := by
    have hold : t ∈ m.threads := by
      rw [hthreads]
      simp only [List.mem_append, List.mem_cons] at hmem ⊢
      tauto
    have hother : t.worker ≠ thread.worker := fun heq =>
      hdistinct (heq ▸ List.mem_map_of_mem hmem)
    rw [hplaces, Function.update_of_ne hother]
    exact ⟨hm.busy t hold, hm.begun t hold⟩
  have hturned (t : Thread H) (hmem : t ∈ left) :
      y.place t.worker = .busy t.act ∧ t.worker < m.started := by
    obtain ⟨hworker, rfl⟩ := hleft t hmem
    rw [hplaces, hworker, Function.update_self]
    exact ⟨rfl, hbegun⟩
  have hthread (t : Thread H) (hmem : t ∈ before ++ (left.toList ++ after)) :
      y.place t.worker = .busy t.act ∧ t.worker < m.started := by
    simp only [List.mem_append, Option.mem_toList] at hmem
    rcases hmem with hbefore | hleft | hafter
    · exact hstay t (List.mem_append_left _ hbefore)
    · exact hturned t hleft
    · exact hstay t (List.mem_append_right _ hafter)
  refine ⟨rfl, Nat.le_trans hm.started hworkers, ?_, fun t hmem => (hthread t hmem).1,
    fun t hmem => (hthread t hmem).2, fun id hid => ?_⟩
  · cases left with
    | none => simpa using hnodup
    | some t =>
        have hworker : t.worker = thread.worker := (hleft t rfl).1
        rw [Option.toList_some, List.singleton_append, List.map_append, List.map_cons,
          List.nodup_middle, List.nodup_cons, ← List.map_append, hworker]
        exact ⟨hdistinct, hnodup⟩
  · rw [hplaces, Function.update_of_ne (Nat.ne_of_gt (Nat.lt_of_lt_of_le hbegun hid))]
    exact hm.unbegun id hid

variable (fuel) in
/-- The turn of a thread is a sequence of its steps. -/
theorem Embodies.turn (hm : m.Embodies x) {before after : List (Thread H)} {thread : Thread H}
    (hthreads : m.threads = before ++ thread :: after) :
    ∃ y, x.Later fuel y ∧ Embodies ⟨(thread.turn m.world).2,
      before ++ ((thread.turn m.world).1.toList ++ after), m.started⟩ y := by
  have hplace : x.place thread.worker = .busy thread.act := hm.busy thread (by simp [hthreads])
  obtain ⟨y, hlater, hworld, hplaces⟩ := Workforce.later_advance fuel hplace
  rw [hm.world] at hworld hplaces
  have hworkers : m.world.workers.length ≤ y.world.workers.length := by
    simpa [hm.world] using (World.Meanwhile.grows hlater.meanwhile).bodies.length_le
  rw [Thread.turn]
  cases hadvance : thread.act.advance m.world with
  | mk left w =>
      obtain rfl : w = y.world := by rw [hworld, hadvance]
      rw [hadvance] at hplaces
      cases left with
      | step pause change next =>
          exact ⟨y, hlater, hm.replace hthreads hplaces (by simp) hworkers⟩
      | ended outcome =>
          have hended : y.place thread.worker = .busy (.ended outcome) := by
            rw [hplaces, Function.update_self]
          have hlength : y.world.workers.length =
              (y.world.deliver thread.worker outcome).workers.length := by
            simp [World.deliver]
          let z : Workforce H :=
            (y.inWorld (y.world.deliver thread.worker outcome) (Nat.le_of_eq hlength)).withPlace
              thread.worker .gone (hlength ▸ y.exists_of_begun _ (by simp [hended])) (by simp)
          have hstep : y.Step fuel z := .reports hended rfl rfl
          have hgone : z.place = Function.update x.place thread.worker .gone := by
            simp [z, Workforce.withPlace, Workforce.inWorld, hplaces]
          exact ⟨z, hlater.tail hstep, hm.replace hthreads hgone (by simp) (hlength ▸ hworkers)⟩

variable (fuel) in
theorem Embodies.turn? (hm : m.Embodies x) (hturn : m.turn? = some m') :
    ∃ y, x.Later fuel y ∧ m'.Embodies y := by
  obtain ⟨⟨left, w⟩, hfirst, rfl⟩ := Option.map_eq_some_iff.mp hturn
  obtain ⟨before, thread, after, hthreads, rfl, rfl⟩ := turnOfFirst_cases hfirst
  exact hm.turn fuel hthreads

/-- A machine that has given no worker a thread embodies a workforce. -/
theorem embodies_of_no_threads (w : World H) : ∃ x, Embodies ⟨w, [], 0⟩ x :=
  ⟨⟨w, fun _ => .unbegun, fun _ hbegun => absurd rfl hbegun, fun _ _ hbusy => by cases hbusy⟩,
    rfl, Nat.zero_le _, List.nodup_nil, by simp, by simp, fun _ _ => rfl⟩

/-- A machine whose first thread has to wait lets the threads of the workers or the clock go on. -/
theorem drive_succ {α : Type} {act : Act H α} {rounds : Nat} {outcome : Outcome α}
    (hdrive : drive fuel (rounds + 1) act m = some (outcome, m')) :
    ((act.advance m.world).1 = .ended outcome ∧
        m' = ⟨(act.advance m.world).2, m.threads, m.started⟩) ∨
      ∃ m₁, drive fuel rounds (act.advance m.world).1 m₁ = some (outcome, m') ∧
        ∀ x, Embodies ⟨(act.advance m.world).2, m.threads, m.started⟩ x →
          ∃ y, x.Later fuel y ∧ m₁.Embodies y := by
  rw [drive] at hdrive
  cases hadvance : act.advance m.world with
  | mk left w =>
      rw [hadvance] at hdrive
      cases left with
      | ended outcome' =>
          obtain ⟨rfl, rfl⟩ := Prod.mk.inj (Option.some.inj hdrive)
          exact .inl ⟨rfl, rfl⟩
      | step pause change next =>
          right
          simp only at hdrive
          split at hdrive
          · next m₁ hturn =>
            refine ⟨m₁, hdrive, fun x hx => ?_⟩
            obtain ⟨y, hlater, hy⟩ := hx.startThreads fuel
            obtain ⟨z, hlater', hz⟩ := hy.turn? fuel hturn
            exact ⟨z, hlater.trans hlater', hz⟩
          · split at hdrive
            · cases hdrive
            · next time _ =>
              refine ⟨_, hdrive, fun x hx => ?_⟩
              obtain ⟨y, hlater, hy⟩ := hx.startThreads fuel
              have hquiet : y.world.Quiet
                  ((startThreads fuel ⟨w, m.threads, m.started⟩).world.moveTo time) := by
                rw [hy.world]
                exact ⟨.moved _ _, World.onward_moveTo _ _⟩
              let z : Workforce H := y.inWorld _ hquiet.2.workers.length_le
              have hstep : y.Step fuel z := .others hquiet rfl
              exact ⟨z, hlater.tail hstep, hy.inWorld _⟩

end Machine

end TimedInvocation
