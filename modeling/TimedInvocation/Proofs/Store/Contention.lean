import TimedInvocation.Proofs.Store.Ledger
import TimedInvocation.Proofs.Store.Races

/-!
# Contention for a key

Threads that compute the same key of a store, each with a factory of its own, and threads that close
the store take turns in any order. Their user code may close the store too, and otherwise it does, as do
others, anything that leaves the key alone. However the turns fall, one factory completes at most, all
who get a value get that one, before it is cleaned up, and closing the store cleans it up once.
-/

namespace TimedInvocation

open Relation World

variable {H : Host} {ι κ : Type}

/-- Threads that compute a key and threads that close the store, in the middle of it, with a ledger of what
they have done. -/
structure Threads (H : Host) (ι κ : Type) extends Ledger H (ι ⊕ κ) where
  world : World H
  callers : ι → Party H (Except StoreError Value)
  closers : κ → Party H (Except StoreCloseError Unit)

namespace Threads

variable {runner : Runner H} {crew : ι → Caller H} {s : StoreId} {k : Key} {i : SlotId}
  {threads threads' : Threads H ι κ} {r r' : Race H ι κ}

/-- The threads before any of them has taken a step. -/
def start (crew : ι → Caller H) (κ : Type) (s : StoreId) (k : Key) (w : World H) : Threads H ι κ where
  toLedger := .blank H (ι ⊕ κ)
  world := w
  callers j := .own ((crew j).routine s k)
  closers _ := .own (.close s)

/-- How a race between the threads stands. -/
structure At (crew : ι → Caller H) (s : StoreId) (k : Key) (threads : Threads H ι κ)
    (r : Race H ι κ) : Prop where
  heap : r.heap = threads.world.heap
  history : r.history = threads.history
  callers : ∀ j, (crew j).At s k (threads.callers j) (r.callers j)
  closers : ∀ j, Closer.At s (threads.closers j) (r.closers j)

/-- In the beginning nobody has made a slot, as long as the store is open and neither it nor an ancestor
has anything for the key. -/
theorem At.start (crew : ι → Caller H) (κ : Type) {w : World H} (hopen : w.heap.isClosed s = false)
    (hslot : (w.heap.store s).slot? k = none) (hvalue : w.heap.inherited? s k = none) :
    ∃ r : Race H ι κ, (start crew κ s k w).At crew s k r ∧ r.Untouched s k := by
  refine ⟨⟨w.heap, fun _ => .arriving, fun _ => .closing, []⟩, ?_, ?_⟩
  · exact ⟨rfl, rfl, fun _ => .arriving, fun _ => .closing⟩
  · constructor
    case vacant => exact fun _ => ⟨hslot, hvalue, rfl⟩
    case callers => exact fun _ => .inl rfl
    case closing => exact fun _ _ hcleaning => nomatch hcleaning
    case begun => simp [hopen]
    case unfilled => rfl

theorem callers_start_ne_ended (crew : ι → Caller H) (w : World H) (j : ι)
    (outcome : Outcome (Except StoreError Value)) :
    (start crew κ s k w).callers j ≠ .own (.ended outcome) := by
  intro hended
  have hat : (crew j).At s k (.own (.ended outcome)) .arriving := hended ▸ .arriving
  rcases hat.of_ended with harriving | ⟨harriving, -⟩
  all_goals cases harriving

/-- Whoever has taken a step to close the store has begun to do so, or has found it closed. -/
theorem At.begun_of_closer (hat : threads.At crew s k r) (hsound : r.Sound crew s k) {j : κ}
    (hactive : threads.closers j ≠ .own (.close s)) : .closed s ∈ threads.history := by
  rw [← hat.history, ← hsound.isClosed_iff]
  have hj := hat.closers j
  generalize threads.closers j = party at hj hactive
  generalize hstation : r.closers j = a at hj
  cases hj with
  | closing => exact absurd rfl hactive
  | cleaning hcleaning => exact hsound.isClosed_of_cleaning hstation

/-- The store is closed exactly if somebody has begun to close it. -/
theorem At.begun_iff (hat : threads.At crew s k r) (hsound : r.Sound crew s k) :
    .closed s ∈ threads.history ↔ threads.world.heap.isClosed s = true := by
  rw [← hat.history, ← hat.heap, hsound.isClosed_iff]

/-- Whoever has ended has no slot left to clean. -/
theorem At.not_inCharge_caller (hat : threads.At crew s k r)
    (hended : ∀ j, ∃ outcome, threads.callers j = .own (.ended outcome)) (j : ι) :
    ¬ (r.callers j).InCharge i := by
  obtain ⟨outcome, hj⟩ := hended j
  rcases (hj ▸ hat.callers j).of_ended with hdone | ⟨hdone, -⟩
  · rw [hdone]
    exact id
  · rw [hdone]
    exact List.not_mem_nil

theorem At.not_inCharge_closer (hat : threads.At crew s k r)
    (hended : ∀ j, ∃ outcome, threads.closers j = .own (.ended outcome)) (j : κ) :
    ¬ (r.closers j).InCharge i := by
  obtain ⟨outcome, hj⟩ := hended j
  have hj' : Closer.At s (.own (.ended outcome)) (r.closers j) := hj ▸ hat.closers j
  rw [hj'.of_ended]
  exact List.not_mem_nil

/-- All threads call next what they take, and the ledger is kept. -/
structure Punctual (threads : Threads H ι κ) : Prop where
  kept : threads.Kept
  callers : ∀ j, (threads.callers j).Punctual (threads.last (.inl j))
  closers : ∀ j, (threads.closers j).Punctual (threads.last (.inr j))

theorem Punctual.start (crew : ι → Caller H) (κ : Type) (s : StoreId) (k : Key) (w : World H) :
    (start crew κ s k w).Punctual where
  kept := Ledger.kept_blank
  callers j :=
    have hfactory : (Routine.run (crew j).factory).Conscientious :=
      Routine.Conscientious.inherited.run (by simp) _
    Routine.Conscientious.storing.compute s k (crew j).type (some (crew j).close) hfactory none rfl
  closers _ := Routine.Conscientious.storing.close s none rfl

/-- Whenever a thread took the cleanup action of the slot, that was to close the value in the slot. -/
def Closes (crew : ι → Caller H) (i : SlotId) (threads : Threads H ι κ) : Prop :=
  ∀ x, threads.Made x → ∀ cleanup, x.taken? = some (i, cleanup) →
    ∃ j v, x.found.heap.slot i = .holding ⟨v, some cleanup⟩ ∧ cleanup = (crew j).close v

/-- The race that the threads are in has no slot yet, or is about one that has been closed by none but the
cleanup action for its value. -/
inductive Stands (crew : ι → Caller H) (s : StoreId) (k : Key) (threads : Threads H ι κ)
    (r : Race H ι κ) : Prop where
  | untouched (huntouched : r.Untouched s k)
  | about {i : SlotId} (habout : r.About crew s k i) (hcloses : threads.Closes crew i)

theorem Stands.sound (hstands : threads.Stands crew s k r) : r.Sound crew s k := by
  cases hstands with
  | untouched huntouched => exact .untouched huntouched
  | about habout _ => exact .about habout

/-- Whoever calls the cleanup action of the slot that the race is about closes the value in it. -/
theorem Punctual.close_of_cleans (hpunctual : threads.Punctual) (hcloses : threads.Closes crew i)
    {c : CallStart H} (hc : c ∈ threads.calls) (hcleans : c.cleans i = true) :
    ∃ x j v, c.last = some x ∧ x.found.heap.slot i = .holding ⟨v, some ((crew j).close v)⟩ ∧
      c.code = ⟨.done, (crew j).close v⟩ := by
  obtain ⟨cleanup, hcleaning⟩ := CallStart.cleans_iff.mp hcleans
  obtain ⟨x, hx, htaken⟩ := Option.bind_eq_some_iff.mp hcleaning
  obtain ⟨j, v, hslot, rfl⟩ := hcloses x (.inr ⟨c, hc, hx⟩) cleanup htaken
  exact ⟨x, j, v, hx, hslot, (hpunctual.kept.due c hc).code_eq hcleaning⟩

/-- There are not more calls of the cleanup action of a slot than marks of it. -/
theorem Punctual.countP_cleans_le (hpunctual : threads.Punctual) (i : SlotId) :
    threads.calls.countP (CallStart.cleans i) ≤ threads.history.count (.cleaned i) := by
  obtain ⟨takers, -, hcount⟩ := hpunctual.kept.counted i
  omega

/-- Once all have ended, every cleanup action that was taken has been called. -/
theorem Punctual.countP_cleans_eq (hpunctual : threads.Punctual)
    (hcallers : ∀ j, ∃ outcome, threads.callers j = .own (.ended outcome))
    (hclosers : ∀ j, ∃ outcome, threads.closers j = .own (.ended outcome)) (i : SlotId) :
    threads.calls.countP (CallStart.cleans i) = threads.history.count (.cleaned i) := by
  obtain ⟨takers, htakers, hcount⟩ := hpunctual.kept.counted i
  have hidle (who : ι ⊕ κ) : pending? (threads.last who) = none := by
    cases who with
    | inl j =>
        have hj := hpunctual.callers j
        obtain ⟨outcome, hended⟩ := hcallers j
        rwa [hended] at hj
    | inr j =>
        have hj := hpunctual.closers j
        obtain ⟨outcome, hended⟩ := hclosers j
        rwa [hended] at hj
  have hnone : takers = ∅ := by
    refine Finset.eq_empty_of_forall_notMem fun who hwho => ?_
    rw [htakers, owing_of_idle (hidle who)] at hwho
    cases hwho
  rw [hcount, hnone, Finset.card_empty, Nat.add_zero]

variable [DecidableEq ι] [DecidableEq κ]

/-- One of the threads takes a step, or others do something that spares them. So does the user code
that the threads run, but it may close the store as well. -/
inductive Step (runner : Runner H) (s : StoreId) (k : Key) : Threads H ι κ → Threads H ι κ → Prop where
  | caller {threads : Threads H ι κ} (j : ι) {party : Party H (Except StoreError Value)}
      {added : List StoreOccurrence} {w : World H}
      (hstep : (threads.callers j).Step @runner (Heap.Tolerates s k threads.history) threads.world added
        party w) :
      Step runner s k threads
        ⟨threads.enter (.inl j) threads.world added w (threads.callers j), w,
          Function.update threads.callers j party, threads.closers⟩
  | closer {threads : Threads H ι κ} (j : κ) {party : Party H (Except StoreCloseError Unit)}
      {added : List StoreOccurrence} {w : World H}
      (hstep : (threads.closers j).Step @runner (Heap.Tolerates s k threads.history) threads.world added
        party w) :
      Step runner s k threads
        ⟨threads.enter (.inr j) threads.world added w (threads.closers j), w, threads.callers,
          Function.update threads.closers j party⟩
  | others {threads : Threads H ι κ} {w : World H}
      (hspares : threads.world.heap.Spares s k threads.history w.heap) :
      Step runner s k threads { threads with world := w }

/-- Any interleaving of steps. -/
abbrev Run (runner : Runner H) (s : StoreId) (k : Key) : Threads H ι κ → Threads H ι κ → Prop :=
  ReflTransGen (Step @runner s k)

/-- What a thread does is a step of the race. -/
theorem At.step (hat : threads.At crew s k r) (hstep : threads.Step @runner s k threads') :
    ∃ r', threads'.At crew s k r' ∧ r.Step crew s k r' := by
  obtain ⟨hheap, hhistory, hcallers, hclosers⟩ := hat
  have hrefl (h : Heap (Program H .done)) : h.Tolerates s k threads.history [] h :=
    .spared (.refl _ h)
  cases hstep with
  | @caller j party added w hstep =>
      obtain ⟨b, hb, hmove⟩ := (hcallers j).step hrefl hstep
      have hcallers' := Race.forall_update hcallers hb
      rcases hmove with ⟨rfl, hcalls, htolerates⟩ | ⟨hadvance, rfl⟩
      · rw [Function.update_eq_self] at hcallers'
        rw [← hheap, ← hhistory] at htolerates
        refine ⟨_, ?_, .of_tolerates (.inl ⟨j, hcalls⟩) htolerates⟩
        exact ⟨rfl, by simp [hhistory], hcallers', hclosers⟩
      · rw [← hheap] at hadvance
        refine ⟨_, ?_, .caller rfl hadvance⟩
        exact ⟨rfl, by simp [hheap, hhistory], hcallers', hclosers⟩
  | @closer j party added w hstep =>
      obtain ⟨b, hb, hmove⟩ := (hclosers j).step hrefl hstep
      have hclosers' := Race.forall_update (P := fun _ => Closer.At s) (a := j) hclosers hb
      rcases hmove with ⟨rfl, hcalls, htolerates⟩ | ⟨hadvance, rfl⟩
      · rw [Function.update_eq_self] at hclosers'
        rw [← hheap, ← hhistory] at htolerates
        refine ⟨_, ?_, .of_tolerates (.inr ⟨j, hcalls⟩) htolerates⟩
        exact ⟨rfl, by simp [hhistory], hcallers, hclosers'⟩
      · rw [← hheap] at hadvance
        refine ⟨_, ?_, .closer rfl hadvance⟩
        exact ⟨rfl, by simp [hheap, hhistory], hcallers, hclosers'⟩
  | others hspares =>
      rw [← hheap, ← hhistory] at hspares
      refine ⟨_, ?_, .others hspares⟩
      exact ⟨rfl, hhistory, hcallers, hclosers⟩

/-- However the threads take turns, they are in a race that satisfies the invariant. -/
theorem At.run (hat : threads.At crew s k r) (hsound : r.Sound crew s k)
    (hrun : threads.Run @runner s k threads') : ∃ r', threads'.At crew s k r' ∧ r'.Sound crew s k := by
  induction hrun with
  | refl => exact ⟨r, hat, hsound⟩
  | tail hrun hstep ih =>
      obtain ⟨r₁, hat₁, hsound₁⟩ := ih
      obtain ⟨r₂, hat₂, hstep₂⟩ := hat₁.step hstep
      exact ⟨r₂, hat₂, hsound₁.step hstep₂⟩

theorem untaken_of_tolerates {h h' : Heap (Program H .done)} {history added : List StoreOccurrence}
    (htolerates : h.Tolerates s k history added h') (i : SlotId) : .cleaned i ∉ added := by
  cases htolerates with
  | spared => simp
  | began => simp

/-- Punctual threads stay so. -/
theorem Punctual.step (hpunctual : threads.Punctual) (hstep : threads.Step @runner s k threads') :
    threads'.Punctual := by
  cases hstep with
  | @caller j party added w hstep =>
      obtain ⟨hkept, hparty⟩ := hpunctual.kept.enter (hpunctual.callers j) untaken_of_tolerates hstep
      refine ⟨hkept, fun j' => ?_, fun j' => ?_⟩
      · by_cases hj : j' = j
        · subst hj
          simpa using hparty
        · rw [Ledger.last_enter_of_ne (by simpa using hj)]
          simpa [hj] using hpunctual.callers j'
      · rw [Ledger.last_enter_of_ne (by simp)]
        exact hpunctual.closers j'
  | @closer j party added w hstep =>
      obtain ⟨hkept, hparty⟩ := hpunctual.kept.enter (hpunctual.closers j) untaken_of_tolerates hstep
      refine ⟨hkept, fun j' => ?_, fun j' => ?_⟩
      · rw [Ledger.last_enter_of_ne (by simp)]
        exact hpunctual.callers j'
      · by_cases hj : j' = j
        · subst hj
          simpa using hparty
        · rw [Ledger.last_enter_of_ne (by simpa using hj)]
          simpa [hj] using hpunctual.closers j'
  | others => exact ⟨hpunctual.kept, hpunctual.callers, hpunctual.closers⟩

/-- Threads make no sections but those of their steps. -/
theorem Step.made (hstep : threads.Step @runner s k threads') {x : Section H} (hx : threads'.Made x) :
    threads.Made x ∨ x = ⟨threads.world, threads'.world⟩ := by
  cases hstep with
  | caller j hstep => exact Ledger.made_enter hx
  | closer j hstep => exact Ledger.made_enter hx
  | others hspares => exact .inl hx

/-- Whatever slot the race is about, no cleanup action is taken from it but the one for its value. -/
theorem Stands.step (hstands : threads.Stands crew s k r) (hat : threads.At crew s k r)
    (hpunctual : threads.Punctual) (hstep : threads.Step @runner s k threads') :
    ∃ r', threads'.At crew s k r' ∧ threads'.Stands crew s k r' := by
  obtain ⟨r', hat', hrace⟩ := hat.step hstep
  refine ⟨r', hat', ?_⟩
  cases hstands with
  | untouched huntouched =>
      rcases huntouched.step hrace with hstill | ⟨i, hhistory, habout⟩
      · exact .untouched hstill
      · refine .about habout fun x hx cleanup htaken => ?_
        have hmarked := (hpunctual.step hstep).kept.marked x hx i cleanup htaken
        rw [← hat'.history, hhistory] at hmarked
        simp at hmarked
  | about habout hcloses =>
      refine .about (habout.step hrace) fun x hx cleanup htaken => ?_
      rcases hstep.made hx with hearlier | rfl
      · exact hcloses x hearlier cleanup htaken
      · have howed := (Section.of_taken? htaken).1
        rw [← hat.heap] at howed ⊢
        exact habout.close_of_owed howed

theorem Punctual.run (hpunctual : threads.Punctual) (hrun : threads.Run @runner s k threads') :
    threads'.Punctual := by
  induction hrun with
  | refl => exact hpunctual
  | tail _ hstep ih => exact ih.step hstep

theorem Stands.run (hstands : threads.Stands crew s k r) (hat : threads.At crew s k r)
    (hpunctual : threads.Punctual) (hrun : threads.Run @runner s k threads') :
    threads'.Punctual ∧ ∃ r', threads'.At crew s k r' ∧ threads'.Stands crew s k r' := by
  induction hrun with
  | refl => exact ⟨hpunctual, r, hat, hstands⟩
  | tail hrun hstep ih =>
      obtain ⟨hpunctual₁, r₁, hat₁, hstands₁⟩ := ih
      exact ⟨hpunctual₁.step hstep, hstands₁.step hat₁ hpunctual₁ hstep⟩

theorem Step.isClosed (hstep : threads.Step @runner s k threads') (hat : threads.At crew s k r)
    (hclosed : threads.world.heap.isClosed s = true) : threads'.world.heap.isClosed s = true := by
  obtain ⟨r', hat', hrace⟩ := hat.step hstep
  rw [← hat.heap] at hclosed
  rw [← hat'.heap]
  exact hrace.isClosed hclosed

/-- Whatever the sections of the closed store keep of someone who computes the key stays so. -/
theorem Run.of_closed {P : Caller.Station → Prop} {j : ι}
    (hP : ∀ {a b : Caller.Station} {h h' : Heap (Program H .done)},
      (crew j).Advance s k a h b h' → h.isClosed s = true → P a → P b)
    (hrun : threads.Run @runner s k threads') (hat : threads.At crew s k r)
    (hsound : r.Sound crew s k) (hclosed : threads.world.heap.isClosed s = true)
    (hj : ∃ a, (crew j).At s k (threads.callers j) a ∧ P a) :
    ∃ a, (crew j).At s k (threads'.callers j) a ∧ P a := by
  suffices hall : threads'.world.heap.isClosed s = true ∧
      ∃ a, (crew j).At s k (threads'.callers j) a ∧ P a from hall.2
  induction hrun with
  | refl => exact ⟨hclosed, hj⟩
  | @tail threads₁ threads₂ hrun hstep ih =>
      obtain ⟨hclosed₁, a, hj₁, ha⟩ := ih
      obtain ⟨r₁, hat₁, -⟩ := hat.run hsound hrun
      refine ⟨hstep.isClosed hat₁ hclosed₁, ?_⟩
      cases hstep with
      | @caller j' party added w hstep =>
          by_cases hj' : j = j'
          · subst hj'
            obtain ⟨b, hb, ⟨rfl, -, -⟩ | ⟨hadvance, -⟩⟩ :=
              hj₁.step (fun h => .spared (.refl _ h)) hstep
            · exact ⟨b, by simpa using hb, ha⟩
            · exact ⟨b, by simpa using hb, hP hadvance hclosed₁ ha⟩
          · exact ⟨a, by simpa [hj'] using hj₁, ha⟩
      | closer j' hstep => exact ⟨a, hj₁, ha⟩
      | others hspares => exact ⟨a, hj₁, ha⟩

/-- What holds of a state that threads get to from their start. -/
structure RaceLaw (runner : Runner H) (crew : ι → Caller H) (s : StoreId) (k : Key)
    (first last : Threads H ι κ) : Prop where
  /-- Whoever has taken a step to close the store has begun to do so, or has found it closed. -/
  begun_of_closer : ∀ j, last.closers j ≠ .own (.close s) → .closed s ∈ last.history
  /-- The store is closed exactly if somebody has begun to close it. -/
  begun_iff : .closed s ∈ last.history ↔ last.world.heap.isClosed s = true
  /-- At most one run of a factory has completed. -/
  completed_once : (last.history.filter StoreOccurrence.isFilling).length ≤ 1
  /-- All who end with a value end with the same one. -/
  same_value : ∀ j j' v v', last.callers j = .own (.ended (.returned (.ok v))) →
    last.callers j' = .own (.ended (.returned (.ok v'))) → v = v'
  /-- Whoever ends with a value did so by a check when the store was open, with this value in the slot
  as the one that was computed, and with its cleanup action neither taken nor called. -/
  open_at_check : ∀ j v, last.callers j = .own (.ended (.returned (.ok v))) →
    ∃ threads checked i, first.Run @runner s k threads ∧ threads.Step @runner s k checked ∧
      checked.Run @runner s k last ∧ threads.callers j = .own ((crew j).checking s k i v) ∧
      checked.callers j = .own (.ended (.returned (.ok v))) ∧
      threads.world.heap.isClosed s = false ∧
      threads.history.filter StoreOccurrence.isFilling = [.filled s i true] ∧
      .cleaned i ∉ threads.history ∧ threads.calls.countP (CallStart.cleans i) = 0 ∧
      ∃ j', threads.world.heap.slot i = .holding ⟨v, some ((crew j').close v)⟩
  /-- Whoever has yet to make a check when somebody has begun to close the store is refused. -/
  refused_at_check : ∀ threads : Threads H ι κ, first.Run @runner s k threads →
    threads.Run @runner s k last → .closed s ∈ threads.history → ∀ j,
    (threads.callers j = .own ((crew j).routine s k) ∨
      ∃ i v, threads.callers j = .own ((crew j).checking s k i v)) →
    ∀ outcome, last.callers j = .own (.ended outcome) → outcome = .returned (.error (.closed k))
  /-- Whoever has not ended when somebody has begun to close the store gets nothing but a refusal. -/
  refused_late : ∀ threads : Threads H ι κ, first.Run @runner s k threads →
    threads.Run @runner s k last → .closed s ∈ threads.history → ∀ j,
    (∀ outcome, threads.callers j ≠ .own (.ended outcome)) →
    ∀ answer, last.callers j = .own (.ended (.returned answer)) → answer = .error (.closed k)
  /-- Whatever a thread has taken it calls, and no cleanup action that it has not taken. -/
  due : ∀ c ∈ last.calls, c.Due
  /-- Whoever calls the cleanup action of the slot closes the computed value with it. -/
  closes_value : ∀ i owed, .filled s i owed ∈ last.history → ∀ c ∈ last.calls, c.cleans i = true →
    ∃ x j v, c.last = some x ∧ x.found.heap.slot i = .holding ⟨v, some ((crew j).close v)⟩ ∧
      c.code = ⟨.done, (crew j).close v⟩
  /-- The computed value is closed at most once. -/
  cleaned_at_most_once : ∀ i owed, .filled s i owed ∈ last.history →
    last.calls.countP (CallStart.cleans i) ≤ 1
  /-- Once all have ended, the computed value has been closed once if somebody closed the store. -/
  cleaned_once : (∀ j, ∃ outcome, last.callers j = .own (.ended outcome)) →
    (∀ j, ∃ outcome, last.closers j = .own (.ended outcome)) → .closed s ∈ last.history →
    ∀ i owed, .filled s i owed ∈ last.history → last.calls.countP (CallStart.cleans i) = 1
  /-- As long as nobody has begun to close the store, the computed value has not been closed. -/
  not_cleaned : .closed s ∉ last.history →
    ∀ i owed, .filled s i owed ∈ last.history → last.calls.countP (CallStart.cleans i) = 0

/-- Whoever ends with a value does so by the check. -/
theorem Run.exists_check {first last : Threads H ι κ} (hrun : first.Run @runner s k last)
    (hat : first.At crew s k r) (hsound : r.Sound crew s k)
    (hfirst : ∀ j outcome, first.callers j ≠ .own (.ended outcome)) {j : ι} {v : Value}
    (hended : last.callers j = .own (.ended (.returned (.ok v)))) :
    ∃ threads checked i r₁, first.Run @runner s k threads ∧ threads.Step @runner s k checked ∧
      checked.Run @runner s k last ∧ threads.callers j = .own ((crew j).checking s k i v) ∧
      checked.callers j = .own (.ended (.returned (.ok v))) ∧ threads.At crew s k r₁ ∧
      r₁.Sound crew s k ∧ r₁.callers j = .checking i v ∧ r₁.heap.isClosed s = false := by
  induction hrun with
  | refl => exact absurd hended (hfirst j _)
  | @tail threads₁ threads₂ hrun hstep ih =>
      by_cases hbefore : threads₁.callers j = .own (.ended (.returned (.ok v)))
      · obtain ⟨threads, checked, i, r₂, hrun₁, hcheck, hrun₂, hrest⟩ := ih hbefore
        exact ⟨threads, checked, i, r₂, hrun₁, hcheck, hrun₂.tail hstep, hrest⟩
      · obtain ⟨r₁, hat₁, hsound₁⟩ := hat.run hsound hrun
        have hlast := hstep
        cases hstep with
        | @caller j' party added w hparty =>
            by_cases hj : j = j'
            · subst hj
              obtain rfl : party = .own (.ended (.returned (.ok v))) := by simpa using hended
              obtain ⟨hopen, ⟨hslot, hvalue⟩ | ⟨i, hstation, hchecking⟩⟩ :=
                (hat₁.callers j).step_value (fun h => .spared (.refl _ h)) hparty
              all_goals rw [← hat₁.heap] at hopen
              · rw [← hat₁.heap] at hslot hvalue
                exact absurd (hsound₁.not_inherited hopen hslot) hvalue
              · exact ⟨threads₁, _, i, r₁, hrun, hlast, .refl, hchecking, hended, hat₁, hsound₁,
                  hstation, hopen⟩
            · exact absurd (by simpa [hj] using hended) hbefore
        | closer j' hparty => exact absurd hended hbefore
        | others hspares => exact absurd hended hbefore

/-- Whoever has yet to make a check of the closed store is refused. -/
theorem Run.refused_at_check (hrun : threads.Run @runner s k threads') (hat : threads.At crew s k r)
    (hsound : r.Sound crew s k) (hclosed : threads.world.heap.isClosed s = true) {j : ι}
    (hcheck : threads.callers j = .own ((crew j).routine s k) ∨
      ∃ i v, threads.callers j = .own ((crew j).checking s k i v))
    {outcome : Outcome (Except StoreError Value)}
    (hended : threads'.callers j = .own (.ended outcome)) :
    outcome = .returned (.error (.closed k)) := by
  have hbefore : ∃ a, (crew j).At s k (threads.callers j) a ∧ a.Rejected k := by
    rcases hcheck with harriving | ⟨i, v, hchecking⟩
    · exact ⟨.arriving, harriving ▸ .arriving, trivial⟩
    · exact ⟨.checking i v, hchecking ▸ .checking i v, trivial⟩
  obtain ⟨a, ha, hrejected⟩ := hrun.of_closed Caller.Advance.rejected hat hsound hclosed hbefore
  rw [hended] at ha
  rcases ha.of_ended with rfl | ⟨-, hrefused⟩
  · exact hrejected
  · exact hrefused

/-- Whoever has not ended when the store is closed gets nothing but a refusal. -/
theorem Run.refused_late (hrun : threads.Run @runner s k threads') (hat : threads.At crew s k r)
    (hsound : r.Sound crew s k) (hclosed : threads.world.heap.isClosed s = true) {j : ι}
    (hactive : ∀ outcome, threads.callers j ≠ .own (.ended outcome)) {answer : Except StoreError Value}
    (hended : threads'.callers j = .own (.ended (.returned answer))) : answer = .error (.closed k) := by
  have hbefore : ∃ a, (crew j).At s k (threads.callers j) a ∧ a.Late k :=
    ⟨_, hat.callers j, (hat.callers j).late hactive⟩
  obtain ⟨a, ha, hlate⟩ := hrun.of_closed (fun hadvance hclosed _ => hadvance.late hclosed) hat hsound
    hclosed hbefore
  rw [hended] at ha
  rcases ha.of_ended with rfl | ⟨-, hrefused⟩
  · exact hlate answer rfl
  · exact Outcome.returned.inj hrefused

/-- Any number of threads compute a key of an open store, each with its own factory, and any number of
threads close the store, in any interleaving of their steps, while nobody puts or removes the key and no
ancestor holds a value for it. At most one factory completes; all who get a value get the computed one,
which was not cleaned up when they checked that the store was open; whoever checks after somebody has
begun to close it is refused; and in the end the value has been cleaned up once if the store was closed,
and not at all otherwise. -/
theorem contention_follows_law (runner : Runner H) (crew : ι → Caller H) (s : StoreId) (k : Key)
    (w : World H) (last : Threads H ι κ) (hopen : w.heap.isClosed s = false)
    (hslot : (w.heap.store s).slot? k = none) (hvalue : w.heap.inherited? s k = none)
    (hrun : (start crew κ s k w).Run @runner s k last) :
    RaceLaw @runner crew s k (start crew κ s k w) last := by
  obtain ⟨r₀, hat₀, huntouched₀⟩ := At.start crew κ hopen hslot hvalue
  have hsound₀ : r₀.Sound crew s k := .untouched huntouched₀
  have hpunctual₀ := Punctual.start crew κ s k w
  obtain ⟨hpunctual, r, hat, hstands⟩ := (Stands.untouched huntouched₀).run hat₀ hpunctual₀ hrun
  have hsound := hstands.sound
  constructor
  case begun_of_closer => exact fun j hactive => hat.begun_of_closer hsound hactive
  case begun_iff => exact hat.begun_iff hsound
  case completed_once =>
    rw [← hat.history]
    exact hsound.length_filter_isFilling_le_one
  case same_value =>
    intro j j' v v' hj hj'
    have hvalue := hj ▸ hat.callers j
    have hvalue' := hj' ▸ hat.callers j'
    exact hsound.value_unique hvalue.of_value hvalue'.of_value
  case open_at_check =>
    intro j v hj
    obtain ⟨threads, checked, i, r₁, hrun₁, hstep, hrun₂, hchecking, hended, hat₁, hsound₁, hstation,
      hopen₁⟩ := hrun.exists_check hat₀ hsound₀ (callers_start_ne_ended crew w) hj
    obtain ⟨hfilled, hcleaned, hholding⟩ := hsound₁.of_checking hstation hopen₁
    rw [hat₁.history] at hfilled hcleaned
    rw [hat₁.heap] at hopen₁ hholding
    have huncalled := (hpunctual₀.run hrun₁).countP_cleans_le i
    rw [List.count_eq_zero_of_not_mem hcleaned] at huncalled
    exact ⟨threads, checked, i, hrun₁, hstep, hrun₂, hchecking, hended, hopen₁, hfilled, hcleaned,
      Nat.le_zero.mp huncalled, hholding⟩
  case refused_at_check =>
    intro threads hrun₁ hrun₂ hbegun j hcheck outcome hended
    obtain ⟨r₁, hat₁, hsound₁⟩ := hat₀.run hsound₀ hrun₁
    exact hrun₂.refused_at_check hat₁ hsound₁ ((hat₁.begun_iff hsound₁).mp hbegun) hcheck hended
  case refused_late =>
    intro threads hrun₁ hrun₂ hbegun j hactive answer hended
    obtain ⟨r₁, hat₁, hsound₁⟩ := hat₀.run hsound₀ hrun₁
    exact hrun₂.refused_late hat₁ hsound₁ ((hat₁.begun_iff hsound₁).mp hbegun) hactive hended
  case due => exact hpunctual.kept.due
  case closes_value =>
    intro i owed hfilled c hc hcleans
    cases hstands with
    | untouched huntouched =>
        rw [← hat.history] at hfilled
        exact absurd hfilled huntouched.not_filled
    | about habout hcloses =>
        rw [← hat.history] at hfilled
        obtain rfl := habout.eq_of_filled hfilled
        exact hpunctual.close_of_cleans hcloses hc hcleans
  case cleaned_at_most_once =>
    intro i owed hfilled
    rw [← hat.history] at hfilled
    have hmarked := hsound.count_cleaned_le_one hfilled
    rw [hat.history] at hmarked
    exact Nat.le_trans (hpunctual.countP_cleans_le i) hmarked
  case cleaned_once =>
    intro hcallers hclosers hbegun i owed hfilled
    rw [hpunctual.countP_cleans_eq hcallers hclosers]
    rw [hat.begun_iff hsound, ← hat.heap] at hbegun
    rw [← hat.history] at hfilled ⊢
    exact (hsound.count_cleaned hfilled).2 hbegun (hat.not_inCharge_caller hcallers)
      (hat.not_inCharge_closer hclosers)
  case not_cleaned =>
    intro hbegun i owed hfilled
    rw [hat.begun_iff hsound, ← hat.heap, Bool.not_eq_true] at hbegun
    rw [← hat.history] at hfilled
    have hunmarked := (hsound.count_cleaned hfilled).1 hbegun
    rw [hat.history] at hunmarked
    exact Nat.le_zero.mp (hunmarked ▸ hpunctual.countP_cleans_le i)

/-- The threads after one of them has had its turn. -/
def turn (runner : Runner H) (threads : Threads H ι κ) : ι ⊕ κ → Threads H ι κ
  | .inl j => match (threads.callers j).next? runner threads.world with
    | none => threads
    | some (added, party, w) =>
      ⟨threads.enter (.inl j) threads.world added w (threads.callers j), w,
        Function.update threads.callers j party, threads.closers⟩
  | .inr j => match (threads.closers j).next? runner threads.world with
    | none => threads
    | some (added, party, w) =>
      ⟨threads.enter (.inr j) threads.world added w (threads.closers j), w, threads.callers,
        Function.update threads.closers j party⟩

/-- Turns in any order are a run. -/
theorem run_foldl_turn (runner : Runner H) (s : StoreId) (k : Key) (threads : Threads H ι κ)
    (schedule : List (ι ⊕ κ)) : threads.Run @runner s k (schedule.foldl (turn @runner) threads) := by
  induction schedule generalizing threads with
  | nil => exact .refl
  | cons who schedule ih =>
      apply ReflTransGen.trans (b := threads.turn @runner who) _ (ih _)
      cases who with
      | inl j =>
          rw [turn]
          split
          · exact .refl
          · next hnext => exact .single (.caller j (Party.step_of_next? hnext))
      | inr j =>
          rw [turn]
          split
          · exact .refl
          · next hnext => exact .single (.closer j (Party.step_of_next? hnext))

end Threads

/-- A factory that opens something which is closed without failing. -/
def Caller.opening : Caller Host.bare :=
  ⟨.unit, .finish ⟨.unit, .refl Ty.unit⟩, fun _ => .finish (.ok ())⟩

/-- The first of two threads computes a value, which the second one finds. The first one gets it before
the store is closed; the second one comes to its check after that, and cleans the value up. -/
theorem contention_follows_law_twoCallers :
    let runner : Runner Host.bare := fun program => program.exec 1 none
    let key : Key := ⟨⟨["files"]⟩, "log"⟩
    let w : World Host.bare := ((World.initial ()).newStore none).2
    let first : Threads Host.bare Bool Unit := .start (fun _ => .opening) Unit 0 key w
    ∃ last, first.Run @runner 0 key last ∧
      last.callers false = .own (.ended (.returned (.ok ⟨0, .unit⟩))) ∧
      last.callers true = .own (.ended (.returned (.error (.closed key)))) ∧
      last.closers () = .own (.ended (.returned (.ok ()))) ∧
      .filled 0 0 true ∈ last.history ∧ last.calls.countP (CallStart.cleans 0) = 1 ∧
      Threads.RaceLaw @runner (fun _ => .opening) 0 key first last := by
  intro runner key w first
  let turns : List (Bool ⊕ Unit) :=
    [.inl false, .inl false, .inl true, .inl false, .inl false, .inl false, .inl true, .inl false,
      .inr (), .inl true, .inl true, .inr (), .inl true, .inl true, .inr ()]
  have hrun := Threads.run_foldl_turn @runner 0 key first turns
  refine ⟨_, hrun, ?_, ?_, ?_, ?_, ?_, ?_⟩
  · exact Party.eq_of_answer? (by decide +kernel)
  · exact Party.eq_of_answer? (by decide +kernel)
  · exact Party.eq_of_answer? (by decide +kernel)
  · decide +kernel
  · decide +kernel
  · exact Threads.contention_follows_law @runner _ 0 key w _ rfl rfl rfl hrun

end TimedInvocation
