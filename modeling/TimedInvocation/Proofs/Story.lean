import TimedInvocation.Proofs.Conduct

/-!
# Stories

The story of a member of an ensemble is what it has done so far, in order. Its operation tells the story,
whatever others have done in between, and the story of one operation after another is that of the first one,
followed by that of the second one. Everything in a story has been done in a world that the ensemble has
come through.
-/

namespace TimedInvocation

open Relation

variable {H : Host} {ι α β Place : Type} {who : ι}

/-- A member that goes through a routine has done some deeds, and the rest of the routine is left. -/
inductive Routine.Tells (who : ι) : Routine H α → List (Deed H ι) → Routine H α → Prop where
  | here (routine : Routine H α) : Tells who routine [] routine
  | passed {pause : Pause H} {change : World H → World H} {next : World H → Routine H α} {w : World H}
      {deeds : List (Deed H ι)} {rest : Routine H α} (hover : pause.isOver w = true)
      (hlater : Tells who (next w) deeds rest) :
      Tells who (.step pause change next) (.passed who w (change w) :: deeds) rest
  | called {r : Reply} {program : Program H r} {outcome : Outcome (r.Carrier H)}
      {next : Outcome (r.Carrier H) → Routine H α} {deeds : List (Deed H ι)} {rest : Routine H α}
      (hlater : Tells who (next outcome) deeds rest) :
      Tells who (.call program next) (.called who program outcome :: deeds) rest

/-- How a routine has ended, if nothing is left of it. -/
def Routine.ended? : Routine H α → Option (Outcome α)
  | .ended outcome => some outcome
  | .step _ _ _ | .call _ _ => none

/-- What a routine has returned, if nothing is left of it. -/
def Routine.returned? : Routine H α → Option α
  | .ended (.returned a) => some a
  | _ => none

theorem Routine.eq_of_returned? {routine : Routine H α} {a : α} (hreturned : routine.returned? = some a) :
    routine = .ended (.returned a) := by
  unfold returned? at hreturned
  split at hreturned
  · cases hreturned
    rfl
  · cases hreturned

/-- The deed is permitted if it is a section, and user code may be called. -/
def Deed.Within (P : World H → World H → Prop) : Deed H ι → Prop
  | .passed _ before after => P before after
  | .called _ _ _ => True

namespace Routine

variable {routine rest : Routine H α} {deeds later : List (Deed H ι)}

theorem Tells.trans {last : Routine H α} (htells : routine.Tells who deeds rest)
    (hlater : rest.Tells who later last) : routine.Tells who (deeds ++ later) last := by
  induction htells with
  | here => exact hlater
  | passed hover _ ih => exact .passed hover (ih hlater)
  | called _ ih => exact .called (ih hlater)

/-- A member is in the first of two routines, or has returned from it and is in the second one. -/
theorem Tells.bind {next : α → Routine H β} {rest : Routine H β}
    (htells : (routine >>= next).Tells who deeds rest) :
    (rest.returned? = none ∧ ∃ rest', routine.Tells who deeds rest') ∨
      ∃ a first second, routine.Tells who first (.ended (.returned a)) ∧
        (next a).Tells who second rest ∧ deeds = first ++ second := by
  change (routine.andThen next).Tells who deeds rest at htells
  induction routine generalizing deeds with
  | ended outcome =>
      cases outcome with
      | returned a => exact .inr ⟨a, [], deeds, .here _, htells, rfl⟩
      | panicked payload =>
          cases htells with
          | here => exact .inl ⟨rfl, _, .here _⟩
  | step pause change next' ih =>
      cases htells with
      | here => exact .inl ⟨rfl, _, .here _⟩
      | passed hover hlater =>
          rcases ih _ hlater with ⟨hnone, rest', hrest⟩ | ⟨a, first, second, hfirst, hsecond, rfl⟩
          · exact .inl ⟨hnone, rest', .passed hover hrest⟩
          · exact .inr ⟨a, _ :: first, second, .passed hover hfirst, hsecond, rfl⟩
  | call program next' ih =>
      cases htells with
      | here => exact .inl ⟨rfl, _, .here _⟩
      | called hlater =>
          rcases ih _ hlater with ⟨hnone, rest', hrest⟩ | ⟨a, first, second, hfirst, hsecond, rfl⟩
          · exact .inl ⟨hnone, rest', .called hrest⟩
          · exact .inr ⟨a, _ :: first, second, .called hfirst, hsecond, rfl⟩

/-- A routine after a look at the world. -/
theorem Tells.view_bind {f : World H → β} {next : β → Routine H α}
    (htells : (view f >>= next).Tells who deeds rest) :
    (deeds = [] ∧ rest.returned? = none) ∨ ∃ w later, deeds = .passed who w w :: later ∧
      (next (f w)).Tells who later rest := by
  cases htells with
  | here => exact .inl ⟨rfl, rfl⟩
  | passed hover hlater => exact .inr ⟨_, _, rfl, hlater⟩

/-- Whatever is permitted to a routine, the member keeps to. -/
theorem Within.of_tells {P : World H → World H → Prop} (hroutine : routine.Within P)
    (htells : routine.Tells who deeds rest) : ∀ deed ∈ deeds, deed.Within P := by
  induction htells with
  | here => simp
  | passed hover _ ih => exact List.forall_mem_cons.mpr ⟨hroutine.1 _ hover, ih (hroutine.2 _)⟩
  | called _ ih => exact List.forall_mem_cons.mpr ⟨trivial, ih (hroutine _)⟩

end Routine

/-- The deeds of a member lead from place to place. -/
inductive Rule.Path (rule : Rule H Place) (who : ι) : Place → List (Deed H ι) → Place → Prop where
  | here (place : Place) : Path rule who place [] place
  | passed {place place' last : Place} {w w' : World H} {deeds : List (Deed H ι)}
      (hpasses : rule.passes place w w' place') (hlater : Path rule who place' deeds last) :
      Path rule who place (.passed who w w' :: deeds) last
  | called {place place' last : Place} {r : Reply} {program : Program H r}
      {outcome : Outcome (r.Carrier H)} {deeds : List (Deed H ι)}
      (hresumes : rule.resumes place program outcome place') (hlater : Path rule who place' deeds last) :
      Path rule who place (.called who program outcome :: deeds) last

/-- Whoever follows a rule gets to a place from which the rest of the routine follows it. -/
theorem Routine.Follows.path {rule : Rule H Place} {Q : Outcome α → Place → Prop} {place : Place}
    {routine rest : Routine H α} {deeds : List (Deed H ι)} (hfollows : routine.Follows rule Q place)
    (htells : routine.Tells who deeds rest) :
    ∃ place', rule.Path who place deeds place' ∧ rest.Follows rule Q place' := by
  induction htells generalizing place with
  | here => exact ⟨place, .here place, hfollows⟩
  | passed hover _ ih =>
      obtain ⟨place₁, hpasses, hnext⟩ := hfollows _ hover
      obtain ⟨place₂, hpath, hrest⟩ := ih hnext
      exact ⟨place₂, .passed hpasses hpath, hrest⟩
  | called _ ih =>
      obtain ⟨place₁, hresumes, hnext⟩ := hfollows _
      obtain ⟨place₂, hpath, hrest⟩ := ih hnext
      exact ⟨place₂, .called hresumes hpath, hrest⟩

/-- What is left for a member to do. -/
def Progress.rest : Progress H α → Routine H α
  | .own routine => routine
  | .away program next => .call program next

section Ensemble

variable {α : ι → Type} [DecidableEq ι] {others : List (Deed H ι) → World H → World H → Prop}

/-- What a member has done, in order. -/
def Ensemble.story (e : Ensemble H α) (j : ι) : List (Deed H ι) :=
  (e.log.filter fun deed => deed.who = j).reverse

/-- Whoever is mentioned in a story is the one whose story it is. -/
theorem Ensemble.mem_story {e : Ensemble H α} {j : ι} {deed : Deed H ι} :
    deed ∈ e.story j ↔ deed ∈ e.log ∧ deed.who = j := by
  simp [story]

/-- Every member tells its story. -/
theorem Ensemble.tells_of_run {routines : ∀ j, Routine H (α j)} {w : World H} {e : Ensemble H α}
    (hrun : (Ensemble.start routines w).Run others e) (j : ι) :
    (routines j).Tells j (e.story j) (e.members j).rest := by
  induction hrun with
  | refl => exact .here _
  | @tail e₁ e₂ _ hstep ih =>
      have hadds {i : ι} {member : Progress H (α i)} {w : World H} {deed : Deed H ι}
          (hwho : deed.who = i) (htells : (e₁.members i).rest.Tells i [deed] member.rest) :
          (routines j).Tells j (Ensemble.story ⟨w, Function.update e₁.members i member, deed :: e₁.log⟩ j)
            (Function.update e₁.members i member j).rest := by
        by_cases hj : i = j
        · subst hj
          have hstory : Ensemble.story ⟨w, Function.update e₁.members i member, deed :: e₁.log⟩ i =
              e₁.story i ++ [deed] := by
            simp [story, hwho]
          rw [hstory, Function.update_self]
          exact ih.trans htells
        · have hstory : Ensemble.story ⟨w, Function.update e₁.members i member, deed :: e₁.log⟩ j =
              e₁.story j := by
            simp [story, hwho, hj]
          rw [hstory, Function.update_of_ne (Ne.symm hj)]
          exact ih
      cases hstep with
      | own i hat hover =>
          refine hadds rfl ?_
          rw [hat]
          exact .passed hover (.here _)
      | back i outcome hat =>
          refine hadds rfl ?_
          rw [hat]
          exact .called (.here _)
      | others hothers => exact ih
      | @leave i r program next hat =>
          by_cases hj : j = i
          · subst hj
            rw [hat] at ih
            simp only [Function.update_self]
            exact ih
          · simp only [Function.update_of_ne hj]
            exact ih

/-- The deeds of a story are in the log, the later ones on top of the earlier ones. -/
theorem Ensemble.log_of_story {e : Ensemble H α} {j : ι} {first second : List (Deed H ι)}
    {deed : Deed H ι} (hstory : e.story j = first ++ deed :: second) :
    ∃ later earlier, e.log = later ++ deed :: earlier ∧ ∀ deed' ∈ first, deed' ∈ earlier := by
  have hlog : e.log.filter (fun deed => deed.who = j) = second.reverse ++ deed :: first.reverse := by
    have hreversed := List.reverse_eq_iff.mp hstory
    simpa using hreversed
  obtain ⟨upper, lower, hsplit, -, hlower⟩ := List.filter_eq_append_iff.mp hlog
  obtain ⟨between, earlier, rfl, -, -, hfirst⟩ := List.filter_eq_cons_iff.mp hlower
  refine ⟨upper ++ between, earlier, by simp [hsplit], fun deed' hdeed' => ?_⟩
  have hmem : deed' ∈ earlier.filter fun deed => deed.who = j := by
    rw [hfirst]
    exact List.mem_reverse.mpr hdeed'
  exact (List.mem_filter.mp hmem).1

end Ensemble

section Scene

variable {Place : ι → Type} {rules : ∀ j, Rule H (Place j)} [DecidableEq ι]
  {others : List (Deed H ι) → World H → World H → Prop} {scene scene' : Scene H Place}

/-- A section leads from the world where it begins to the one where it ends. -/
def Deed.Leads (deed : Deed H ι) (w w' : World H) : Prop :=
  ∀ j before after, deed = .passed j before after → w = before ∧ w' = after

/-- A step adds what has been done to the log, if it is not one of others. -/
theorem Scene.Step.log (hstep : scene.Step rules others scene') :
    scene'.log = scene.log ∨
      ∃ deed, scene'.log = deed :: scene.log ∧ deed.Leads scene.world scene'.world := by
  cases hstep with
  | others => exact .inl rfl
  | passed j hpasses =>
      refine .inr ⟨_, rfl, fun j before after hdeed => ?_⟩
      cases hdeed
      exact ⟨rfl, rfl⟩
  | called j hresumes =>
      refine .inr ⟨_, rfl, fun j before after hdeed => ?_⟩
      cases hdeed

/-- Whatever is in the log has been done in a step on the way. -/
theorem Scene.step_of_log {later earlier : List (Deed H ι)} {deed : Deed H ι} (hstart : scene.log = [])
    (hsteps : ReflTransGen (Step rules others) scene scene') (hlog : scene'.log = later ++ deed :: earlier) :
    ∃ before after, ReflTransGen (Step rules others) scene before ∧ before.Step rules others after ∧
      ReflTransGen (Step rules others) after scene' ∧ before.log = earlier ∧
      deed.Leads before.world after.world := by
  induction hsteps generalizing later with
  | refl =>
      rw [hstart] at hlog
      simp at hlog
  | @tail scene₁ scene₂ hbefore hstep ih =>
      have hearlier {later : List (Deed H ι)} (hlog : scene₁.log = later ++ deed :: earlier) :
          ∃ before after, ReflTransGen (Step rules others) scene before ∧
            before.Step rules others after ∧ ReflTransGen (Step rules others) after scene₂ ∧
            before.log = earlier ∧ deed.Leads before.world after.world := by
        obtain ⟨before, after, hto, hpass, hfrom, hlogged⟩ := ih hlog
        exact ⟨before, after, hto, hpass, hfrom.tail hstep, hlogged⟩
      rcases hstep.log with hsame | ⟨deed', hadded, hleads⟩
      · exact hearlier (hsame.symm.trans hlog)
      · rw [hadded] at hlog
        cases later with
        | nil =>
            obtain ⟨rfl, rfl⟩ := List.cons.inj hlog
            exact ⟨scene₁, scene₂, hbefore, hstep, .refl, rfl, hleads⟩
        | cons deed₁ later => exact hearlier (List.cons.inj hlog).2

end Scene

end TimedInvocation
