import TimedInvocation.Proofs.Course

/-!
# Tokens and their owners

Whoever runs a body makes a token for it, and does nothing to the tokens of others. So of any number of
invocations under way, none cancels the token of another one or sets an alarm for it.
-/

namespace TimedInvocation

open Relation World

variable {H : Host} {ι α : Type} {w w' : World H} {token : TokenId}

/-- A section neither cancels a token nor sets an alarm for it. -/
structure World.Spares (t : TokenId) (w w' : World H) : Prop where
  cancelled : w'.isCancelled t = w.isCancelled t
  alarms : ∀ alarm ∈ w'.alarms, alarm.token = t → alarm ∈ w.alarms

theorem World.Spares.of_eq {t : TokenId} (htokens : w'.tokens = w.tokens)
    (halarms : w'.alarms = w.alarms) : w.Spares t w' where
  cancelled := by rw [isCancelled, htokens, isCancelled]
  alarms alarm halarm _ := halarms ▸ halarm

theorem World.Calm.spares (hcalm : w.Calm w') (t : TokenId) : w.Spares t w' :=
  .of_eq hcalm.tokens hcalm.alarms

/-- A new token is not cancelled. -/
theorem World.spares_newToken (w : World H) (t : TokenId) : w.Spares t w.newToken.2 where
  cancelled := by
    simp only [isCancelled, newToken]
    rcases Nat.lt_trichotomy t w.tokens.length with hold | rfl | hbeyond
    · rw [List.getElem?_append_left hold]
    · simp
    · rw [List.getElem?_append_right (Nat.le_of_lt hbeyond), List.getElem?_eq_none (Nat.le_of_lt hbeyond),
        List.getElem?_eq_none (by simp; omega)]
  alarms _ halarm _ := halarm

/-- A section makes no token, and spares all tokens but one. -/
structure World.Minds (token : TokenId) (w w' : World H) : Prop where
  tokens : w'.tokens.length = w.tokens.length
  others : ∀ t ≠ token, w.Spares t w'

theorem World.Minds.of_eq (htokens : w'.tokens = w.tokens) (halarms : w'.alarms = w.alarms) :
    w.Minds token w' :=
  ⟨congrArg List.length htokens, fun _ _ => .of_eq htokens halarms⟩

/-- All that is done to run a body is done to its token only. -/
theorem minds (token : TokenId) : Enforceable token (Minds token : World H → World H → Prop) where
  unchanged _ := .of_eq rfl rfl
  logged _ _ := .of_eq rfl rfl
  recorded _ := .of_eq rfl rfl
  cancelled w := by
    refine ⟨List.length_set, fun t ht => ⟨?_, fun _ halarm _ => halarm⟩⟩
    simp only [isCancelled, cancel, List.getElem?_set_ne (Ne.symm ht)]
  alarmSet w time := by
    refine ⟨rfl, fun t ht => ⟨rfl, fun alarm halarm hthis => ?_⟩⟩
    rcases List.mem_append.mp halarm with hold | hnew
    · exact hold
    · rw [List.mem_singleton.mp hnew] at hthis
      exact absurd hthis.symm ht
  alarmsCleared _ := ⟨rfl, fun _ _ => ⟨rfl, fun _ halarm _ => (List.mem_filter.mp halarm).1⟩⟩
  workerCounted _ _ := .of_eq rfl rfl
  spawned _ := .of_eq rfl rfl
  workerStarted _ _ _ := .of_eq rfl rfl

/-- Somebody has made a token, or none yet, and spares all tokens but its own. -/
inductive Owns : Option TokenId → World H → World H → Option TokenId → Prop where
  | keeps {own? : Option TokenId} {w w' : World H} (htokens : w'.tokens.length = w.tokens.length)
      (hspares : ∀ t, own? ≠ some t → w.Spares t w') : Owns own? w w' own?
  | makes {w : World H} : Owns none w w.newToken.2 (some w.newToken.1)

/-- How somebody gets a token of its own. -/
def owning : Rule H (Option TokenId) where
  passes := Owns
  resumes own? _ _ _ own?' := own?' = own?

theorem passes_calm (own? : Option TokenId) (w w' : World H) (hcalm : w.Calm w') :
    owning.passes own? w w' own? :=
  .keeps (congrArg List.length hcalm.tokens) fun t _ => hcalm.spares t

namespace Routine

theorem follows_owning_of_calm {routine : Routine H α} {own? : Option TokenId}
    (hcalm : routine.Within Calm) : routine.Follows owning (fun _ own?' => own?' = own?) own? :=
  hcalm.follows (passes_calm own?) (fun _ _ => rfl) fun _ => rfl

theorem follows_owning_runBody (e : EnforcerId) (q : InvocationRequest)
    (body : Arguments → TokenId → Program H .result) :
    (runBody e q body).Follows owning (fun _ _ => True) none := by
  apply (follows_owning_of_calm ((Within.announcing calm).resolveArguments _ _ _ _)).bind
  · rintro arguments own? rfl
    cases arguments with
    | error error => trivial
    | ok arguments =>
        apply (follows_owning_of_calm (calm_configurationOf _)).bind
        · rintro answer own? rfl
          cases answer with
          | error error => trivial
          | ok c =>
              apply (follows_owning_of_calm (calm_timeoutOf c q.kind q.declared)).bind
              · rintro timeout own? rfl
                refine follows_runWithTimeout some minds ?_ ?_ ?_ ?_ e q.kind timeout _
                · exact fun w => .makes
                · exact fun token w w' hminds =>
                    .keeps hminds.tokens fun t ht => hminds.others t fun hsame => ht (congrArg some hsame.symm)
                · exact fun _ _ _ _ => rfl
                · exact fun w event => passes_calm none _ _ (calm.logged w event)
              · exact fun _ _ _ => trivial
        · exact fun _ _ _ => trivial
  · exact fun _ _ _ => trivial

theorem follows_owning_invoke (e : EnforcerId) (q : InvocationRequest)
    (body : Arguments → TokenId → Program H .result) :
    (invoke e q body).Follows owning (fun _ _ => True) none :=
  follows_invoke calm passes_calm (fun _ _ _ _ => rfl) (follows_owning_runBody e q body)

end Routine

/-- Every token has one owner at most, and everybody else spares it. -/
structure Owned (scene : Scene H fun _ : ι => Option TokenId) : Prop where
  made : ∀ j t, scene.places j = some t → t < scene.world.tokens.length
  apart : ∀ j j' t, scene.places j = some t → scene.places j' = some t → j = j'
  spares : ∀ j before after, .passed j before after ∈ scene.log → ∀ t, scene.places j ≠ some t →
    before.Spares t after
  owner : ∀ j before, .passed j before before.newToken.2 ∈ scene.log →
    scene.places j = some before.newToken.1

section Owned

variable {scene scene' : Scene H fun _ : ι => Option TokenId}
  {others : List (Deed H ι) → World H → World H → Prop}

theorem Owned.keeps (howned : Owned scene) {j : ι} {w : World H}
    (htokens : w.tokens.length = scene.world.tokens.length)
    (hspares : ∀ t, scene.places j ≠ some t → scene.world.Spares t w) :
    Owned ⟨w, scene.places, .passed j scene.world w :: scene.log⟩ where
  made j t ht := Nat.lt_of_lt_of_eq (howned.made j t ht) htokens.symm
  apart := howned.apart
  spares j' before after hdeed t ht := by
    rcases List.mem_cons.mp hdeed with hnew | hold
    · cases hnew
      exact hspares t ht
    · exact howned.spares j' before after hold t ht
  owner j' before hdeed := by
    rcases List.mem_cons.mp hdeed with hnew | hold
    · injection hnew with hj hbefore hafter
      have hmore : before.newToken.2.tokens.length = before.tokens.length + 1 := by simp [newToken]
      rw [hafter, hbefore, htokens] at hmore
      omega
    · exact howned.owner j' before hold

variable [DecidableEq ι]

theorem Owned.makes (howned : Owned scene) {j : ι} (hnone : scene.places j = none) :
    Owned ⟨scene.world.newToken.2, Function.update scene.places j (some scene.world.newToken.1),
      .passed j scene.world scene.world.newToken.2 :: scene.log⟩ := by
  have hlength : scene.world.newToken.2.tokens.length = scene.world.tokens.length + 1 := by
    simp [newToken]
  -- The new token is none of those that have been made before.
  have hplaces {j' : ι} {t : TokenId}
      (ht : Function.update scene.places j (some scene.world.newToken.1) j' = some t) :
      (j' = j ∧ t = scene.world.tokens.length) ∨ j' ≠ j ∧ scene.places j' = some t := by
    by_cases hj : j' = j
    · subst hj
      rw [Function.update_self] at ht
      exact .inl ⟨rfl, (Option.some.inj ht).symm⟩
    · rw [Function.update_of_ne hj] at ht
      exact .inr ⟨hj, ht⟩
  constructor
  case made =>
    intro j' t ht
    change t < scene.world.newToken.2.tokens.length
    rw [hlength]
    rcases hplaces ht with ⟨-, rfl⟩ | ⟨-, hold⟩
    · exact Nat.lt_succ_self _
    · exact Nat.lt_succ_of_lt (howned.made j' t hold)
  case apart =>
    intro j₁ j₂ t ht₁ ht₂
    rcases hplaces ht₁ with ⟨rfl, rfl⟩ | ⟨-, hold₁⟩ <;> rcases hplaces ht₂ with ⟨rfl, hsame⟩ | ⟨-, hold₂⟩
    · rfl
    · exact absurd (howned.made j₂ _ hold₂) (Nat.lt_irrefl _)
    · exact absurd (hsame ▸ howned.made j₁ t hold₁) (Nat.lt_irrefl _)
    · exact howned.apart j₁ j₂ t hold₁ hold₂
  case spares =>
    intro j' before after hdeed t ht
    rcases List.mem_cons.mp hdeed with hnew | hold
    · cases hnew
      exact spares_newToken _ t
    · refine howned.spares j' before after hold t fun hplace => ?_
      by_cases hj : j' = j
      · rw [hj, hnone] at hplace
        cases hplace
      · exact ht ((Function.update_of_ne hj _ _).trans hplace)
  case owner =>
    intro j' before hdeed
    rcases List.mem_cons.mp hdeed with hnew | hold
    · injection hnew with hj hbefore hafter
      subst hj hbefore
      exact Function.update_self _ _ _
    · have hplace := howned.owner j' before hold
      by_cases hj : j' = j
      · rw [hj, hnone] at hplace
        cases hplace
      · exact (Function.update_of_ne hj _ _).trans hplace

theorem Owned.step (howned : Owned scene) (hothers : ∀ log w w', others log w w' → Move w w')
    (hstep : scene.Step (fun _ => owning) others scene') : Owned scene' := by
  cases hstep with
  | @passed j w own? hpasses =>
      have howns : Owns (scene.places j) scene.world w own? := hpasses
      generalize hplace : scene.places j = before at howns
      cases howns with
      | keeps htokens hspares =>
          subst hplace
          rw [Function.update_eq_self]
          exact howned.keeps htokens hspares
      | makes => exact howned.makes hplace
  | called j hresumes =>
      obtain rfl : _ = scene.places j := hresumes
      rw [Function.update_eq_self]
      refine ⟨howned.made, howned.apart, fun j before after hdeed => ?_, fun j before hdeed => ?_⟩
      · exact howned.spares j before after (List.mem_of_ne_of_mem (by simp) hdeed)
      · exact howned.owner j before (List.mem_of_ne_of_mem (by simp) hdeed)
  | others hother =>
      refine ⟨fun j t ht => ?_, howned.apart, howned.spares, howned.owner⟩
      exact Nat.lt_of_lt_of_le (howned.made j t ht) (hothers _ _ _ hother).tokens_le

/-- However those who get a token of their own take turns, every token has one owner at most. -/
theorem Owned.of_run {α : ι → Type} {routines : ∀ j, Routine H (α j)} {e : Ensemble H α}
    (hroutines : ∀ j, (routines j).Follows owning (fun _ _ => True) none)
    (hothers : ∀ log w w', others log w w' → Move w w')
    (hrun : (Ensemble.start routines w).Run others e) :
    ∃ scene : Scene H fun _ : ι => Option TokenId, Owned scene ∧ scene.log = e.log := by
  have hstart : (Ensemble.start routines w).At (fun _ => owning) (fun _ _ _ => True)
      ⟨w, fun _ => none, []⟩ := .start hroutines w
  obtain ⟨scene, hat, hsteps⟩ := hstart.run hrun
  refine ⟨scene, ?_, hat.log⟩
  have hbegin : Owned ⟨w, fun _ : ι => none, []⟩ := by
    constructor <;> simp
  clear hat
  induction hsteps with
  | refl => exact hbegin
  | tail _ hstep ih => exact ih.step hothers hstep

end Owned

end TimedInvocation
