import TimedInvocation.Proofs.Store.Refusal
import TimedInvocation.Proofs.Tree.Errands

/-!
# How far the configuration of a tree is

Any number of errands on a scope tree are under way, and user code in them and around them does what it
likes, as long as it leaves alone the entry for the configuration in the store of the root. In every phase,
the entry, its slot and the places of those on an errand fit together, and every section leads to the same
phase or to the next. How many readings that takes follows from the phases alone.
-/

namespace TimedInvocation

open World

variable {H : Host} {ι : Type}

/-- How far the configuration of a tree is: nobody has asked for it; the entry for it has been made; somebody
has marked its slot and makes the configuration, or has made it; or it is kept in the slot. -/
inductive Phase (ι : Type) where
  | unasked
  | asked (i : SlotId)
  | making (i : SlotId) (maker : ι)
  | made (i : SlotId) (maker : ι) (c : ConfigurationId)
  | kept (i : SlotId) (c : ConfigurationId)

namespace Phase

def slot? : Phase ι → Option SlotId
  | unasked => none
  | asked i | making i _ | made i _ _ | kept i _ => some i

def maker? : Phase ι → Option ι
  | making _ maker | made _ maker _ => some maker
  | unasked | asked _ | kept _ _ => none

def configuration? : Phase ι → Option ConfigurationId
  | made _ _ c | kept _ c => some c
  | unasked | asked _ | making _ _ => none

/-- Somebody may be at a place. -/
def Admits (phase : Phase ι) (j : ι) : Tree.Place → Prop
  | .outside | .refused => phase.maker? ≠ some j
  | .given i => phase.maker? ≠ some j ∧ phase.slot? = some i
  | .making i => phase = .making i j
  | .made i c => phase = .made i j c
  | .settled i v => ∃ c, phase = .kept i c ∧ v.datum = .configuration c
  | .late i => ∃ c, phase = .kept i c
  | .holding c => ∃ i, phase = .kept i c
  | .astray => False

/-- What is in the slot. No cleanup action is owed for a configuration. -/
def Fills {C : Type} (h : Heap C) : Phase ι → Prop
  | unasked => True
  | asked i => h.slot i = .vacant
  | making i _ | made i _ _ => h.slot i = .computing
  | kept i c => ∃ v, h.slot i = .holding ⟨v, none⟩ ∧ v.datum = .configuration c

/-- A slot that is vacant has not been marked yet. -/
theorem Fills.eq_asked {C : Type} {h : Heap C} {phase : Phase ι} {i : SlotId} (hfills : phase.Fills h)
    (hi : phase.slot? = some i) (hslot : h.slot i = .vacant) : phase = .asked i := by
  cases phase with
  | unasked => cases hi
  | asked i' =>
      cases hi
      rfl
  | making i' maker | made i' maker c =>
      cases hi
      rw [Fills, hslot] at hfills
      cases hfills
  | kept i' c =>
      cases hi
      obtain ⟨v, hholding, -⟩ := hfills
      rw [hslot] at hholding
      cases hholding

/-- The value of the slot is the configuration that is kept. -/
theorem Fills.of_value {C : Type} {h : Heap C} {phase : Phase ι} {i : SlotId} {v : Value}
    (hfills : phase.Fills h) (hi : phase.slot? = some i) (hvalue : (h.slot i).value? = some v) :
    ∃ c, phase = .kept i c ∧ v.datum = .configuration c := by
  cases phase with
  | unasked => cases hi
  | asked i' | making i' maker | made i' maker c =>
      cases hi
      rw [hfills] at hvalue
      cases hvalue
  | kept i' c =>
      cases hi
      obtain ⟨v', hholding, hv'⟩ := hfills
      rw [hholding] at hvalue
      cases hvalue
      exact ⟨c, rfl, hv'⟩

/-- Nobody is ever to clean up the slot. -/
theorem Fills.cleanup?_eq_none {C : Type} {h : Heap C} {phase : Phase ι} {i : SlotId}
    (hfills : phase.Fills h) (hi : phase.slot? = some i) : h.cleanup? i = none := by
  cases phase with
  | unasked => cases hi
  | asked i' | making i' maker | made i' maker c =>
      cases hi
      rw [Fills] at hfills
      rw [Heap.cleanup?, hfills]
  | kept i' c =>
      cases hi
      obtain ⟨v, hholding, -⟩ := hfills
      rw [Heap.cleanup?, hholding]

/-- What is in the slot depends on the slot only. -/
theorem Fills.congr {C : Type} {h h' : Heap C} {phase : Phase ι} (hfills : phase.Fills h)
    (hslot : ∀ i, phase.slot? = some i → h'.slot i = h.slot i) : phase.Fills h' := by
  cases phase with
  | unasked => trivial
  | asked i | making i maker | made i maker c | kept i c =>
      simp only [Fills, hslot i rfl]
      exact hfills

end Phase

namespace Tree

variable (T : Tree H)

/-- The slot of the entry for the configuration. -/
def entrySlot? (w : World H) : Option SlotId :=
  (w.heap.store T.store).slot? configurationKey

/-- Somebody on an errand found or left the entry with a slot. -/
def Shows (i : SlotId) : Deed H ι → Prop
  | .passed _ before after => T.entrySlot? before = some i ∨ T.entrySlot? after = some i
  | .called _ _ _ => False

/-- Whatever does not write or remove the entry for the configuration in the store of the root, unless it
closes this store, nor touch a slot that the entry was found with. -/
structure Sparing (log : List (Deed H ι)) (w w' : World H) : Prop where
  move : Move w w'
  entry : w'.heap.isClosed T.store = true ∨ T.entrySlot? w' = T.entrySlot? w
  slots : ∀ deed ∈ log, ∀ i, T.Shows i deed → w'.heap.slot i = w.heap.slot i

/-- To begin to close a store, be it that of the root, is nothing that concerns the configuration. -/
theorem sparing_beginClose (log : List (Deed H ι)) (w : World H) (s : StoreId) :
    T.Sparing log w (w.beginClose s).2 := by
  have hmove := Move.closeBegun w s
  cases hbegun : w.heap.beginClose s with
  | none =>
      simp only [beginClose, hbegun] at hmove ⊢
      exact ⟨hmove, .inr rfl, fun _ _ _ _ => rfl⟩
  | some begun =>
      obtain ⟨entries, h'⟩ := begun
      obtain ⟨-, -, hslots⟩ := Heap.of_beginClose hbegun
      simp only [beginClose, hbegun] at hmove ⊢
      refine ⟨hmove, ?_, fun _ _ i _ => ?_⟩
      · by_cases hs : T.store = s
        · exact .inl (hs ▸ Heap.isClosed_beginClose hbegun)
        · exact .inr (by simp only [entrySlot?, Heap.store_beginClose hbegun, if_neg hs])
      · simp only [hslots]
        rfl

/-- No configuration is made, and nothing is read for one. -/
structure Idle (meter : Meter H T.source) (w w' : World H) : Prop where
  configurations : w'.configurations = w.configurations
  count : ∀ p, meter.count w'.state p = meter.count w.state p

theorem Aside.idle {T : Tree H} {meter : Meter H T.source} {w w' : World H}
    (haside : T.Aside meter w w') : T.Idle meter w w' :=
  ⟨haside.configurations, haside.count⟩

/-- How a section of somebody takes the configuration where it is or further. -/
inductive Advances (meter : Meter H T.source) (who : ι) (w w' : World H) : Phase ι → Phase ι → Prop where
  | idle {phase : Phase ι} (hidle : T.Idle meter w w') : Advances meter who w w' phase phase
  | consulted {phase : Phase ι} {c : ConfigurationId} (hconsults : Consults c w w')
      (hc : phase.configuration? = some c ∨ T.Configures w c) : Advances meter who w w' phase phase
  | asked (hidle : T.Idle meter w w') (hentry : T.entrySlot? w' = some w.heap.slots.length) :
      Advances meter who w w' .unasked (.asked w.heap.slots.length)
  | marked {i : SlotId} (hidle : T.Idle meter w w') :
      Advances meter who w w' (.asked i) (.making i who)
  | made {i : SlotId} (hmade : w' = (w.newConfiguration T.source H.debugger).2) :
      Advances meter who w w' (.making i who) (.made i who w.configurations.length)
  | filled {i : SlotId} {c : ConfigurationId} (hidle : T.Idle meter w w') :
      Advances meter who w w' (.made i who c) (.kept i c)

namespace Advances

variable {T : Tree H} {meter : Meter H T.source} {who : ι} {w w' : World H} {phase phase' : Phase ι}
  (hadvances : T.Advances meter who w w' phase phase')

include hadvances

/-- The slot of the entry remains the one that everybody gets. -/
theorem slot?_eq_some {i : SlotId} (hi : phase.slot? = some i) : phase'.slot? = some i := by
  cases hadvances with
  | idle | consulted | marked | made | filled => exact hi
  | asked => cases hi

/-- A configuration that is kept remains the one. -/
theorem eq_kept {i : SlotId} {c : ConfigurationId} (hkept : phase = .kept i c) :
    phase' = .kept i c := by
  cases hadvances with
  | idle | consulted => exact hkept
  | asked | marked | made | filled => cases hkept

/-- If there was no slot before, it is that of the entry. -/
theorem slot?_or_entrySlot? {i : SlotId} (hi : phase'.slot? = some i) :
    phase.slot? = some i ∨ T.entrySlot? w' = some i := by
  cases hadvances with
  | idle | consulted | marked | made | filled => exact .inl hi
  | asked hidle hentry => exact .inr (hentry.trans hi)

/-- Somebody else may stay where it is. -/
theorem admits {j : ι} {place : Place} (hj : j ≠ who) (hplace : phase.Admits j place) :
    phase'.Admits j place := by
  cases hadvances with
  | idle | consulted => exact hplace
  | asked | marked | made | filled =>
      cases place <;> simp_all [Phase.Admits, Phase.slot?, Phase.maker?, eq_comm]

end Advances

/-- What holds all the time, since a world in which nobody had asked for the configuration. -/
structure Standing (phase : Phase ι) (scene : Scene H fun _ : ι => Place) : Prop where
  wellFormed : scene.world.heap.WellFormed
  planted : T.Planted scene.world
  onTop : scene.world.heap.lineage[T.store]? = some []
  unbegun : ∀ j, (∀ deed ∈ scene.log, deed.who ≠ j) → scene.places j = .outside
  places : ∀ j, phase.Admits j (scene.places j)
  entry : scene.world.heap.isClosed T.store = true ∨ T.entrySlot? scene.world = phase.slot?
  shown : ∀ i, phase.slot? = some i ↔ ∃ deed ∈ scene.log, T.Shows i deed
  placed : ∀ i, phase.slot? = some i → i < scene.world.heap.slots.length
  fills : phase.Fills scene.world.heap

section Standing

variable {T} {meter : Meter H T.source} {phase phase' : Phase ι} {scene : Scene H fun _ : ι => Place}

/-- In the beginning nobody has asked for the configuration. -/
theorem Standing.start {w : World H} (hreachable : w.Reachable) (hplanted : T.Planted w)
    (hunasked : T.entrySlot? w = none) : T.Standing .unasked ⟨w, fun _ : ι => .outside, []⟩ := by
  constructor
  case wellFormed => exact hreachable.wellFormed
  case planted => exact hplanted
  case onTop => exact hreachable.rootsOnTop T.top (List.mem_of_getElem? hplanted) T.isRoot
  case unbegun => exact fun _ _ => rfl
  case places => simp [Phase.Admits, Phase.maker?]
  case entry => exact .inr hunasked
  case shown => simp [Phase.slot?]
  case placed => simp [Phase.slot?]
  case fills => trivial

/-- A closed store has no entry. -/
theorem entrySlot?_of_closed {w : World H} (hwf : w.heap.WellFormed)
    (hclosed : w.heap.isClosed T.store = true) : T.entrySlot? w = none := by
  rw [entrySlot?, Store.slot?, hwf.emptied _ hclosed]
  rfl

/-- The slot of the entry is the one that everybody gets. -/
theorem Standing.slot_of_entry (hstanding : T.Standing phase scene) {i : SlotId}
    (hentry : T.entrySlot? scene.world = some i) : phase.slot? = some i := by
  rcases hstanding.entry with hclosed | hslot
  · rw [entrySlot?_of_closed hstanding.wellFormed hclosed] at hentry
    cases hentry
  · exact hslot.symm.trans hentry

theorem planted_of_move {w w' : World H} (hmove : Move w w') (hplanted : T.Planted w) : T.Planted w' :=
  scope?_eq_of_grows hmove.grows hplanted

theorem onTop_of_move {w w' : World H} (hmove : Move w w') (htop : w.heap.lineage[T.store]? = some []) :
    w'.heap.lineage[T.store]? = some [] := by
  obtain ⟨more, hmore⟩ := hmove.lineage
  rw [← hmore, List.getElem?_append_left (List.getElem?_eq_some_iff.mp htop).1, htop]

theorem closed_of_move {w w' : World H} (hmove : Move w w') (htop : w.heap.lineage[T.store]? = some [])
    (hclosed : w.heap.isClosed T.store = true) : w'.heap.isClosed T.store = true := by
  have hmade : T.store < w.heap.lineage.length := (List.getElem?_eq_some_iff.mp htop).1
  rw [Heap.lineage, List.length_map] at hmade
  exact hmove.extends.closed _ hmade hclosed

theorem Standing.others (hstanding : T.Standing phase scene) {w : World H}
    (hothers : T.Sparing scene.log scene.world w) :
    T.Standing phase ⟨w, scene.places, scene.log⟩ where
  wellFormed := hothers.move.wellFormed hstanding.wellFormed
  planted := planted_of_move hothers.move hstanding.planted
  onTop := onTop_of_move hothers.move hstanding.onTop
  unbegun := hstanding.unbegun
  places := hstanding.places
  entry := by
    rcases hothers.entry with hclosed | hsame
    · exact .inl hclosed
    · rcases hstanding.entry with hclosed | hentry
      · exact .inl (closed_of_move hothers.move hstanding.onTop hclosed)
      · exact .inr (hsame.trans hentry)
  shown := hstanding.shown
  placed i hi := Nat.lt_of_lt_of_le (hstanding.placed i hi) hothers.move.extends.slots
  fills := hstanding.fills.congr fun i hi => by
    obtain ⟨deed, hdeed, hshows⟩ := (hstanding.shown i).mp hi
    exact hothers.slots deed hdeed i hshows

/-- All goes well for whoever has the value of the slot, or is about to leave it. -/
theorem Standing.not_odd (hstanding : T.Standing phase scene) {s : ScopeId}
    (hhas : T.Has scene.world s) {place : Place}
    (hsettled : ∀ i v, place = .settled i v → ∃ c, v.datum = .configuration c)
    (hlate : ∀ i, place = .late i → phase.slot? = some i) (hcourse : place ≠ .astray) :
    ¬ T.Odd s scene.world place := by
  intro hodd
  cases place with
  | outside =>
      rcases hodd with hunfit | hinherited
      · exact hunfit ⟨hstanding.planted, hhas⟩
      · rw [Heap.inherited?, Heap.ancestors_of_lineage hstanding.onTop] at hinherited
        exact hinherited rfl
  | settled i v =>
      obtain ⟨c, hv⟩ := hsettled i v rfl
      exact hodd c hv
  | late i => exact hodd (hstanding.fills.cleanup?_eq_none (hlate i rfl))
  | astray => exact hcourse rfl
  | given | making | made | refused | holding => exact hodd

/-- All goes well wherever somebody is. -/
theorem Standing.not_odd_places (hstanding : T.Standing phase scene) {s : ScopeId}
    (hhas : T.Has scene.world s) (j : ι) : ¬ T.Odd s scene.world (scene.places j) := by
  have hplace := hstanding.places j
  refine hstanding.not_odd hhas ?_ ?_ ?_
  · intro i v hsettled
    rw [hsettled] at hplace
    obtain ⟨c, -, hv⟩ := hplace
    exact ⟨c, hv⟩
  · intro i hlate
    rw [hlate] at hplace
    obtain ⟨c, hkept⟩ := hplace
    rw [hkept]
    rfl
  · intro hastray
    rw [hastray] at hplace
    exact hplace

/-- Only an invocation calls user code, and stays where it is. -/
theorem Standing.of_resumes (hstanding : T.Standing phase scene) {j : ι} {errand : Errand H}
    {r : Reply} {program : Program H r} {outcome : Outcome (r.Carrier H)} {place : Place}
    (hresumes : (T.rule meter errand).resumes (scene.places j) program outcome place) :
    place = scene.places j ∧ ∀ s, errand ≠ .configuration s := by
  cases errand with
  | configuration s =>
      have hplace := hstanding.places j
      rw [hresumes.1] at hplace
      exact hplace.elim
  | invocation e q body => exact ⟨hresumes, by simp⟩
  | consultation c inquiry => exact hresumes.elim

variable [DecidableEq ι]

/-- A section that takes the configuration where it is or further. -/
theorem Standing.pass (hstanding : T.Standing phase scene) {j : ι} {w : World H} {place : Place}
    (hmove : Move scene.world w) (hadvances : T.Advances meter j scene.world w phase phase')
    (hentry : w.heap.isClosed T.store = true ∨ T.entrySlot? w = phase'.slot?)
    (hplace : phase'.Admits j place) (hfills : phase'.Fills w.heap) :
    T.Standing phase'
      ⟨w, Function.update scene.places j place, .passed j scene.world w :: scene.log⟩ := by
  have hwf := hmove.wellFormed hstanding.wellFormed
  constructor
  case wellFormed => exact hwf
  case planted => exact planted_of_move hmove hstanding.planted
  case onTop => exact onTop_of_move hmove hstanding.onTop
  case unbegun =>
    intro j' hunbegun
    obtain ⟨hj, hbefore⟩ := List.forall_mem_cons.mp hunbegun
    exact (Function.update_of_ne (Ne.symm hj) _ _).trans (hstanding.unbegun j' hbefore)
  case places =>
    intro j'
    by_cases hj : j' = j
    · subst hj
      simp only [Function.update_self]
      exact hplace
    · simp only [Function.update_of_ne hj]
      exact hadvances.admits hj (hstanding.places j')
  case entry => exact hentry
  case shown =>
    intro i
    constructor
    · intro hi
      rcases hadvances.slot?_or_entrySlot? hi with hold | hafter
      · obtain ⟨deed, hdeed, hshows⟩ := (hstanding.shown i).mp hold
        exact ⟨deed, List.mem_cons_of_mem _ hdeed, hshows⟩
      · exact ⟨_, List.mem_cons_self, .inr hafter⟩
    · rintro ⟨deed, hdeed, hshows⟩
      rcases List.mem_cons.mp hdeed with rfl | hold
      · rcases hshows with hbefore | hafter
        · exact hadvances.slot?_eq_some (hstanding.slot_of_entry hbefore)
        · rcases hentry with hclosed | hslot
          · rw [entrySlot?_of_closed hwf hclosed] at hafter
            cases hafter
          · exact hslot.symm.trans hafter
      · exact hadvances.slot?_eq_some ((hstanding.shown i).mpr ⟨deed, hold, hshows⟩)
  case placed =>
    intro i hi
    rcases hadvances.slot?_or_entrySlot? hi with hold | hafter
    · exact Nat.lt_of_lt_of_le (hstanding.placed i hold) hmove.extends.slots
    · exact hwf.placed _ _ i (Store.mem_of_slot? hafter)
  case fills => exact hfills

/-- The heap does not change. -/
theorem Standing.stay (hstanding : T.Standing phase scene) {j : ι} {w : World H} {place : Place}
    (hmove : Move scene.world w) (hadvances : T.Advances meter j scene.world w phase phase)
    (hheap : w.heap = scene.world.heap) (hplace : phase.Admits j place) :
    T.Standing phase
      ⟨w, Function.update scene.places j place, .passed j scene.world w :: scene.log⟩ := by
  refine hstanding.pass hmove hadvances ?_ hplace ?_
  · rw [entrySlot?, hheap]
    exact hstanding.entry
  · rw [hheap]
    exact hstanding.fills

variable (meter) in
/-- Somebody gets the slot of the entry, which is made if there is none. -/
theorem Standing.given (hstanding : T.Standing phase scene) {j : ι} {i : SlotId}
    {h' : Heap (Program H .done)} (hmove : Move scene.world { scene.world with heap := h' })
    (hplace : phase.maker? ≠ some j)
    (hgiven : scene.world.heap.Reservation T.store configurationKey (.slot i) h') :
    ∃ phase', T.Advances meter j scene.world { scene.world with heap := h' } phase phase' ∧
      T.Standing phase' ⟨{ scene.world with heap := h' }, Function.update scene.places j (.given i),
        .passed j scene.world { scene.world with heap := h' } :: scene.log⟩ := by
  have hidle : T.Idle meter scene.world { scene.world with heap := h' } := ⟨rfl, fun _ => rfl⟩
  cases hgiven with
  | present hopen hslot =>
      exact ⟨phase, .idle hidle, hstanding.stay hmove (.idle hidle) rfl
        ⟨hplace, hstanding.slot_of_entry hslot⟩⟩
  | made hopen hslot hnone =>
      have hunasked : phase = .unasked := by
        have hentry : phase.slot? = none := by
          rcases hstanding.entry with hclosed | hentry
          · rw [hopen] at hclosed
            cases hclosed
          · exact hentry.symm.trans hslot
        cases phase with
        | unasked => rfl
        | _ => cases hentry
      subst hunasked
      have hentry := Heap.Reservation.entry (.made hopen hslot hnone)
      have hadvances : T.Advances meter j scene.world _ .unasked _ := .asked hidle hentry.2
      refine ⟨_, hadvances, hstanding.pass hmove hadvances (.inr hentry.2)
        ⟨by simp [Phase.maker?], rfl⟩ ?_⟩
      exact (Heap.slot_addEntry _ _).trans (if_pos rfl)

variable (meter) in
/-- Somebody marks the slot. -/
theorem Standing.marked (hstanding : T.Standing phase scene) {j : ι} {i : SlotId}
    (hmove : Move scene.world (scene.world.claim T.store i).2)
    (hplace : phase.Admits j (.given i)) (hslot : scene.world.heap.slot i = .vacant) :
    T.Advances meter j scene.world (scene.world.claim T.store i).2 phase (.making i j) ∧
      T.Standing (.making i j) ⟨(scene.world.claim T.store i).2,
        Function.update scene.places j (.making i),
        .passed j scene.world (scene.world.claim T.store i).2 :: scene.log⟩ := by
  have hlt := hstanding.placed i hplace.2
  obtain rfl := hstanding.fills.eq_asked hplace.2 hslot
  have hadvances : T.Advances meter j scene.world (scene.world.claim T.store i).2 (.asked i)
      (.making i j) := .marked ⟨rfl, fun _ => rfl⟩
  have hstore : (scene.world.claim T.store i).2.heap.store T.store = scene.world.heap.store T.store :=
    Heap.store_claim T.store i T.store
  refine ⟨hadvances, hstanding.pass hmove hadvances ?_ rfl ?_⟩
  · rw [entrySlot?, Heap.isClosed, hstore]
    exact hstanding.entry
  · have hheap : (scene.world.claim T.store i).2.heap =
        (scene.world.heap.setSlot i .computing).recorded (.factory T.store i) := by
      simp only [World.claim, Heap.claim, hslot]
      rfl
    rw [hheap, Phase.Fills, Heap.slot_recorded, Heap.slot_setSlot hlt, if_pos rfl]

variable (meter) in
/-- Whoever has made the configuration stores it. -/
theorem Standing.filled (hstanding : T.Standing phase scene) {j : ι} {i : SlotId}
    {c : ConfigurationId} (hmove : Move scene.world (scene.world.fill T.store i (.configuration c) none).2)
    (hplace : phase.Admits j (.made i c)) :
    T.Advances meter j scene.world (scene.world.fill T.store i (.configuration c) none).2 phase
        (.kept i c) ∧
      T.Standing (.kept i c) ⟨(scene.world.fill T.store i (.configuration c) none).2,
        Function.update scene.places j (.settled i ⟨scene.world.values, .configuration c⟩),
        .passed j scene.world (scene.world.fill T.store i (.configuration c) none).2 ::
          scene.log⟩ := by
  obtain rfl : phase = .made i j c := hplace
  have hadvances : T.Advances meter j scene.world
      (scene.world.fill T.store i (.configuration c) none).2 (.made i j c) (.kept i c) :=
    .filled ⟨rfl, fun _ => rfl⟩
  refine ⟨hadvances, hstanding.pass hmove hadvances hstanding.entry ⟨c, rfl, rfl⟩ ?_⟩
  refine ⟨⟨scene.world.values, .configuration c⟩, ?_, rfl⟩
  exact (Heap.slot_setSlot (hstanding.placed i rfl) _ i).trans (if_pos rfl)

variable (meter) in
/-- Somebody passes a section on the way to the configuration. -/
theorem Standing.obtains (hstanding : T.Standing phase scene) {s : ScopeId} {j : ι}
    {w : World H} {place : Place} (hmove : Move scene.world w) (hhas : T.Has scene.world s)
    (hobtains : T.Obtains s (scene.places j) scene.world w place) :
    ∃ phase', T.Advances meter j scene.world w phase phase' ∧ T.Standing phase'
      ⟨w, Function.update scene.places j place, .passed j scene.world w :: scene.log⟩ := by
  have hplace := hstanding.places j
  have hgood := hstanding.not_odd_places hhas j
  have hstays {place : Place} (hplace : phase.Admits j place) (hmove : Move scene.world scene.world) :
      ∃ phase', T.Advances meter j scene.world scene.world phase phase' ∧ T.Standing phase'
        ⟨scene.world, Function.update scene.places j place,
          .passed j scene.world scene.world :: scene.log⟩ :=
    have hidle : T.Advances meter j scene.world scene.world phase phase := .idle ⟨rfl, fun _ => rfl⟩
    ⟨phase, hidle, hstanding.stay hmove hidle rfl hplace⟩
  generalize scene.places j = before at hobtains hplace hgood
  cases hobtains with
  | looked | refused hclosed => exact hstays hplace hmove
  | given hgiven => exact hstanding.given meter hmove hplace hgiven
  | found hvalue => exact hstays (hstanding.fills.of_value hplace.2 hvalue) hmove
  | marked hslot => exact ⟨_, hstanding.marked meter hmove hplace hslot⟩
  | @made _ i =>
      obtain rfl : phase = .making i j := hplace
      have hadvances : T.Advances meter j scene.world _ (.making i j) _ := .made rfl
      exact ⟨_, hadvances, hstanding.pass hmove hadvances hstanding.entry rfl hstanding.fills⟩
  | filled => exact ⟨_, hstanding.filled meter hmove hplace⟩
  | obtained hopen hv =>
      obtain ⟨c', hkept, hv'⟩ := hplace
      obtain rfl := Datum.configuration.inj (hv.symm.trans hv')
      exact hstays ⟨_, hkept⟩ hmove
  | overtaken hclosed =>
      obtain ⟨c, hkept, -⟩ := hplace
      exact hstays ⟨c, hkept⟩ hmove
  | spared hnone =>
      obtain ⟨c, rfl⟩ := hplace
      exact hstays (by simp [Phase.Admits, Phase.maker?]) hmove
  | strayed hodd => exact absurd hodd hgood

theorem heap_of_consults {c : ConfigurationId} {w w' : World H} (hconsults : Consults c w w') :
    w'.heap = w.heap := by
  obtain ⟨β, default, f, -, rfl⟩ := hconsults
  simp only [consult]
  split <;> rfl

/-- A section of somebody on an errand. -/
theorem Standing.passes (hstanding : T.Standing phase scene) {j : ι} {errand : Errand H} {w : World H}
    {place : Place} (hfit : T.Fits scene.world errand)
    (hpasses : (T.movingRule meter errand).passes (scene.places j) scene.world w place) :
    ∃ phase', T.Advances meter j scene.world w phase phase' ∧ T.Standing phase'
      ⟨w, Function.update scene.places j place, .passed j scene.world w :: scene.log⟩ := by
  obtain ⟨hmove, hsection⟩ := hpasses
  have hplace := hstanding.places j
  have hstays {place : Place} (hadvances : T.Advances meter j scene.world w phase phase)
      (hheap : w.heap = scene.world.heap) (hplace : phase.Admits j place) :
      ∃ phase', T.Advances meter j scene.world w phase phase' ∧ T.Standing phase'
        ⟨w, Function.update scene.places j place, .passed j scene.world w :: scene.log⟩ :=
    ⟨phase, hadvances, hstanding.stay hmove hadvances hheap hplace⟩
  cases errand with
  | configuration s => exact hstanding.obtains meter hmove hfit.2 hsection
  | invocation e q body =>
      have hobtains (h : T.Obtains q.scope (scene.places j) scene.world w place) :=
        hstanding.obtains meter hmove hfit.2 h
      change T.Invokes meter q.scope (scene.places j) scene.world w place at hsection
      generalize scene.places j = before at hsection hplace hobtains
      cases hsection with
      | obtains h => exact hobtains h
      | apart haside _ | ran haside => exact hstays (.idle haside.idle) haside.heap hplace
      | asked hconsults =>
          obtain ⟨i, rfl⟩ := hplace
          exact hstays (.consulted hconsults (.inl rfl)) (heap_of_consults hconsults) ⟨i, rfl⟩
  | consultation c inquiry =>
      obtain ⟨rfl, hconsults⟩ := hsection
      exact hstays (.consulted hconsults (.inr hfit)) (heap_of_consults hconsults) hplace

/-- User code answers somebody, who stays where it is. -/
theorem Standing.called (hstanding : T.Standing phase scene) {j : ι} {r : Reply}
    {program : Program H r} {outcome : Outcome (r.Carrier H)} :
    T.Standing phase ⟨scene.world, Function.update scene.places j (scene.places j),
      .called j program outcome :: scene.log⟩ := by
  rw [Function.update_eq_self]
  constructor
  case unbegun =>
    exact fun j' hunbegun => hstanding.unbegun j' (List.forall_mem_cons.mp hunbegun).2
  case shown =>
    intro i
    rw [hstanding.shown i]
    constructor
    · rintro ⟨deed, hdeed, hshows⟩
      exact ⟨deed, List.mem_cons_of_mem _ hdeed, hshows⟩
    · rintro ⟨deed, hdeed, hshows⟩
      rcases List.mem_cons.mp hdeed with rfl | hold
      · exact hshows.elim
      · exact ⟨deed, hold, hshows⟩
  case wellFormed => exact hstanding.wellFormed
  case planted => exact hstanding.planted
  case onTop => exact hstanding.onTop
  case places => exact hstanding.places
  case entry => exact hstanding.entry
  case placed => exact hstanding.placed
  case fills => exact hstanding.fills

/-- Every step takes the configuration where it is or, by a section of somebody, further, or is one of
others. -/
theorem Standing.step (hstanding : T.Standing phase scene) {errands : ι → Errand H}
    {others : List (Deed H ι) → World H → World H → Prop} {scene' : Scene H fun _ : ι => Place}
    (hothers : ∀ log w w', others log w w' → T.Sparing log w w')
    (hfits : ∀ j before after, .passed j before after ∈ scene'.log → T.Fits before (errands j))
    (hstep : scene.Step (fun j => T.movingRule meter (errands j)) others scene') :
    ∃ phase', T.Standing phase' scene' ∧ Move scene.world scene'.world ∧
      ((∃ who, T.Advances meter who scene.world scene'.world phase phase' ∧
          (phase' = phase ∨ .passed who scene.world scene'.world ∈ scene'.log)) ∨
        phase' = phase ∧ others scene.log scene.world scene'.world) := by
  cases hstep with
  | passed j hpasses =>
      obtain ⟨phase', hadvances, hstanding'⟩ := hstanding.passes (hfits j _ _ List.mem_cons_self) hpasses
      exact ⟨phase', hstanding', hpasses.1, .inl ⟨j, hadvances, .inr List.mem_cons_self⟩⟩
  | called j hresumes =>
      obtain ⟨rfl, -⟩ := hstanding.of_resumes hresumes
      exact ⟨phase, hstanding.called, .plain (.unchanged _),
        .inl ⟨j, .idle ⟨rfl, fun _ => rfl⟩, .inl rfl⟩⟩
  | others hother =>
      have hspared := hothers _ _ _ hother
      exact ⟨phase, hstanding.others hspared, hspared.move, .inr ⟨rfl, hother⟩⟩

end Standing

end Tree

end TimedInvocation
