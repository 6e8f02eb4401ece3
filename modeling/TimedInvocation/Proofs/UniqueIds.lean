import TimedInvocation.Proofs.Registries
import TimedInvocation.Proofs.Store.Lineage

/-!
# What unique ids tell apart

The unique id of a scope spells out the way from the root: the id of the root, then a slash and a segment
for each scope on the way. A segment may hold slashes itself, so two ways may be spelt alike. They are only
where they part at two children of one scope of which the segment of one goes on, after a slash, beyond the
segment of the other. Any other two scopes of a tree have different ids, as long as siblings have different
segments.
-/

namespace TimedInvocation

open Relation

variable {H : Host}

/-- In a list of scopes, the id of each scope below another one is the id of that one, a slash and a
segment. -/
def Spelt {S : Type} (scopes : List (Scope S)) : Prop :=
  ∀ (i : Nat) (scope : Scope S) (p : ScopeId), scopes[i]? = some scope →
    scope.ancestors.head? = some p → ∃ above segment, scopes[p]? = some above ∧
      scope.uniqueId = above.uniqueId ++ "/" ++ segment

theorem Spelt.concat {S : Type} {scopes : List (Scope S)} {scope : Scope S} (hspelt : Spelt scopes)
    (hscope : ∀ p, scope.ancestors.head? = some p → ∃ above segment, scopes[p]? = some above ∧
      scope.uniqueId = above.uniqueId ++ "/" ++ segment) : Spelt (scopes ++ [scope]) := by
  have hstill {p : Nat} {above : Scope S} (habove : scopes[p]? = some above) :
      (scopes ++ [scope])[p]? = some above := by
    rw [List.getElem?_append_left (List.getElem?_eq_some_iff.mp habove).1, habove]
  intro i other p hother hp
  rcases Nat.lt_or_ge i scopes.length with hold | hnew
  · rw [List.getElem?_append_left hold] at hother
    obtain ⟨above, segment, habove, hid⟩ := hspelt i other p hother hp
    exact ⟨above, segment, hstill habove, hid⟩
  · obtain rfl : other = scope := by
      rw [List.getElem?_append_right hnew] at hother
      exact List.mem_singleton.mp (List.mem_of_getElem? hother)
    obtain ⟨above, segment, habove, hid⟩ := hscope p hp
    exact ⟨above, segment, hstill habove, hid⟩

/-- What the segments on a way add to the id of the scope in which the way begins. -/
def spelling (way : List String) : List Char :=
  way.flatMap fun segment => '/' :: segment.toList

/-- A spelling is empty or begins with a slash. -/
theorem head_of_spelling {way : List String} {c : Char} {rest : List Char}
    (hspelling : spelling way = c :: rest) : c = '/' := by
  cases way with
  | nil => cases hspelling
  | cons segment way => exact (List.cons.inj hspelling).1.symm

/-- Two ways that are spelt alike have the same first segment, unless one of their first segments goes on
after a slash beyond the other one. -/
theorem first_segment_of_spelling {segment segment' : String} {way way' : List String}
    (hspelling : spelling (segment :: way) = spelling (segment' :: way')) :
    (segment = segment' ∧ spelling way = spelling way') ∨
      (∃ more, segment' = segment ++ "/" ++ more) ∨ ∃ more, segment = segment' ++ "/" ++ more := by
  have hrun {a b : String} {c : Char} {tail : List Char} {rest : List String}
      (hb : b.toList = a.toList ++ c :: tail) (hrest : ∃ more, spelling rest = c :: more) :
      ∃ more, b = a ++ "/" ++ more := by
    obtain ⟨more, hmore⟩ := hrest
    refine ⟨String.ofList tail, String.toList_inj.mp ?_⟩
    simp [hb, head_of_spelling hmore]
  have htails : segment.toList ++ spelling way = segment'.toList ++ spelling way' :=
    (List.cons.inj hspelling).2
  rcases List.append_eq_append_iff.mp htails with ⟨gap, hgap, hrest⟩ | ⟨gap, hgap, hrest⟩
  · cases gap with
    | nil => exact .inl ⟨String.toList_inj.mp (by simpa using hgap.symm), by simpa using hrest⟩
    | cons c tail => exact .inr (.inl (hrun hgap ⟨_, hrest⟩))
  · cases gap with
    | nil => exact .inl ⟨String.toList_inj.mp (by simpa using hgap), by simpa using hrest.symm⟩
    | cons c tail => exact .inr (.inr (hrun hgap ⟨_, hrest⟩))

namespace World

variable {w w' : World H} {p c d s t : ScopeId}

/-- A scope is a child of another one, with a segment in its id. -/
def IsChild (w : World H) (p : ScopeId) (segment : String) (s : ScopeId) : Prop :=
  (w.viewScope s).parent = some p ∧ w.uniqueIdOf s = w.uniqueIdOf p ++ "/" ++ segment

/-- The segments on the way from one scope down to another. -/
inductive Descends (w : World H) : ScopeId → List String → ScopeId → Prop where
  | here (s : ScopeId) : Descends w s [] s
  | down {p c s : ScopeId} {segment : String} {way : List String} (hchild : w.IsChild p segment c)
      (hway : Descends w c way s) : Descends w p (segment :: way) s

/-- The ways to two scopes part at children of one scope, and the segment on the way to the second one goes
on, after a slash, beyond the segment on the way to the first one. -/
def Overlap (w : World H) (s t : ScopeId) : Prop :=
  ∃ p c d segment more, w.IsChild p segment c ∧ w.IsChild p (segment ++ "/" ++ more) d ∧
    (∃ way, w.Descends c way s) ∧ ∃ way, w.Descends d way t

/-- A scope of the tree with a root. -/
def InTree (w : World H) (root s : ScopeId) : Prop :=
  (w.scope? s).isSome = true ∧ w.rootOf s = root

/-- The children of each scope of a tree have different segments. -/
def SiblingsDiffer (w : World H) (root : ScopeId) : Prop :=
  ∀ p segment c d, w.InTree root p → w.IsChild p segment c → w.IsChild p segment d → c = d

theorem IsChild.segment_unique {segment segment' : String} (hchild : w.IsChild p segment s)
    (hchild' : w.IsChild p segment' s) : segment = segment' := by
  have hids := hchild.2.symm.trans hchild'.2
  simpa [← String.toList_inj] using hids

theorem Descends.uniqueId {way : List String} (hway : w.Descends p way s) :
    (w.uniqueIdOf s).toList = (w.uniqueIdOf p).toList ++ spelling way := by
  induction hway with
  | here s => simp [spelling]
  | down hchild _ ih => simp [ih, hchild.2, spelling]

theorem Descends.snoc {way : List String} {segment : String} (hway : w.Descends p way c)
    (hchild : w.IsChild c segment s) : w.Descends p (way ++ [segment]) s := by
  induction hway with
  | here c => exact .down hchild (.here s)
  | down hfirst _ ih => exact .down hfirst (ih hchild)

/-- A scope that is made below another one is its child, with the segment that was asked for. -/
theorem isChild_newScope {above : Scope H.Source} (habove : w.scope? p = some above) (segment : String)
    (displayName : Option String) (extensions : List ExtensionId) :
    (w.newScope (.child p segment) displayName extensions).2.IsChild p segment w.scopes.length := by
  have hp := (List.getElem?_eq_some_iff.mp habove).1
  have hnew : (w.newScope (.child p segment) displayName extensions).2.scope? w.scopes.length = some
      ⟨above.uniqueId ++ "/" ++ segment, displayName.getD segment, p :: above.ancestors,
        w.registries.length, w.heap.stores.length, above.source⟩ := by
    simp only [newScope, habove]
    simp [scope?, newRegistry, newStore, Heap.addChild]
  have hstill := scope?_eq_of_grows (w.grows_newScope (.child p segment) displayName extensions) habove
  constructor
  · simp [viewScope, hnew]
  · simp [uniqueIdOf, hnew, hstill]

theorem spelt_newScope (hspelt : Spelt w.scopes) (place : ScopePlace H.Source)
    (displayName : Option String) (extensions : List ExtensionId) :
    Spelt (w.newScope place displayName extensions).2.scopes := by
  cases place with
  | root uniqueId source => exact hspelt.concat fun p hp => by cases hp
  | child parent segment =>
      simp only [World.newScope]
      split
      · exact hspelt
      · next above habove =>
        refine hspelt.concat fun p hp => ?_
        obtain rfl : parent = p := Option.some.inj hp
        exact ⟨above, segment, habove, rfl⟩

theorem Reachable.spelt (hw : w.Reachable) : Spelt w.scopes := by
  obtain ⟨state, hmoves⟩ := hw
  induction hmoves with
  | refl => exact fun i scope p hscope => by simp [initial] at hscope
  | tail _ hmove ih =>
      rcases hmove.scopes_or with hscopes | ⟨place, displayName, extensions, rfl⟩
      · exact hscopes ▸ ih
      · exact spelt_newScope ih place displayName extensions

/-- A scope has nothing above it, or it is a child of a scope that was made before it. -/
theorem Reachable.root_or_child (hw : w.Reachable) {scope : Scope H.Source}
    (hscope : w.scope? s = some scope) : scope.ancestors = [] ∨
      ∃ p segment above, p < s ∧ w.scope? p = some above ∧ scope.ancestors = p :: above.ancestors ∧
        w.IsChild p segment s := by
  rcases hw.linked.scopes s scope hscope with htop | ⟨p, above, hbefore, habove, hway⟩
  · exact .inl htop
  · have hp : scope.ancestors.head? = some p := by rw [hway]; rfl
    obtain ⟨above', segment, habove', hid⟩ := hw.spelt s scope p hscope hp
    obtain rfl : above = above' := Option.some.inj (habove.symm.trans habove')
    have hchild : w.IsChild p segment s := by
      constructor
      · simp [viewScope, hscope, hp]
      · simp [uniqueIdOf, hscope, show w.scope? p = some above from habove, hid]
    exact .inr ⟨p, segment, above, hbefore, habove, hway, hchild⟩

/-- A scope and its children belong to one tree. -/
theorem Reachable.inTree_child_iff (hw : w.Reachable) {root : ScopeId} {segment : String}
    (hchild : w.IsChild p segment s) : w.InTree root s ↔ w.InTree root p := by
  cases hscope : w.scope? s with
  | none => simp [IsChild, viewScope, hscope] at hchild
  | some scope =>
      rcases hw.root_or_child hscope with htop | ⟨p', segment', above, -, habove, hway, hchild'⟩
      · simp [IsChild, viewScope, hscope, htop] at hchild
      · obtain rfl : p' = p := Option.some.inj (hchild'.1.symm.trans hchild.1)
        have hroot : w.rootOf s = w.rootOf p' := by
          simp only [rootOf, hscope, habove, hway]
          cases above.ancestors <;> rfl
        simp [InTree, hscope, habove, hroot]

theorem Descends.inTree_iff (hw : w.Reachable) {root : ScopeId} {way : List String}
    (hway : w.Descends p way s) : w.InTree root s ↔ w.InTree root p := by
  induction hway with
  | here s => exact Iff.rfl
  | down hchild _ ih => exact ih.trans (hw.inTree_child_iff hchild)

/-- There is a way from the root of a tree down to each scope of the tree. -/
theorem Reachable.descends (hw : w.Reachable) {root : ScopeId} (hs : w.InTree root s) :
    ∃ way, w.Descends root way s := by
  obtain ⟨hmade, rfl⟩ := hs
  induction s using Nat.strongRecOn with
  | ind s ih =>
      obtain ⟨scope, hscope⟩ := Option.isSome_iff_exists.mp hmade
      rcases hw.root_or_child hscope with htop | ⟨p, segment, above, hbefore, habove, hway, hchild⟩
      · have hself : w.rootOf s = s := by simp [rootOf, hscope, htop]
        exact ⟨[], by rw [hself]; exact .here s⟩
      · have hp : w.InTree (w.rootOf p) p := ⟨by simp [habove], rfl⟩
        obtain ⟨way, hdescends⟩ := ih p hbefore hp.1
        rw [((hw.inTree_child_iff hchild).mpr hp).2]
        exact ⟨_, hdescends.snoc hchild⟩

/-- Two ways down from a scope that are spelt alike lead to one scope, unless they part at children whose
segments overlap. -/
theorem Reachable.eq_or_overlap (hw : w.Reachable) {root : ScopeId} {way way' : List String}
    (hsiblings : w.SiblingsDiffer root) (hp : w.InTree root p) (hway : w.Descends p way s)
    (hway' : w.Descends p way' t) (hspelling : spelling way = spelling way') :
    s = t ∨ w.Overlap s t ∨ w.Overlap t s := by
  induction hway generalizing way' with
  | here p =>
      cases hway' with
      | here => exact .inl rfl
      | down _ _ => cases hspelling
  | @down p c s segment way hchild hrest ih =>
      cases hway' with
      | here => cases hspelling
      | @down _ d _ segment' way' hchild' hrest' =>
          rcases first_segment_of_spelling hspelling with
            ⟨rfl, hrests⟩ | ⟨more, rfl⟩ | ⟨more, rfl⟩
          · obtain rfl := hsiblings p segment c d hp hchild hchild'
            exact ih ((hw.inTree_child_iff hchild).mpr hp) hrest' hrests
          · exact .inr (.inl ⟨p, c, d, segment, more, hchild, hchild', ⟨_, hrest⟩, ⟨_, hrest'⟩⟩)
          · exact .inr (.inr ⟨p, d, c, segment', more, hchild', hchild, ⟨_, hrest'⟩, ⟨_, hrest⟩⟩)

/-- Two scopes of a tree that share an id are one scope, or their ways overlap. -/
theorem Reachable.eq_or_overlap_of_uniqueId (hw : w.Reachable) {root : ScopeId}
    (hsiblings : w.SiblingsDiffer root) (hs : w.InTree root s) (ht : w.InTree root t)
    (hid : w.uniqueIdOf s = w.uniqueIdOf t) : s = t ∨ w.Overlap s t ∨ w.Overlap t s := by
  obtain ⟨way, hway⟩ := hw.descends hs
  obtain ⟨way', hway'⟩ := hw.descends ht
  refine hw.eq_or_overlap hsiblings ((hway.inTree_iff hw).mp hs) hway hway' ?_
  have hids := congrArg String.toList hid
  rw [hway.uniqueId, hway'.uniqueId] at hids
  exact List.append_cancel_left hids

theorem IsChild.exists_scope {segment : String} (hchild : w.IsChild p segment s) :
    ∃ scope, w.scope? s = some scope := by
  cases hscope : w.scope? s with
  | none => simp [IsChild, viewScope, hscope] at hchild
  | some scope => exact ⟨scope, rfl⟩

theorem uniqueIdOf_newScope {scope : Scope H.Source} (hscope : w.scope? s = some scope)
    (place : ScopePlace H.Source) (displayName : Option String) (extensions : List ExtensionId) :
    (w.newScope place displayName extensions).2.uniqueIdOf s = w.uniqueIdOf s := by
  have hstill := scope?_eq_of_grows (w.grows_newScope place displayName extensions) hscope
  simp [uniqueIdOf, hscope, hstill]

/-- Where the segment of a child goes on beyond that of another one, a scope that is made below the other
one can get the id of the child. -/
theorem uniqueIdOf_newScope_of_overlap {segment more : String} (hc : w.IsChild p segment c)
    (hd : w.IsChild p (segment ++ "/" ++ more) d) (displayName : Option String)
    (extensions : List ExtensionId) :
    d ≠ w.scopes.length ∧
      (w.newScope (.child c more) displayName extensions).2.uniqueIdOf w.scopes.length =
        (w.newScope (.child c more) displayName extensions).2.uniqueIdOf d := by
  obtain ⟨scope, hscope⟩ := hc.exists_scope
  obtain ⟨scope', hscope'⟩ := hd.exists_scope
  refine ⟨Nat.ne_of_lt (List.getElem?_eq_some_iff.mp hscope').1, ?_⟩
  rw [(isChild_newScope hscope more displayName extensions).2, uniqueIdOf_newScope hscope,
    uniqueIdOf_newScope hscope', hc.2, hd.2]
  simp [String.append_assoc]

end World

open World

/-- In a tree of scopes whose siblings have different segments, two scopes share an id only if their ways
from the root overlap, so not at all if no segment holds a slash. Where two siblings overlap, a further
scope does share an id. The segment of a scope is the one it was made with. -/
theorem unique_ids_differ_unless_segments_overlap {w : World H} (hw : w.Reachable) {root : ScopeId}
    (hsiblings : w.SiblingsDiffer root) :
    (∀ s t, w.InTree root s → w.InTree root t → s ≠ t → w.uniqueIdOf s = w.uniqueIdOf t →
      w.Overlap s t ∨ w.Overlap t s) ∧
    ((∀ p segment s, w.InTree root p → w.IsChild p segment s → '/' ∉ segment.toList) →
      ∀ s t, w.InTree root s → w.InTree root t → s ≠ t → w.uniqueIdOf s ≠ w.uniqueIdOf t) ∧
    (∀ p c d segment more displayName extensions, w.IsChild p segment c →
      w.IsChild p (segment ++ "/" ++ more) d →
        let w' := (w.newScope (.child c more) displayName extensions).2
        d ≠ w.scopes.length ∧ w'.uniqueIdOf w.scopes.length = w'.uniqueIdOf d) ∧
    ∀ p segment displayName extensions, w.InTree root p →
      (w.newScope (.child p segment) displayName extensions).2.IsChild p segment w.scopes.length := by
  have hoverlap (s t : ScopeId) (hs : w.InTree root s) (ht : w.InTree root t) (hne : s ≠ t)
      (hid : w.uniqueIdOf s = w.uniqueIdOf t) : w.Overlap s t ∨ w.Overlap t s :=
    (hw.eq_or_overlap_of_uniqueId hsiblings hs ht hid).resolve_left hne
  refine ⟨hoverlap, fun hplain s t hs ht hne hid => ?differ, fun p c d segment more displayName
    extensions hc hd => uniqueIdOf_newScope_of_overlap hc hd displayName extensions,
    fun p segment displayName extensions hp => ?made⟩
  case differ =>
    -- The longer one of two overlapping segments holds a slash.
    have hnone {s t : ScopeId} (ht : w.InTree root t) : ¬ w.Overlap s t := by
      rintro ⟨p, c, d, segment, more, -, hd, -, way, hway⟩
      have hp := (hw.inTree_child_iff hd).mp ((hway.inTree_iff hw).mp ht)
      exact hplain p _ d hp hd (by simp)
    rcases hoverlap s t hs ht hne hid with hover | hover
    · exact hnone ht hover
    · exact hnone hs hover
  case made =>
    obtain ⟨above, habove⟩ := Option.isSome_iff_exists.mp hp.1
    exact isChild_newScope habove segment displayName extensions

/-- A root with two children, and a scope below the first of them. -/
def World.family (root first second below : String) : World Host.bare :=
  let w := ((World.initial ()).newScope (.root root ()) none []).2
  let w := (w.newScope (.child 0 first) none []).2
  let w := (w.newScope (.child 0 second) none []).2
  (w.newScope (.child 1 below) none []).2

section Family

variable {root first second below : String}

theorem World.reachable_family : (World.family root first second below).Reachable :=
  ⟨(), .tail (.tail (.tail (.single (.plain (.scopeMade _ _ _ _))) (.plain (.scopeMade _ _ _ _)))
    (.plain (.scopeMade _ _ _ _))) (.plain (.scopeMade _ _ _ _))⟩

theorem World.isChild_family {p c : ScopeId} {segment : String}
    (hchild : (World.family root first second below).IsChild p segment c) :
    (p = 0 ∧ c = 1 ∧ segment = first) ∨ (p = 0 ∧ c = 2 ∧ segment = second) ∨
      (p = 1 ∧ c = 3 ∧ segment = below) := by
  have hfirst : (World.family root first second below).IsChild 0 first 1 := ⟨rfl, rfl⟩
  have hsecond : (World.family root first second below).IsChild 0 second 2 := ⟨rfl, rfl⟩
  have hbelow : (World.family root first second below).IsChild 1 below 3 := ⟨rfl, rfl⟩
  match c with
  | 0 => cases hchild.1
  | 1 =>
      obtain rfl : 0 = p := Option.some.inj hchild.1
      exact .inl ⟨rfl, rfl, hchild.segment_unique hfirst⟩
  | 2 =>
      obtain rfl : 0 = p := Option.some.inj hchild.1
      exact .inr (.inl ⟨rfl, rfl, hchild.segment_unique hsecond⟩)
  | 3 =>
      obtain rfl : 1 = p := Option.some.inj hchild.1
      exact .inr (.inr ⟨rfl, rfl, hchild.segment_unique hbelow⟩)
  | _ + 4 => cases hchild.1

theorem World.siblingsDiffer_family (hne : first ≠ second) :
    (World.family root first second below).SiblingsDiffer 0 := by
  intro p segment c d _ hc hd
  have hcases := isChild_family hc
  have hcases' := isChild_family hd
  grind

end Family

/-- Two classes of an engine, and a scope below the first one. Without the slashes, the last two ways would be
spelt alike. -/
def World.classes : World Host.bare :=
  .family "engine" "class:Calc" "class:Calculator" "ulator"

theorem unique_ids_differ_unless_segments_overlap_classes :
    World.classes.Reachable ∧ World.classes.SiblingsDiffer 0 ∧
      World.classes.uniqueIdOf 2 = "engine/class:Calculator" ∧
      World.classes.uniqueIdOf 2 ≠ World.classes.uniqueIdOf 3 := by
  have hreachable : World.classes.Reachable := World.reachable_family
  have hsiblings : World.classes.SiblingsDiffer 0 := World.siblingsDiffer_family (by decide)
  refine ⟨hreachable, hsiblings, rfl, ?_⟩
  refine (unique_ids_differ_unless_segments_overlap hreachable hsiblings).2.1 ?_ 2 3 ⟨rfl, rfl⟩
    ⟨rfl, rfl⟩ (by decide)
  intro p segment c _ hchild
  rcases World.isChild_family hchild with ⟨-, -, rfl⟩ | ⟨-, -, rfl⟩ | ⟨-, -, rfl⟩ <;> decide

/-- A child with a slash in its segment, and a scope below its sibling that is named by what stands before the
slash. -/
def World.overlapping : World Host.bare :=
  .family "r" "a" "a/b" "b"

/-- Two scopes of a tree share an id although siblings have different segments. -/
theorem scopes_share_unique_id :
    World.overlapping.Reachable ∧ World.overlapping.SiblingsDiffer 0 ∧
      World.overlapping.InTree 0 2 ∧ World.overlapping.InTree 0 3 ∧
      World.overlapping.uniqueIdOf 2 = World.overlapping.uniqueIdOf 3 :=
  ⟨World.reachable_family, World.siblingsDiffer_family (by decide), ⟨rfl, rfl⟩, ⟨rfl, rfl⟩, rfl⟩

end TimedInvocation
