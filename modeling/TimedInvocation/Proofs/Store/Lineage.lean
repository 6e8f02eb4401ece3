import TimedInvocation.Proofs.Store.Ancestry
import TimedInvocation.Proofs.Store.Computation
import TimedInvocation.Proofs.Visibility

/-!
# Stores below and above

What stands above a store is settled when the store is made and never changes. The scopes of a tree have
stores of their own in the same order, so there is nothing above the store of a root scope.
-/

namespace TimedInvocation

open Relation World

variable {H : Host} {C : Type}

namespace Heap

variable {h h' : Heap C}

/-- What stands above each of the stores, in the order in which they were made. -/
def lineage (h : Heap C) : List (List StoreId) :=
  h.stores.map Store.ancestors

theorem ancestors_of_lineage {s : StoreId} {above : List StoreId} (hs : h.lineage[s]? = some above) :
    (h.store s).ancestors = above := by
  rw [lineage, List.getElem?_map] at hs
  obtain ⟨store, hstore, rfl⟩ := Option.map_eq_some_iff.mp hs
  rw [Heap.store, hstore]
  rfl

theorem lineage_modifyStore (h : Heap C) (s : StoreId) {f : Store → Store}
    (hf : ∀ store, (f store).ancestors = store.ancestors) : (h.modifyStore s f).lineage = h.lineage := by
  refine List.ext_getElem? fun i => ?_
  simp only [lineage, modifyStore, List.getElem?_map, List.getElem?_modify]
  cases h.stores[i]? with
  | none => rfl
  | some store => by_cases hi : s = i <;> simp [hi, hf]

theorem lineage_addEntry (h : Heap C) (s : StoreId) (k : Key) (slot : Slot C) :
    (h.addEntry s k slot).2.lineage = h.lineage :=
  lineage_modifyStore { h with slots := h.slots ++ [slot] } s fun _ => rfl

theorem lineage_forget (h : Heap C) (s : StoreId) (k : Key) : (h.forget s k).lineage = h.lineage := by
  have hreleasing : (h.releasing s k).lineage = h.lineage := by
    rw [releasing]
    split
    · rfl
    · split <;> rfl
  have herased : (h.forget s k).lineage = (h.releasing s k).lineage :=
    lineage_modifyStore _ s fun store => rfl
  exact herased.trans hreleasing

theorem lineage_reserve (h : Heap C) (s : StoreId) (k : Key) :
    (h.reserve s k).2.lineage = h.lineage := by
  have hreserve := h.reservation s k
  generalize h.reserve s k = reserved at hreserve
  obtain ⟨admission, h'⟩ := reserved
  cases hreserve with
  | refused | present | inherited => rfl
  | made => exact lineage_addEntry h s k .vacant

theorem lineage_put {s : StoreId} {k : Key} {stored : Stored C} {previous : Option Value}
    (hput : h.put s k stored = .ok (previous, h')) : h'.lineage = h.lineage := by
  obtain ⟨-, -, rfl⟩ := of_put hput
  exact (lineage_addEntry (h.forget s k) s k .vacant).trans (lineage_forget h s k)

theorem lineage_remove {s : StoreId} {k : Key} {t : Ty} {taken : Option Value}
    (hremove : h.remove s k t = .ok (taken, h')) : h'.lineage = h.lineage := by
  rcases of_remove hremove with ⟨-, rfl⟩ | ⟨-, rfl⟩
  · rfl
  · exact lineage_forget h s k

theorem lineage_claim (h : Heap C) (s : StoreId) (i : SlotId) : (h.claim s i).2.lineage = h.lineage := by
  rw [claim]
  split <;> rfl

theorem lineage_takeCleanup (h : Heap C) (i : SlotId) : (h.takeCleanup i).2.lineage = h.lineage := by
  rw [takeCleanup]
  split <;> rfl

theorem lineage_beginClose {s : StoreId} {entries : List (Key × SlotId)}
    (hclose : h.beginClose s = some (entries, h')) : h'.lineage = h.lineage := by
  obtain ⟨-, -, rfl⟩ := of_beginClose hclose
  exact lineage_modifyStore h s fun _ => rfl

end Heap

namespace World

variable {w w' : World H}

/-- The store of a root scope has been made, with nothing above it. -/
def RootsOnTop (w : World H) : Prop :=
  ∀ scope ∈ w.scopes, scope.ancestors = [] → w.heap.lineage[scope.store]? = some []

theorem Plain.lineage (hplain : Plain w w') : w.heap.lineage <+: w'.heap.lineage := by
  cases hplain.heapEffect with
  | same hheap => exact hheap ▸ List.prefix_rfl
  | storeMade ancestors _ hheap => simp [hheap, Heap.lineage]
  | put hput => exact (Heap.lineage_put hput).symm ▸ List.prefix_rfl
  | removed hremove => exact (Heap.lineage_remove hremove).symm ▸ List.prefix_rfl

/-- Whatever happens, what stands above a store remains the same. -/
theorem Move.lineage (hmove : Move w w') : w.heap.lineage <+: w'.heap.lineage := by
  cases hmove with
  | plain hplain => exact hplain.lineage
  | reserved s k => exact (w.heap.lineage_reserve s k).symm ▸ List.prefix_rfl
  | claimed s i => exact (w.heap.lineage_claim s i).symm ▸ List.prefix_rfl
  | cleanupTaken i => exact (w.heap.lineage_takeCleanup i).symm ▸ List.prefix_rfl
  | closeBegun s =>
      rw [World.beginClose]
      split
      · exact List.prefix_rfl
      · next hclose => exact (Heap.lineage_beginClose hclose).symm ▸ List.prefix_rfl
  | moved time => exact (w.heap_moveTo time).symm ▸ List.prefix_rfl
  | vacated | filled | delivered => exact List.prefix_rfl

/-- A scope that is made gets a store of its own, which has nothing above it if the scope is a root. -/
theorem RootsOnTop.newScope (hw : w.RootsOnTop) (place : ScopePlace H.Source)
    (displayName : Option String) (extensions : List ExtensionId) :
    (w.newScope place displayName extensions).2.RootsOnTop := by
  have hold (parent : Option StoreId) : ∀ scope ∈ w.scopes, scope.ancestors = [] →
      (w.newStore parent).2.heap.lineage[scope.store]? = some [] := by
    intro scope hscope hroot
    have hstore := hw scope hscope hroot
    obtain ⟨more, hmore⟩ := (Plain.storeMade w parent).lineage
    rw [← hmore, List.getElem?_append_left (List.getElem?_eq_some_iff.mp hstore).1, hstore]
  intro scope hscope hroot
  cases place with
  | root uniqueId source =>
      rcases List.mem_append.mp hscope with hbefore | hnew
      · exact hold none scope hbefore hroot
      · rw [List.mem_singleton.mp hnew]
        simp [World.newScope, newStore, newRegistry, Heap.addRoot, Heap.lineage]
  | child parent segment =>
      simp only [World.newScope] at hscope ⊢
      split at hscope
      · simp only
        exact hw scope hscope hroot
      · next above habove =>
        simp only
        rcases List.mem_append.mp hscope with hbefore | hnew
        · exact hold (some above.store) scope hbefore hroot
        · rw [List.mem_singleton.mp hnew] at hroot
          cases hroot

/-- Only making a scope changes the scopes. -/
theorem Move.scopes_or (hmove : Move w w') : w'.scopes = w.scopes ∨
    ∃ place displayName extensions, w' = (w.newScope place displayName extensions).2 := by
  rcases hmove.nodes_or with hsame | ⟨plan, rfl⟩ | ⟨parent, extensions, rfl⟩ | hscope
  · exact .inl hsame.scopes
  · exact .inl rfl
  · exact .inl rfl
  · exact .inr hscope

theorem Move.rootsOnTop (hmove : Move w w') (hw : w.RootsOnTop) : w'.RootsOnTop := by
  rcases hmove.scopes_or with hscopes | ⟨place, displayName, extensions, rfl⟩
  · intro scope hscope hroot
    rw [hscopes] at hscope
    have hstore := hw scope hscope hroot
    obtain ⟨more, hmore⟩ := hmove.lineage
    rw [← hmore, List.getElem?_append_left (List.getElem?_eq_some_iff.mp hstore).1, hstore]
  · exact hw.newScope place displayName extensions

theorem Reachable.rootsOnTop (hw : w.Reachable) : w.RootsOnTop := by
  obtain ⟨state, hmoves⟩ := hw
  induction hmoves with
  | refl => exact fun scope hscope => absurd hscope (List.not_mem_nil)
  | tail _ hmove ih => exact hmove.rootsOnTop ih

end World

end TimedInvocation
