import TimedInvocation.Proofs.Store.Cleanups

/-!
# The trees of stores

Stores form trees, and the ancestors that a store keeps are the way from it up to its root. Whatever
happens to the world, by whichever threads, every slot belongs to one entry of one store, and a closed
store has no entries. So a lookup finds the value of the nearest store on the way that holds one, and
goes past closed stores.
-/

namespace TimedInvocation

open Relation World

variable {H : Host} {C : Type}

namespace Heap

variable {h h' : Heap C} {s s' : StoreId} {k k' : Key} {i : SlotId}

/-- The store right above a store. -/
def parent? (h : Heap C) (s : StoreId) : Option StoreId :=
  (h.store s).ancestors.head?

/-- The stores on the way from a store up to its root, itself included. -/
def chain (h : Heap C) (s : StoreId) : List StoreId :=
  s :: (h.store s).ancestors

/-- What the ancestors and the entries of stores look like, whoever works on them: the ancestors of a
store are those of its parent and the parent, which is older; every entry has a slot of its own; and
a closed store has no entries. -/
structure WellFormed (h : Heap C) : Prop where
  ancestry : ∀ s p above, (h.store s).ancestors = p :: above →
    p < s ∧ above = (h.store p).ancestors
  placed : ∀ s k i, (k, i) ∈ (h.store s).entries → i < h.slots.length
  apart : ∀ s s' k k' i, (k, i) ∈ (h.store s).entries → (k', i) ∈ (h.store s').entries →
    s = s' ∧ k = k'
  emptied : ∀ s, h.isClosed s = true → (h.store s).entries = []

section Chain

/-- The way up from a store begins with the store and goes on with the way up from its parent. -/
theorem WellFormed.chain_eq (hwf : h.WellFormed) (s : StoreId) :
    h.chain s = s :: (h.parent? s).elim [] h.chain := by
  cases hancestors : (h.store s).ancestors with
  | nil => simp [chain, parent?, hancestors]
  | cons p above =>
      have habove := (hwf.ancestry s p above hancestors).2
      simp [chain, parent?, hancestors, habove]

/-- Every store on the way up is followed by its parent. -/
theorem WellFormed.isChain_chain (hwf : h.WellFormed) (s : StoreId) :
    (h.chain s).IsChain fun below above => h.parent? below = some above := by
  induction s using Nat.strongRecOn with
  | ind s ih =>
      rw [hwf.chain_eq]
      cases hparent : h.parent? s with
      | none => exact .singleton s
      | some p =>
          obtain ⟨above, habove⟩ := List.head?_eq_some_iff.mp hparent
          have hrest := ih p (hwf.ancestry s p above habove).1
          rw [Option.elim_some]
          exact .cons_cons hparent hrest

/-- The way up ends at a store that has no parent. -/
theorem WellFormed.parent?_getLast_chain (hwf : h.WellFormed) (s : StoreId) :
    ((h.chain s).getLast?.bind h.parent?) = none := by
  induction s using Nat.strongRecOn with
  | ind s ih =>
      rw [hwf.chain_eq]
      cases hparent : h.parent? s with
      | none => simpa using hparent
      | some p =>
          obtain ⟨above, habove⟩ := List.head?_eq_some_iff.mp hparent
          have hlast : (s :: h.chain p).getLast? = (h.chain p).getLast? := by
            rw [chain, List.getLast?_cons_cons]
          rw [Option.elim_some, hlast]
          exact ih p (hwf.ancestry s p above habove).1

theorem lookup?_eq_nearest?_chain (s : StoreId) (k : Key) :
    h.lookup? s k = h.nearest? k (h.chain s) :=
  rfl

/-- A lookup finds the value of the nearest store on the way up that holds one. -/
theorem lookup?_eq_some_iff {v : Value} :
    h.lookup? s k = some v ↔ ∃ nearer n further, h.chain s = nearer ++ n :: further ∧
      h.localValue? n k = some v ∧ ∀ m ∈ nearer, h.localValue? m k = none := by
  rw [lookup?_eq_nearest?_chain, nearest?, List.findSome?_eq_some_iff]

theorem lookup?_eq_none_iff :
    h.lookup? s k = none ↔ ∀ m ∈ h.chain s, h.localValue? m k = none := by
  rw [lookup?_eq_nearest?_chain, nearest?, List.findSome?_eq_none_iff]

end Chain

section Entries

/-- Stores that keep their ancestors and get no entries stay well formed. -/
theorem WellFormed.of_fewer_entries (hwf : h.WellFormed)
    (hslots : h.slots.length ≤ h'.slots.length)
    (hancestors : ∀ s, (h'.store s).ancestors = (h.store s).ancestors)
    (hentries : ∀ s, (h'.store s).entries ⊆ (h.store s).entries)
    (hclosed : ∀ s, h'.isClosed s = true → (h'.store s).entries = []) : h'.WellFormed where
  ancestry s p above hs := by
    rw [hancestors] at hs ⊢
    exact hwf.ancestry s p above hs
  placed s k i hentry := Nat.lt_of_lt_of_le (hwf.placed s k i (hentries s hentry)) hslots
  apart s s' k k' i hentry hentry' :=
    hwf.apart s s' k k' i (hentries s hentry) (hentries s' hentry')
  emptied := hclosed

/-- Whatever becomes of slots, the stores stay as they are. -/
theorem WellFormed.of_stores_eq (hwf : h.WellFormed) (hstores : h'.stores = h.stores)
    (hslots : h.slots.length ≤ h'.slots.length) : h'.WellFormed := by
  have hstore (s : StoreId) : h'.store s = h.store s := by
    rw [store, hstores, store]
  apply hwf.of_fewer_entries hslots
  · intro s
    rw [hstore]
  · intro s
    rw [hstore]
    exact List.Subset.refl _
  · intro s hclosed
    rw [isClosed, hstore] at hclosed
    rw [hstore]
    exact hwf.emptied s hclosed

theorem WellFormed.setSlot (hwf : h.WellFormed) (i : SlotId) (slot : Slot C) :
    (h.setSlot i slot).WellFormed :=
  hwf.of_stores_eq rfl (by simp)

theorem WellFormed.recorded (hwf : h.WellFormed) (o : StoreOccurrence) : (h.recorded o).WellFormed :=
  hwf.of_stores_eq rfl (Nat.le_refl _)

theorem WellFormed.claim (hwf : h.WellFormed) (s : StoreId) (i : SlotId) :
    (h.claim s i).2.WellFormed := by
  rw [Heap.claim]
  split
  · exact hwf
  · exact (hwf.setSlot i .computing).recorded _

theorem WellFormed.takeCleanup (hwf : h.WellFormed) (i : SlotId) :
    (h.takeCleanup i).2.WellFormed := by
  rw [Heap.takeCleanup]
  split
  · exact (hwf.setSlot i _).recorded _
  · exact hwf

theorem WellFormed.forget (hwf : h.WellFormed) (s : StoreId) (k : Key) : (h.forget s k).WellFormed := by
  apply hwf.of_fewer_entries (by simp)
  · intro s'
    rw [store_forget]
    split
    · next hs => rw [hs]; rfl
    · rfl
  · intro s'
    rw [store_forget]
    split
    · next hs =>
      rw [hs]
      exact (Store.erase_entries_sublist _ k).subset
    · exact List.Subset.refl _
  · intro s' hclosed
    rw [isClosed_forget] at hclosed
    rw [store_forget]
    split
    · next hs =>
      rw [hs] at hclosed
      rw [Store.erase, hwf.emptied s hclosed]
      rfl
    · exact hwf.emptied s' hclosed

/-- A new entry has a slot of its own. -/
theorem WellFormed.addEntry (hwf : h.WellFormed) (hopen : h.isClosed s = false) (k : Key)
    (slot : Slot C) : (h.addEntry s k slot).2.WellFormed := by
  have hlength : (h.addEntry s k slot).2.slots.length = h.slots.length + 1 := by
    simp [Heap.addEntry, Heap.recorded]
  have hentry {s' : StoreId} {k' : Key} {i : SlotId}
      (hmem : (k', i) ∈ ((h.addEntry s k slot).2.store s').entries) :
      (k', i) ∈ (h.store s').entries ∨ s' = s ∧ k' = k ∧ i = h.slots.length := by
    rw [store_addEntry hopen] at hmem
    split at hmem
    · next hs =>
      rw [Store.insert, List.mem_append, Store.mem_erase_entries, List.mem_singleton,
        Prod.mk.injEq] at hmem
      rcases hmem with ⟨hold, -⟩ | ⟨hk, hi⟩
      · rw [hs]
        exact .inl hold
      · exact .inr ⟨hs, hk, hi⟩
    · exact .inl hmem
  have hstore (s' : StoreId) : ((h.addEntry s k slot).2.store s').ancestors =
      (h.store s').ancestors := by
    rw [store_addEntry hopen]
    split
    · next hs => rw [hs]; rfl
    · rfl
  constructor
  case ancestry =>
    intro s' p above hs'
    rw [hstore] at hs' ⊢
    exact hwf.ancestry s' p above hs'
  case placed =>
    intro s' k' i hmem
    rw [hlength]
    rcases hentry hmem with hold | ⟨-, -, rfl⟩
    · exact Nat.lt_succ_of_lt (hwf.placed s' k' i hold)
    · exact Nat.lt_succ_self _
  case apart =>
    intro s₁ s₂ k₁ k₂ i hmem₁ hmem₂
    rcases hentry hmem₁ with hold₁ | ⟨rfl, rfl, rfl⟩
    · rcases hentry hmem₂ with hold₂ | ⟨rfl, rfl, rfl⟩
      · exact hwf.apart s₁ s₂ k₁ k₂ i hold₁ hold₂
      · exact absurd (hwf.placed _ _ _ hold₁) (Nat.lt_irrefl _)
    · rcases hentry hmem₂ with hold₂ | ⟨rfl, rfl, -⟩
      · exact absurd (hwf.placed _ _ _ hold₂) (Nat.lt_irrefl _)
      · exact ⟨rfl, rfl⟩
  case emptied =>
    intro s' hclosed
    rw [isClosed, store_addEntry hopen] at hclosed
    rw [store_addEntry hopen]
    by_cases hs : s' = s
    · rw [if_pos hs] at hclosed
      exact absurd (hopen.symm.trans hclosed) Bool.false_ne_true
    · rw [if_neg hs] at hclosed ⊢
      exact hwf.emptied s' hclosed

theorem WellFormed.reserve (hwf : h.WellFormed) (s : StoreId) (k : Key) :
    (h.reserve s k).2.WellFormed := by
  rw [Heap.reserve]
  split
  · exact hwf
  · next hopen =>
    split
    · exact hwf
    · split
      · exact hwf
      · exact hwf.addEntry (Bool.eq_false_iff.mpr hopen) k .vacant

theorem WellFormed.put (hwf : h.WellFormed) {stored : Stored C} {previous : Option Value}
    (hput : h.put s k stored = .ok (previous, h')) : h'.WellFormed := by
  obtain ⟨hopen, -, rfl⟩ := of_put hput
  exact (((hwf.forget s k).addEntry hopen k .vacant).setSlot _ _).recorded _

theorem WellFormed.remove (hwf : h.WellFormed) {t : Ty} {taken : Option Value}
    (hremove : h.remove s k t = .ok (taken, h')) : h'.WellFormed := by
  rcases of_remove hremove with ⟨-, rfl⟩ | ⟨-, rfl⟩
  · exact hwf
  · exact hwf.forget s k

theorem WellFormed.beginClose (hwf : h.WellFormed) {entries : List (Key × SlotId)}
    (hclose : h.beginClose s = some (entries, h')) : h'.WellFormed := by
  have hstore := store_beginClose hclose
  have hslots : h.slots.length ≤ h'.slots.length := by
    obtain ⟨-, -, rfl⟩ := of_beginClose hclose
    exact Nat.le_refl _
  apply hwf.of_fewer_entries hslots
  · intro s'
    rw [hstore]
    split
    · next hs => rw [hs]
    · rfl
  · intro s'
    rw [hstore]
    split
    · exact List.nil_subset _
    · exact List.Subset.refl _
  · intro s' hclosed
    rw [isClosed, hstore] at hclosed
    rw [hstore]
    split
    · rfl
    · next hs =>
      rw [if_neg hs] at hclosed
      exact hwf.emptied s' hclosed

end Entries

section Stores

theorem WellFormed.empty : (Heap.empty : Heap C).WellFormed where
  ancestry _ _ _ hancestors := nomatch hancestors
  placed _ _ _ hentry := absurd hentry List.not_mem_nil
  apart _ _ _ _ _ hentry := absurd hentry List.not_mem_nil
  emptied _ _ := rfl

/-- A new store, with the way up from an older one as its ancestors or with none. -/
theorem WellFormed.addStore (hwf : h.WellFormed) {ancestors : List StoreId}
    (hancestors : ancestors = [] ∨ ∃ p < h.stores.length, ancestors = h.chain p) :
    Heap.WellFormed { h with stores := h.stores ++ [⟨ancestors, false, []⟩] } := by
  have hentries {s' : StoreId} {entry : Key × SlotId}
      (hentry : entry ∈ (Heap.store { h with stores := h.stores ++ [⟨ancestors, false, []⟩] }
        s').entries) : entry ∈ (h.store s').entries := by
    rw [store_append] at hentry
    split at hentry
    · exact absurd hentry List.not_mem_nil
    · exact hentry
  constructor
  case ancestry =>
    intro s p above hs
    rw [store_append] at hs
    rw [store_append]
    have hchild : p < s ∧ above = (h.store p).ancestors ∧ p < h.stores.length := by
      split at hs
      · next hnew =>
        rcases hancestors with hnone | ⟨parent, hparent, hchain⟩
        · rw [hnone] at hs
          cases hs
        · rw [hchain, chain, List.cons.injEq] at hs
          obtain ⟨rfl, rfl⟩ := hs
          rw [hnew]
          exact ⟨hparent, rfl, hparent⟩
      · obtain ⟨hlt, habove⟩ := hwf.ancestry s p above hs
        have hold : s < h.stores.length := by
          by_contra hbeyond
          rw [store, List.getElem?_eq_none (Nat.le_of_not_lt hbeyond)] at hs
          cases hs
        exact ⟨hlt, habove, Nat.lt_trans hlt hold⟩
    rw [if_neg (Nat.ne_of_lt hchild.2.2)]
    exact ⟨hchild.1, hchild.2.1⟩
  case placed => exact fun s k i hentry => hwf.placed s k i (hentries hentry)
  case apart =>
    intro s s' k k' i hentry hentry'
    exact hwf.apart s s' k k' i (hentries hentry) (hentries hentry')
  case emptied =>
    intro s hclosed
    rw [isClosed, store_append] at hclosed
    rw [store_append]
    split
    · rfl
    · next hs =>
      rw [if_neg hs] at hclosed
      exact hwf.emptied s hclosed

end Stores

end Heap

namespace World

variable {w w' : World H}

theorem Plain.wellFormed (hplain : Plain w w') (hwf : w.heap.WellFormed) : w'.heap.WellFormed := by
  cases hplain.heapEffect with
  | same hheap =>
      rw [hheap]
      exact hwf
  | storeMade ancestors habove hheap =>
      rw [hheap]
      exact hwf.addStore habove
  | put hput => exact hwf.put hput
  | removed hremove => exact hwf.remove hremove

/-- Nothing that can happen makes the stores ill-formed. -/
theorem Move.wellFormed (hmove : Move w w') (hwf : w.heap.WellFormed) : w'.heap.WellFormed := by
  cases hmove with
  | plain hplain => exact hplain.wellFormed hwf
  | reserved s k => exact hwf.reserve s k
  | claimed s i => exact hwf.claim s i
  | vacated i => exact hwf.setSlot i .vacant
  | filled s i datum cleanup => exact (hwf.setSlot i _).recorded _
  | cleanupTaken i => exact hwf.takeCleanup i
  | closeBegun s =>
      rw [World.beginClose]
      split
      · exact hwf
      · next hclose => exact hwf.beginClose hclose
  | delivered id result => exact hwf
  | moved time =>
      rw [heap_moveTo]
      exact hwf

theorem Reachable.wellFormed (hw : w.Reachable) : w.heap.WellFormed := by
  obtain ⟨state, hmoves⟩ := hw
  induction hmoves with
  | refl => exact .empty
  | tail _ hmove ih => exact hmove.wellFormed ih

end World

end TimedInvocation
