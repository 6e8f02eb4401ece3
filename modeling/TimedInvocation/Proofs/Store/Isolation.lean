import Mathlib.Data.List.TakeWhile
import TimedInvocation.Proofs.Store.Agreement

/-!
# What lookups see of other stores

A lookup sees the value of the nearest store on the way up that holds one for exactly its key, and goes
past closed stores. An operation on a store changes what the store holds for the keys that it is about,
and nothing else. So a lookup from another store notices it only from below, for one of these keys, and
only if no store in between holds a value of its own.
-/

namespace TimedInvocation

open Relation World

variable {H : Host} {α : Type} {C : Type}

namespace Heap

variable {h h₁ h' : Heap C} {s d : StoreId} {i j : SlotId} {k : Key} {t : Ty} {keys : Key → Prop}

section Slots

theorem value?_claim (s : StoreId) (i j : SlotId) :
    ((h.claim s i).2.slot j).value? = (h.slot j).value? := by
  rw [claim]
  split
  · rfl
  · next hvalue => exact value?_setSlot .computing hvalue.symm j

theorem value?_takeCleanup (i j : SlotId) :
    ((h.takeCleanup i).2.slot j).value? = (h.slot j).value? := by
  rw [takeCleanup]
  split
  · next v c hslot =>
    have hvalue : (Slot.holding (C := C) ⟨v, none⟩).value? = (h.slot i).value? := by
      rw [hslot]
      rfl
    exact value?_setSlot _ hvalue j
  · rfl

theorem value?_addEntry (k : Key) (j : SlotId) :
    ((h.addEntry s k .vacant).2.slot j).value? = (h.slot j).value? := by
  rw [slot_addEntry]
  split
  · next hj =>
    rw [slot_of_length_le (Nat.le_of_eq hj.symm)]
  · rfl

end Slots

/-- All that lookups find in two heaps is the same, apart from what one store holds for some keys. -/
structure Confined (s : StoreId) (keys : Key → Prop) (h h' : Heap C) : Prop where
  ancestors : ∀ d, (h'.store d).ancestors = (h.store d).ancestors
  values : ∀ d k, (d = s → ¬ keys k) → h'.localValue? d k = h.localValue? d k

/-- No store is closed, and what lookups find is confined. -/
structure Within (s : StoreId) (keys : Key → Prop) (h h' : Heap C) : Prop
    extends Confined s keys h h' where
  closed : ∀ d, h'.isClosed d = h.isClosed d

/-- A store is closed and holds nothing any more, and no other store is affected. -/
structure ClosedOff (s : StoreId) (h h' : Heap C) : Prop
    extends Confined s (fun k => h.localValue? s k ≠ none) h h' where
  shut : h'.isClosed s = true
  emptied : ∀ k, h'.localValue? s k = none
  others : ∀ d, d ≠ s → h'.isClosed d = h.isClosed d

namespace Within

theorem refl (h : Heap C) : Within s keys h h :=
  ⟨⟨fun _ => rfl, fun _ _ _ => rfl⟩, fun _ => rfl⟩

theorem trans (hfirst : Within s keys h h₁) (hrest : Within s keys h₁ h') :
    Within s keys h h' where
  ancestors d := (hrest.ancestors d).trans (hfirst.ancestors d)
  closed d := (hrest.closed d).trans (hfirst.closed d)
  values d k hk := (hrest.values d k hk).trans (hfirst.values d k hk)

/-- The stores are the same, and so are the values of the slots. -/
theorem of_values (hstore : ∀ d, h'.store d = h.store d)
    (hvalues : ∀ j, (h'.slot j).value? = (h.slot j).value?) : Within s keys h h' where
  ancestors d := by rw [hstore]
  closed d := by rw [isClosed, hstore, isClosed]
  values d k _ := by simp only [localValue?, hstore, hvalues]

theorem claim (i : SlotId) : Within s keys h (h.claim s i).2 :=
  of_values (store_claim s i) (value?_claim s i)

theorem vacate (hvalue : (h.slot i).value? = none) : Within s keys h (h.vacate i) :=
  of_values (fun _ => rfl) (value?_setSlot .vacant hvalue.symm)

theorem takeCleanup (i : SlotId) : Within s keys h (h.takeCleanup i).2 :=
  of_values (store_takeCleanup i) (value?_takeCleanup i)

/-- Dropping the entry for a key. -/
theorem forget (k : Key) : Within s (· = k) h (h.forget s k) where
  ancestors d := by
    rw [store_forget]
    split
    · next hd => rw [hd]; rfl
    · rfl
  closed d := isClosed_forget s k d
  values d k' hk' := by
    simp only [localValue?, slot, slots_forget]
    rw [store_forget]
    split
    · next hd => rw [Store.slot?_erase, if_neg (hk' hd), hd]
    · rfl

/-- A new entry for a key. -/
theorem addEntry (hopen : h.isClosed s = false) (k : Key) :
    Within s (· = k) h (h.addEntry s k .vacant).2 where
  ancestors d := by
    rw [store_addEntry hopen]
    split
    · next hd => rw [hd]; rfl
    · rfl
  closed d := by
    rw [isClosed, store_addEntry hopen]
    split
    · next hd => rw [hd]; rfl
    · rfl
  values d k' hk' := by
    simp only [localValue?, value?_addEntry]
    rw [store_addEntry hopen]
    split
    · next hd => rw [Store.slot?_insert, if_neg (hk' hd), hd]
    · rfl

/-- A value for the entry of a key. No other entry has its slot. -/
theorem fill (hwf : h.WellFormed) (hslot : (h.store s).slot? k = some i) (stored : Stored C) :
    Within s (· = k) h (h.fill s i stored) where
  ancestors _ := rfl
  closed _ := rfl
  values d k' hk' := by
    have hstore : (h.fill s i stored).store d = h.store d := rfl
    cases hother : (h.store d).slot? k' with
    | none => simp only [localValue?, hstore, hother, Option.bind_none]
    | some j =>
        have hj : j ≠ i := by
          rintro rfl
          obtain ⟨rfl, rfl⟩ := hwf.apart d s k' k j (Store.mem_of_slot? hother)
            (Store.mem_of_slot? hslot)
          exact hk' rfl rfl
        have hvalue : (h.fill s i stored).slot j = h.slot j := slot_setSlot_of_ne _ hj
        simp only [localValue?, hstore, hother, Option.bind_some, hvalue]

theorem put (hwf : h.WellFormed) {stored : Stored C} {previous : Option Value}
    (hput : h.put s k stored = .ok (previous, h')) : Within s (· = k) h h' := by
  obtain ⟨hopen, -, rfl⟩ := of_put hput
  have hentry : ((((h.forget s k).addEntry s k .vacant).2).store s).slot? k = some h.slots.length := by
    rw [store_addEntry hopen, if_pos rfl, Store.slot?_insert, if_pos rfl, slots_forget]
  have hforgotten : Within s (· = k) h (h.forget s k) := forget k
  have hentered := hforgotten.trans (addEntry hopen k)
  exact hentered.trans (fill ((hwf.forget s k).addEntry hopen k .vacant) hentry stored)

theorem remove {taken : Option Value} (hremove : h.remove s k t = .ok (taken, h')) :
    Within s (· = k) h h' := by
  rcases of_remove hremove with ⟨-, rfl⟩ | ⟨-, rfl⟩
  · exact refl _
  · exact forget k

theorem reservation {admission : Admission} (hreservation : Reservation h s k admission h') :
    Within s (· = k) h h' := by
  cases hreservation with
  | refused | present | inherited => exact refl h
  | made hopen => exact addEntry hopen k

end Within

theorem ClosedOff.of_beginClose {entries : List (Key × SlotId)}
    (hclose : h.beginClose s = some (entries, h')) : ClosedOff s h h' where
  ancestors d := by
    rw [store_beginClose hclose]
    split
    · next hd => rw [hd]
    · rfl
  values d k hk := by
    have hslots : h'.slots = h.slots := by
      obtain ⟨-, -, rfl⟩ := Heap.of_beginClose hclose
      rfl
    simp only [localValue?, slot, hslots, store_beginClose hclose]
    split
    · next hd =>
      have hheld : h.localValue? d k = none := by
        rw [hd]
        exact not_not.mp (hk hd)
      exact hheld.symm
    · rfl
  shut := by rw [isClosed, store_beginClose hclose, if_pos rfl]
  emptied k := by
    rw [localValue?, store_beginClose hclose, if_pos rfl]
    rfl
  others d hd := by rw [isClosed, store_beginClose hclose, if_neg hd, isClosed]

theorem ClosedOff.within (hclosed : ClosedOff s h h₁) (hrest : Within s (fun _ => False) h₁ h') :
    ClosedOff s h h' where
  ancestors d := (hrest.ancestors d).trans (hclosed.ancestors d)
  values d k hk := (hrest.values d k fun _ => not_false).trans (hclosed.values d k hk)
  shut := (hrest.closed s).trans hclosed.shut
  emptied k := (hrest.values s k fun _ => not_false).trans (hclosed.emptied k)
  others d hd := (hrest.closed d).trans (hclosed.others d hd)

section Lookups

theorem nearest?_congr {stores : List StoreId}
    (hvalues : ∀ m ∈ stores, h'.localValue? m k = h.localValue? m k) :
    h'.nearest? k stores = h.nearest? k stores := by
  induction stores with
  | nil => rfl
  | cons m rest ih =>
      have hrest := ih fun n hn => hvalues n (List.mem_cons_of_mem m hn)
      rw [nearest?, List.findSome?_cons, hvalues m List.mem_cons_self, nearest?, List.findSome?_cons]
      cases h.localValue? m k with
      | some v => rfl
      | none => exact hrest

theorem chain_congr (hancestors : (h'.store d).ancestors = (h.store d).ancestors) :
    h'.chain d = h.chain d := by
  rw [chain, hancestors, chain]

theorem lookup?_congr (hancestors : (h'.store d).ancestors = (h.store d).ancestors)
    (hvalues : ∀ m ∈ h.chain d, h'.localValue? m k = h.localValue? m k) :
    h'.lookup? d k = h.lookup? d k := by
  rw [lookup?_eq_nearest?_chain, lookup?_eq_nearest?_chain, chain_congr hancestors]
  exact nearest?_congr hvalues

/-- What is nearer than a store that holds a value is all that decides a lookup. -/
theorem nearest?_eq_takeWhile (hshield : ∃ m ∈ (h.chain d).takeWhile (· ≠ s), h.localValue? m k ≠ none) :
    h.lookup? d k = h.nearest? k ((h.chain d).takeWhile (· ≠ s)) := by
  have hfound : (((h.chain d).takeWhile (· ≠ s)).findSome? fun m => h.localValue? m k).isSome := by
    rw [List.findSome?_isSome_iff]
    obtain ⟨m, hm, hvalue⟩ := hshield
    exact ⟨m, hm, Option.isSome_iff_ne_none.mpr hvalue⟩
  calc
    h.lookup? d k = h.nearest? k ((h.chain d).takeWhile (· ≠ s) ++ (h.chain d).dropWhile (· ≠ s)) := by
      rw [List.takeWhile_append_dropWhile]
      rfl
    _ = h.nearest? k ((h.chain d).takeWhile (· ≠ s)) := by
      rw [nearest?, List.findSome?_append, Option.or_of_isSome hfound]
      rfl

/-- A lookup from another store notices a change only from below, for a key that it is about, and if no
nearer store holds a value. -/
theorem Confined.of_lookup?_ne (hconfined : Confined s keys h h') (hd : d ≠ s)
    (hchanged : h'.lookup? d k ≠ h.lookup? d k) :
    s ∈ (h.store d).ancestors ∧ keys k ∧
      ∀ m ∈ (h.chain d).takeWhile (· ≠ s), h.localValue? m k = none := by
  have hother (m : StoreId) (hm : m ≠ s) : h'.localValue? m k = h.localValue? m k :=
    hconfined.values m k fun heq => absurd heq hm
  refine ⟨?_, ?_, ?_⟩
  · by_contra hnot
    apply hchanged
    apply lookup?_congr (hconfined.ancestors d)
    intro m hm
    apply hother
    rintro rfl
    exact (List.mem_cons.mp hm).elim (fun heq => hd heq.symm) hnot
  · by_contra hnot
    apply hchanged
    exact lookup?_congr (hconfined.ancestors d) fun m _ => hconfined.values m k fun _ => hnot
  · by_contra hnot
    apply hchanged
    have hchain : h'.chain d = h.chain d := chain_congr (hconfined.ancestors d)
    have hnearer (m : StoreId) (hm : m ∈ (h.chain d).takeWhile (· ≠ s)) :
        h'.localValue? m k = h.localValue? m k :=
      hother m (by simpa using List.mem_takeWhile_imp hm)
    obtain ⟨m, hm, hvalue⟩ : ∃ m ∈ (h.chain d).takeWhile (· ≠ s), h.localValue? m k ≠ none := by
      simpa using hnot
    have hshield : h.lookup? d k = _ := nearest?_eq_takeWhile ⟨m, hm, hvalue⟩
    have hshield' : h'.lookup? d k = h'.nearest? k ((h'.chain d).takeWhile (· ≠ s)) := by
      apply nearest?_eq_takeWhile
      rw [hchain]
      exact ⟨m, hm, by rwa [hnearer m hm]⟩
    rw [hshield', hshield, hchain]
    exact nearest?_congr hnearer

theorem get_congr (hclosed : h'.isClosed d = h.isClosed d) (hlookup : h'.lookup? d k = h.lookup? d k) :
    h'.get d k t = h.get d k t := by
  rw [get, get, hclosed, hlookup]

/-- A closed store holds nothing, so lookups go past it. -/
theorem WellFormed.localValue?_of_closed (hwf : h.WellFormed) (hclosed : h.isClosed s = true) (k : Key) :
    h.localValue? s k = none := by
  rw [localValue?, Store.slot?, hwf.emptied s hclosed]
  rfl

theorem lookup?_eq_nearest?_filter (hnothing : h.localValue? s k = none) (d : StoreId) :
    h.lookup? d k = h.nearest? k ((h.chain d).filter (· ≠ s)) := by
  rw [lookup?_eq_nearest?_chain, nearest?, nearest?]
  induction h.chain d with
  | nil => rfl
  | cons m rest ih =>
      by_cases hm : m = s
      · simpa [hm, hnothing] using ih
      · simp [hm, List.findSome?_cons, ih]

end Lookups

end Heap

/-- The user code that was called left the stores alone. -/
def Mark.Quiet : Mark H → Prop
  | .noted _ => True
  | .called c => c.finish.heap = c.start.heap

namespace Routine

variable {runner : Runner H} {w w' : World H} {s : StoreId} {k : Key} {marks : List (Mark H)}
  {keys : Key → Prop}

/-- Every step of the routine confines its effect to what a store holds for some keys. -/
def StaysWithin (s : StoreId) (keys : Key → Prop) : Routine H α → Prop
  | .ended _ => True
  | .step _ change next =>
      ∀ w : World H, Heap.Within s keys w.heap (change w).heap ∧ (next w).StaysWithin s keys
  | .call _ next => ∀ outcome, (next outcome).StaysWithin s keys

theorem StaysWithin.bind {β : Type} {routine : Routine H α} {rest : α → Routine H β}
    (hroutine : routine.StaysWithin s keys) (hrest : ∀ a, (rest a).StaysWithin s keys) :
    (routine >>= rest).StaysWithin s keys := by
  change (routine.andThen rest).StaysWithin s keys
  induction routine with
  | ended outcome =>
      cases outcome with
      | returned a => exact hrest a
      | panicked payload => trivial
  | step pause change next ih => exact fun w => ⟨(hroutine w).1, ih w (hroutine w).2⟩
  | call program next ih => exact fun outcome => ih outcome (hroutine outcome)

/-- So does every run whose user code leaves the stores alone. -/
theorem StaysWithin.within {routine : Routine H α} {outcome : Outcome α}
    (hroutine : routine.StaysWithin s keys)
    (hruns : routine.Runs SameHeap @runner w marks outcome w') (hquiet : ∀ mark ∈ marks, mark.Quiet) :
    Heap.Within s keys w.heap w'.heap := by
  induction hruns with
  | ended hwait =>
      rw [heap_eq_of_waiting hwait]
      exact .refl _
  | @step _ _ _ _ w₁ _ _ _ hwait _ _ ih =>
      have hstep := hroutine w₁
      rw [heap_eq_of_waiting hwait] at hstep
      exact hstep.1.trans (ih hstep.2 fun mark hmark => hquiet mark (List.mem_append_right _ hmark))
  | @call _ c _ _ _ _ _ hwait _ _ ih =>
      have hcall : c.finish.heap = c.start.heap := hquiet (.called c) List.mem_cons_self
      have hrest := ih (hroutine c.outcome) fun mark hmark => hquiet mark (List.mem_cons_of_mem _ hmark)
      rw [hcall, heap_eq_of_waiting hwait] at hrest
      exact hrest

theorem staysWithin_cleanSlot (s : StoreId) (keys : Key → Prop) (k : Key) (i : SlotId) :
    (cleanSlot k i : Routine H _).StaysWithin s keys := by
  intro w
  refine ⟨.takeCleanup i, ?_⟩
  simp only [pure, Routine.andThen]
  cases (w.takeCleanup i).1 with
  | none => trivial
  | some cleanup => exact fun _ => trivial

theorem staysWithin_cleanEntries (s : StoreId) (keys : Key → Prop) (entries : List (Key × SlotId)) :
    (cleanEntries entries : Routine H _).StaysWithin s keys := by
  induction entries with
  | nil => trivial
  | cons entry rest ih =>
      apply (staysWithin_cleanSlot s keys entry.1 entry.2).bind
      intro error
      exact ih.bind fun _ => trivial

/-- A computation affects what the store holds for the key. -/
theorem within_compute {t : Ty} {factory : Program H (.datum t)}
    {cleanup : Option (Value → Program H .done)} {outcome : Outcome (Except StoreError Value)}
    (hwf : w.heap.WellFormed)
    (hruns : (compute s k t (run factory) cleanup).Runs SameHeap @runner w marks outcome w')
    (hquiet : ∀ mark ∈ marks, mark.Quiet) : Heap.Within s (· = k) w.heap w'.heap := by
  cases runs_compute hruns with
  | refused _ hheap | found _ _ hheap =>
      rw [hheap]
      exact .refl _
  | @panicked i h₁ c _ _ hslot hvalue _ hstart _ _ hheap =>
      have hcall : c.finish.heap = c.start.heap := hquiet (.called c) List.mem_cons_self
      have hreserved : Heap.Within s (· = k) w.heap h₁ := .reservation hslot
      have hclaimed : Heap.Within s (· = k) w.heap (h₁.claim s i).2 := hreserved.trans (.claim i)
      rw [hheap, hcall, hstart]
      apply hclaimed.trans (.vacate _)
      rw [Heap.value?_claim]
      exact hvalue
  | @computed i h₁ c _ v filled _ _ _ hslot hvalue _ hstart _ _ _ hheap huse =>
      have hcall : c.finish.heap = c.start.heap := hquiet (.called c) List.mem_cons_self
      have hreserved : Heap.Within s (· = k) w.heap h₁ := .reservation hslot
      have hclaimed : Heap.Within s (· = k) w.heap (h₁.claim s i).2 := hreserved.trans (.claim i)
      obtain ⟨hopen, hentry⟩ := hslot.entry
      have hfilled : Heap.Within s (· = k) w.heap filled.heap := by
        rw [hheap, hcall, hstart]
        apply hclaimed.trans
        apply Heap.Within.fill ((hslot.wellFormed hwf).claim s i)
        rw [Heap.store_claim]
        exact hentry
      have hopen' : filled.heap.isClosed s = false := by
        rw [hfilled.closed, ← hreserved.closed]
        exact hopen
      obtain ⟨-, -, hlast⟩ := runs_useSlot_of_open hopen' huse
      rw [hlast]
      exact hfilled

/-- Closing a store takes away what it holds. -/
theorem closedOff_close {outcome : Outcome (Except StoreCloseError Unit)}
    (hwf : w.heap.WellFormed)
    (hruns : (close s).Runs SameHeap @runner w marks outcome w')
    (hquiet : ∀ mark ∈ marks, mark.Quiet) : Heap.ClosedOff s w.heap w'.heap := by
  cases hclosed : w.heap.isClosed s with
  | true =>
      obtain ⟨-, -, hheap⟩ := runs_close_of_closed hclosed hruns
      rw [hheap]
      exact ⟨⟨fun _ => rfl, fun _ _ _ => rfl⟩, hclosed, hwf.localValue?_of_closed hclosed, fun _ _ => rfl⟩
  | false =>
      have hbegin := Heap.beginClose_eq hclosed
      obtain ⟨begun, hheap, hclean⟩ := runs_close_begun hbegin hruns
      have hrest : Heap.Within s (fun _ => False) begun.heap w'.heap := by
        refine StaysWithin.within ?_ hclean hquiet
        apply (staysWithin_cleanEntries s _ _).bind
        intro errors
        split
        · trivial
        · trivial
      rw [hheap] at hrest
      exact (Heap.ClosedOff.of_beginClose hbegin).within hrest

end Routine

/-- An operation on a store that may change what the store holds. -/
inductive StoreAction (H : Host) where
  | put (k : Key) (datum : Datum) (cleanup : Option (Value → Program H .done))
  | remove (k : Key) (t : Ty)
  | compute (k : Key) (t : Ty) (factory : Program H (.datum t))
      (cleanup : Option (Value → Program H .done))
  | close

namespace StoreAction

@[reducible] def Answer : StoreAction H → Type
  | put _ _ _ | remove _ _ => Except StoreError (Option Value)
  | compute _ _ _ _ => Except StoreError Value
  | close => Except StoreCloseError Unit

def routine (s : StoreId) : (action : StoreAction H) → Routine H action.Answer
  | put k datum cleanup => .put s k datum cleanup
  | remove k t => .remove s k t
  | compute k t factory cleanup => .compute s k t (.run factory) cleanup
  | close => .close s

/-- The key that is operated on. Closing a store is about no particular one. -/
def key? : StoreAction H → Option Key
  | put k _ _ | remove k _ | compute k _ _ _ => some k
  | close => none

/-- The keys for which an operation may change what the store holds. -/
def Concerns (action : StoreAction H) (h : Heap C) (s : StoreId) (k : Key) : Prop :=
  match action.key? with
  | some key => k = key
  | none => h.localValue? s k ≠ none

variable {runner : Runner H} {w w' : World H} {s : StoreId} {k : Key} {marks : List (Mark H)}

theorem concerns_of_key {action : StoreAction H} (hkey : action.key? = some k) (h : Heap C)
    (s : StoreId) : action.Concerns h s = (· = k) := by
  funext k'
  rw [Concerns, hkey]

/-- What an operation on a key changes is within its store and about its key. -/
theorem within (hwf : w.heap.WellFormed) {action : StoreAction H} {outcome : Outcome action.Answer}
    (hkey : action.key? = some k)
    (hruns : (action.routine s).Runs SameHeap @runner w marks outcome w')
    (hquiet : ∀ mark ∈ marks, mark.Quiet) : Heap.Within s (· = k) w.heap w'.heap := by
  cases action with
  | put key datum cleanup =>
      cases hkey
      obtain ⟨w₁, hwait, -, -, hafter⟩ := Routine.runs_update_iff.mp hruns
      rw [heap_eq_of_waiting hafter, ← heap_eq_of_waiting hwait, World.put]
      split
      · exact .refl _
      · next hput =>
        rw [← heap_eq_of_waiting hwait] at hwf
        exact .put hwf hput
  | remove key t =>
      cases hkey
      obtain ⟨w₁, hwait, -, -, hafter⟩ := Routine.runs_update_iff.mp hruns
      rw [heap_eq_of_waiting hafter, ← heap_eq_of_waiting hwait, World.remove]
      split
      · exact .refl _
      · next hremove => exact .remove hremove
  | compute key t factory cleanup =>
      cases hkey
      exact Routine.within_compute hwf hruns hquiet
  | close => cases hkey

/-- An operation changes what its store holds for the keys that it is about. -/
theorem confined (hwf : w.heap.WellFormed) {action : StoreAction H} {outcome : Outcome action.Answer}
    (hruns : (action.routine s).Runs SameHeap @runner w marks outcome w')
    (hquiet : ∀ mark ∈ marks, mark.Quiet) :
    Heap.Confined s (action.Concerns w.heap s) w.heap w'.heap ∧
      ∀ d, d ≠ s → w'.heap.isClosed d = w.heap.isClosed d := by
  cases hkey : action.key? with
  | some key =>
      have hwithin := within hwf hkey hruns hquiet
      rw [concerns_of_key hkey]
      exact ⟨hwithin.toConfined, fun d _ => hwithin.closed d⟩
  | none =>
      cases action with
      | close =>
          have hclosed := Routine.closedOff_close hwf hruns hquiet
          exact ⟨hclosed.toConfined, hclosed.others⟩
      | put | remove | compute => cases hkey

end StoreAction

/-- What lookups find in a world, and what they see of an operation that has the stores to itself and whose
factory or cleanup actions leave the stores alone. -/
structure World.VisibilityLaw (w : World H) (runner : Runner H) : Prop where
  path : ∀ d, (w.heap.chain d).head? = some d ∧
    ((w.heap.chain d).IsChain fun below above => w.heap.parent? below = some above) ∧
      (w.heap.chain d).getLast?.bind w.heap.parent? = none
  nearest : ∀ d k t nearer n further v, w.heap.isClosed d = false →
    w.heap.chain d = nearer ++ n :: further → w.heap.localValue? n k = some v →
      (∀ m ∈ nearer, w.heap.localValue? m k = none) →
        w.heap.get d k t = (Heap.cast k t v).map some
  nothing : ∀ d k t, w.heap.isClosed d = false →
    (∀ m ∈ w.heap.chain d, w.heap.localValue? m k = none) → w.heap.get d k t = .ok none
  skipped : ∀ s d k, w.heap.isClosed s = true →
    w.heap.lookup? d k = w.heap.nearest? k ((w.heap.chain d).filter (· ≠ s))
  elsewhere : ∀ (action : StoreAction H) s marks outcome w',
    (action.routine s).Runs SameHeap @runner w marks outcome w' → (∀ mark ∈ marks, mark.Quiet) →
      ∀ d k t, d ≠ s → w'.heap.get d k t ≠ w.heap.get d k t →
        s ∈ (w.heap.store d).ancestors ∧ action.Concerns w.heap s k ∧
          ∀ m ∈ (w.heap.chain d).takeWhile (· ≠ s), w.heap.localValue? m k = none
  here : ∀ (action : StoreAction H) s key marks outcome w', action.key? = some key →
    (action.routine s).Runs SameHeap @runner w marks outcome w' → (∀ mark ∈ marks, mark.Quiet) →
      ∀ k t, k ≠ key → w'.heap.get s k t = w.heap.get s k t
  closing : ∀ s marks outcome w', (Routine.close s).Runs SameHeap @runner w marks outcome w' →
    (∀ mark ∈ marks, mark.Quiet) → (∀ k t, w'.heap.get s k t = .error (.closed k)) ∧
      ∀ d k, w'.heap.lookup? d k = w.heap.nearest? k ((w.heap.chain d).filter (· ≠ s))
  namesakes : ∀ (action : StoreAction H) s key marks outcome w', action.key? = some key →
    (action.routine s).Runs SameHeap @runner w marks outcome w' → (∀ mark ∈ marks, mark.Quiet) →
      ∀ d k t, k.scope.parts ≠ key.scope.parts → w'.heap.get d k t = w.heap.get d k t

/-- Every world that moves lead to is one in which lookups follow the law. -/
theorem lookups_follow_visibility_law {w : World H} (hw : w.Reachable) (runner : Runner H) :
    w.VisibilityLaw @runner where
  path d := ⟨rfl, hw.wellFormed.isChain_chain d, hw.wellFormed.parent?_getLast_chain d⟩
  nearest d k t nearer n further v hopen hchain hvalue hnearer := by
    apply Heap.get_of_lookup? hopen
    exact Heap.lookup?_eq_some_iff.mpr ⟨nearer, n, further, hchain, hvalue, hnearer⟩
  nothing d k t hopen hnone := Heap.get_of_nothing hopen (Heap.lookup?_eq_none_iff.mpr hnone)
  skipped s d k hclosed :=
    Heap.lookup?_eq_nearest?_filter (hw.wellFormed.localValue?_of_closed hclosed k) d
  elsewhere action s marks outcome w' hruns hquiet d k t hd hchanged := by
    obtain ⟨hconfined, hothers⟩ := StoreAction.confined hw.wellFormed hruns hquiet
    apply hconfined.of_lookup?_ne hd
    intro hlookup
    exact hchanged (Heap.get_congr (hothers d hd) hlookup)
  here action s key marks outcome w' hkey hruns hquiet k t hk := by
    have hwithin := StoreAction.within hw.wellFormed hkey hruns hquiet
    apply Heap.get_congr (hwithin.closed s)
    exact Heap.lookup?_congr (hwithin.ancestors s) fun m _ => hwithin.values m k fun _ => hk
  closing s marks outcome w' hruns hquiet := by
    have hclosed := Routine.closedOff_close hw.wellFormed hruns hquiet
    refine ⟨fun k t => Heap.get_of_closed hclosed.shut, ?_⟩
    intro d k
    rw [Heap.lookup?_eq_nearest?_filter (hclosed.emptied k) d,
      Heap.chain_congr (hclosed.ancestors d)]
    apply Heap.nearest?_congr
    intro m hm
    have hother : m ≠ s := by simpa using (List.mem_filter.mp hm).2
    exact hclosed.values m k fun heq => absurd heq hother
  namesakes action s key marks outcome w' hkey hruns hquiet d k t hparts := by
    have hwithin := StoreAction.within hw.wellFormed hkey hruns hquiet
    have hk : k ≠ key := fun heq => hparts (congrArg (fun key => key.scope.parts) heq)
    apply Heap.get_congr (hwithin.closed d)
    exact Heap.lookup?_congr (hwithin.ancestors d) fun m _ => hwithin.values m k fun _ => hk

/-- A store with a child and a grandchild, and a value in the outermost one. -/
def Program.family : Program Host.bare .done :=
  .call (.newStore none) fun outer => .call (.newStore (some outer)) fun middle =>
    .call (.newStore (some middle)) fun _ =>
      .call (.put outer ⟨⟨["files"]⟩, "log"⟩ .unit) fun _ => .finish (.ok ())

theorem lookups_follow_visibility_law_family :
    let w := ((Program.family.exec 5 none).advance (World.initial ())).2
    let runner : Runner Host.bare := fun program => program.exec 1 none
    w.heap.chain 2 = [2, 1, 0] ∧
      w.heap.get 2 ⟨⟨["files"]⟩, "log"⟩ .unit = .ok (some ⟨0, .unit⟩) ∧ w.VisibilityLaw @runner := by
  intro w runner
  refine ⟨by decide, by decide, ?_⟩
  exact lookups_follow_visibility_law (Program.reachable_advance 5 none Program.family ()) @runner

end TimedInvocation
