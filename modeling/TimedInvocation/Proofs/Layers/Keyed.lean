import TimedInvocation.Layers.Builder

/-!
# Values by key

Overrides, variables and the members of tables are lists of values by key in which a key that is set again
keeps its place. The lemmas here are about all of them: which value such a list holds for a key, and that it
is the value which the key was given last.
-/

namespace TimedInvocation.Layers

variable {α β : Type}

/-- What a list holds last of the kind that a function picks out. -/
def lastOf (pick : α → Option β) (list : List α) : Option β :=
  (list.filterMap pick).getLast?

section lastOf

variable {pick : α → Option β}

@[simp]
theorem lastOf_nil : lastOf pick [] = none :=
  rfl

@[simp]
theorem lastOf_append (front back : List α) :
    lastOf pick (front ++ back) = (lastOf pick back).or (lastOf pick front) := by
  simp [lastOf, List.filterMap_append, List.getLast?_append]

theorem lastOf_singleton (a : α) : lastOf pick [a] = pick a := by
  cases h : pick a <;> simp [lastOf, h]

theorem lastOf_cons (a : α) (rest : List α) : lastOf pick (a :: rest) = (lastOf pick rest).or (pick a) := by
  rw [← List.singleton_append, lastOf_append, lastOf_singleton]

theorem lastOf_map {γ : Type} (f : γ → α) (list : List γ) :
    lastOf pick (list.map f) = lastOf (fun c => pick (f c)) list := by
  simp only [lastOf, List.filterMap_map]
  rfl

theorem lastOf_filterMap {γ : Type} (f : γ → Option α) (list : List γ) :
    lastOf pick (list.filterMap f) = lastOf (fun c => (f c).bind pick) list := by
  simp only [lastOf, List.filterMap_filterMap]

theorem lastOf_congr {other : α → Option β} {list : List α} (hsame : ∀ a ∈ list, pick a = other a) :
    lastOf pick list = lastOf other list := by
  induction list with
  | nil => rfl
  | cons a rest ih =>
      rw [lastOf_cons, lastOf_cons, hsame a List.mem_cons_self,
        ih fun b hb => hsame b (List.mem_cons_of_mem a hb)]

end lastOf

namespace Keyed

variable {κ ν : Type} [DecidableEq κ] {key other : κ} {value : ν} {known : List (κ × ν)}

/-- The values with the one of a key replaced in its place, or with a new one at the end. -/
def put (key : κ) (value : ν) : List (κ × ν) → List (κ × ν)
  | [] => [(key, value)]
  | (other, old) :: rest =>
    if other = key then (key, value) :: rest else (other, old) :: put key value rest

/-- The value of an entry for a key. -/
def valueFor (key : κ) (entry : κ × ν) : Option ν :=
  if entry.1 = key then some entry.2 else none

theorem lookup_cons (entry : κ × ν) (rest : List (κ × ν)) :
    (entry :: rest).lookup key = if key = entry.1 then some entry.2 else rest.lookup key := by
  obtain ⟨first, value⟩ := entry
  by_cases hkey : key = first
  · simp [hkey]
  · simp [List.lookup_cons, beq_false_of_ne hkey, hkey]

theorem lookup_put : (put key value known).lookup other =
    if other = key then some value else known.lookup other := by
  induction known with
  | nil => simp [put, lookup_cons]
  | cons entry rest ih =>
      obtain ⟨first, old⟩ := entry
      by_cases hfirst : first = key
      · subst hfirst
        by_cases hother : other = first <;> simp [put, lookup_cons, hother]
      · by_cases hother : other = key
        · subst hother
          simp [put, hfirst, lookup_cons, ih, Ne.symm hfirst]
        · simp [put, hfirst, lookup_cons, ih, hother]

theorem put_put (later : ν) : put key later (put key value known) = put key later known := by
  induction known with
  | nil => simp [put]
  | cons entry rest ih =>
      obtain ⟨first, old⟩ := entry
      by_cases hfirst : first = key <;> simp [put, hfirst, ih]

theorem mem_keys_put {k : κ} :
    k ∈ (put key value known).map Prod.fst ↔ k = key ∨ k ∈ known.map Prod.fst := by
  induction known with
  | nil => simp [put]
  | cons entry rest ih =>
      obtain ⟨first, old⟩ := entry
      by_cases hfirst : first = key
      · simp [put, hfirst]
      · simp only [put, hfirst, if_false, List.map_cons, List.mem_cons, ih]
        exact or_left_comm

/-- Setting a key leaves each key with a single value. -/
theorem nodup_put (hknown : (known.map Prod.fst).Nodup) : ((put key value known).map Prod.fst).Nodup := by
  induction known with
  | nil => simp [put]
  | cons entry rest ih =>
      obtain ⟨first, old⟩ := entry
      rw [List.map_cons, List.nodup_cons] at hknown
      by_cases hfirst : first = key
      · rw [put, if_pos hfirst, List.map_cons, List.nodup_cons]
        exact hfirst ▸ hknown
      · rw [put, if_neg hfirst, List.map_cons, List.nodup_cons, mem_keys_put, not_or]
        exact ⟨⟨hfirst, hknown.1⟩, ih hknown.2⟩

/-- Where each key has a single value, the last one for a key is the one that is found. -/
theorem lastOf_valueFor (hknown : (known.map Prod.fst).Nodup) :
    lastOf (valueFor key) known = known.lookup key := by
  induction known with
  | nil => rfl
  | cons entry rest ih =>
      rw [List.map_cons, List.nodup_cons] at hknown
      rw [lastOf_cons, ih hknown.2, lookup_cons]
      by_cases hkey : key = entry.1
      · have hnone : rest.lookup key = none := by
          rw [List.lookup_eq_none_iff]
          intro member hmember
          rw [bne_iff_ne]
          rintro hsame
          exact hknown.1 (hkey ▸ hsame ▸ List.mem_map_of_mem hmember)
        simp [hnone, valueFor, ← hkey]
      · simp [valueFor, hkey, Ne.symm hkey]

/-- The values that some assignments lead to, one made after the other. -/
def putAll (known assignments : List (κ × ν)) : List (κ × ν) :=
  assignments.foldl (fun known entry => put entry.1 entry.2 known) known

theorem lookup_putAll (assignments : List (κ × ν)) :
    (putAll known assignments).lookup key = (lastOf (valueFor key) assignments).or (known.lookup key) := by
  induction assignments generalizing known with
  | nil => rfl
  | cons entry rest ih =>
      rw [putAll, List.foldl_cons, ← putAll, ih, lookup_put, lastOf_cons]
      by_cases hkey : key = entry.1 <;> cases lastOf (valueFor key) rest <;>
        simp [valueFor, hkey, eq_comm]

theorem nodup_putAll (assignments : List (κ × ν)) (hknown : (known.map Prod.fst).Nodup) :
    ((putAll known assignments).map Prod.fst).Nodup := by
  induction assignments generalizing known with
  | nil => exact hknown
  | cons entry rest ih => exact ih (nodup_put hknown)

theorem mem_of_mem_put {entry : κ × ν} (hentry : entry ∈ put key value known) :
    entry = (key, value) ∨ entry ∈ known := by
  induction known with
  | nil => exact .inl (List.mem_singleton.mp hentry)
  | cons first rest ih =>
      obtain ⟨other, old⟩ := first
      rw [put] at hentry
      split at hentry
      · rcases List.mem_cons.mp hentry with hnew | hrest
        · exact .inl hnew
        · exact .inr (List.mem_cons_of_mem _ hrest)
      · rcases List.mem_cons.mp hentry with hfirst | hrest
        · exact .inr (hfirst ▸ List.mem_cons_self)
        · exact (ih hrest).imp_right (List.mem_cons_of_mem _)

theorem mem_of_mem_putAll {entry : κ × ν} {assignments : List (κ × ν)}
    (hentry : entry ∈ putAll known assignments) : entry ∈ known ∨ entry ∈ assignments := by
  induction assignments generalizing known with
  | nil => exact .inl hentry
  | cons first rest ih =>
      rcases ih hentry with hput | hrest
      · rcases mem_of_mem_put hput with rfl | hknown
        · exact .inr List.mem_cons_self
        · exact .inl hknown
      · exact .inr (List.mem_cons_of_mem _ hrest)

theorem map_put {μ : Type} (f : ν → μ) :
    (put key value known).map (Prod.map id f) = put key (f value) (known.map (Prod.map id f)) := by
  induction known with
  | nil => rfl
  | cons first rest ih =>
      obtain ⟨other, old⟩ := first
      by_cases hother : other = key <;> simp [put, hother, ih]

theorem map_putAll {μ : Type} (f : ν → μ) (assignments : List (κ × ν)) :
    (putAll known assignments).map (Prod.map id f) =
      putAll (known.map (Prod.map id f)) (assignments.map (Prod.map id f)) := by
  induction assignments generalizing known with
  | nil => rfl
  | cons first rest ih =>
      rw [putAll, List.foldl_cons, ← putAll, ih, map_put]
      rfl

/-- Of several values for a key the last one is left. -/
theorem lastOf_putAll (assignments : List (κ × ν)) :
    lastOf (valueFor key) (putAll [] assignments) = lastOf (valueFor key) assignments := by
  rw [lastOf_valueFor (nodup_putAll assignments (by simp)), lookup_putAll]
  simp

end Keyed

theorem Node.putMember_eq_put : Node.putMember = Keyed.put (κ := String) := by
  funext name node members
  induction members with
  | nil => rfl
  | cons member rest ih => simp [Node.putMember, Keyed.put, ih]

theorem Builder.putPath_eq_put : Builder.putPath = Keyed.put (κ := Path) := by
  funext path value paths
  induction paths with
  | nil => rfl
  | cons entry rest ih => simp [Builder.putPath, Keyed.put, ih]

end TimedInvocation.Layers
