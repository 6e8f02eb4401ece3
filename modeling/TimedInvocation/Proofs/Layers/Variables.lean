import TimedInvocation.Proofs.Layers.Reading

/-!
# The settings of variables

Variables set keys to texts. Of several variables whose names turn into one key the last one counts, in the
order of their names where the variables were given.
-/

namespace TimedInvocation.Layers

namespace Environment

/-- The value that a binding gives to a key. -/
def valueFor (key : String) (binding : String × String) : Option String :=
  if keyOf? binding.1 = some key then some binding.2 else none

/-- The value of a key: that of the last variable whose name turns into it. -/
def value? (environment : Environment) (key : String) : Option String :=
  lastOf (valueFor key) environment.bindings

theorem lookup_setSorted {name value other : String} {known : List (String × String)} :
    (setSorted name value known).lookup other = if other = name then some value else known.lookup other := by
  induction known with
  | nil => simp [setSorted, Keyed.lookup_cons]
  | cons entry rest ih =>
      obtain ⟨first, old⟩ := entry
      by_cases hfirst : first = name
      · subst hfirst
        by_cases hother : other = first <;> simp [setSorted, Keyed.lookup_cons, hother]
      · by_cases hless : name < first
        · simp [setSorted, hfirst, hless, Keyed.lookup_cons]
        · by_cases hother : other = name
          · subst hother
            simp [setSorted, hfirst, hless, Keyed.lookup_cons, ih, Ne.symm hfirst]
          · simp [setSorted, hfirst, hless, Keyed.lookup_cons, ih, hother]

theorem mem_keys_setSorted {name value other : String} {known : List (String × String)} :
    other ∈ (setSorted name value known).map Prod.fst ↔ other = name ∨ other ∈ known.map Prod.fst := by
  induction known with
  | nil => simp [setSorted]
  | cons entry rest ih =>
      obtain ⟨first, old⟩ := entry
      by_cases hfirst : first = name
      · simp [setSorted, hfirst]
      · by_cases hless : name < first
        · simp [setSorted, hfirst, hless]
        · rw [setSorted, if_neg hfirst, if_neg hless, List.map_cons, List.mem_cons, ih, List.map_cons,
            List.mem_cons]
          exact or_left_comm

theorem sorted_setSorted {name value : String} {known : List (String × String)}
    (hsorted : (known.map Prod.fst).Pairwise (· < ·)) :
    ((setSorted name value known).map Prod.fst).Pairwise (· < ·) := by
  induction known with
  | nil => simp [setSorted]
  | cons entry rest ih =>
      obtain ⟨first, old⟩ := entry
      rw [List.map_cons, List.pairwise_cons] at hsorted
      by_cases hfirst : first = name
      · rw [setSorted, if_pos hfirst, List.map_cons, List.pairwise_cons]
        exact hfirst ▸ hsorted
      · by_cases hless : name < first
        · rw [setSorted, if_neg hfirst, if_pos hless, List.map_cons, List.pairwise_cons, List.map_cons,
            List.pairwise_cons]
          refine ⟨fun other hother => ?_, hsorted⟩
          rcases List.mem_cons.mp hother with rfl | hrest
          · exact hless
          · exact String.lt_trans hless (hsorted.1 other hrest)
        · rw [setSorted, if_neg hfirst, if_neg hless, List.map_cons, List.pairwise_cons]
          refine ⟨fun other hother => ?_, ih hsorted.2⟩
          rcases mem_keys_setSorted.mp hother with rfl | hrest
          · exact Std.lt_of_le_of_ne (String.not_lt.mp hless) hfirst
          · exact hsorted.1 other hrest

/-- Given variables are taken in the order of their names, each with the value that it was given last. -/
theorem bindings_given (list : List (String × String)) :
    ((given list).bindings.map Prod.fst).Pairwise (· < ·) ∧
      ∀ name, (given list).bindings.lookup name = lastOf (Keyed.valueFor name) list := by
  have hfold (known : List (String × String)) (hsorted : (known.map Prod.fst).Pairwise (· < ·)) :
      ((list.foldl (fun known entry => setSorted entry.1 entry.2 known) known).map Prod.fst).Pairwise
          (· < ·) ∧
        ∀ name, (list.foldl (fun known entry => setSorted entry.1 entry.2 known) known).lookup name =
          (lastOf (Keyed.valueFor name) list).or (known.lookup name) := by
    induction list generalizing known with
    | nil => exact ⟨hsorted, fun name => rfl⟩
    | cons entry rest ih =>
        obtain ⟨hrest, hvalue⟩ := ih (setSorted entry.1 entry.2 known) (sorted_setSorted hsorted)
        refine ⟨hrest, fun name => (hvalue name).trans ?_⟩
        rw [lookup_setSorted, lastOf_cons, Option.or_assoc]
        by_cases hname : name = entry.1 <;> simp [Keyed.valueFor, hname, eq_comm]
  obtain ⟨hsorted, hvalue⟩ := hfold [] .nil
  exact ⟨hsorted, fun name => (hvalue name).trans (Option.or_none ..)⟩

/-- The keys that some variables set, each with the value that it is set to. -/
def assignments (bindings : List (String × String)) : List (String × String) :=
  bindings.filterMap fun binding => (keyOf? binding.1).map fun key => (key, binding.2)

theorem layerOf_eq_putAll (bindings : List (String × String)) :
    layerOf bindings = (Keyed.putAll [] (assignments bindings)).map (Prod.map id .text) := by
  rw [Keyed.map_putAll, List.map_nil, layerOf]
  -- the induction is for whatever layer the variables are added to
  generalize ([] : List (String × Node)) = layer
  induction bindings generalizing layer with
  | nil => rfl
  | cons binding rest ih =>
      obtain ⟨name, value⟩ := binding
      rw [List.foldl_cons, ih]
      cases hkey : keyOf? name <;>
        simp [assignments, hkey, Keyed.putAll, Node.putMember_eq_put]

theorem lastOf_assignments (key : String) (bindings : List (String × String)) :
    lastOf (Keyed.valueFor key) (assignments bindings) = lastOf (valueFor key) bindings := by
  rw [assignments, lastOf_filterMap]
  refine lastOf_congr fun binding _ => ?_
  cases hkey : keyOf? binding.1 <;> simp [valueFor, Keyed.valueFor, hkey]

end Environment

section Settings

variable (lib : Library)

/-- The settings of a layer of texts. -/
def textSettings (texts : List (String × String)) : List Setting :=
  texts.map fun (key, value) => ⟨lib.pathOf key, .text value⟩

theorem layerSettings_texts (texts : List (String × String)) :
    lib.layerSettings (texts.map (Prod.map id .text)) = textSettings lib texts := by
  induction texts with
  | nil => rfl
  | cons entry rest ih =>
      calc lib.layerSettings ((entry :: rest).map (Prod.map id .text))
          = ⟨lib.pathOf entry.1, .text entry.2⟩ ::
            lib.layerSettings (rest.map (Prod.map id .text)) := rfl
        _ = textSettings lib (entry :: rest) := by
          rw [ih]
          rfl

variable {lib}

theorem DottedName.textFor_text (hlib : lib.Lawful) (p : DottedName) (key value : String) :
    Setting.textFor p.path ⟨lib.pathOf key, .text value⟩ = Keyed.valueFor p.text (key, value) := by
  simp [Setting.textFor, Keyed.valueFor, hlib.pathOf_eq_path, Node.text?]

theorem DottedName.lastOf_textSettings (hlib : lib.Lawful) (p : DottedName)
    (texts : List (String × String)) :
    lastOf (Setting.textFor p.path) (textSettings lib texts) = lastOf (Keyed.valueFor p.text) texts := by
  rw [textSettings, lastOf_map]
  exact lastOf_congr fun entry _ => p.textFor_text hlib entry.1 entry.2

end Settings

end TimedInvocation.Layers
