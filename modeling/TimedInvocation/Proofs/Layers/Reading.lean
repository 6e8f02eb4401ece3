import TimedInvocation.Proofs.Layers.Settings

/-!
# What settings leave of a text

A setting replaces the text at its own place and leaves alone the texts at places that part from it at a
name. So where all settings of some layers either are at the place of a dotted name or leave it alone, the
text there is that of the last setting at the place.
-/

namespace TimedInvocation.Layers

/-- The text that a setting gives to the place that a path leads to. -/
def Setting.textFor (path : Path) (setting : Setting) : Option String :=
  if setting.path = path then setting.value.text? else none

/-- Setting a path leaves a dotted name alone. -/
def Library.LeavesAlone (lib : Library) (path : Path) (p : DottedName) : Prop :=
  ∀ node value, lib.text? (lib.put node path value) p.text = lib.text? node p.text

namespace DottedName

variable {lib : Library} {p : DottedName}

/-- No setting has a place beyond that of a dotted name, and one with a place before it is no more than an
empty table. -/
structure Clear (p : DottedName) (settings : List Setting) : Prop where
  beyond : ∀ setting ∈ settings, p.way <+: setting.path.way → setting.path = p.path
  before : ∀ setting ∈ settings, setting.path.way <+: p.way → setting.path ≠ p.path →
    setting.value = .table []

/-- All settings with a place aside from that of a dotted name leave the text there alone. -/
def Aside (lib : Library) (p : DottedName) (settings : List Setting) : Prop :=
  ∀ setting ∈ settings, Parted setting.path.way p.way → lib.LeavesAlone setting.path p

variable {settings more : List Setting}

theorem Clear.mono (hclear : p.Clear more) (hsub : settings ⊆ more) : p.Clear settings where
  beyond setting hsetting := hclear.beyond setting (hsub hsetting)
  before setting hsetting := hclear.before setting (hsub hsetting)

theorem Aside.mono (haside : p.Aside lib more) (hsub : settings ⊆ more) : p.Aside lib settings :=
  fun setting hsetting => haside setting (hsub hsetting)

/-- All do whose places are reached by names alone. -/
theorem aside_of_names (hlib : lib.Lawful)
    (hnames : ∀ setting ∈ settings, ∃ names : List String, setting.path.steps = names.map .name) :
    p.Aside lib settings := by
  rintro ⟨⟨root, steps⟩, value⟩ hsetting hparted node value'
  obtain ⟨names, hsteps⟩ := hnames _ hsetting
  obtain rfl : steps = names.map .name := hsteps
  exact hlib.put_parted p node value' root names hparted

/-- A single setting either gives its text to the place or leaves the place alone. -/
theorem text?_apply (hlib : lib.Lawful) {setting : Setting} (hclear : p.Clear [setting])
    (haside : p.Aside lib [setting])
    (htext : setting.path = p.path → setting.value.text?.isSome) (node : Node) :
    lib.text? (lib.apply node setting) p.text =
      (setting.textFor p.path).or (lib.text? node p.text) := by
  obtain ⟨path, value⟩ := setting
  have hmem : (⟨path, value⟩ : Setting) ∈ [(⟨path, value⟩ : Setting)] := List.mem_singleton_self _
  by_cases hhere : path = p.path
  · subst hhere
    obtain ⟨text, hvalue⟩ := Option.isSome_iff_exists.mp (htext rfl)
    rw [Setting.textFor, if_pos rfl, hvalue, Option.some_or]
    exact hlib.put_text p node hvalue
  · rw [Setting.textFor, if_neg hhere, Option.none_or]
    by_cases hbefore : path.way <+: p.way
    · obtain rfl : value = .table [] := hclear.before _ hmem hbefore hhere
      exact hlib.put_empty p node hbefore fun hway => hhere (way_eq.mp hway)
    · exact haside _ hmem ⟨hbefore, fun hbeyond => hhere (hclear.beyond _ hmem hbeyond)⟩ node value

/-- The text that settings leave at the place of a dotted name is the one that was set there last. -/
theorem text?_applyAll (hlib : lib.Lawful) (hclear : p.Clear settings) (haside : p.Aside lib settings)
    (htext : ∀ setting ∈ settings, setting.path = p.path → setting.value.text?.isSome) (node : Node) :
    lib.text? (lib.applyAll node settings) p.text =
      (lastOf (Setting.textFor p.path) settings).or (lib.text? node p.text) := by
  induction settings generalizing node with
  | nil => simp [Library.applyAll]
  | cons setting rest ih =>
      have hfirst : [setting] ⊆ setting :: rest := by simp
      have hrest : rest ⊆ setting :: rest := List.subset_cons_self setting rest
      rw [Library.applyAll, List.foldl_cons, ← Library.applyAll,
        ih (hclear.mono hrest) (haside.mono hrest) fun s hs => htext s (hrest hs),
        text?_apply hlib (hclear.mono hfirst) (haside.mono hfirst) (htext setting List.mem_cons_self),
        lastOf_cons, Option.or_assoc]

end DottedName

end TimedInvocation.Layers
