import Mathlib
import TimedInvocation.Proofs.Layers.Reading
import TimedInvocation.Proofs.Layers.Standard
import TimedInvocation.Proofs.Layers.Variables

/-!
# Which layer a value comes from

A builder is called any number of times, and what is built depends on the calls in two ways: the last file
and the last environment replace those before them, and overrides add up. An override counts before a
variable and a variable before the file, and of several values in one layer the last one counts.
-/

namespace TimedInvocation.Layers

namespace Builder

/-- A call that changes a builder. -/
inductive Call where
  | configFile (path : String)
  | workspaceRoot (root : String)
  | environment (env : Environment)
  | override (key value : String)

namespace Call

def file? : Call → Option ConfigFile
  | configFile path => some ⟨path, true⟩
  | workspaceRoot root => some ⟨joinPath root ".config/proctor.toml", false⟩
  | _ => none

def environment? : Call → Option Environment
  | environment env => some env
  | _ => none

def override? : Call → Option (String × String)
  | override key value => some (key, value)
  | _ => none

/-- The value that a call sets a key to. -/
def valueFor (key : String) (call : Call) : Option String :=
  call.override?.bind (Keyed.valueFor key)

end Call

/-- The builder after a call. -/
def call (b : Builder) : Call → Builder
  | .configFile path => b.setConfigFile path
  | .workspaceRoot root => b.setWorkspaceRoot root
  | .environment env => b.setEnvironment env
  | .override key value => b.setOverride key value

/-- A new builder after some calls. -/
def ofCalls (calls : List Call) : Builder :=
  calls.foldl call empty

theorem foldl_call (b : Builder) (calls : List Call) :
    calls.foldl call b = ⟨(lastOf Call.file? calls).or b.file,
      (lastOf Call.environment? calls).or b.environment,
      b.overrides ++ calls.filterMap Call.override?⟩ := by
  induction calls generalizing b with
  | nil => simp
  | cons first rest ih =>
      rw [List.foldl_cons, ih]
      cases first <;>
        simp [call, setConfigFile, setWorkspaceRoot, setEnvironment, setOverride, lastOf_cons,
          List.filterMap_cons, Call.file?, Call.environment?, Call.override?]

theorem ofCalls_eq (calls : List Call) :
    ofCalls calls = ⟨lastOf Call.file? calls, lastOf Call.environment? calls,
      calls.filterMap Call.override?⟩ := by
  simp [ofCalls, foldl_call, empty]

section Library

variable (lib : Library)

/-- All keys of some overrides are paths. -/
def KeysRead (overrides : List (String × String)) : Prop :=
  ∀ override ∈ overrides, (lib.path? override.1).isSome

/-- The paths that some overrides set, each with the value that it was set to last. -/
def assigned (overrides : List (String × String)) : List (Path × String) :=
  Keyed.putAll [] (overrides.map fun override => (lib.pathOf override.1, override.2))

/-- A file cannot be read: it is missing although it must exist, or what it holds is no document. -/
def Unreadable (disk : Disk) (file : ConfigFile) : Prop :=
  match disk.find? ".toml" file.path with
  | none => file.required = true
  | some text => lib.document? text = none

/-- The settings of a file, if it can be read. -/
def fileSettings (disk : Disk) (file : Option ConfigFile) : List Setting :=
  match fileLayer lib disk file with
  | .ok layer => lib.layerSettings layer
  | .error _ => []

/-- What the environment sets, if there is one. -/
def environmentTexts (b : Builder) : List (String × String) :=
  match b.environment with
  | none => []
  | some env => Keyed.putAll [] (Environment.assignments env.bindings)

/-- All settings of the layers that some calls lead to. -/
def settings (disk : Disk) (b : Builder) : List Setting :=
  fileSettings lib disk b.file ++ lib.layerSettings b.environmentLayer ++ textSettings lib b.overrides

variable {lib}

/-- Overrides are read if all their keys are paths. Each path then has the value that it was set to last. -/
theorem pathsOf_of_keysRead {overrides : List (String × String)} (hread : KeysRead lib overrides)
    (known : List (Path × String)) :
    pathsOf lib known overrides =
      .ok (Keyed.putAll known (overrides.map fun override => (lib.pathOf override.1, override.2))) := by
  induction overrides generalizing known with
  | nil => rfl
  | cons override rest ih =>
      obtain ⟨key, value⟩ := override
      obtain ⟨path, hpath⟩ := Option.isSome_iff_exists.mp (hread _ List.mem_cons_self)
      have hrest := ih (fun other hother => hread other (List.mem_cons_of_mem _ hother))
        (putPath path value known)
      rw [putPath_eq_put] at hrest
      simp [pathsOf, hpath, putPath_eq_put, hrest, Keyed.putAll, Library.pathOf_of_path? hpath]

theorem pathsOf_of_not_keysRead {overrides : List (String × String)} (hread : ¬ KeysRead lib overrides)
    (known : List (Path × String)) : pathsOf lib known overrides = .error .badKey := by
  induction overrides generalizing known with
  | nil => exact absurd (fun _ hmem => absurd hmem List.not_mem_nil) hread
  | cons override rest ih =>
      obtain ⟨key, value⟩ := override
      cases hpath : lib.path? key with
      | none => rw [pathsOf, hpath]
      | some path =>
          rw [pathsOf, hpath]
          refine ih (fun hrest => hread ?_) _
          rintro other (_ | ⟨_, hother⟩)
          · exact Option.isSome_iff_exists.mpr ⟨path, hpath⟩
          · exact hrest other hother

theorem fileLayer_of_found {disk : Disk} {file : ConfigFile} {text : String}
    {layer : List (String × Node)} (hfound : disk.find? ".toml" file.path = some text)
    (hdocument : lib.document? text = some layer) : fileLayer lib disk (some file) = .ok layer := by
  unfold fileLayer
  simp only [hfound, hdocument]

theorem fileLayer_of_unreadable {disk : Disk} {file : ConfigFile} (hbad : Unreadable lib disk file) :
    fileLayer lib disk (some file) = .error (.badFile file.path) := by
  unfold Unreadable at hbad
  unfold fileLayer
  split at hbad
  · next hmissing => simp [hmissing, hbad]
  · next hfound => simp [hfound, hbad]

theorem fileLayer_of_readable {disk : Disk} {file : Option ConfigFile}
    (hgood : ∀ f, file = some f → ¬ Unreadable lib disk f) :
    ∃ layer, fileLayer lib disk file = .ok layer := by
  cases file with
  | none => exact ⟨[], rfl⟩
  | some file =>
      have hfile := hgood file rfl
      unfold Unreadable at hfile
      split at hfile
      · next hmissing =>
          unfold fileLayer
          exact ⟨[], by simp [hmissing, hfile]⟩
      · next hfound =>
          obtain ⟨layer, hlayer⟩ := Option.ne_none_iff_exists'.mp hfile
          exact ⟨layer, fileLayer_of_found hfound hlayer⟩

section build

variable {b : Builder} {disk : Disk}

theorem buildWith_eq_badKey : b.buildWith lib disk = .error .badKey ↔ ¬ KeysRead lib b.overrides := by
  constructor
  · intro hbuild hread
    rw [buildWith, pathsOf_of_keysRead hread] at hbuild
    by_cases hgood : ∀ file, b.file = some file → ¬ Unreadable lib disk file
    · obtain ⟨layer, hlayer⟩ := fileLayer_of_readable hgood
      simp [hlayer] at hbuild
    · obtain ⟨file, hfile, hbad⟩ : ∃ file, b.file = some file ∧ Unreadable lib disk file := by
        simpa using hgood
      simp [hfile, fileLayer_of_unreadable hbad] at hbuild
  · intro hread
    rw [buildWith, pathsOf_of_not_keysRead hread]

theorem buildWith_eq_badFile {path : String} : b.buildWith lib disk = .error (.badFile path) ↔
    KeysRead lib b.overrides ∧
      ∃ file, b.file = some file ∧ Unreadable lib disk file ∧ file.path = path := by
  by_cases hread : KeysRead lib b.overrides
  · rw [buildWith, pathsOf_of_keysRead hread, and_iff_right hread]
    by_cases hgood : ∀ file, b.file = some file → ¬ Unreadable lib disk file
    · obtain ⟨layer, hlayer⟩ := fileLayer_of_readable hgood
      rw [hlayer]
      refine iff_of_false (by simp) ?_
      rintro ⟨file, hfile, hbad, -⟩
      exact hgood file hfile hbad
    · obtain ⟨file, hfile, hbad⟩ : ∃ file, b.file = some file ∧ Unreadable lib disk file := by
        simpa using hgood
      simp [hfile, fileLayer_of_unreadable hbad, hbad]
  · rw [buildWith_eq_badKey.mpr hread]
    simp [hread]

/-- What is built has the settings of the file, those of the environment and those of the overrides. -/
theorem eq_applyAll_of_buildWith (hlib : lib.Lawful) {node : Node}
    (hbuild : b.buildWith lib disk = .ok node) :
    node = lib.applyAll (.table []) (fileSettings lib disk b.file ++
      lib.layerSettings b.environmentLayer ++ overrideSettings (assigned lib b.overrides)) := by
  have hread : KeysRead lib b.overrides := Classical.byContradiction fun hread => by
    rw [buildWith_eq_badKey.mpr hread] at hbuild
    cases hbuild
  have hpaths : pathsOf lib [] b.overrides = .ok (assigned lib b.overrides) :=
    pathsOf_of_keysRead hread []
  cases hlayer : fileLayer lib disk b.file with
  | error e =>
      rw [buildWith, hpaths, hlayer] at hbuild
      cases hbuild
  | ok layer =>
      rw [hlib.buildWith_eq_applyAll hpaths hlayer] at hbuild
      rw [fileSettings, hlayer]
      exact (Except.ok.inj hbuild).symm

end build

/-- An override that a path has in the end is one of those that were made. -/
theorem overrideSettings_subset (overrides : List (String × String)) :
    overrideSettings (assigned lib overrides) ⊆ textSettings lib overrides := by
  intro setting hsetting
  obtain ⟨⟨path, value⟩, hentry, rfl⟩ := List.mem_map.mp hsetting
  rcases Keyed.mem_of_mem_putAll hentry with hnil | hmade
  · cases hnil
  · obtain ⟨⟨key, value⟩, hoverride, rfl, rfl⟩ := List.mem_map.mp hmade
    exact List.mem_map.mpr ⟨_, hoverride, rfl⟩

theorem lastOf_overrideSettings (hlib : lib.Lawful) (p : DottedName)
    (overrides : List (String × String)) :
    lastOf (Setting.textFor p.path) (overrideSettings (assigned lib overrides)) =
      lastOf (Keyed.valueFor p.text) overrides := by
  have hpath (entry : Path × String) :
      Setting.textFor p.path ⟨entry.1, .text entry.2⟩ = Keyed.valueFor p.path entry := by
    simp [Setting.textFor, Keyed.valueFor, Node.text?]
  calc lastOf (Setting.textFor p.path) (overrideSettings (assigned lib overrides))
      = lastOf (Keyed.valueFor p.path) (assigned lib overrides) := by
        rw [overrideSettings, lastOf_map]
        exact lastOf_congr fun entry _ => hpath entry
    _ = lastOf (Keyed.valueFor p.path)
          (overrides.map fun override => (lib.pathOf override.1, override.2)) :=
        Keyed.lastOf_putAll _
    _ = lastOf (Keyed.valueFor p.text) overrides := by
        rw [lastOf_map]
        refine lastOf_congr fun override _ => ?_
        rw [← hpath, ← p.textFor_text hlib]

/-- Only the file may set anything but texts. -/
theorem text_of_textSettings {texts : List (String × String)} {setting : Setting}
    (hsetting : setting ∈ textSettings lib texts) : setting.value.text?.isSome := by
  obtain ⟨entry, -, rfl⟩ := List.mem_map.mp hsetting
  rfl

theorem layerSettings_environmentLayer (b : Builder) :
    lib.layerSettings b.environmentLayer = textSettings lib b.environmentTexts := by
  unfold environmentLayer environmentTexts
  cases b.environment with
  | none => rfl
  | some env =>
      exact (congrArg lib.layerSettings (Environment.layerOf_eq_putAll _)).trans
        (layerSettings_texts lib _)

theorem lastOf_environmentLayer (hlib : lib.Lawful) (p : DottedName) (b : Builder) :
    lastOf (Setting.textFor p.path) (lib.layerSettings b.environmentLayer) =
      b.environment.bind (·.value? p.text) := by
  rw [layerSettings_environmentLayer, p.lastOf_textSettings hlib, environmentTexts]
  cases b.environment with
  | none => rfl
  | some env =>
      exact (Keyed.lastOf_putAll _).trans (Environment.lastOf_assignments p.text env.bindings)

/-- The text at the place of a dotted name is that of the last override, else that of the environment, else
that of the file. -/
theorem text?_of_buildWith (hlib : lib.Lawful) {b : Builder} {disk : Disk} {node : Node} {p : DottedName}
    (hbuild : b.buildWith lib disk = .ok node) (hclear : p.Clear (settings lib disk b))
    (haside : p.Aside lib (settings lib disk b))
    (htext : ∀ setting ∈ fileSettings lib disk b.file, setting.path = p.path →
      setting.value.text?.isSome) :
    lib.text? node p.text = (lastOf (Keyed.valueFor p.text) b.overrides).or
      ((b.environment.bind (·.value? p.text)).or
        (lastOf (Setting.textFor p.path) (fileSettings lib disk b.file))) := by
  have hsub : fileSettings lib disk b.file ++ lib.layerSettings b.environmentLayer ++
      overrideSettings (assigned lib b.overrides) ⊆ settings lib disk b :=
    List.append_subset.mpr ⟨List.subset_append_left .., fun setting hsetting =>
      List.mem_append_right _ (overrideSettings_subset b.overrides hsetting)⟩
  have htexts : ∀ setting ∈ fileSettings lib disk b.file ++ lib.layerSettings b.environmentLayer ++
      overrideSettings (assigned lib b.overrides), setting.path = p.path →
        setting.value.text?.isSome := by
    intro setting hsetting hhere
    rcases List.mem_append.mp hsetting with hlayers | hoverride
    · rcases List.mem_append.mp hlayers with hfile | hvariable
      · exact htext setting hfile hhere
      · rw [layerSettings_environmentLayer] at hvariable
        exact text_of_textSettings hvariable
    · exact text_of_textSettings (overrideSettings_subset b.overrides hoverride)
  rw [eq_applyAll_of_buildWith hlib hbuild,
    DottedName.text?_applyAll hlib (hclear.mono hsub) (haside.mono hsub) htexts, lastOf_append,
    lastOf_append, lastOf_overrideSettings hlib, lastOf_environmentLayer hlib, hlib.text?_empty,
    Option.or_none]

/-- Values follow the order of the layers, whatever calls a builder has had and whatever lawful library it
builds with. A key that is no path, and a file that cannot be read, are all that building fails for. Of what
is built, the value of a dotted name beyond and before which no layer sets anything is that of the last
override; else that of the last variable for it in the environment that was set last, where given variables
are taken in the order of their names; else that in the file that was set last. It is supposed that settings
aside from the name leave it alone, and all those do whose places are reached by names alone. -/
theorem values_follow_layers {lib : Library} (hlib : lib.Lawful) (disk : Disk) (calls : List Call) :
    ((ofCalls calls).buildWith lib disk = .error .badKey ↔
      ∃ key value, .override key value ∈ calls ∧ lib.path? key = none) ∧
    (∀ path, (ofCalls calls).buildWith lib disk = .error (.badFile path) ↔
      (∀ key value, .override key value ∈ calls → lib.path? key ≠ none) ∧
        ∃ file, lastOf Call.file? calls = some file ∧ Unreadable lib disk file ∧ file.path = path) ∧
    (∀ given : List (String × String), ((Environment.given given).bindings.map Prod.fst).Pairwise (· < ·) ∧
      ∀ name, (Environment.given given).bindings.lookup name = lastOf (Keyed.valueFor name) given) ∧
    ∀ p : DottedName,
      (∀ (root : String) (names : List String), Parted ((root :: names).map .name) p.way →
        lib.LeavesAlone ⟨root, names.map .name⟩ p) ∧
      ∀ node, (ofCalls calls).buildWith lib disk = .ok node →
        p.Clear (settings lib disk (ofCalls calls)) → p.Aside lib (settings lib disk (ofCalls calls)) →
        (∀ setting ∈ fileSettings lib disk (lastOf Call.file? calls), setting.path = p.path →
          setting.value.text?.isSome) →
        lib.text? node p.text = (lastOf (Call.valueFor p.text) calls).or
          (((lastOf Call.environment? calls).bind (·.value? p.text)).or
            (lastOf (Setting.textFor p.path) (fileSettings lib disk (lastOf Call.file? calls)))) := by
  have hread : KeysRead lib (ofCalls calls).overrides ↔
      ∀ key value, .override key value ∈ calls → lib.path? key ≠ none := by
    rw [ofCalls_eq]
    constructor
    · intro hread key value hcall
      exact Option.isSome_iff_ne_none.mp (hread (key, value) (List.mem_filterMap.mpr ⟨_, hcall, rfl⟩))
    · rintro hread ⟨key, value⟩ hoverride
      obtain ⟨call, hcall, hsets⟩ := List.mem_filterMap.mp hoverride
      cases call with
      | override key' value' =>
          cases hsets
          exact Option.isSome_iff_ne_none.mpr (hread key value hcall)
      | _ => cases hsets
  refine ⟨?_, fun path => ?_, Environment.bindings_given, fun p => ⟨fun root names => ?_, ?_⟩⟩
  · rw [buildWith_eq_badKey, hread]
    simp
  · rw [buildWith_eq_badFile, hread, ofCalls_eq]
  · exact fun hparted node value => hlib.put_parted p node value root names hparted
  · intro node hbuild hclear haside htext
    have hfile : (ofCalls calls).file = lastOf Call.file? calls := by rw [ofCalls_eq]
    rw [text?_of_buildWith hlib hbuild hclear haside (hfile ▸ htext), ofCalls_eq, lastOf_filterMap]
    rfl

end Library

/-- A workspace and then a file instead of it, an override, and two variables for one key. -/
def sampleCalls : List Call :=
  [.workspaceRoot "w", .override "proctor.m" "off", .configFile "/etc/f",
    .environment (.given [("Proctor_T", "3"), ("PROCTOR_T", "2"), ("HOME", "/")])]

def sampleText : String :=
  "proctor.t=\"1\"\nproctor.u=\"5\""

/-- Two files of one name, one of them in the working directory. -/
def sampleDisk : Disk :=
  .seenFrom ["home"] [("/etc/f.toml", sampleText), ("f.toml", "")]

/-- A name of two words. -/
def sampleName (word : String) (hne : word ≠ "") (hlower : word.toList.all Char.isLower = true) :
    DottedName where
  first := "proctor"
  rest := [word]
  lower := by
    have hfirst : "proctor".toList.all Char.isLower = true := by decide
    rw [List.all_eq_true] at hfirst hlower
    simp only [List.forall_mem_cons]
    exact ⟨⟨by decide, hfirst⟩, ⟨hne, hlower⟩, by simp⟩

theorem fileLayer_sample : fileLayer .standard sampleDisk (some ⟨"/etc/f", true⟩) =
    .ok [("proctor", .table [("t", .text "1"), ("u", .text "5")])] := by
  have hread : Library.standard.document? = Document.ofFile? := rfl
  have hfound : sampleDisk.find? ".toml" "/etc/f" = some sampleText := by decide +kernel
  have hdocument : Document.ofFile? sampleText =
      some [("proctor", .table [("t", .text "1"), ("u", .text "5")])] := by cbv
  rw [← hread] at hdocument
  exact fileLayer_of_found hfound hdocument

theorem fileSettings_sample : fileSettings .standard sampleDisk (some ⟨"/etc/f", true⟩) =
    [⟨⟨"proctor", [.name "t"]⟩, .text "1"⟩, ⟨⟨"proctor", [.name "u"]⟩, .text "5"⟩] := by
  have hroot : Library.standard.pathOf "proctor" = ⟨"proctor", []⟩ := by decide
  rw [fileSettings, fileLayer_sample]
  simp [Library.layerSettings, hroot, Node.settings, memberSettings, Path.child]

theorem settings_sample : settings .standard sampleDisk (ofCalls sampleCalls) =
    [⟨⟨"proctor", [.name "t"]⟩, .text "1"⟩, ⟨⟨"proctor", [.name "u"]⟩, .text "5"⟩,
      ⟨⟨"proctor", [.name "t"]⟩, .text "3"⟩, ⟨⟨"proctor", [.name "m"]⟩, .text "off"⟩] := by
  have hcalls : ofCalls sampleCalls = ⟨some ⟨"/etc/f", true⟩,
      some (.given [("Proctor_T", "3"), ("PROCTOR_T", "2"), ("HOME", "/")]), [("proctor.m", "off")]⟩ := rfl
  have htexts : environmentTexts (ofCalls sampleCalls) = [("proctor.t", "3")] := by decide +kernel
  have ht : Library.standard.pathOf "proctor.t" = ⟨"proctor", [.name "t"]⟩ := by decide
  have hm : Library.standard.pathOf "proctor.m" = ⟨"proctor", [.name "m"]⟩ := by decide
  rw [settings, layerSettings_environmentLayer, htexts, hcalls, fileSettings_sample]
  simp [textSettings, ht, hm]

/-- All places of the sample are reached by two words, so that those of other words are left alone. -/
theorem clear_sample (word : String) (hne : word ≠ "") (hlower : word.toList.all Char.isLower = true) :
    (sampleName word hne hlower).Clear (settings .standard sampleDisk (ofCalls sampleCalls)) ∧
      (sampleName word hne hlower).Aside .standard
        (settings .standard sampleDisk (ofCalls sampleCalls)) := by
  rw [settings_sample]
  refine ⟨⟨?_, ?_⟩, DottedName.aside_of_names Library.standard_lawful ?_⟩
  · simp [sampleName, DottedName.way, DottedName.path, Path.way, eq_comm]
  · simp [sampleName, DottedName.way, DottedName.path, Path.way, eq_comm]
  · simp only [List.forall_mem_cons]
    exact ⟨⟨["t"], rfl⟩, ⟨["u"], rfl⟩, ⟨["t"], rfl⟩, ⟨["m"], rfl⟩, by simp⟩

theorem values_follow_layers_sample : ∃ node, (ofCalls sampleCalls).build sampleDisk = .ok node ∧
    node.lookup? "proctor.t" = some "3" ∧ node.lookup? "proctor.u" = some "5" := by
  have hfile : lastOf Call.file? sampleCalls = some ⟨"/etc/f", true⟩ := by decide +kernel
  have hlayer : fileLayer .standard sampleDisk (ofCalls sampleCalls).file =
      .ok [("proctor", .table [("t", .text "1"), ("u", .text "5")])] := by
    rw [ofCalls_eq, hfile, fileLayer_sample]
  have hpaths : pathsOf .standard [] (ofCalls sampleCalls).overrides =
      .ok [(⟨"proctor", [.name "m"]⟩, "off")] := by
    cbv
  obtain ⟨node, hbuild⟩ : ∃ node, (ofCalls sampleCalls).buildWith .standard sampleDisk = .ok node :=
    ⟨_, Library.standard_lawful.buildWith_eq_applyAll hpaths hlayer⟩
  have hlaw := values_follow_layers Library.standard_lawful sampleDisk sampleCalls
  rw [hfile, fileSettings_sample] at hlaw
  have hvalue (word : String) (hne : word ≠ "") (hlower : word.toList.all Char.isLower = true) :=
    (hlaw.2.2.2 (sampleName word hne hlower)).2 node hbuild (clear_sample word hne hlower).1
      (clear_sample word hne hlower).2 (by simp [Node.text?])
  have ht := hvalue "t" (by decide) (by decide)
  have hu := hvalue "u" (by decide) (by decide)
  refine ⟨node, hbuild, ?_, ?_⟩
  · exact ht.trans (by decide +kernel)
  · exact hu.trans (by decide +kernel)

end Builder

end TimedInvocation.Layers
