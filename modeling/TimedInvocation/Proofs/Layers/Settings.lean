import TimedInvocation.Proofs.Layers.DottedNames
import TimedInvocation.Proofs.Layers.Keyed

/-!
# Layers as lists of settings

A layer is a tree, but a library that merges tables member by member does no more with it than to set its
leaves one after the other, in the order in which they are written. So what is built from several layers is
the result of a single list of settings.
-/

namespace TimedInvocation.Layers

/-- Neither of two ways goes on from the end of the other. -/
def Parted (steps way : List PathStep) : Prop :=
  ¬ steps <+: way ∧ ¬ way <+: steps

/-- What is known of a library. -/
structure Library.Lawful (lib : Library) : Prop where
  /-- A dotted name is read as the path of its words, and no other key is. -/
  path?_eq : ∀ (p : DottedName) (key : String), lib.path? key = some p.path ↔ key = p.text
  /-- Tables are merged member by member. -/
  put_table : ∀ (node : Node) (path : Path) {members : List (String × Node)}, members ≠ [] →
    lib.put node path (.table members) =
      members.foldl (fun node (name, value) => lib.put node (path.child name) value) node
  /-- A table without members leaves alone what is further on than its path. -/
  put_empty : ∀ (p : DottedName) (node : Node) {path : Path}, path.way <+: p.way → path.way ≠ p.way →
    lib.text? (lib.put node path (.table [])) p.text = lib.text? node p.text
  /-- Setting a path of names leaves all those alone that are neither its prefixes nor its extensions. -/
  put_parted : ∀ (p : DottedName) (node value : Node) (root : String) (names : List String),
    Parted ((root :: names).map .name) p.way →
      lib.text? (lib.put node ⟨root, names.map .name⟩ value) p.text = lib.text? node p.text
  /-- A text is found under the name that is set to it. -/
  put_text : ∀ (p : DottedName) (node : Node) {value : Node} {text : String}, value.text? = some text →
    lib.text? (lib.put node p.path value) p.text = some text
  /-- Nothing is found where nothing is set. -/
  text?_empty : ∀ p : DottedName, lib.text? (.table []) p.text = none

/-- A leaf of a layer, with the path that leads to it. -/
structure Setting where
  path : Path
  value : Node

mutual

/-- The leaves of a value that a path leads to: everything but tables that have members. -/
def Node.settings (path : Path) : Node → List Setting
  | .table members =>
    if members.isEmpty then [⟨path, .table []⟩] else memberSettings path members
  | leaf => [⟨path, leaf⟩]

def memberSettings (path : Path) : List (String × Node) → List Setting
  | [] => []
  | (name, node) :: rest => node.settings (path.child name) ++ memberSettings path rest

end

/-- The settings of several overrides. -/
def overrideSettings (overrides : List (Path × String)) : List Setting :=
  overrides.map fun (path, value) => ⟨path, .text value⟩

namespace Library

variable (lib : Library)

/-- The settings of a layer, whose keys are taken as paths. -/
def layerSettings (layer : List (String × Node)) : List Setting :=
  layer.flatMap fun (key, node) => node.settings (lib.pathOf key)

/-- A value with a setting merged into it. -/
def apply (node : Node) (setting : Setting) : Node :=
  lib.put node setting.path setting.value

/-- A value with several settings merged into it, one after the other. -/
def applyAll (node : Node) (settings : List Setting) : Node :=
  settings.foldl lib.apply node

theorem applyAll_append (node : Node) (front back : List Setting) :
    lib.applyAll node (front ++ back) = lib.applyAll (lib.applyAll node front) back :=
  List.foldl_append

variable {lib}

theorem pathOf_of_path? {key : String} {path : Path} (hread : lib.path? key = some path) :
    lib.pathOf key = path := by
  rw [pathOf, hread, Option.getD_some]

namespace Lawful

mutual

/-- Merging a value is the same as making its settings. -/
theorem put_eq_applyAll (hlib : lib.Lawful) (node : Node) (path : Path) :
    ∀ value : Node, lib.put node path value = lib.applyAll node (value.settings path)
  | .table [] => by simp [Node.settings, applyAll, apply]
  | .table (member :: rest) => by
      rw [hlib.put_table node path (List.cons_ne_nil member rest),
        putMembers_eq_applyAll hlib node path]
      rfl
  | .absent | .boolean _ | .integer _ | .float _ | .text _ | .list _ => by
      simp [Node.settings, applyAll, apply]

theorem putMembers_eq_applyAll (hlib : lib.Lawful) (node : Node) (path : Path) :
    ∀ members : List (String × Node),
    members.foldl (fun node (name, value) => lib.put node (path.child name) value) node =
      lib.applyAll node (memberSettings path members)
  | [] => rfl
  | (name, value) :: rest => by
      have hfirst := put_eq_applyAll hlib node (path.child name) value
      rw [memberSettings, applyAll_append, ← hfirst, ← putMembers_eq_applyAll hlib _ path rest]
      rfl

end

variable (hlib : lib.Lawful)
include hlib

/-- The name is the only key that leads to its place. -/
theorem pathOf_eq_path {p : DottedName} {key : String} : lib.pathOf key = p.path ↔ key = p.text := by
  rw [pathOf]
  cases hread : lib.path? key with
  | some path => rw [Option.getD_some, ← Option.some_inj, ← hread, hlib.path?_eq]
  | none =>
      -- a key that is no path would be a single word, which is a path
      have hno : key ≠ p.text := by
        intro hkey
        rw [(hlib.path?_eq p key).mpr hkey] at hread
        cases hread
      refine iff_of_false (fun hsingle => hno ?_) hno
      obtain ⟨rfl, hnil⟩ := Path.mk.inj hsingle
      rw [← String.toList_inj, p.toList_text, List.map_eq_nil_iff.mp hnil.symm]
      simp [dotted]

theorem addLayer_eq_applyAll (node : Node) (layer : List (String × Node)) :
    Builder.addLayer lib node layer = lib.applyAll node (lib.layerSettings layer) := by
  induction layer generalizing node with
  | nil => rfl
  | cons entry rest ih =>
      obtain ⟨key, value⟩ := entry
      calc Builder.addLayer lib node ((key, value) :: rest)
          = Builder.addLayer lib (lib.put node (lib.pathOf key) value) rest := rfl
        _ = lib.applyAll (lib.put node (lib.pathOf key) value) (lib.layerSettings rest) := ih _
        _ = lib.applyAll node (lib.layerSettings ((key, value) :: rest)) := by
          rw [hlib.put_eq_applyAll, ← applyAll_append]
          rfl

/-- What is built has the settings of the file, then those of the environment, then the overrides. -/
theorem buildWith_eq_applyAll {b : Builder} {disk : Disk} {paths : List (Path × String)}
    {layer : List (String × Node)} (hpaths : Builder.pathsOf lib [] b.overrides = .ok paths)
    (hlayer : Builder.fileLayer lib disk b.file = .ok layer) :
    b.buildWith lib disk = .ok (lib.applyAll (.table []) (lib.layerSettings layer ++
      lib.layerSettings b.environmentLayer ++ overrideSettings paths)) := by
  have hoverrides (node : Node) :
      Builder.addOverrides lib node paths = lib.applyAll node (overrideSettings paths) := by
    rw [Builder.addOverrides, applyAll, overrideSettings, List.foldl_map]
    rfl
  rw [Builder.buildWith, hpaths, hlayer]
  simp only [applyAll_append, hlib.addLayer_eq_applyAll, hoverrides]

end Lawful

end Library

end TimedInvocation.Layers
