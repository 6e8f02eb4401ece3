import Mathlib
import TimedInvocation.Layers.Disk

/-!
# Files and their paths

A file is found at its path from the root whatever the working directory is, and at its path from the
working directory.
-/

namespace TimedInvocation.Layers

/-- A name that leads to what has it for its name, and not to the directory that it is in or the one
before. -/
structure IsPlain (name : String) : Prop where
  elsewhere : isHere name = false
  onward : name ≠ ".."
  whole : '/' ∉ name.toList

/-- The path that leads through some names from the root. -/
def rooted (names : List String) : String :=
  "/" ++ "/".intercalate names

section Parts

theorem foldr_addChar_ne_nil (s : List Char) : s.foldr addChar [[]] ≠ [] := by
  cases s with
  | nil => simp
  | cons c s =>
      rw [List.foldr_cons]
      unfold addChar
      split
      · simp
      · split <;> simp

/-- A slash parts what is before it from what is after it. -/
theorem foldr_addChar_append (front back : List Char) :
    (front ++ '/' :: back).foldr addChar [[]] =
      front.foldr addChar [[]] ++ back.foldr addChar [[]] := by
  induction front with
  | nil => simp [addChar]
  | cons c front ih =>
      rw [List.cons_append, List.foldr_cons, ih, List.foldr_cons]
      cases hpieces : front.foldr addChar [[]] with
      | nil => exact absurd hpieces (foldr_addChar_ne_nil front)
      | cons piece pieces => by_cases hslash : c = '/' <;> simp [addChar, hslash]

theorem foldr_addChar_of_whole {s : List Char} (hwhole : '/' ∉ s) : s.foldr addChar [[]] = [s] := by
  induction s with
  | nil => rfl
  | cons c s ih =>
      rw [List.mem_cons, not_or] at hwhole
      rw [List.foldr_cons, ih hwhole.2, addChar, if_neg (Ne.symm hwhole.1)]

/-- A slash between two paths parts them. -/
theorem pathParts_slash (front back : String) :
    pathParts (front ++ "/" ++ back) = pathParts front ++ pathParts back := by
  have hchars : (front ++ "/" ++ back).toList = front.toList ++ '/' :: back.toList := by simp
  rw [pathParts, hchars, foldr_addChar_append, List.map_append, ← pathParts, ← pathParts]

theorem pathParts_of_whole {name : String} (hwhole : '/' ∉ name.toList) : pathParts name = [name] := by
  rw [pathParts, foldr_addChar_of_whole hwhole]
  simp

theorem pathParts_intercalate {names : List String} (hplain : ∀ name ∈ names, IsPlain name)
    (hsome : names ≠ []) : pathParts ("/".intercalate names) = names := by
  induction names with
  | nil => exact absurd rfl hsome
  | cons name rest ih =>
      have hname : pathParts name = [name] :=
        pathParts_of_whole (hplain name List.mem_cons_self).whole
      cases rest with
      | nil => simpa using hname
      | cons next rest =>
          rw [String.intercalate_cons_cons, pathParts_slash, hname,
            ih (fun other hother => hplain other (List.mem_cons_of_mem name hother)) (by simp)]
          rfl

theorem pathParts_rooted {names : List String} (hplain : ∀ name ∈ names, IsPlain name)
    (hsome : names ≠ []) : pathParts (rooted names) = "" :: names := by
  have hempty : rooted names = "" ++ "/" ++ "/".intercalate names := by simp [rooted]
  rw [hempty, pathParts_slash, pathParts_intercalate hplain hsome]
  rfl

end Parts

namespace Disk

variable {disk : Disk} {place names : List String} {file : DiskFile}

theorem isDirectory_nil : disk.isDirectory [] = true := by
  simp [isDirectory]

/-- All places on the way to a file are directories. -/
theorem isDirectory_of_mem (hfile : file ∈ disk.files) (hfront : place <+: file.location)
    (hne : place ≠ file.location) : disk.isDirectory place = true := by
  have hany : disk.files.any (fun file => place.isPrefixOf file.location && place ≠ file.location) =
      true := List.any_eq_true.mpr ⟨file, hfile, by simpa using ⟨hfront, hne⟩⟩
  rw [isDirectory, hany, Bool.or_true]

/-- The names of a file lead to it. -/
theorem walk?_of_mem (hfile : file ∈ disk.files) (hplain : ∀ name ∈ names, IsPlain name)
    (hlocation : place ++ names = file.location) : disk.walk? place names = some file.location := by
  induction names generalizing place with
  | nil => rw [walk?, ← hlocation, List.append_nil]
  | cons name rest ih =>
      have hname := hplain name List.mem_cons_self
      have hdirectory : disk.isDirectory place = true := by
        refine isDirectory_of_mem hfile ⟨_, hlocation⟩ fun hsame => ?_
        simp [← hlocation] at hsame
      rw [walk?, if_pos hdirectory, hname.elsewhere, if_neg Bool.false_ne_true, if_neg hname.onward]
      exact ih (fun other hother => hplain other (List.mem_cons_of_mem name hother))
        (by simpa using hlocation)

/-- A file is read at its path from the root. -/
theorem read?_rooted (hplain : ∀ name ∈ names, IsPlain name) (hsome : names ≠ [])
    (hfile : (disk.files.find? fun file => file.location = names) = some file) :
    disk.read? (rooted names) = some file.text := by
  have hmem := List.mem_of_find?_eq_some hfile
  have hlocation : file.location = names := by simpa using List.find?_some hfile
  have hwalk : disk.walk? [] ("" :: names) = some names := by
    rw [walk?, if_pos isDirectory_nil]
    exact hlocation ▸ walk?_of_mem hmem (hlocation ▸ hplain) rfl
  rw [read?, pathParts_rooted hplain hsome, hwalk]
  simp [hfile]

theorem isAbsolute_slash (path : String) : isAbsolute ("/" ++ path) = true := by
  simp [isAbsolute]

/-- Whatever ending may be added, a file is found at its path from the root. -/
theorem find?_rooted (hplain : ∀ name ∈ names, IsPlain name) (hsome : names ≠ [])
    (hfile : (disk.files.find? fun file => file.location = names) = some file) (ending : String) :
    disk.find? ending (rooted names) = some file.text := by
  have habsolute : disk.fromRoot (rooted names) = rooted names := if_pos (isAbsolute_slash _)
  rw [find?, habsolute, read?_rooted hplain hsome hfile]

/-- A path leads where the path from the root does that goes through the working directory. -/
theorem find?_fromRoot (ending path : String) :
    disk.find? ending (disk.fromRoot path) = disk.find? ending path := by
  have hsame : disk.fromRoot (disk.fromRoot path) = disk.fromRoot path := by
    by_cases habsolute : isAbsolute path = true
    · have hpath : disk.fromRoot path = path := if_pos habsolute
      rw [hpath, hpath]
    · have hpath : disk.fromRoot path = "/" ++ ("/".intercalate disk.directory ++ "/" ++ path) := by
        rw [fromRoot, if_neg habsolute]
        simp only [String.append_assoc]
      rw [hpath]
      exact if_pos (isAbsolute_slash _)
  rw [find?, hsame, ← find?]

end Disk

end TimedInvocation.Layers
