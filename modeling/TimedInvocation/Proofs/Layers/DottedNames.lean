import TimedInvocation.Layers.Path

/-!
# Dotted names

Names of lowercase words with dots between them are read as paths of names, one for each word. No other text
is read as such a path, so that two keys never lead to the place of one dotted name.
-/

namespace TimedInvocation.Layers

namespace Path

/-- All steps of a path, that to its root included. -/
def way (path : Path) : List PathStep :=
  .name path.root :: path.steps

/-- The path that goes on to a member. -/
def child (path : Path) (name : String) : Path :=
  ⟨path.root, path.steps ++ [.name name]⟩

@[simp]
theorem way_child (path : Path) (name : String) : (path.child name).way = path.way ++ [.name name] :=
  rfl

end Path

/-- A name of lowercase words, none of them empty, with a dot between each two of them. -/
structure DottedName where
  first : String
  rest : List String
  lower : ∀ word ∈ first :: rest, word ≠ "" ∧ ∀ c ∈ word.toList, c.isLower = true

/-- Some words with a dot before each of them. -/
def dotted (words : List String) : List Char :=
  words.flatMap fun word => '.' :: word.toList

namespace DottedName

def text (p : DottedName) : String :=
  ".".intercalate (p.first :: p.rest)

def path (p : DottedName) : Path :=
  ⟨p.first, p.rest.map .name⟩

def way (p : DottedName) : List PathStep :=
  (p.first :: p.rest).map .name

theorem way_eq {p : DottedName} {other : Path} : other.way = p.way ↔ other = p.path := by
  obtain ⟨root, steps⟩ := other
  simp [Path.way, way, path]

theorem toList_text (p : DottedName) : p.text.toList = p.first.toList ++ dotted p.rest := by
  have hjoin (words : List String) (word : String) :
      (".".intercalate (word :: words)).toList = word.toList ++ dotted words := by
    induction words generalizing word with
    | nil => simp [dotted]
    | cons next words ih =>
        rw [String.intercalate_cons_cons, String.toList_append, ih]
        simp [dotted]
  exact hjoin p.rest p.first

end DottedName

theorem Path.isNameChar_of_isLower {c : Char} (hlower : c.isLower = true) : isNameChar c = true := by
  have halpha : c.isAlpha = true := (Bool.or_eq_true _ _).mpr (.inr hlower)
  simp [isNameChar, Char.isAlphanum, halpha]

/-- What is read of a name ends at the dot before the next word. -/
theorem span_of_lower {word : String} (words : List String) (hword : ∀ c ∈ word.toList, c.isLower = true) :
    (word.toList ++ dotted words).takeWhile Path.isNameChar = word.toList ∧
      (word.toList ++ dotted words).dropWhile Path.isNameChar = dotted words := by
  have hname : ∀ c ∈ word.toList, Path.isNameChar c = true := fun c hc =>
    Path.isNameChar_of_isLower (hword c hc)
  have hdot : Path.isNameChar '.' = false := by decide
  rw [List.takeWhile_append_of_pos hname, List.dropWhile_append_of_pos hname]
  cases words with
  | nil => simp [dotted]
  | cons word words => simp [dotted, hdot]

/-- A word behind a dot is read as a name. -/
theorem Path.readStep?_name {word : String} {s : List Char} (hne : word ≠ "")
    (htake : s.takeWhile isNameChar = word.toList) :
    readStep? ('.' :: s) = some (.name word, s.dropWhile isNameChar) := by
  cases hletters : word.toList with
  | nil => exact absurd (String.toList_eq_nil_iff.mp hletters) hne
  | cons c letters =>
      have hword : String.ofList (c :: letters) = word := by rw [← hletters, String.ofList_toList]
      simp [readStep?, htake, hletters, hword]

theorem Path.readSteps?_dotted {words : List String} {fuel : Nat} (hfuel : words.length ≤ fuel)
    (hwords : ∀ word ∈ words, word ≠ "" ∧ ∀ c ∈ word.toList, c.isLower = true) :
    readSteps? fuel (dotted words) = some (words.map .name) := by
  induction words generalizing fuel with
  | nil => cases fuel <;> rfl
  | cons word words ih =>
      cases fuel with
      | zero => cases hfuel
      | succ fuel =>
          obtain ⟨hne, hword⟩ := hwords word List.mem_cons_self
          obtain ⟨htake, hdrop⟩ := span_of_lower words hword
          have hrest := ih (Nat.le_of_succ_le_succ hfuel) fun w hw => hwords w (List.mem_cons_of_mem word hw)
          change readSteps? (fuel + 1) ('.' :: (word.toList ++ dotted words)) = _
          simp [readSteps?, readStep?_name hne htake, hdrop, hrest]

/-- Only a word behind a dot is read as a name. -/
theorem Path.eq_of_readStep?_name {s rest : List Char} {word : String}
    (hread : readStep? s = some (.name word, rest)) : s = '.' :: word.toList ++ rest := by
  unfold readStep? at hread
  split at hread
  · split at hread
    · cases hread
    · obtain ⟨rfl, rfl⟩ : _ ∧ _ := by simpa using hread
      simp
  · split at hread
    · cases hread
    · split at hread <;> cases hread
  · cases hread

theorem Path.eq_dotted_of_readSteps? {words : List String} {fuel : Nat} {s : List Char}
    (hread : readSteps? fuel s = some (words.map .name)) : s = dotted words := by
  induction fuel generalizing words s with
  | zero =>
      cases s with
      | nil =>
          cases words with
          | nil => rfl
          | cons word words => simp [readSteps?] at hread
      | cons c s => simp [readSteps?] at hread
  | succ fuel ih =>
      cases s with
      | nil =>
          cases words with
          | nil => rfl
          | cons word words => simp [readSteps?] at hread
      | cons c s =>
          cases hstep : readStep? (c :: s) with
          | none => simp [readSteps?, hstep] at hread
          | some found =>
              obtain ⟨step, rest⟩ := found
              obtain ⟨steps, hsteps, hall⟩ : ∃ steps, readSteps? fuel rest = some steps ∧
                  step :: steps = words.map .name := by
                simpa [readSteps?, hstep] using hread
              cases words with
              | nil => cases hall
              | cons word words =>
                  obtain ⟨rfl, rfl⟩ := List.cons.inj hall
                  rw [eq_of_readStep?_name hstep, ih hsteps]
                  rfl

namespace DottedName

theorem length_rest_le (words : List String) : words.length ≤ (dotted words).length := by
  induction words with
  | nil => exact Nat.zero_le _
  | cons word words ih =>
      simp only [dotted, List.flatMap_cons, List.length_append, List.length_cons] at ih ⊢
      omega

theorem read?_text (p : DottedName) : Path.read? p.text = some p.path := by
  obtain ⟨hne, hfirst⟩ := p.lower p.first List.mem_cons_self
  obtain ⟨htake, hdrop⟩ := span_of_lower p.rest hfirst
  have hrest := Path.readSteps?_dotted (length_rest_le p.rest) fun word hword =>
    p.lower word (List.mem_cons_of_mem p.first hword)
  cases hletters : p.first.toList with
  | nil => exact absurd (String.toList_eq_nil_iff.mp hletters) hne
  | cons c letters =>
      have hword : String.ofList (c :: letters) = p.first := by rw [← hletters, String.ofList_toList]
      rw [Path.read?, toList_text, htake, hdrop]
      simp [hletters, hword, hrest, path]

/-- The name is the only text that is read as its path. -/
theorem read?_eq_path {p : DottedName} {key : String} : Path.read? key = some p.path ↔ key = p.text := by
  constructor
  · intro hread
    unfold Path.read? at hread
    split at hread
    · cases hread
    · obtain ⟨steps, hsteps, hpath⟩ := Option.map_eq_some_iff.mp hread
      obtain ⟨hfirst, rfl⟩ := Path.mk.inj hpath
      rw [← String.toList_inj, toList_text, ← Path.eq_dotted_of_readSteps? hsteps, ← hfirst,
        String.toList_ofList, List.takeWhile_append_dropWhile]
  · rintro rfl
    exact read?_text p

end DottedName

end TimedInvocation.Layers
