import Mathlib.Data.List.Forall2
import TimedInvocation.Duration.Reader

/-!
# Tokens of units

The words that name the units, and what it is for a token to spell one of them regardless of case. The
match of the reader and its lookup of the unit do not agree on that: the match also takes the long s for an
s, the lookup does not.
-/

namespace TimedInvocation

namespace TimeUnit

/-- The words that name a unit. The letter of `μs` is U+03BC, the sign of `µs` is U+00B5. -/
def words : TimeUnit → List String
  | nanoseconds => ["ns"]
  | microseconds => ["us", "μs", "µs"]
  | milliseconds => ["ms"]
  | seconds => ["s"]
  | minutes => ["m"]
  | hours => ["h"]
  | days => ["d"]

/-- The letters of the words that have a capital, with it. The capital of `μ` is U+039C. -/
def capitals : List (Char × Char) :=
  [('n', 'N'), ('u', 'U'), ('μ', 'Μ'), ('m', 'M'), ('s', 'S'), ('h', 'H'), ('d', 'D')]

/-- A character that stands for a letter: the letter or its capital. -/
def Spells (c letter : Char) : Prop :=
  c = letter ∨ (letter, c) ∈ capitals

/-- The same, but the long s stands for an s, too. -/
def SpellsLongS (c letter : Char) : Prop :=
  Spells c letter ∨ c = 'ſ' ∧ letter = 's'

theorem toNat_toLower (c : Char) :
    c.toLower.toNat = if 65 ≤ c.toNat ∧ c.toNat ≤ 90 then c.toNat + 32 else c.toNat := by
  delta Char.toLower
  split
  case isTrue hupper =>
    have hupper : 65 ≤ c.toNat ∧ c.toNat ≤ 90 := hupper
    rw [if_pos hupper]
    change (c.val + 32).toNat = c.val.toNat + 32
    rw [UInt32.toNat_add]
    exact Nat.mod_eq_of_lt (Nat.lt_of_le_of_lt (Nat.add_le_add_right hupper.2 32) (by decide))
  case isFalse hupper => exact (if_neg hupper).symm

theorem toLower_eq_iff {c small : Char} (hsmall : 97 ≤ small.toNat ∧ small.toNat ≤ 122) :
    c.toLower = small ↔ c = small ∨ c = small.toUpper := by
  have hcapital : small.toUpper.toNat + 32 = small.toNat := by
    have hdistance : ('A'.val - 'a'.val).toNat = 4294967264 := by decide
    have hsum := UInt32.toNat_add small.val ('A'.val - 'a'.val)
    rw [hdistance] at hsum
    delta Char.toUpper
    rw [dif_pos (show 'a'.val ≤ small.val ∧ small.val ≤ 'z'.val from hsmall)]
    refine (congrArg (· + 32) hsum).trans ?_
    change 97 ≤ small.val.toNat ∧ small.val.toNat ≤ 122 at hsmall
    change _ = small.val.toNat
    omega
  rw [← Char.toNat_inj, ← Char.toNat_inj, ← Char.toNat_inj, toNat_toLower]
  split <;> omega

/-- Only letters of the alphabet have capitals of that kind. -/
theorem toLower_eq_iff_of_lt {c other : Char} (hother : 122 < other.toNat) :
    c.toLower = other ↔ c = other := by
  rw [← Char.toNat_inj, ← Char.toNat_inj, toNat_toLower]
  split <;> omega

/-- The letters that occur in words. -/
def letters : List Char :=
  ['n', 'u', 'μ', 'µ', 'm', 's', 'h', 'd']

theorem words_subset_letters {unit : TimeUnit} {word : String} (hword : word ∈ unit.words) :
    word.toList ⊆ letters := by
  revert word
  cases unit <;> decide

theorem lowerLetter_eq_iff {c letter : Char} (hletter : letter ∈ letters) :
    lowerLetter c = letter ↔ Spells c letter := by
  simp only [letters, List.mem_cons, List.not_mem_nil, or_false] at hletter
  unfold lowerLetter
  split
  · subst c
    unfold Spells
    rcases hletter with rfl | rfl | rfl | rfl | rfl | rfl | rfl | rfl <;> decide
  · next hcapital =>
    rcases hletter with rfl | rfl | rfl | rfl | rfl | rfl | rfl | rfl <;>
      simp [Spells, capitals, toLower_eq_iff, toLower_eq_iff_of_lt, hcapital]

/-- The match takes the long s for an s and the micro sign for the letter. -/
theorem foldLetter_eq_iff {c letter : Char} (hletter : letter ∈ letters) (hnot : letter ≠ 'µ') :
    foldLetter c = letter ↔ SpellsLongS c letter ∨ c = 'µ' ∧ letter = 'μ' := by
  simp only [letters, List.mem_cons, List.not_mem_nil, or_false] at hletter
  unfold foldLetter
  split
  · subst c
    unfold SpellsLongS Spells
    rcases hletter with rfl | rfl | rfl | rfl | rfl | rfl | rfl | rfl <;> revert hnot <;> decide
  split
  · next hmu =>
    unfold SpellsLongS Spells
    rcases hmu with rfl | rfl <;>
      rcases hletter with rfl | rfl | rfl | rfl | rfl | rfl | rfl | rfl <;> revert hnot <;> decide
  · next hlong hmu =>
    simp only [not_or] at hmu
    rcases hletter with rfl | rfl | rfl | rfl | rfl | rfl | rfl | rfl <;>
      simp [SpellsLongS, Spells, capitals, toLower_eq_iff, toLower_eq_iff_of_lt, hlong, hmu] at hnot ⊢

theorem forall₂_congr_of_mem {α β : Type} {R S : α → β → Prop} {word : List β}
    (hrelated : ∀ b ∈ word, ∀ a, R a b ↔ S a b) {token : List α} :
    List.Forall₂ R token word ↔ List.Forall₂ S token word := by
  induction word generalizing token with
  | nil => simp
  | cons letter rest ih =>
      cases token with
      | nil => simp
      | cons c others =>
          rw [List.forall₂_cons, List.forall₂_cons, hrelated letter List.mem_cons_self,
            ih fun b hb => hrelated b (List.mem_cons_of_mem letter hb)]

theorem exists_of_mem_forall₂ {α β : Type} {R : α → β → Prop} {token : List α} {word : List β}
    (hrelated : List.Forall₂ R token word) : ∀ c ∈ token, ∃ letter ∈ word, R c letter := by
  induction hrelated with
  | nil => exact fun c hc => absurd hc List.not_mem_nil
  | cons hfirst _ ih =>
      rintro c (_ | ⟨_, hc⟩)
      · exact ⟨_, List.mem_cons_self, hfirst⟩
      · obtain ⟨letter, hletter, hlater⟩ := ih c hc
        exact ⟨letter, List.mem_cons_of_mem _ hletter, hlater⟩

theorem map_eq_iff_forall₂ {f : Char → Char} {token word : List Char} :
    token.map f = word ↔ List.Forall₂ (fun c letter => f c = letter) token word := by
  rw [← List.forall₂_map_left_iff (R := Eq), List.forall₂_eq_eq_eq]

theorem ofToken?_eq_some_iff_mem {token : List Char} {unit : TimeUnit} :
    ofToken? token = some unit ↔ String.ofList (token.map lowerLetter) ∈ unit.words := by
  unfold ofToken?
  generalize String.ofList (token.map lowerLetter) = lowered
  split <;> cases unit <;> simp_all [words]

/-- A token names a unit if it spells one of its words. -/
theorem ofToken?_eq_some_iff {token : List Char} {unit : TimeUnit} :
    ofToken? token = some unit ↔ ∃ word ∈ unit.words, List.Forall₂ Spells token word.toList := by
  have hspelt : ∀ word ∈ unit.words, String.ofList (token.map lowerLetter) = word ↔
      List.Forall₂ Spells token word.toList := fun word hword => by
    rw [← String.toList_inj, String.toList_ofList, map_eq_iff_forall₂]
    exact forall₂_congr_of_mem fun letter hletter c =>
      lowerLetter_eq_iff (words_subset_letters hword hletter)
  rw [ofToken?_eq_some_iff_mem]
  constructor
  · exact fun hmem => ⟨_, hmem, (hspelt _ hmem).mp rfl⟩
  · rintro ⟨word, hword, hword'⟩
    exact (hspelt word hword).mpr hword' ▸ hword

theorem foldLetter_of_spells {c letter : Char} (hletter : letter ∈ letters)
    (hspells : SpellsLongS c letter) : foldLetter c = foldLetter letter := by
  by_cases hmicro : letter = 'µ'
  · have hc : c = 'µ' := by simpa [hmicro, SpellsLongS, Spells, capitals] using hspells
    rw [hc, hmicro]
  · rw [(foldLetter_eq_iff hletter hmicro).mpr (.inl hspells),
      (foldLetter_eq_iff hletter hmicro).mpr (.inl (.inl (.inl rfl)))]

/-- The words of all units, with one of the two that differ in the sign only. -/
def foldedWords : List String :=
  ["ns", "μs", "us", "ms", "s", "m", "h", "d"]

theorem exists_mem_words {word : String} (hword : word ∈ foldedWords) :
    ∃ unit : TimeUnit, word ∈ unit.words := by
  simp only [foldedWords, List.mem_cons, List.not_mem_nil, or_false] at hword
  rcases hword with rfl | rfl | rfl | rfl | rfl | rfl | rfl | rfl
  · exact ⟨nanoseconds, by decide⟩
  · exact ⟨microseconds, by decide⟩
  · exact ⟨microseconds, by decide⟩
  · exact ⟨milliseconds, by decide⟩
  · exact ⟨seconds, by decide⟩
  · exact ⟨minutes, by decide⟩
  · exact ⟨hours, by decide⟩
  · exact ⟨days, by decide⟩

theorem exists_of_map_foldLetter {token : List Char} {word : String} (hword : word ∈ foldedWords)
    (hfolded : token.map foldLetter = word.toList) :
    ∃ unit : TimeUnit, ∃ word ∈ unit.words, List.Forall₂ SpellsLongS token word.toList := by
  have hfolded := map_eq_iff_forall₂.mp hfolded
  by_cases hmicro : word = "μs"
  · rw [hmicro, show "μs".toList = ['μ', 's'] from rfl] at hfolded
    obtain _ | ⟨hmu, _ | ⟨hs, ⟨⟩⟩⟩ := hfolded
    have hs := ((foldLetter_eq_iff (by decide) (by decide)).mp hs).resolve_right (by simp)
    rcases (foldLetter_eq_iff (by decide) (by decide)).mp hmu with hmu | ⟨rfl, -⟩
    · exact ⟨microseconds, "μs", by decide, .cons hmu (.cons hs .nil)⟩
    · exact ⟨microseconds, "µs", by decide, .cons (.inl (.inl rfl)) (.cons hs .nil)⟩
  · obtain ⟨unit, hunit⟩ := exists_mem_words hword
    have hplain : ∀ word ∈ foldedWords, word ≠ "μs" → 'μ' ∉ word.toList ∧ 'µ' ∉ word.toList := by
      decide
    obtain ⟨hmu, hsign⟩ := hplain word hword hmicro
    refine ⟨unit, word, hunit, (forall₂_congr_of_mem fun letter hletter c => ?_).mp hfolded⟩
    have hletter_mu : letter ≠ 'μ' := fun heq => hmu (heq ▸ hletter)
    have hletter_sign : letter ≠ 'µ' := fun heq => hsign (heq ▸ hletter)
    simp [foldLetter_eq_iff (words_subset_letters hunit hletter) hletter_sign, hletter_mu]

theorem map_eq_map_of_forall₂ {f : Char → Char} {R : Char → Char → Prop} {token word : List Char}
    (hword : List.Forall₂ R token word) (hrelated : ∀ b ∈ word, ∀ a, R a b → f a = f b) :
    token.map f = word.map f := by
  induction hword with
  | nil => rfl
  | cons hfirst _ ih =>
      rw [List.map_cons, List.map_cons, hrelated _ List.mem_cons_self _ hfirst,
        ih fun b hb => hrelated b (List.mem_cons_of_mem _ hb)]

/-- A token is admitted if it spells a word with the long s for an s. -/
theorem admits_iff {token : List Char} : admits token = true ↔
    ∃ unit : TimeUnit, ∃ word ∈ unit.words, List.Forall₂ SpellsLongS token word.toList := by
  have hadmits : admits token = true ↔ ∃ word ∈ foldedWords, token.map foldLetter = word.toList := by
    simp [admits, foldedWords]
  rw [hadmits]
  constructor
  · rintro ⟨word, hword, hfolded⟩
    exact exists_of_map_foldLetter hword hfolded
  · rintro ⟨unit, word, hword, hspelt⟩
    rw [map_eq_map_of_forall₂ hspelt fun letter hletter c =>
      foldLetter_of_spells (words_subset_letters hword hletter)]
    clear hspelt
    revert word
    cases unit <;> decide

/-- The characters that tokens are made of. -/
def characters : List Char :=
  letters ++ capitals.map Prod.snd ++ ['ſ']

/-- None of them is a digit or a blank character. -/
theorem plain_of_mem_characters {c : Char} (hc : c ∈ characters) :
    c.isDigit = false ∧ Text.isBlank c = false := by
  have hall : characters.all (fun c => !c.isDigit && !Text.isBlank c) = true := by decide
  simpa using List.all_eq_true.mp hall c hc

theorem mem_characters {c letter : Char} (hletter : letter ∈ letters) (hspells : SpellsLongS c letter) :
    c ∈ characters := by
  rcases hspells with (rfl | hcapital) | ⟨rfl, -⟩
  · exact List.mem_append_left _ (List.mem_append_left _ hletter)
  · have hmem : c ∈ capitals.map Prod.snd := List.mem_map.mpr ⟨_, hcapital, rfl⟩
    exact List.mem_append_left _ (List.mem_append_right _ hmem)
  · decide

/-- An admitted token is not empty, and is made of these characters only. -/
theorem admits_plain {token : List Char} (hadmits : admits token = true) :
    token ≠ [] ∧ ∀ c ∈ token, c ∈ characters := by
  obtain ⟨unit, word, hword, hspelt⟩ := admits_iff.mp hadmits
  constructor
  · rintro rfl
    have hempty := List.forall₂_nil_left_iff.mp hspelt
    revert hempty
    clear hspelt
    revert word
    cases unit <;> decide
  · intro c hc
    obtain ⟨letter, hletter, hspells⟩ := exists_of_mem_forall₂ hspelt c hc
    exact mem_characters (words_subset_letters hword hletter) hspells

end TimeUnit

end TimedInvocation
