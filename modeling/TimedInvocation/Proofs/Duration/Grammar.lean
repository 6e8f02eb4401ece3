import Mathlib.Data.List.TakeWhile
import Mathlib.Data.Nat.Digits.Defs
import TimedInvocation.Proofs.Duration.Tokens

/-!
# The grammar of written timeouts

A written timeout is a numeral without a leading zero, at most one space and a token, amid blank characters.
The reader decides this grammar, and tells numbers of more than 64 bits from texts that are no timeouts, with
one exception: a number that is too large is also reported as such before a token that spells a word with a
long s, although that token is none.
-/

namespace TimedInvocation

open Text TimeUnit

section Trim

/-- What is trimmed at the two ends is blank. -/
theorem trimChars_parts (s : List Char) : ∃ before after, s = before ++ trimChars s ++ after ∧
    (∀ c ∈ before, isBlank c = true) ∧ ∀ c ∈ after, isBlank c = true := by
  refine ⟨s.takeWhile isBlank, ((s.dropWhile isBlank).reverse.takeWhile isBlank).reverse, ?_,
    fun c hc => List.mem_takeWhile_imp hc, fun c hc => List.mem_takeWhile_imp (List.mem_reverse.mp hc)⟩
  have hend : trimChars s ++ ((s.dropWhile isBlank).reverse.takeWhile isBlank).reverse =
      s.dropWhile isBlank := by
    rw [trimChars, ← List.reverse_append, List.takeWhile_append_dropWhile, List.reverse_reverse]
  rw [List.append_assoc, hend, List.takeWhile_append_dropWhile]

theorem dropWhile_append_of_head {p : Char → Bool} {front core : List Char}
    (hfront : ∀ c ∈ front, p c = true) (hhead : ∀ c ∈ core.head?, p c = false) :
    (front ++ core).dropWhile p = core := by
  rw [List.dropWhile_append_of_pos hfront]
  cases core with
  | nil => rfl
  | cons c rest => rw [List.dropWhile_cons_of_neg (by simp [hhead c rfl])]

/-- A text that neither begins nor ends with a blank character is what trimming leaves. -/
theorem trimChars_eq {before core after : List Char} (hbefore : ∀ c ∈ before, isBlank c = true)
    (hafter : ∀ c ∈ after, isBlank c = true) (hcore : core ≠ [])
    (hfirst : ∀ c ∈ core.head?, isBlank c = false) (hlast : ∀ c ∈ core.getLast?, isBlank c = false) :
    trimChars (before ++ core ++ after) = core := by
  have hhead : (core ++ after).head? = core.head? := by
    cases core with
    | nil => exact absurd rfl hcore
    | cons c rest => rfl
  rw [trimChars, List.append_assoc, dropWhile_append_of_head hbefore (hhead ▸ hfirst),
    List.reverse_append, dropWhile_append_of_head (by simpa using hafter) (by simpa using hlast),
    List.reverse_reverse]

end Trim

namespace Duration

section Numerals

/-- A positive number in decimal digits, without a leading zero. -/
structure Numeral (digits : List Char) : Prop where
  nonempty : digits ≠ []
  digit : ∀ c ∈ digits, c.isDigit = true
  leading : digits.head? ≠ some '0'

/-- The number that decimal digits stand for. -/
def decimalValue (digits : List Char) : Nat :=
  Nat.ofDigits 10 (digits.reverse.map fun c => c.toNat - '0'.toNat)

variable {digits : List Char}

theorem toNat_of_isDigit {c : Char} (hdigit : c.isDigit = true) : 48 ≤ c.toNat ∧ c.toNat ≤ 57 := by
  simpa [Char.isDigit, UInt32.le_iff_toNat_le] using hdigit

theorem isBlank_of_isDigit {c : Char} (hdigit : c.isDigit = true) : isBlank c = false := by
  have hbounds := toNat_of_isDigit hdigit
  simp only [isBlank, inRanges, blankRanges, List.any_cons, List.any_nil, Bool.or_false,
    Bool.or_eq_false_iff, Bool.and_eq_false_iff, decide_eq_false_iff_not]
  omega

/-- The reader works out the number from the left. -/
theorem ofDigits_eq_decimalValue (hdigit : ∀ c ∈ digits, c.isDigit = true) :
    ofDigits 10 digits = decimalValue digits := by
  rw [decimalValue, Nat.ofDigits_eq_foldr, List.foldr_map, List.foldr_reverse, ofDigits]
  refine List.foldl_ext _ _ _ fun n c hc => ?_
  simp [digitValue, hdigit c hc, Nat.add_comm]

theorem le_foldl_digits (digits : List Char) (n : Nat) :
    n ≤ digits.foldl (fun n c => 10 * n + digitValue c) n := by
  induction digits generalizing n with
  | nil => exact Nat.le_refl n
  | cons c rest ih =>
      have hstep : n ≤ 10 * n + digitValue c := by omega
      exact Nat.le_trans hstep (ih _)

theorem Numeral.pos (hnumeral : Numeral digits) : 0 < ofDigits 10 digits := by
  cases digits with
  | nil => exact absurd rfl hnumeral.nonempty
  | cons c rest =>
      have hdigit : c.isDigit = true := hnumeral.digit c List.mem_cons_self
      have hzero : c.toNat ≠ 48 := fun hzero =>
        hnumeral.leading (congrArg some (Char.toNat_inj.mp (hzero.trans rfl)))
      have hvalue : 0 < digitValue c := by
        rw [digitValue, if_pos hdigit]
        change 0 < c.toNat - 48
        have hbounds := toNat_of_isDigit hdigit
        omega
      have hfirst : 0 < 10 * 0 + digitValue c := by omega
      exact Nat.lt_of_lt_of_le hfirst (le_foldl_digits rest _)

end Numerals

section Split

variable {gap token : List Char}

/-- What is left after at most one space. -/
def afterGap : List Char → List Char
  | ' ' :: token => token
  | token => token

theorem split?_eq (s : List Char) : split? s =
    match s.takeWhile Char.isDigit with
    | [] => none
    | '0' :: _ => none
    | _ =>
      if admits (afterGap (s.dropWhile Char.isDigit)) then
        some (s.takeWhile Char.isDigit, afterGap (s.dropWhile Char.isDigit))
      else none :=
  rfl

theorem exists_gap (rest : List Char) :
    ∃ gap, (gap = [] ∨ gap = [' ']) ∧ rest = gap ++ afterGap rest := by
  unfold afterGap
  split
  · exact ⟨[' '], .inr rfl, rfl⟩
  · exact ⟨[], .inl rfl, rfl⟩

theorem afterGap_append (hgap : gap = [] ∨ gap = [' ']) (htoken : token.head? ≠ some ' ') :
    afterGap (gap ++ token) = token := by
  rcases hgap with rfl | rfl
  · unfold afterGap
    split
    · next hspace => exact absurd (congrArg List.head? hspace) htoken
    · rfl
  · rfl

/-- A text is split into a numeral and an admitted token, with at most one space in between. -/
theorem split?_eq_some_iff {s digits : List Char} : split? s = some (digits, token) ↔
    Numeral digits ∧ admits token = true ∧
      ∃ gap, (gap = [] ∨ gap = [' ']) ∧ s = digits ++ gap ++ token := by
  rw [split?_eq]
  constructor
  · intro hsplit
    have hparts := List.takeWhile_append_dropWhile (p := Char.isDigit) (l := s)
    have hdigit : ∀ c ∈ s.takeWhile Char.isDigit, c.isDigit = true := fun c hc =>
      List.mem_takeWhile_imp hc
    split at hsplit
    case h_1 | h_2 => cases hsplit
    case h_3 hsome hleading =>
      split at hsplit
      case isFalse => cases hsplit
      case isTrue hadmits =>
        cases hsplit
        obtain ⟨gap, hgap, hrest⟩ := exists_gap (s.dropWhile Char.isDigit)
        refine ⟨⟨hsome, hdigit, fun hzero => ?_⟩, hadmits, gap, hgap, ?_⟩
        · obtain ⟨more, hmore⟩ := List.head?_eq_some_iff.mp hzero
          exact hleading more hmore
        · rw [List.append_assoc, ← hrest, hparts]
  · rintro ⟨hnumeral, hadmits, gap, hgap, rfl⟩
    have hhead : ∀ c ∈ token.head?, c.isDigit = false ∧ isBlank c = false := fun c hc =>
      plain_of_mem_characters ((admits_plain hadmits).2 c (List.mem_of_mem_head? hc))
    have hrest : ∀ c ∈ (gap ++ token).head?, c.isDigit = false := by
      rcases hgap with rfl | rfl
      · exact fun c hc => (hhead c hc).1
      · rintro c ⟨⟩
        rfl
    have hdrop : (digits ++ (gap ++ token)).dropWhile Char.isDigit = gap ++ token :=
      dropWhile_append_of_head hnumeral.digit hrest
    have htake : (digits ++ (gap ++ token)).takeWhile Char.isDigit = digits := by
      have hparts := List.takeWhile_append_dropWhile (p := Char.isDigit) (l := digits ++ (gap ++ token))
      rw [hdrop] at hparts
      exact List.append_cancel_right hparts
    have htoken : afterGap (gap ++ token) = token :=
      afterGap_append hgap fun hspace => absurd (hhead ' ' hspace).2 (by decide)
    rw [List.append_assoc, htake, hdrop, htoken]
    split
    case h_1 => exact absurd rfl hnumeral.nonempty
    case h_2 => exact absurd rfl hnumeral.leading
    case h_3 => rw [if_pos hadmits]

end Split

/-- The parts of a written timeout. -/
structure Writing where
  before : List Char
  digits : List Char
  gap : List Char
  token : List Char
  after : List Char

namespace Writing

def text (p : Writing) : List Char :=
  p.before ++ (p.digits ++ p.gap ++ p.token) ++ p.after

/-- The writing follows the grammar, with a token that spells a word of a unit in a given way. -/
structure Follows (p : Writing) (spells : Char → Char → Prop) (unit : TimeUnit) : Prop where
  before : ∀ c ∈ p.before, isBlank c = true
  numeral : Numeral p.digits
  gap : p.gap = [] ∨ p.gap = [' ']
  token : ∃ word ∈ unit.words, List.Forall₂ spells p.token word.toList
  after : ∀ c ∈ p.after, isBlank c = true

end Writing

/-- A text is a writing of a number of units. -/
def Denotes (spells : Char → Char → Prop) (input : String) (n : Nat) (unit : TimeUnit) : Prop :=
  ∃ p : Writing, input.toList = p.text ∧ p.Follows spells unit ∧ decimalValue p.digits = n

/-- A text follows the grammar. -/
def Grammatical (input : String) : Prop :=
  ∃ n unit, Denotes Spells input n unit

/-- A text does not follow the grammar, but would if the long s were an s, with a number that is too
large. -/
def Misread (input : String) : Prop :=
  ¬ Grammatical input ∧ ∃ n unit, Denotes SpellsLongS input n unit ∧ wordCount ≤ n

section Denotes

variable {spells : Char → Char → Prop} {input : String} {n : Nat} {unit : TimeUnit}

/-- What a writing is trimmed to, and how that is split. -/
theorem Writing.Follows.split? {p : Writing} (hp : p.Follows spells unit)
    (hspells : ∀ c letter, spells c letter → SpellsLongS c letter) :
    Duration.split? (trimChars p.text) = some (p.digits, p.token) := by
  obtain ⟨word, hword, hspelt⟩ := hp.token
  have hadmits : admits p.token = true := admits_iff.mpr ⟨unit, word, hword, hspelt.imp hspells⟩
  obtain ⟨hsome, hcharacters⟩ := admits_plain hadmits
  have hcore : p.digits ++ p.gap ++ p.token ≠ [] := by simp [hsome]
  have hfirst : ∀ c ∈ (p.digits ++ p.gap ++ p.token).head?, isBlank c = false := by
    rw [List.append_assoc, List.head?_append_of_ne_nil _ hp.numeral.nonempty]
    exact fun c hc => isBlank_of_isDigit (hp.numeral.digit c (List.mem_of_mem_head? hc))
  have hlast : ∀ c ∈ (p.digits ++ p.gap ++ p.token).getLast?, isBlank c = false := by
    rw [List.getLast?_append_of_ne_nil _ hsome]
    exact fun c hc => (plain_of_mem_characters (hcharacters c (List.mem_of_getLast? hc))).2
  rw [Writing.text, trimChars_eq hp.before hp.after hcore hfirst hlast]
  exact split?_eq_some_iff.mpr ⟨hp.numeral, hadmits, p.gap, hp.gap, rfl⟩

/-- A text denotes what the reader splits it into. -/
theorem denotes_iff (hspells : ∀ c letter, spells c letter → SpellsLongS c letter) :
    Denotes spells input n unit ↔ ∃ digits token,
      Duration.split? (trimChars input.toList) = some (digits, token) ∧ ofDigits 10 digits = n ∧
        ∃ word ∈ unit.words, List.Forall₂ spells token word.toList := by
  constructor
  · rintro ⟨p, htext, hp, rfl⟩
    exact ⟨p.digits, p.token, htext ▸ hp.split? hspells, ofDigits_eq_decimalValue hp.numeral.digit,
      hp.token⟩
  · rintro ⟨digits, token, hsplit, rfl, hword⟩
    obtain ⟨hnumeral, -, gap, hgap, hcore⟩ := split?_eq_some_iff.mp hsplit
    obtain ⟨before, after, hinput, hbefore, hafter⟩ := trimChars_parts input.toList
    refine ⟨⟨before, digits, gap, token, after⟩, ?_, ⟨hbefore, hnumeral, hgap, hword, hafter⟩,
      (ofDigits_eq_decimalValue hnumeral.digit).symm⟩
    rw [hinput, hcore]
    rfl

theorem Denotes.unique {n' : Nat} {unit' : TimeUnit} (hdenotes : Denotes Spells input n unit)
    (hother : Denotes Spells input n' unit') : n' = n ∧ unit' = unit := by
  obtain ⟨digits, token, hsplit, rfl, hword⟩ := (denotes_iff fun _ _ => .inl).mp hdenotes
  obtain ⟨digits', token', hsplit', rfl, hword'⟩ := (denotes_iff fun _ _ => .inl).mp hother
  cases hsplit.symm.trans hsplit'
  have hunit := (ofToken?_eq_some_iff.mpr hword').symm.trans (ofToken?_eq_some_iff.mpr hword)
  exact ⟨rfl, Option.some.inj hunit⟩

theorem Denotes.pos (hdenotes : Denotes Spells input n unit) : 0 < n := by
  obtain ⟨p, -, hp, rfl⟩ := hdenotes
  rw [← ofDigits_eq_decimalValue hp.numeral.digit]
  exact hp.numeral.pos

end Denotes

/-- The answer that the reader owes to a text. -/
inductive Answers (input : String) : Except DurationError Duration → Prop where
  | duration {d : Duration} (hdenotes : Denotes Spells input d.magnitude d.unit) :
      Answers input (.ok d)
  | tooLarge {n : Nat} {unit : TimeUnit} (hdenotes : Denotes Spells input n unit)
      (hlarge : wordCount ≤ n) : Answers input (.error (.overflow input))
  | misread (hmisread : Misread input) : Answers input (.error (.overflow input))
  | none (hnot : ¬ Grammatical input) (hmisread : ¬ Misread input) :
      Answers input (.error (.invalidFormat input))

namespace Answers

variable {input : String} {answer : Except DurationError Duration} {n : Nat} {unit : TimeUnit}

theorem eq_ok (hanswers : Answers input answer) (hpos : 0 < n) (hlt : n < wordCount)
    (hdenotes : Denotes Spells input n unit) : answer = .ok ⟨n, unit, hpos, hlt⟩ := by
  cases hanswers with
  | duration hother =>
      obtain ⟨rfl, rfl⟩ := hother.unique hdenotes
      rfl
  | tooLarge hother hlarge =>
      obtain ⟨rfl, -⟩ := hother.unique hdenotes
      exact absurd hlt (Nat.not_lt.mpr hlarge)
  | misread hmisread => exact absurd ⟨n, unit, hdenotes⟩ hmisread.1
  | none hnot => exact absurd ⟨n, unit, hdenotes⟩ hnot

theorem eq_overflow (hanswers : Answers input answer)
    (hlarge : (∃ n unit, Denotes Spells input n unit ∧ wordCount ≤ n) ∨ Misread input) :
    answer = .error (.overflow input) := by
  cases hanswers with
  | tooLarge | misread => rfl
  | @duration d hother =>
      rcases hlarge with ⟨n, unit, hdenotes, hlarge⟩ | hmisread
      · obtain ⟨rfl, -⟩ := hother.unique hdenotes
        exact absurd d.magnitude_lt (Nat.not_lt.mpr hlarge)
      · exact absurd ⟨_, _, hother⟩ hmisread.1
  | none hnot hmisread =>
      rcases hlarge with ⟨n, unit, hdenotes, -⟩ | hmisread'
      · exact absurd ⟨n, unit, hdenotes⟩ hnot
      · exact absurd hmisread' hmisread

theorem eq_invalidFormat (hanswers : Answers input answer) (hnot : ¬ Grammatical input)
    (hmisread : ¬ Misread input) : answer = .error (.invalidFormat input) := by
  cases hanswers with
  | duration hdenotes | tooLarge hdenotes => exact absurd ⟨_, _, hdenotes⟩ hnot
  | misread hmisread' => exact absurd hmisread' hmisread
  | none => rfl

end Answers

theorem new?_of_lt {n : Nat} (unit : TimeUnit) (hpos : 0 < n) (hlt : n < wordCount) :
    new? n unit = some ⟨n, unit, hpos, hlt⟩ :=
  dif_pos ⟨hpos, hlt⟩

theorem answers_read (input : String) : Answers input (read input) := by
  rw [read]
  split
  case h_1 hsplit =>
    have hnever {spells : Char → Char → Prop} {n : Nat} {unit : TimeUnit}
        (hspells : ∀ c letter, spells c letter → SpellsLongS c letter) :
        ¬ Denotes spells input n unit := fun hdenotes => by
      obtain ⟨digits, token, hsome, -⟩ := (denotes_iff hspells).mp hdenotes
      cases hsplit.symm.trans hsome
    refine .none ?_ ?_
    · rintro ⟨n, unit, hdenotes⟩
      exact hnever (fun _ _ => .inl) hdenotes
    · rintro ⟨-, n, unit, hdenotes, -⟩
      exact hnever (fun _ _ => id) hdenotes
  case h_2 digits token hsplit =>
    obtain ⟨hnumeral, hadmits, -⟩ := split?_eq_some_iff.mp hsplit
    have hdenotes {unit : TimeUnit} (hunit : ofToken? token = some unit) :
        Denotes Spells input (ofDigits 10 digits) unit :=
      (denotes_iff fun _ _ => .inl).mpr ⟨digits, token, hsplit, rfl, ofToken?_eq_some_iff.mp hunit⟩
    have hungrammatical (hunit : ofToken? token = none) : ¬ Grammatical input := by
      rintro ⟨n, unit, hother⟩
      obtain ⟨digits', token', hsplit', -, hword⟩ := (denotes_iff fun _ _ => .inl).mp hother
      cases hsplit.symm.trans hsplit'
      cases hunit.symm.trans (ofToken?_eq_some_iff.mpr hword)
    simp only
    split
    case isTrue hlarge =>
      cases hunit : ofToken? token with
      | some unit => exact .tooLarge (hdenotes hunit) hlarge
      | none =>
          obtain ⟨unit, hword⟩ := admits_iff.mp hadmits
          refine .misread ⟨hungrammatical hunit, ofDigits 10 digits, unit, ?_, hlarge⟩
          exact (denotes_iff fun _ _ => id).mpr ⟨digits, token, hsplit, rfl, hword⟩
    case isFalse hsmall =>
      split
      case h_1 hunit =>
        refine .none (hungrammatical hunit) ?_
        rintro ⟨-, n, unit, hother, hlarge⟩
        obtain ⟨digits', token', hsplit', rfl, -⟩ := (denotes_iff fun _ _ => id).mp hother
        cases hsplit.symm.trans hsplit'
        exact hsmall hlarge
      case h_2 unit hunit =>
        rw [new?_of_lt unit hnumeral.pos (Nat.lt_of_not_le hsmall)]
        exact .duration (hdenotes hunit)

section Read

variable {input given : String}

theorem read_eq_ok_iff {d : Duration} :
    read input = .ok d ↔ Denotes Spells input d.magnitude d.unit := by
  have hanswers := answers_read input
  constructor
  · intro hread
    rw [hread] at hanswers
    cases hanswers with
    | duration hdenotes => exact hdenotes
  · exact hanswers.eq_ok d.magnitude_pos d.magnitude_lt

theorem read_isOk_iff :
    (∃ d, read input = .ok d) ↔ ∃ n unit, Denotes Spells input n unit ∧ n < wordCount := by
  constructor
  · rintro ⟨d, hread⟩
    exact ⟨d.magnitude, d.unit, read_eq_ok_iff.mp hread, d.magnitude_lt⟩
  · rintro ⟨n, unit, hdenotes, hlt⟩
    exact ⟨⟨n, unit, hdenotes.pos, hlt⟩, read_eq_ok_iff.mpr hdenotes⟩

theorem read_eq_overflow_iff : read input = .error (.overflow given) ↔ given = input ∧
    ((∃ n unit, Denotes Spells input n unit ∧ wordCount ≤ n) ∨ Misread input) := by
  have hanswers := answers_read input
  constructor
  · intro hread
    rw [hread] at hanswers
    cases hanswers with
    | tooLarge hdenotes hlarge => exact ⟨rfl, .inl ⟨_, _, hdenotes, hlarge⟩⟩
    | misread hmisread => exact ⟨rfl, .inr hmisread⟩
  · rintro ⟨rfl, hlarge⟩
    exact hanswers.eq_overflow hlarge

theorem read_eq_invalidFormat_iff : read input = .error (.invalidFormat given) ↔ given = input ∧
    ¬ Grammatical input ∧ ¬ Misread input := by
  have hanswers := answers_read input
  constructor
  · intro hread
    rw [hread] at hanswers
    cases hanswers with
    | none hnot hmisread => exact ⟨rfl, hnot, hmisread⟩
  · rintro ⟨rfl, hnot, hmisread⟩
    exact hanswers.eq_invalidFormat hnot hmisread

end Read

/-- The reader decides the grammar of timeouts: it answers with the number and the unit that a text denotes
if the number has at most 64 bits, and otherwise says whether the number is too large or the text is none,
keeping the text as it was given. Only a text that is none because of a long s, and has too large a number,
is reported for its number. -/
theorem read_decides_grammar (input : String) :
    (∀ d, read input = .ok d ↔ Denotes Spells input d.magnitude d.unit) ∧
      ((∃ d, read input = .ok d) ↔ ∃ n unit, Denotes Spells input n unit ∧ n < wordCount) ∧
      (∀ given, read input = .error (.overflow given) ↔ given = input ∧
        ((∃ n unit, Denotes Spells input n unit ∧ wordCount ≤ n) ∨ Misread input)) ∧
      ∀ given, read input = .error (.invalidFormat given) ↔ given = input ∧
        ¬ Grammatical input ∧ ¬ Misread input :=
  ⟨fun _ => read_eq_ok_iff, read_isOk_iff, fun _ => read_eq_overflow_iff,
    fun _ => read_eq_invalidFormat_iff⟩

/-- Twenty digits and a long s are no timeout, but are reported as too large a number. -/
theorem long_s_is_reported_as_too_large :
    read "99999999999999999999ſ" = .error (.overflow "99999999999999999999ſ") ∧
      ¬ Grammatical "99999999999999999999ſ" := by
  refine ⟨rfl, ?_⟩
  rintro ⟨n, unit, hdenotes⟩
  obtain ⟨digits, token, hsplit, -, hword⟩ := (denotes_iff fun _ _ => .inl).mp hdenotes
  have hgiven : split? (trimChars "99999999999999999999ſ".toList) =
      some ("99999999999999999999".toList, ['ſ']) := rfl
  cases hgiven.symm.trans hsplit
  cases ofToken?_eq_some_iff.mpr hword

end Duration

end TimedInvocation
