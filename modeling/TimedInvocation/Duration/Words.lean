import TimedInvocation.Duration.Basic

/-!
# Measured time in words

Two ways to write a measured span: the sum of calendar-like parts used in reports (`1h 2m 3s`), and
the single decimal quantity used in log fields (`1.5ms`).
-/

namespace TimedInvocation

namespace Span

/-- One part of the sum with a short unit; nothing if the count is zero. -/
private def item (n : Nat) (unit : String) : List String :=
  if n = 0 then [] else [toString n ++ unit]

/-- One part of the sum with a unit that has a plural; nothing if the count is zero. -/
private def itemPlural (n : Nat) (unit : String) : List String :=
  if n = 0 then [] else [toString n ++ unit ++ (if n = 1 then "" else "s")]

/-- The length of an average year and of a twelfth of it, in seconds. -/
def yearSecs : Nat := 31557600

@[inherit_doc yearSecs]
def monthSecs : Nat := 2630016

/-- The parts of a span, the largest first, without those that are zero. -/
def parts (span : Span) : List String :=
  let years := span.secs / yearSecs
  let inYear := span.secs % yearSecs
  let months := inYear / monthSecs
  let inMonth := inYear % monthSecs
  let days := inMonth / 86400
  let inDay := inMonth % 86400
  itemPlural years "year" ++ itemPlural months "month" ++ itemPlural days "day" ++
    item (inDay / 3600) "h" ++ item (inDay % 3600 / 60) "m" ++ item (inDay % 60) "s" ++
    item (span.nanos / 1000000) "ms" ++ item (span.nanos / 1000 % 1000) "us" ++
    item (span.nanos % 1000) "ns"

/-- The sum of the parts of a span; the empty span is `0s`. -/
def words (span : Span) : String :=
  if span.secs = 0 ∧ span.nanos = 0 then "0s" else " ".intercalate span.parts

/-- The span cut to whole milliseconds, of which no more are kept than fit into 64 bits. -/
def toMillis (span : Span) : Span :=
  let millis := min (span.secs * 1000 + span.nanos / 1000000) (wordCount - 1)
  ⟨millis / 1000, millis % 1000 * 1000000⟩

/-- A whole number and `digits` decimal places, without the zeros at its end. -/
private def decimal (whole fraction digits : Nat) : String :=
  let padded := (toString (Nat.pow 10 digits + fraction)).toList.drop 1
  let trimmed := (padded.reverse.dropWhile (· = '0')).reverse
  toString whole ++ (if trimmed.isEmpty then "" else "." ++ String.ofList trimmed)

/-- The span as one decimal quantity in the largest unit that it reaches. -/
def quantity (span : Span) : String :=
  if 0 < span.secs then decimal span.secs span.nanos 9 ++ "s"
  else if 1000000 ≤ span.nanos then decimal (span.nanos / 1000000) (span.nanos % 1000000) 6 ++ "ms"
  else if 1000 ≤ span.nanos then decimal (span.nanos / 1000) (span.nanos % 1000) 3 ++ "µs"
  else toString span.nanos ++ "ns"

private theorem isDigit_of_mem_toString {n : Nat} {c : Char} (hc : c ∈ (toString n).toList) :
    c.isDigit = true := by
  have hdigit : c ∈ Nat.toDigits 10 n := by simpa using hc
  exact Nat.isDigit_of_mem_toDigits (by decide) (by decide) hdigit

private theorem isDigit_or_eq_of_mem_decimal {whole fraction digits : Nat} {c : Char}
    (hc : c ∈ (decimal whole fraction digits).toList) : c.isDigit = true ∨ c = '.' := by
  simp only [decimal, String.toList_append, List.mem_append] at hc
  rcases hc with hwhole | hfraction
  · exact .inl (isDigit_of_mem_toString hwhole)
  · split at hfraction
    · cases hfraction
    · simp only [String.toList_append, String.toList_ofList, List.mem_append, List.mem_reverse] at hfraction
      rcases hfraction with hpoint | htrimmed
      · exact .inr (List.mem_singleton.mp hpoint)
      · have hpadded := (List.dropWhile_sublist _).mem htrimmed
        exact .inl (isDigit_of_mem_toString (List.mem_of_mem_drop (List.mem_reverse.mp hpadded)))

/-- A quantity is written with digits, a point and the letters of its unit. -/
theorem isDigit_or_mem_of_mem_quantity {span : Span} {c : Char} (hc : c ∈ span.quantity.toList) :
    c.isDigit = true ∨ c ∈ ['.', 'n', 'µ', 'm', 's'] := by
  have hquantity {number unit : String} (hnumber : c ∈ number.toList → c.isDigit = true ∨ c = '.')
      (hunit : unit.toList ⊆ ['.', 'n', 'µ', 'm', 's']) (hmem : c ∈ (number ++ unit).toList) :
      c.isDigit = true ∨ c ∈ ['.', 'n', 'µ', 'm', 's'] := by
    rw [String.toList_append, List.mem_append] at hmem
    rcases hmem with hmem | hmem
    · exact (hnumber hmem).imp_right fun hpoint => List.mem_cons.mpr (.inl hpoint)
    · exact .inr (hunit hmem)
  unfold quantity at hc
  split at hc
  · exact hquantity isDigit_or_eq_of_mem_decimal (by decide) hc
  · split at hc
    · exact hquantity isDigit_or_eq_of_mem_decimal (by decide) hc
    · split at hc
      · exact hquantity isDigit_or_eq_of_mem_decimal (by decide) hc
      · exact hquantity (fun hmem => .inl (isDigit_of_mem_toString hmem)) (by decide) hc

end Span

end TimedInvocation
