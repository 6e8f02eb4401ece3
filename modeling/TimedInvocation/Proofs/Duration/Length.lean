import Mathlib.Order.Lattice
import TimedInvocation.Duration.Basic

/-!
# The length of a duration

The span of a duration is as long as the duration, up to the longest whole number of seconds, where all
longer ones are cut off. So no duration comes out as zero or shorter than a smaller one, whichever way its
unit is converted.
-/

namespace TimedInvocation

namespace Span

/-- The longest span that is a whole number of seconds, in nanoseconds. -/
def maxNanos : Nat :=
  maxSecs * 1000000000

theorem maxNanos_eq : maxNanos = 18446744073709551615000000000 :=
  rfl

theorem toNanos_ofNanos (n : Nat) : (ofNanos n).toNanos = n :=
  Nat.div_add_mod' n 1000000000

theorem toNanos_ofSecs (n : Nat) : (ofSecs n).toNanos = min (n * 1000000000) maxNanos := by
  rw [ofSecs, toNanos, Nat.add_zero]
  exact (Nat.mul_min_mul_right n maxSecs 1000000000).symm

end Span

theorem TimeUnit.nanos_pos (unit : TimeUnit) : 0 < unit.nanos := by
  cases unit <;> decide

namespace Duration

/-- As many nanoseconds as the magnitude says, times those of the unit. -/
def length (d : Duration) : Nat :=
  d.magnitude * d.unit.nanos

variable (d : Duration)

theorem length_pos : 0 < d.length :=
  Nat.mul_pos d.magnitude_pos d.unit.nanos_pos

/-- A unit is a part of a second, or a whole number of seconds. -/
theorem toSpan_eq : d.toSpan =
    if d.unit.nanos < 1000000000 then .ofNanos d.length else .ofSecs (d.length / 1000000000) := by
  obtain ⟨magnitude, unit, hpos, hlt⟩ := d
  cases unit with
  | nanoseconds | microseconds | milliseconds =>
      rw [if_pos (of_decide_eq_true rfl)]
      simp only [toSpan, length, TimeUnit.nanos, Span.ofNanos, Span.mk.injEq]
      omega
  | seconds | minutes | hours | days =>
      rw [if_neg (of_decide_eq_false rfl)]
      simp only [toSpan, length, TimeUnit.nanos, Span.ofSecs, Span.mk.injEq, and_true]
      omega

/-- Whole seconds, if the unit is not a part of one. -/
theorem dvd_length (hunit : ¬ d.unit.nanos < 1000000000) : 1000000000 ∣ d.length := by
  refine Nat.dvd_mul_left_of_dvd ?_ d.magnitude
  revert hunit
  cases d.unit <;> decide

/-- No number of seconds or of smaller units is so large that something is cut off. -/
theorem length_le_of_nanos_le (hunit : d.unit.nanos ≤ 1000000000) : d.length ≤ Span.maxNanos :=
  Nat.mul_le_mul (Nat.le_sub_one_of_lt d.magnitude_lt) hunit

/-- A span is exact up to the longest one, and cut off there. -/
theorem toNanos_toSpan : d.toSpan.toNanos = min d.length Span.maxNanos := by
  rw [toSpan_eq]
  split
  case isTrue hunit =>
    rw [min_eq_left (d.length_le_of_nanos_le (Nat.le_of_lt hunit))]
    exact Span.toNanos_ofNanos d.length
  case isFalse hunit =>
    calc (Span.ofSecs (d.length / 1000000000)).toNanos
        = min (d.length / 1000000000 * 1000000000) Span.maxNanos := Span.toNanos_ofSecs _
      _ = min d.length Span.maxNanos := by rw [Nat.div_mul_cancel (d.dvd_length hunit)]

theorem nanos_toSpan_lt : d.toSpan.nanos < 1000000000 := by
  rw [toSpan_eq]
  split
  · exact Nat.mod_lt _ (by decide)
  · exact (by decide : 0 < 1000000000)

/-- A duration of which something is cut off is the longest whole number of seconds. -/
theorem toSpan_of_maxNanos_lt (hlong : Span.maxNanos < d.length) : d.toSpan = ⟨Span.maxSecs, 0⟩ := by
  have hunit : ¬ d.unit.nanos < 1000000000 := fun hunit =>
    Nat.not_lt.2 (d.length_le_of_nanos_le (Nat.le_of_lt hunit)) hlong
  have hseconds : Span.maxSecs ≤ d.length / 1000000000 :=
    (Nat.le_div_iff_mul_le (by decide)).2 (Nat.le_of_lt hlong)
  rw [toSpan_eq, if_neg hunit, Span.ofSecs, min_eq_right hseconds]

/-- The seconds of a span fit into 64 bits. -/
theorem secs_toSpan_le : d.toSpan.secs ≤ Span.maxSecs := by
  have hnanos : d.toSpan.toNanos ≤ Span.maxNanos := by
    rw [toNanos_toSpan]
    exact Nat.min_le_right ..
  exact Nat.le_of_mul_le_mul_right (Nat.le_trans (Nat.le_add_right ..) hnanos) (by decide)

variable {d} {e : Duration}

/-- Longer durations have longer spans, or spans that are cut off where this one is. -/
theorem toNanos_le_toNanos (hmagnitude : d.magnitude ≤ e.magnitude)
    (hunit : d.unit.nanos ≤ e.unit.nanos) : d.toSpan.toNanos ≤ e.toSpan.toNanos := by
  have hlength : d.length ≤ e.length := Nat.mul_le_mul hmagnitude hunit
  rw [toNanos_toSpan, toNanos_toSpan]
  omega

/-- The largest number of seconds is odd, so no number of minutes, hours or days makes it up: a span that
is exact although a longer one of its unit is cut off is below the longest. -/
theorem length_lt_of_cut (hunit : d.unit = e.unit) (hexact : d.length ≤ Span.maxNanos)
    (hcut : Span.maxNanos < e.length) : d.length < Span.maxNanos := by
  have hlong : ¬ d.unit.nanos ≤ 1000000000 := fun hshort =>
    Nat.not_lt.2 (e.length_le_of_nanos_le (hunit ▸ hshort)) hcut
  cases hd : d.unit with
  | nanoseconds | microseconds | milliseconds | seconds =>
      rw [hd] at hlong
      exact absurd (by decide) hlong
  | minutes | hours | days =>
      rw [length, hd, TimeUnit.nanos, Span.maxNanos_eq] at hexact ⊢
      omega

/-- No two spans of one unit are equal as long as the shorter one is exact. -/
theorem toNanos_lt_toNanos (hunit : d.unit = e.unit) (hmagnitude : d.magnitude < e.magnitude)
    (hexact : d.length ≤ Span.maxNanos) : d.toSpan.toNanos < e.toSpan.toNanos := by
  have hlength : d.length < e.length := by
    rw [length, length, ← hunit]
    exact Nat.mul_lt_mul_of_pos_right hmagnitude d.unit.nanos_pos
  rw [toNanos_toSpan, toNanos_toSpan, min_eq_left hexact]
  refine lt_min hlength ?_
  rcases Nat.lt_or_ge Span.maxNanos e.length with hcut | hwhole
  · exact length_lt_of_cut hunit hexact hcut
  · exact Nat.lt_of_lt_of_le hlength hwhole

/-- The span of a duration is exact up to the longest whole number of seconds and equal to that one beyond
it. So it is never zero, it grows with the magnitude (without two equal ones as long as the shorter one is
exact), and a coarser unit never makes it shorter. -/
theorem toSpan_exact_then_cut_off (d : Duration) :
    d.toSpan.nanos < 1000000000 ∧ d.toSpan.secs ≤ Span.maxSecs ∧
      (d.length ≤ Span.maxNanos → d.toSpan.secs * 1000000000 + d.toSpan.nanos = d.length) ∧
      (Span.maxNanos < d.length → d.toSpan = ⟨Span.maxSecs, 0⟩) ∧
      0 < d.toSpan.toNanos ∧
      (∀ e : Duration, d.unit = e.unit → d.magnitude ≤ e.magnitude →
        d.toSpan.toNanos ≤ e.toSpan.toNanos) ∧
      (∀ e : Duration, d.unit = e.unit → d.magnitude < e.magnitude → d.length ≤ Span.maxNanos →
        d.toSpan.toNanos < e.toSpan.toNanos) ∧
      ∀ e : Duration, d.magnitude = e.magnitude → d.unit.nanos ≤ e.unit.nanos →
        d.toSpan.toNanos ≤ e.toSpan.toNanos := by
  refine ⟨d.nanos_toSpan_lt, d.secs_toSpan_le, fun hexact => ?exact, d.toSpan_of_maxNanos_lt, ?positive,
    fun e hunit hmagnitude => toNanos_le_toNanos hmagnitude (Nat.le_of_eq (congrArg _ hunit)),
    fun e hunit hmagnitude => toNanos_lt_toNanos hunit hmagnitude,
    fun e hmagnitude hunit => toNanos_le_toNanos (Nat.le_of_eq hmagnitude) hunit⟩
  case exact => exact d.toNanos_toSpan.trans (min_eq_left hexact)
  case positive =>
    rw [toNanos_toSpan]
    exact lt_min d.length_pos (by decide)

-- The largest number of minutes is cut off to the same span as the largest number of seconds.
example : toSpan ⟨wordCount - 1, .minutes, by decide, by decide⟩ =
    toSpan ⟨wordCount - 1, .seconds, by decide, by decide⟩ := by
  decide

end Duration

end TimedInvocation
