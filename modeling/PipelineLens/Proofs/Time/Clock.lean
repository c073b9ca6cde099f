import Mathlib.Algebra.Group.Int.Defs
import Mathlib.Algebra.Group.Nat.Defs
import PipelineLens.Time.Clock
/-!
# Whole clock readings

A double that is a whole number loses nothing when its fraction is cut off, so a clock that shows a
whole number of milliseconds inside the calendar shows this moment (`ofClock_eq`). The calendar ends
before the doubles get too coarse for that: every moment of it has a reading
(`exists_isWhole_of_inCalendar`).
-/
namespace PipelineLens

namespace Binary64

/-- A finite number as `signed * 2 ^ scale`. -/
def signed (x : Binary64) : Int := if x.isNegative then -x.mantissa else x.mantissa

/-- The number is the whole number `n`. -/
def IsWhole (x : Binary64) (n : Int) : Prop :=
  x.isFinite = true ∧ x.signed * 2 ^ x.scale.toNat = n * 2 ^ (-x.scale).toNat

instance (x : Binary64) (n : Int) : Decidable (x.IsWhole n) :=
  inferInstanceAs (Decidable (_ ∧ _))

/-- A whole number has no fraction to lose. -/
theorem IsWhole.truncated_eq {x : Binary64} {n : Int} (h : x.IsWhole n) : x.truncated = n := by
  have hpos : (2 ^ (-x.scale).toNat : Int) ≠ 0 :=
    Int.ne_of_gt (Int.pow_pos (by decide))
  have hvalue := h.2
  unfold signed at hvalue
  unfold truncated
  simp only [Nat.pow_eq, Int.natCast_ediv, Int.natCast_mul, Int.natCast_pow, Int.cast_ofNat_Int]
  by_cases hsign : x.isNegative = true
  · rw [if_pos hsign, Int.neg_mul] at hvalue
    have hsize : (x.mantissa : Int) * 2 ^ x.scale.toNat = -n * 2 ^ (-x.scale).toNat := by
      rw [Int.neg_mul]
      omega
    rw [if_pos hsign, hsize, Int.mul_ediv_cancel _ hpos, Int.neg_neg]
  · rw [if_neg hsign] at hvalue
    rw [if_neg hsign, hvalue, Int.mul_ediv_cancel _ hpos]

/-! ## The fields of a double -/

theorem exponentField_eq (x : Binary64) :
    x.exponentField = x.bits.toNat / 2 ^ 52 % 2 ^ 11 := by
  unfold exponentField
  rw [UInt64.toNat_and, UInt64.toNat_shiftRight, Nat.shiftRight_eq_div_pow]
  exact Nat.and_two_pow_sub_one_eq_mod _ 11

theorem fraction_eq (x : Binary64) : x.fraction = x.bits.toNat % 2 ^ 52 := by
  unfold fraction
  rw [UInt64.toNat_and]
  exact Nat.and_two_pow_sub_one_eq_mod _ 52

theorem isNegative_iff (x : Binary64) : x.isNegative = true ↔ 2 ^ 63 ≤ x.bits.toNat := by
  have hlt : x.bits.toNat < 2 ^ 64 := x.bits.toNat_lt
  unfold isNegative
  rw [decide_eq_true_eq, ← UInt64.toNat_inj, UInt64.toNat_shiftRight, Nat.shiftRight_eq_div_pow]
  change x.bits.toNat / 2 ^ 63 = 1 ↔ _
  omega

/-- The double with these fields. -/
def ofFields (negative : Bool) (exponent fraction : Nat) : Binary64 :=
  ⟨.ofNat (negative.toNat * 2 ^ 63 + exponent * 2 ^ 52 + fraction)⟩

section
variable {negative : Bool} {exponent fraction : Nat} (he : exponent < 2 ^ 11)
  (hf : fraction < 2 ^ 52)
include he hf

theorem toNat_ofFields : (ofFields negative exponent fraction).bits.toNat
    = negative.toNat * 2 ^ 63 + exponent * 2 ^ 52 + fraction := by
  have hs : negative.toNat ≤ 1 := negative.toNat_le
  rw [ofFields, UInt64.toNat_ofNat']
  omega

theorem exponentField_ofFields :
    (ofFields negative exponent fraction).exponentField = exponent := by
  rw [exponentField_eq, toNat_ofFields he hf]
  omega

theorem fraction_ofFields : (ofFields negative exponent fraction).fraction = fraction := by
  rw [fraction_eq, toNat_ofFields he hf]
  omega

theorem isNegative_ofFields : (ofFields negative exponent fraction).isNegative = negative := by
  rw [Bool.eq_iff_iff, isNegative_iff, toNat_ofFields he hf]
  cases negative <;> simp <;> omega

end

/-- The number zero. -/
theorem isWhole_zero : IsWhole ⟨0⟩ 0 := by
  have hmantissa : mantissa ⟨0⟩ = 0 := by decide
  have hscale : scale ⟨0⟩ = -1074 := by decide
  refine ⟨by decide, ?_⟩
  rw [signed, hmantissa, hscale, Int.zero_mul]
  rfl

section
variable {n : Int} {e : Nat} (hlow : 2 ^ e ≤ n.natAbs) (hhigh : n.natAbs < 2 ^ (e + 1))
  (he : e ≤ 52)
include hlow hhigh he

/-- The bits of a whole number, moved up until the leading one stands just before the fraction. -/
theorem leading_bounds :
    2 ^ 52 ≤ n.natAbs * 2 ^ (52 - e) ∧ n.natAbs * 2 ^ (52 - e) < 2 ^ 53 := by
  constructor
  · calc 2 ^ 52 = 2 ^ e * 2 ^ (52 - e) := by rw [← Nat.pow_add, Nat.add_sub_cancel' he]
      _ ≤ n.natAbs * 2 ^ (52 - e) := Nat.mul_le_mul_right _ hlow
  · calc n.natAbs * 2 ^ (52 - e) < 2 ^ (e + 1) * 2 ^ (52 - e) :=
          Nat.mul_lt_mul_of_pos_right hhigh (Nat.two_pow_pos _)
      _ = 2 ^ 53 := by rw [← Nat.pow_add]; congr 1; omega

/-- A whole number with its leading bit in place `e` is a double with the exponent `e`. -/
theorem isWhole_ofFields :
    (ofFields (n < 0) (e + 1023) (n.natAbs * 2 ^ (52 - e) - 2 ^ 52)).IsWhole n := by
  obtain ⟨hlead, hfits⟩ := leading_bounds hlow hhigh he
  have hexponent : e + 1023 < 2 ^ 11 := by omega
  have hfraction : n.natAbs * 2 ^ (52 - e) - 2 ^ 52 < 2 ^ 52 := by omega
  have hmantissa : (ofFields (n < 0) (e + 1023) (n.natAbs * 2 ^ (52 - e) - 2 ^ 52)).mantissa
      = n.natAbs * 2 ^ (52 - e) := by
    rw [mantissa, exponentField_ofFields hexponent hfraction, if_neg (by omega),
      fraction_ofFields hexponent hfraction]
    omega
  have hscale : (ofFields (n < 0) (e + 1023) (n.natAbs * 2 ^ (52 - e) - 2 ^ 52)).scale
      = (e : Int) - 52 := by
    rw [scale, exponentField_ofFields hexponent hfraction, if_neg (by omega)]
    omega
  constructor
  · rw [isFinite, exponentField_ofFields hexponent hfraction]
    exact decide_eq_true (by omega)
  · have hup : ((e : Int) - 52).toNat = 0 := by omega
    have hdown : (-((e : Int) - 52)).toNat = 52 - e := by omega
    rw [signed, isNegative_ofFields hexponent hfraction, hmantissa, hscale, hup, hdown,
      Int.pow_zero, Int.mul_one, Int.natCast_mul, Int.natCast_pow]
    by_cases hn : n < 0
    · rw [if_pos (decide_eq_true hn), ← Int.neg_mul, Int.ofNat_natAbs_of_nonpos (Int.le_of_lt hn),
        Int.neg_neg]
      rfl
    · rw [if_neg (by simpa using hn), Int.natAbs_of_nonneg (Int.not_lt.1 hn)]
      rfl

end

/-- Up to 53 bits a whole number is a double. -/
theorem exists_isWhole {n : Int} (h : n.natAbs < 2 ^ 53) : ∃ x : Binary64, x.IsWhole n := by
  by_cases hn : n = 0
  · exact ⟨⟨0⟩, hn ▸ isWhole_zero⟩
  · have habs : n.natAbs ≠ 0 := Int.natAbs_ne_zero.2 hn
    have hle : n.natAbs.log2 ≤ 52 := Nat.le_of_lt_succ ((Nat.log2_lt habs).2 h)
    exact ⟨_, isWhole_ofFields (Nat.log2_self_le habs) Nat.lt_log2_self hle⟩

end Binary64

namespace Instant

/-- A clock that shows a whole number of milliseconds shows this moment. -/
theorem ofClock_eq {reading : Binary64} {ms : Int} (h : reading.IsWhole ms)
    (hms : inCalendar ms = true) : ofClock reading = ofMillis ms := by
  rw [ofClock, h.truncated_eq, h.1, hms]
  rfl

/-- Every moment of the calendar has a reading. -/
theorem exists_isWhole_of_inCalendar {ms : Int} (h : inCalendar ms = true) :
    ∃ reading : Binary64, reading.IsWhole ms := by
  apply Binary64.exists_isWhole
  simp only [inCalendar, Bool.and_eq_true, decide_eq_true_eq] at h
  omega

end Instant

end PipelineLens
