import Mathlib.Tactic.IntervalCases
import SigilScript.Proofs.NumberReading
import SigilScript.Proofs.RoundingError

/-!
Numbers in scientific notation that lose the letter of their exponent. What is left is a sum or a difference
of the digits, with a point after the first, and the exponent. It never has the value of the number: the
number is far from it unless the difference is small, and then both would have to be rounded much more than
they are.
-/
namespace SigilScript

namespace Decimal

/-- The digits of a decimal, with the point after the first one. -/
def leading (d : Decimal) : Decimal := ⟨d.digits, 1 - (decimalDigits d.digits).length⟩

/-- The power of ten below the digits of a decimal. -/
def place (d : Decimal) : Nat := Nat.pow 10 ((decimalDigits d.digits).length - 1)

theorem place_pos (d : Decimal) : 0 < d.place := Nat.pow_pos (by omega)

theorem digits_lt (d : Decimal) : d.digits < 10 * d.place := by
  have hpos := length_decimalDigits_pos d.digits
  calc d.digits < 10 ^ (decimalDigits d.digits).length := lt_pow_length_decimalDigits _
    _ = 10 ^ ((decimalDigits d.digits).length - 1 + 1) := by rw [Nat.sub_add_cancel hpos]
    _ = 10 * d.place := by rw [Nat.pow_succ, Nat.mul_comm]; rfl

theorem units_leading (d : Decimal) : d.leading.units = roundUnits (d.digits * unitsPerOne) d.place := by
  have hpos := length_decimalDigits_pos d.digits
  by_cases hone : (decimalDigits d.digits).length = 1
  · have hplace : d.place = 1 := by rw [place, hone, Nat.sub_self, Nat.pow_eq, Nat.pow_zero]
    have hzero : d.leading.exponent = 0 := by rw [leading, hone]; rfl
    rw [units, ratio_of_nonneg (by omega), hplace, hzero]
    simp only [leading, Int.toNat_zero, Nat.pow_zero, Nat.mul_one]
  · have hexponent : d.leading.exponent = -((decimalDigits d.digits).length - 1 : Nat) := by
      simp only [leading]
      omega
    rw [units, ratio_of_neg (by omega), hexponent, Int.neg_neg, Int.toNat_natCast]
    rfl

theorem units_of_magnitude_neg {d : Decimal} {n : Nat} (hn : 0 < n) (h : d.magnitude = -n) :
    d.units = roundUnits (d.digits * unitsPerOne) (d.place * 10 ^ n) := by
  have hpos := length_decimalDigits_pos d.digits
  rw [magnitude] at h
  have hexponent : (-d.exponent).toNat = (decimalDigits d.digits).length - 1 + n := by omega
  rw [units, ratio_of_neg (by omega), hexponent, Nat.pow_add]
  rfl

section Bounds

variable {d : Decimal} (hd : 0 < d.digits)

include hd in
theorem unitsPerOne_le_leading : unitsPerOne ≤ d.digits * unitsPerOne / d.place := by
  rw [Nat.le_div_iff_mul_le d.place_pos, Nat.mul_comm]
  exact Nat.mul_le_mul_right _ (pow_le_of_pos hd)

include hd in
theorem units_leading_pos : 0 < d.leading.units := by
  have hle : unitsPerOne ≤ d.leading.units := by
    rw [units_leading]
    exact unitsPerOne_le_roundUnits (unitsPerOne_le_leading hd)
  exact unitsPerOne_pos.trans_le hle

theorem leading_lt (d : Decimal) : d.digits * unitsPerOne < d.place * (2 ^ 4 * unitsPerOne) := by
  calc d.digits * unitsPerOne < 10 * d.place * unitsPerOne :=
        Nat.mul_lt_mul_of_pos_right d.digits_lt unitsPerOne_pos
    _ ≤ 2 ^ 4 * d.place * unitsPerOne := Nat.mul_le_mul_right _ (Nat.mul_le_mul_right _ (by omega))
    _ = d.place * (2 ^ 4 * unitsPerOne) := by rw [Nat.mul_comm (2 ^ 4), Nat.mul_assoc]

theorem units_leading_le (d : Decimal) : d.leading.units ≤ 2 ^ 4 * unitsPerOne := by
  rw [units_leading]
  exact roundUnits_le d.place_pos d.leading_lt.le

theorem fits_leading (d : Decimal) : Fits d.leading.units := by
  have hoverflow := d.units_leading_le.trans_lt (mul_unitsPerOne_lt (by omega))
  rw [units_leading] at hoverflow ⊢
  exact fits_roundUnits d.place_pos hoverflow

/-- A number from `10 ^ 16` on. -/
theorem units_of_large (hlarge : 16 ≤ d.magnitude) (hd : 0 < d.digits) : 2 ^ 9 * unitsPerOne < d.units := by
  have hpos := unitsPerOne_pos
  have hratio : 10 ^ 16 * unitsPerOne ≤ d.ratio.1 / d.ratio.2 := le_ratio_of_magnitude hd hlarge
  have hround : 2 ^ 10 * unitsPerOne ≤ d.units := le_roundUnits (by omega)
  omega

/-- A number below `10 ^ -4`. -/
theorem units_of_small (hsmall : d.magnitude < -4) : d.units * 2 ^ 13 ≤ unitsPerOne := by
  have hratio := ratio_lt_of_magnitude (k := 4) hsmall
  obtain ⟨k, bound, hbound, hpow⟩ := exists_unitsPerOne_eq (a := 13) (by omega)
  rw [Nat.mul_comm] at hpow
  rw [hpow]
  refine Nat.mul_le_mul_right _ (roundUnits_le_pow hbound d.ratio_den_pos ?_)
  refine Nat.le_of_mul_le_mul_right (c := 2 ^ 13) ?_ (by omega)
  calc d.ratio.1 * 2 ^ 13 ≤ d.ratio.1 * 10 ^ 4 := Nat.mul_le_mul_left _ (by decide)
    _ ≤ d.ratio.2 * unitsPerOne := hratio.le
    _ = d.ratio.2 * bound * 2 ^ 13 := by rw [hpow, Nat.mul_assoc]

end Bounds

/-! The difference -/

/-- Digits of `n * 2 ^ 50 + k` lowest bits are never within the rounding errors of `10 ^ n` times a number of `k`
lowest bits. -/
theorem not_near {n k : Nat} (hlow : 5 ≤ n) (hhigh : n ≤ 15) (habove : 4 * (n * 2 ^ 50 + k) ≤ 4 * (10 ^ n * k) + 9)
    (hbelow : 4 * (10 ^ n * k) ≤ 4 * (n * 2 ^ 50 + k) + 9) : False := by
  interval_cases n <;> omega

/-- Two multiples near one number are near each other. -/
theorem near_of_common {q x y m : Nat} (hq : 0 < q) (hx : q * x ≤ m + q) (hx' : m ≤ q * x + q)
    (hy : 4 * (q * y) ≤ 4 * m + 5 * q) (hy' : 4 * m ≤ 4 * (q * y) + 5 * q) :
    4 * x ≤ 4 * y + 9 ∧ 4 * y ≤ 4 * x + 9 := by
  have hscale (z : Nat) : q * (4 * z) = 4 * (q * z) := Nat.mul_left_comm q 4 z
  constructor <;>
    · refine Nat.le_of_mul_le_mul_left ?_ hq
      rw [Nat.mul_add, hscale, hscale]
      omega

section Difference

-- the lowest bit of a number from four on, and before eight
variable {d : Decimal} {n k w : Nat} (hw : w = Nat.pow 2 k) (hunit : unitsPerOne = 2 ^ 50 * w)

include hw hunit

/-- The digits are rounded by at most two to the power of `-50`. -/
theorem leading_near (d : Decimal) : d.place * d.leading.units ≤ d.digits * unitsPerOne + d.place * w ∧
    d.digits * unitsPerOne ≤ d.place * d.leading.units + d.place * w := by
  have hnear := roundUnits_near (d.digits * unitsPerOne) d.place_pos
  have hbit : Nat.pow 2 (scaleOf (d.digits * unitsPerOne / d.place)) ≤ 2 * w := by
    have hpow : 2 ^ 1 * w = Nat.pow 2 (1 + k) := by rw [hw, mul_pow_two]
    have hpos := unitsPerOne_pos
    have hlt : d.digits * unitsPerOne / d.place < 2 ^ 1 * w * 2 ^ 53 := by
      apply (Nat.div_lt_of_lt_mul d.leading_lt).trans_eq
      rw [hunit]
      ring
    exact Nat.le_of_dvd (by omega) (pow_scaleOf_dvd hpow hlt)
  have hmul := Nat.mul_le_mul_left d.place hbit
  rw [Nat.mul_left_comm] at hmul
  rw [units_leading]
  omega

/-- The number itself is rounded by little more, seen from the digits. -/
theorem units_near (hd : 0 < d.digits) (hpos : 0 < n) (hn : n ≤ 15) (h : d.magnitude = -n) :
    4 * (d.place * 10 ^ n * d.units) ≤ 4 * (d.digits * unitsPerOne) + 5 * (d.place * w) ∧
      4 * (d.digits * unitsPerOne) ≤ 4 * (d.place * 10 ^ n * d.units) + 5 * (d.place * w) := by
  have hden : 0 < d.place * 10 ^ n := Nat.mul_pos d.place_pos (Nat.pow_pos (by omega))
  have hnear := roundUnits_near (d.digits * unitsPerOne) hden
  have hmany : 2 ^ 52 ≤ d.digits * unitsPerOne / (d.place * 10 ^ n) := by
    have hlarge : 2 ^ 52 * 10 ^ 15 ≤ unitsPerOne := by
      obtain ⟨m, bit, hbit, hmany⟩ := exists_unitsPerOne_eq (a := 102) (by omega)
      have hpos : 0 < bit := hbit ▸ Nat.pow_pos (by omega)
      omega
    rw [← Nat.div_div_eq_div_mul, Nat.le_div_iff_mul_le (Nat.pow_pos (by omega))]
    calc 2 ^ 52 * 10 ^ n ≤ 2 ^ 52 * 10 ^ 15 := Nat.mul_le_mul_left _ (Nat.pow_le_pow_right (by omega) hn)
      _ ≤ unitsPerOne := hlarge
      _ ≤ d.digits * unitsPerOne / d.place := unitsPerOne_le_leading hd
  have hbit : 2 * (d.place * 10 ^ n * Nat.pow 2 (scaleOf (d.digits * unitsPerOne / (d.place * 10 ^ n)))) ≤
      5 * (d.place * w) := by
    refine Nat.le_of_mul_le_mul_right (c := 2 ^ 51) ?_ (by omega)
    calc 2 * (d.place * 10 ^ n * Nat.pow 2 (scaleOf (d.digits * unitsPerOne / (d.place * 10 ^ n)))) * 2 ^ 51
        = d.place * 10 ^ n * (Nat.pow 2 (scaleOf (d.digits * unitsPerOne / (d.place * 10 ^ n))) * 2 ^ 52) := by
          ring
      _ ≤ d.place * 10 ^ n * (d.digits * unitsPerOne / (d.place * 10 ^ n)) :=
          Nat.mul_le_mul_left _ (pow_scaleOf_mul_le hmany)
      _ ≤ d.digits * unitsPerOne := Nat.mul_div_le _ _
      _ ≤ 10 * d.place * unitsPerOne := Nat.mul_le_mul_right _ d.digits_lt.le
      _ = 5 * (d.place * w) * 2 ^ 51 := by rw [hunit]; ring
  rw [units_of_magnitude_neg hpos h]
  omega

/-- A whole number is taken from the digits without rounding: both are multiples of the lowest bit. -/
theorem dvd_leading (hfour : 4 * unitsPerOne ≤ d.leading.units) : w ∣ d.leading.units := by
  apply dvd_of_fits hw d.fits_leading
  rw [hunit] at hfour
  omega

theorem sub_ne_units (hd : 0 < d.digits) (hlow : 5 ≤ n) (h : d.magnitude = -n)
    (hlt : n * unitsPerOne < d.leading.units) : d.leading.units - n * unitsPerOne ≠ d.units := by
  intro heq
  have hwpos : 0 < w := by
    have hpos := unitsPerOne_pos
    omega
  have hhigh : n ≤ 15 := by
    have hsixteen : n < 2 ^ 4 := Nat.lt_of_mul_lt_mul_right (hlt.trans_le d.units_leading_le)
    omega
  have hfour : 4 * unitsPerOne ≤ d.leading.units :=
    (Nat.mul_le_mul_right _ (by omega)).trans hlt.le
  obtain ⟨a, ha⟩ := dvd_leading hw hunit hfour
  -- in multiples of the lowest bit, the digits are `n * 2 ^ 50 + k`, and the number is `k`
  obtain ⟨k, hk⟩ : ∃ k, a = n * 2 ^ 50 + k := by
    refine Nat.exists_eq_add_of_le (Nat.le_of_mul_le_mul_left ?_ hwpos)
    rw [← ha, ← Nat.mul_assoc, Nat.mul_comm w n, Nat.mul_assoc, Nat.mul_comm w, ← hunit]
    exact hlt.le
  have hunits : d.units = w * k := by
    rw [← heq, ha, hk, hunit, Nat.mul_add]
    have hsame : w * (n * 2 ^ 50) = n * (2 ^ 50 * w) := by ring
    omega
  obtain ⟨habove, hbelow⟩ := leading_near hw hunit d
  obtain ⟨habove', hbelow'⟩ := units_near hw hunit hd (by omega) hhigh h
  have hqpos : 0 < d.place * w := Nat.mul_pos d.place_pos hwpos
  have hdigits : d.place * d.leading.units = d.place * w * (n * 2 ^ 50 + k) := by rw [ha, hk, Nat.mul_assoc]
  have hnumber : d.place * 10 ^ n * d.units = d.place * w * (10 ^ n * k) := by rw [hunits]; ring
  rw [hdigits] at habove hbelow
  rw [hnumber] at habove' hbelow'
  obtain ⟨hmore, hless⟩ := near_of_common hqpos habove hbelow habove' hbelow'
  exact not_near hlow hhigh hmore hless

/-- The difference that is left of a small number is not rounded to this number. -/
theorem roundUnits_sub_ne_units (hd : 0 < d.digits) (hlow : 5 ≤ n) (h : d.magnitude = -n)
    (hlt : n * unitsPerOne < d.leading.units) :
    roundUnits (d.leading.units - n * unitsPerOne) 1 ≠ d.units := by
  intro heq
  have hsmall := units_of_small (d := d) (by omega)
  have hfour : 4 * unitsPerOne ≤ d.leading.units :=
    (Nat.mul_le_mul_right _ (by omega)).trans hlt.le
  -- far from zero, it is not rounded to so small a number; near zero, it is not rounded at all
  by_cases hfar : unitsPerOne ≤ d.leading.units - n * unitsPerOne
  · have hround : unitsPerOne ≤ roundUnits (d.leading.units - n * unitsPerOne) 1 :=
      unitsPerOne_le_roundUnits (by rwa [Nat.div_one])
    have hpos := unitsPerOne_pos
    omega
  · have hoverflow := mul_unitsPerOne_lt (a := 1) (by omega)
    have hfits : Fits (d.leading.units - n * unitsPerOne) := by
      refine fits_of_dvd hw (Nat.dvd_sub (dvd_leading hw hunit hfour) ?_) (by omega) (by omega)
      exact ⟨n * 2 ^ 50, by rw [hunit]; ring⟩
    rw [roundUnits_of_fits hfits] at heq
    exact sub_ne_units hw hunit hd hlow h hlt heq

end Difference

/-! Sums in binary -/

theorem toBinary64_leading {d : Decimal} (hd : 0 < d.digits) (negative : Bool) :
    d.leading.toBinary64 negative = .finite negative d.leading.units d.fits_leading :=
  toBinary64_of_units rfl (units_leading_pos hd).ne' d.fits_leading negative

/-- A decimal that is read as a finite number, and not as zero. -/
theorem of_toBinary64 {d : Decimal} {negative : Bool} {units : Nat} {hfits : Fits units} (hne : units ≠ 0)
    (h : d.toBinary64 negative = .finite negative units hfits) :
    0 < d.digits ∧ d.magnitude.natAbs ≤ 400 ∧ d.units = units := by
  rw [toBinary64] at h
  split at h
  · exact absurd (Binary64.finite.inj h).2.symm hne
  · split at h
    · cases h
    · split at h
      · exact absurd (Binary64.finite.inj h).2.symm hne
      · rw [Binary64.ofUnits] at h
        split at h
        · exact ⟨by omega, by omega, (Binary64.finite.inj h).2⟩
        · cases h

end Decimal

namespace Decimal

/-- What is left of a number in scientific notation without the letter before the exponent. -/
def withoutLetter (negative : Bool) (d : Decimal) : Binary64 :=
  if d.magnitude < 0 then (d.leading.toBinary64 negative).sub (toBinary64 false ⟨d.magnitude.natAbs, 0⟩)
  else (d.leading.toBinary64 negative).add (toBinary64 false ⟨d.magnitude.natAbs, 0⟩)

/-- The exact sum, in units. -/
def leftUnits (negative : Bool) (d : Decimal) : Int :=
  Binary64.signedUnits negative d.leading.units + d.magnitude * unitsPerOne

section Left

variable {d : Decimal} {negative : Bool} (hd : 0 < d.digits) (hmagnitude : d.magnitude.natAbs ≤ 400)

include hmagnitude in
theorem natAbs_leftUnits_le : (d.leftUnits negative).natAbs ≤ 2 ^ 9 * unitsPerOne := by
  have hlead : (Binary64.signedUnits negative d.leading.units).natAbs ≤ 2 ^ 4 * unitsPerOne := by
    rw [Binary64.natAbs_signedUnits]
    exact d.units_leading_le
  have hexponent : (d.magnitude * unitsPerOne).natAbs ≤ 400 * unitsPerOne := by
    rw [Int.natAbs_mul, Int.natAbs_natCast]
    exact Nat.mul_le_mul_right _ hmagnitude
  rw [leftUnits]
  omega

include hd hmagnitude in
theorem extent_withoutLetter (hne : d.magnitude ≠ 0) : (d.withoutLetter negative).isFinite ∧
    (d.withoutLetter negative).extent =
      some (Binary64.signedUnits (d.leftUnits negative < 0) (roundUnits (d.leftUnits negative).natAbs 1)) := by
  have hle : (d.leftUnits negative).natAbs ≤ 2 ^ 9 * unitsPerOne := natAbs_leftUnits_le hmagnitude
  have hwhole := toBinary64_whole (n := d.magnitude.natAbs) (by omega) false
  rw [withoutLetter, toBinary64_leading hd, hwhole]
  split
  · rename_i hneg
    refine Binary64.add_finite d.fits_leading _ ?_ (by omega) hle
    have habs : (d.magnitude.natAbs : Int) = -d.magnitude := by omega
    simp only [leftUnits, Binary64.signedUnits, Bool.not_false, if_true, Nat.cast_mul, habs, Int.neg_mul,
      Int.neg_neg]
  · rename_i hneg
    refine Binary64.add_finite d.fits_leading _ ?_ (by omega) hle
    have habs : (d.magnitude.natAbs : Int) = d.magnitude := by omega
    simp only [leftUnits, Binary64.signedUnits, Bool.false_eq_true, if_false, Nat.cast_mul, habs]

include hd hmagnitude in
/-- A large number is larger than what is left of it. -/
theorem roundUnits_left_lt (hlarge : 16 ≤ d.magnitude) :
    roundUnits (d.leftUnits negative).natAbs 1 < d.units := by
  have hle : (d.leftUnits negative).natAbs ≤ 2 ^ 9 * unitsPerOne := natAbs_leftUnits_le hmagnitude
  have hround : roundUnits (d.leftUnits negative).natAbs 1 ≤ 2 ^ 9 * unitsPerOne :=
    roundUnits_le Nat.one_pos (by rwa [Nat.one_mul])
  exact hround.trans_lt (units_of_large hlarge hd)

/-- A small number below zero is smaller than what is left of it. -/
theorem lt_roundUnits_left (hsmall : d.magnitude < -4) : d.units < roundUnits (d.leftUnits true).natAbs 1 := by
  have hpos := unitsPerOne_pos
  have hunits := units_of_small hsmall
  have hfar : d.magnitude * unitsPerOne ≤ -4 * (unitsPerOne : Int) :=
    Int.mul_le_mul_of_nonneg_right (by omega) (by omega)
  have hle : unitsPerOne ≤ (d.leftUnits true).natAbs := by
    simp only [leftUnits, Binary64.signedUnits, if_true]
    omega
  have hround : unitsPerOne ≤ roundUnits (d.leftUnits true).natAbs 1 :=
    unitsPerOne_le_roundUnits (by rwa [Nat.div_one])
  omega

include hd in
/-- A small number above zero is not what is left of it, as this is below zero or another number. -/
theorem signedUnits_left_ne (hsmall : d.magnitude < -4) (hne : d.units ≠ 0) :
    Binary64.signedUnits (d.leftUnits false < 0) (roundUnits (d.leftUnits false).natAbs 1) ≠ d.units := by
  obtain ⟨n, hn⟩ : ∃ n : Nat, d.magnitude = -n := ⟨d.magnitude.natAbs, by omega⟩
  have hleft : d.leftUnits false = d.leading.units - (n * unitsPerOne : Nat) := by
    simp only [leftUnits, Binary64.signedUnits, Bool.false_eq_true, if_false, hn, Nat.cast_mul, Int.neg_mul]
    rfl
  by_cases hlt : n * unitsPerOne < d.leading.units
  · have habs : (d.leftUnits false).natAbs = d.leading.units - n * unitsPerOne := by omega
    obtain ⟨k, w, hw, hunit⟩ := exists_unitsPerOne_eq (a := 50) (by omega)
    have hround := roundUnits_sub_ne_units hw hunit hd (by omega) hn hlt
    rw [decide_eq_false (by omega), habs]
    exact fun h => hround (Int.ofNat.inj h)
  · by_cases heq : d.leftUnits false = 0
    · rw [heq]
      exact fun h => hne (Int.ofNat.inj h).symm
    · rw [decide_eq_true (by omega)]
      simp only [Binary64.signedUnits, if_true]
      omega

end Left

/-- Without the letter before its exponent, a number in scientific notation is another number. -/
theorem withoutLetter_not_equals {d : Decimal} {negative : Bool} {units : Nat} {hfits : Fits units}
    (hne : units ≠ 0) (hread : d.toBinary64 negative = .finite negative units hfits)
    (hscientific : d.magnitude < -4 ∨ 16 ≤ d.magnitude) :
    (d.withoutLetter negative).isFinite ∧
      ¬(d.withoutLetter negative).equals (.finite negative units hfits) := by
  obtain ⟨hd, hmagnitude, hunits⟩ := of_toBinary64 hne hread
  obtain ⟨hfinite, hextent⟩ := extent_withoutLetter hd hmagnitude (by omega)
  refine ⟨hfinite, fun hequals => ?_⟩
  obtain ⟨place, hplace, hunit⟩ := Binary64.equals_iff.mp hequals
  have heq := Option.some.inj (hextent.symm.trans (hplace.trans hunit.symm))
  have habs := congrArg Int.natAbs heq
  rw [Binary64.natAbs_signedUnits, Binary64.natAbs_signedUnits, ← hunits] at habs
  rcases hscientific with hsmall | hlarge
  · cases negative with
    | true => exact (lt_roundUnits_left hsmall).ne' habs
    | false =>
      apply signedUnits_left_ne hd hsmall (hunits ▸ hne)
      rw [heq, hunits]
      rfl
  · exact (roundUnits_left_lt hd hmagnitude hlarge).ne habs

end Decimal

end SigilScript
