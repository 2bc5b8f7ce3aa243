import SigilScript.Number.Decimal
import Mathlib.Tactic.Ring

/-!
Decimals that read back. The digits of a number make the number again; moving zeros between the digits and
the exponent of a decimal does not change what it is rounded to, since rounding sees only the quotient; and
so the decimal that is chosen for a binary64 number is read as this number. That the reader never looks at
decimals of extreme magnitude changes nothing, as these are rounded to zero or overflow.
-/
namespace SigilScript

/-! Digits -/

theorem decimalDigits_of_lt {n : Nat} (h : n < 10) : decimalDigits n = [n] := by
  rw [decimalDigits, Nat.toDigits_of_lt_base h]
  match n, h with
  | 0, _ | 1, _ | 2, _ | 3, _ | 4, _ | 5, _ | 6, _ | 7, _ | 8, _ | 9, _ => rfl

theorem decimalDigits_of_le {n : Nat} (h : 10 ≤ n) : decimalDigits n = decimalDigits (n / 10) ++ [n % 10] := by
  have hlast : decimalDigits (n % 10) = [n % 10] := decimalDigits_of_lt (Nat.mod_lt n (by omega))
  rw [decimalDigits, Nat.toDigits_of_lt_base (Nat.mod_lt n (by omega))] at hlast
  rw [decimalDigits, Nat.toDigits_of_base_le (by omega) h, List.map_append, hlast]
  rfl

/-- The digits of a number: one digit, or those of a smaller number and one more. -/
theorem decimalDigits_induction {motive : Nat → Prop} (digit : ∀ n, n < 10 → motive n)
    (more : ∀ n, 10 ≤ n → motive (n / 10) → motive n) (n : Nat) : motive n := by
  induction n using Nat.strongRecOn with
  | ind n ih =>
    by_cases h : n < 10
    · exact digit n h
    · exact more n (by omega) (ih (n / 10) (by omega))

theorem lt_ten_of_mem_decimalDigits (n : Nat) : ∀ d ∈ decimalDigits n, d < 10 := by
  induction n using decimalDigits_induction with
  | digit n h => simpa [decimalDigits_of_lt h] using h
  | more n h ih =>
    intro d hd
    rw [decimalDigits_of_le h] at hd
    rcases List.mem_append.mp hd with hd | hd
    · exact ih d hd
    · rw [List.mem_singleton.mp hd]
      exact Nat.mod_lt n (by omega)

theorem foldl_digits (ds : List Nat) (n : Nat) :
    ds.foldl (fun n d => 10 * n + d) n = n * 10 ^ ds.length + ofDigits ds := by
  induction ds generalizing n with
  | nil => simp [ofDigits]
  | cons d ds ih =>
    rw [ofDigits, List.foldl_cons, List.foldl_cons, ih, ih (10 * 0 + d), List.length_cons]
    ring

theorem ofDigits_append (a b : List Nat) : ofDigits (a ++ b) = ofDigits a * 10 ^ b.length + ofDigits b := by
  rw [ofDigits, List.foldl_append]
  exact foldl_digits b (ofDigits a)

theorem ofDigits_lt {digits : List Nat} (h : ∀ d ∈ digits, d < 10) : ofDigits digits < 10 ^ digits.length := by
  induction digits with
  | nil => exact Nat.one_pos
  | cons d digits ih =>
    have hd : d + 1 ≤ 10 := h d List.mem_cons_self
    have hrest := ih fun d hd => h d (List.mem_cons_of_mem _ hd)
    have hsplit : ofDigits (d :: digits) = d * 10 ^ digits.length + ofDigits digits := by
      have happend := ofDigits_append [d] digits
      rwa [show ofDigits [d] = d from Nat.zero_add d] at happend
    calc ofDigits (d :: digits) < (d + 1) * 10 ^ digits.length := by rw [hsplit, Nat.succ_mul]; omega
      _ ≤ 10 * 10 ^ digits.length := Nat.mul_le_mul_right _ hd
      _ = 10 ^ (d :: digits).length := by rw [List.length_cons, Nat.pow_succ, Nat.mul_comm]

theorem ofDigits_decimalDigits (n : Nat) : ofDigits (decimalDigits n) = n := by
  induction n using decimalDigits_induction with
  | digit n h => rw [decimalDigits_of_lt h, ofDigits, List.foldl_cons, List.foldl_nil]; omega
  | more n h ih =>
    rw [decimalDigits_of_le h, ofDigits_append, ih, List.length_singleton]
    simp only [ofDigits, List.foldl_cons, List.foldl_nil]
    omega

theorem ofDigits_replicate_zero (k : Nat) : ofDigits (List.replicate k 0) = 0 := by
  induction k with
  | zero => rfl
  | succ k ih => simpa [ofDigits, List.replicate_succ] using ih

theorem length_decimalDigits_pos (n : Nat) : 0 < (decimalDigits n).length := by
  rw [decimalDigits, List.length_map]
  exact Nat.length_toDigits_pos

theorem length_decimalDigits_le_iff {n k : Nat} (hk : 0 < k) : (decimalDigits n).length ≤ k ↔ n < 10 ^ k := by
  rw [decimalDigits, List.length_map]
  exact Nat.length_toDigits_le_iff (by omega) hk

theorem lt_pow_length_decimalDigits (n : Nat) : n < 10 ^ (decimalDigits n).length :=
  (length_decimalDigits_le_iff (length_decimalDigits_pos n)).mp (Nat.le_refl _)

theorem pow_le_of_pos {n : Nat} (h : 0 < n) : 10 ^ ((decimalDigits n).length - 1) ≤ n := by
  by_cases hone : (decimalDigits n).length = 1
  · rw [hone]
    exact h
  · have hpos := length_decimalDigits_pos n
    refine Nat.le_of_not_lt fun hlt => ?_
    have hle := (length_decimalDigits_le_iff (by omega)).mpr hlt
    omega

/-- The first digit of a positive number is not zero. -/
theorem head_decimalDigits {n : Nat} (h : 0 < n) : ∃ d ds, decimalDigits n = d :: ds ∧ d ≠ 0 := by
  induction n using decimalDigits_induction with
  | digit n hn => exact ⟨n, [], decimalDigits_of_lt hn, by omega⟩
  | more n hn ih =>
    obtain ⟨d, ds, hds, hd⟩ := ih (by omega)
    exact ⟨d, ds ++ [n % 10], by rw [decimalDigits_of_le hn, hds]; rfl, hd⟩

theorem length_decimalDigits_mul {n : Nat} (h : 0 < n) :
    (decimalDigits (n * 10)).length = (decimalDigits n).length + 1 := by
  rw [decimalDigits_of_le (by omega), Nat.mul_div_cancel n (by omega), List.length_append,
    List.length_singleton]

/-! Rounding -/

theorem roundHalfEven_scale {k : Nat} (hk : 0 < k) (num den : Nat) :
    roundHalfEven (k * num) (k * den) = roundHalfEven num den := by
  have hlt : 2 * (k * (num % den)) < k * den ↔ 2 * (num % den) < den := by
    rw [Nat.mul_left_comm]
    exact Nat.mul_lt_mul_left hk
  have heq : 2 * (k * (num % den)) = k * den ↔ 2 * (num % den) = den := by
    rw [Nat.mul_left_comm]
    exact Nat.mul_right_inj (by omega)
  simp only [roundHalfEven, Nat.mul_div_mul_left _ _ hk, Nat.mul_mod_mul_left, hlt, heq]

theorem roundUnits_scale {k : Nat} (hk : 0 < k) (num den : Nat) :
    roundUnits (k * num) (k * den) = roundUnits num den := by
  simp only [roundUnits, Nat.mul_div_mul_left _ _ hk, Nat.mul_assoc, roundHalfEven_scale hk]

/-- Equal quotients are rounded alike. -/
theorem roundUnits_of_cross {num den num' den' : Nat} (h : num * den' = num' * den) (hden : 0 < den)
    (hden' : 0 < den') : roundUnits num den = roundUnits num' den' := by
  rw [← roundUnits_scale hden' num den, ← roundUnits_scale hden num' den', Nat.mul_comm den' num, h,
    Nat.mul_comm num' den, Nat.mul_comm den' den]

theorem roundUnits_of_fits {units : Nat} (h : Fits units) : roundUnits units 1 = units := by
  have hround : roundHalfEven units (Nat.pow 2 (scaleOf units)) = units / Nat.pow 2 (scaleOf units) := by
    have hpos : 0 < Nat.pow 2 (scaleOf units) := Nat.pow_pos (by omega)
    rw [roundHalfEven, h.2, if_pos (by omega)]
  rw [roundUnits]
  simp only [Nat.div_one, Nat.one_mul, hround]
  exact Nat.mul_div_cancel' (Nat.dvd_of_mod_eq_zero h.2)

theorem div_le_roundHalfEven (num den : Nat) : num / den ≤ roundHalfEven num den := by
  simp only [roundHalfEven]
  split
  · exact Nat.le_refl _
  · split <;> omega

/-- A quotient is not rounded below a power of two, if this has more than 52 bits. -/
theorem pow_le_roundUnits {num den bound k : Nat} (hbound : bound = Nat.pow 2 k) (hk : 52 ≤ k)
    (h : bound ≤ num / den) : bound ≤ roundUnits num den := by
  subst hbound
  have hne : num / den ≠ 0 := Nat.ne_of_gt (Nat.lt_of_lt_of_le (Nat.pow_pos Nat.two_pos) h)
  have hlog : k ≤ (num / den).log2 := (Nat.le_log2 hne).mpr h
  have hscale : scaleOf (num / den) + 52 = (num / den).log2 := by
    rw [scaleOf]
    omega
  have hdiv : 2 ^ 52 ≤ num / den / 2 ^ scaleOf (num / den) := by
    rw [Nat.le_div_iff_mul_le (Nat.pow_pos (by omega)), ← Nat.pow_add, Nat.add_comm, hscale]
    exact Nat.log2_self_le hne
  calc Nat.pow 2 k ≤ 2 ^ (scaleOf (num / den) + 52) := Nat.pow_le_pow_right (by omega) (by omega)
    _ = 2 ^ scaleOf (num / den) * 2 ^ 52 := Nat.pow_add _ _ _
    _ ≤ 2 ^ scaleOf (num / den) * (num / den / 2 ^ scaleOf (num / den)) := Nat.mul_le_mul_left _ hdiv
    _ ≤ roundUnits num den := by
      rw [Nat.div_div_eq_div_mul]
      exact Nat.mul_le_mul_left _ (div_le_roundHalfEven _ _)

/-- Less than half a unit is rounded to nothing. -/
theorem roundUnits_eq_zero {num den : Nat} (h : 2 * num < den) : roundUnits num den = 0 := by
  have hdiv : num / den = 0 := Nat.div_eq_of_lt (by omega)
  have hscale : scaleOf 0 = 0 := rfl
  have hone : den * Nat.pow 2 0 = den := Nat.mul_one den
  have hmod : num % den = num := Nat.mod_eq_of_lt (by omega)
  simp only [roundUnits, hdiv, hscale, hone, roundHalfEven, hmod, if_pos h, Nat.mul_zero]

namespace Decimal

/-! Decimals -/

theorem ratio_den_pos (d : Decimal) : 0 < d.ratio.2 := by
  rw [ratio]
  split
  · exact Nat.one_pos
  · exact Nat.pow_pos (by omega)

theorem ratio_of_nonneg {d : Decimal} (h : 0 ≤ d.exponent) :
    d.ratio = (d.digits * 10 ^ d.exponent.toNat * unitsPerOne, 1) := if_pos h

theorem ratio_of_neg {d : Decimal} (h : d.exponent < 0) :
    d.ratio = (d.digits * unitsPerOne, 10 ^ (-d.exponent).toNat) := if_neg (by omega)

/-- The same number with one more zero in its digits. -/
def shift (d : Decimal) : Decimal := ⟨d.digits * 10, d.exponent - 1⟩

theorem units_shift (d : Decimal) : d.shift.units = d.units := by
  refine roundUnits_of_cross ?_ d.shift.ratio_den_pos d.ratio_den_pos
  obtain ⟨n, e⟩ := d
  rcases Int.lt_trichotomy e 0 with he | rfl | he
  · rw [ratio_of_neg (d := shift ⟨n, e⟩) (by simp only [shift]; omega), ratio_of_neg (d := ⟨n, e⟩) he]
    have hpow : (-(e - 1)).toNat = (-e).toNat + 1 := by omega
    simp only [shift, hpow, Nat.pow_succ]
    ring
  · have hone : (-(0 - 1 : Int)).toNat = 1 := rfl
    rw [ratio_of_neg (d := shift ⟨n, 0⟩) (by simp only [shift]; omega),
      ratio_of_nonneg (d := ⟨n, 0⟩) (Int.le_refl 0)]
    simp only [shift, hone, Int.toNat_zero]
    ring
  · rw [ratio_of_nonneg (d := shift ⟨n, e⟩) (by simp only [shift]; omega),
      ratio_of_nonneg (d := ⟨n, e⟩) (by simp only; omega)]
    have hpow : e.toNat = (e - 1).toNat + 1 := by omega
    simp only [shift, hpow, Nat.pow_succ]
    ring

theorem toBinary64_shift (negative : Bool) (d : Decimal) : d.shift.toBinary64 negative = d.toBinary64 negative := by
  by_cases hd : d.digits = 0
  · have hshift : d.shift.digits = 0 := by rw [shift, hd]
    rw [toBinary64, toBinary64, if_pos hd, if_pos hshift]
  · have hmagnitude : d.shift.magnitude = d.magnitude := by
      have hlength := length_decimalDigits_mul (Nat.pos_of_ne_zero hd)
      simp only [magnitude, shift, hlength]
      omega
    have hshift : d.shift.digits ≠ 0 := Nat.mul_ne_zero hd (by omega)
    rw [toBinary64, toBinary64, if_neg hd, if_neg hshift, hmagnitude, units_shift]

theorem toBinary64_trimZeros (negative : Bool) (fuel : Nat) (d : Decimal) :
    (trimZeros fuel d).toBinary64 negative = d.toBinary64 negative := by
  induction fuel generalizing d with
  | zero => rfl
  | succ fuel ih =>
    rw [trimZeros]
    split
    · rename_i hzero
      have hshift : shift ⟨d.digits / 10, d.exponent + 1⟩ = d := by
        obtain ⟨n, e⟩ := d
        simp only [shift, Decimal.mk.injEq]
        dsimp only at hzero
        omega
      rw [ih, ← toBinary64_shift, hshift]
    · rfl

/-- A decimal has at least the value of its first digit as one. -/
theorem le_ratio_of_magnitude {d : Decimal} (hd : 0 < d.digits) {k : Nat} (hk : k ≤ d.magnitude) :
    10 ^ k * unitsPerOne ≤ d.ratio.1 / d.ratio.2 := by
  have hpos := length_decimalDigits_pos d.digits
  have hdigits := pow_le_of_pos hd
  rw [magnitude] at hk
  by_cases he : 0 ≤ d.exponent
  · rw [ratio_of_nonneg he, Nat.div_one]
    refine Nat.mul_le_mul_right _ ?_
    calc 10 ^ k ≤ 10 ^ ((decimalDigits d.digits).length - 1 + d.exponent.toNat) :=
          Nat.pow_le_pow_right (by omega) (by omega)
      _ = 10 ^ ((decimalDigits d.digits).length - 1) * 10 ^ d.exponent.toNat := Nat.pow_add _ _ _
      _ ≤ d.digits * 10 ^ d.exponent.toNat := Nat.mul_le_mul_right _ hdigits
  · rw [ratio_of_neg (by omega), Nat.le_div_iff_mul_le (Nat.pow_pos (by omega)), Nat.mul_right_comm,
      ← Nat.pow_add]
    refine Nat.mul_le_mul_right _ ?_
    calc 10 ^ (k + (-d.exponent).toNat) ≤ 10 ^ ((decimalDigits d.digits).length - 1) :=
          Nat.pow_le_pow_right (by omega) (by omega)
      _ ≤ d.digits := hdigits

theorem unitsPerOne_pos : 0 < unitsPerOne := by decide +kernel

/-- A decimal has less than ten times the value of its first digit as one. -/
theorem ratio_lt_of_magnitude {d : Decimal} {k : Nat} (hk : d.magnitude < -(k : Int)) :
    d.ratio.1 * 10 ^ k < d.ratio.2 * unitsPerOne := by
  have hpos := length_decimalDigits_pos d.digits
  rw [magnitude] at hk
  rw [ratio_of_neg (by omega), Nat.mul_right_comm]
  refine Nat.mul_lt_mul_of_pos_right ?_ unitsPerOne_pos
  calc d.digits * 10 ^ k < 10 ^ (decimalDigits d.digits).length * 10 ^ k :=
        Nat.mul_lt_mul_of_pos_right (lt_pow_length_decimalDigits _) (Nat.pow_pos (by omega))
    _ = 10 ^ ((decimalDigits d.digits).length + k) := (Nat.pow_add _ _ _).symm
    _ ≤ 10 ^ (-d.exponent).toNat := Nat.pow_le_pow_right (by omega) (by omega)

theorem units_of_digits_zero {d : Decimal} (h : d.digits = 0) : d.units = 0 := by
  have hnum : d.ratio.1 = 0 := by
    rw [ratio, h]
    split <;> simp
  have hden := d.ratio_den_pos
  exact roundUnits_eq_zero (by omega)

/-- A decimal that is rounded to a number that fits, and not to zero, is not of extreme magnitude. -/
theorem toBinary64_of_units {d : Decimal} {units : Nat} (hunits : d.units = units) (hne : units ≠ 0)
    (hfits : Fits units) (negative : Bool) : d.toBinary64 negative = .finite negative units hfits := by
  have hd : d.digits ≠ 0 := fun h => hne (hunits ▸ units_of_digits_zero h)
  have hhigh : ¬400 < d.magnitude := by
    intro h
    have hlarge : overflowUnits ≤ 10 ^ 401 * unitsPerOne := by decide +kernel
    have hoverflow : overflowUnits ≤ d.units :=
      pow_le_roundUnits (k := 2098) (by decide +kernel) (by omega)
        (hlarge.trans (le_ratio_of_magnitude (Nat.pos_of_ne_zero hd) (Int.add_one_le_of_lt h)))
    exact absurd hfits.1 (Nat.not_lt.mpr (hunits ▸ hoverflow))
  have hlow : ¬d.magnitude < -400 := by
    intro h
    have hsmall : 2 * unitsPerOne ≤ 10 ^ 400 := by decide +kernel
    have hratio : d.ratio.1 * 10 ^ 400 < d.ratio.2 * unitsPerOne := ratio_lt_of_magnitude h
    have hhalf : 2 * d.ratio.1 < d.ratio.2 := by
      refine Nat.lt_of_mul_lt_mul_right (a := 10 ^ 400) ?_
      calc 2 * d.ratio.1 * 10 ^ 400 = 2 * (d.ratio.1 * 10 ^ 400) := Nat.mul_assoc _ _ _
        _ < 2 * (d.ratio.2 * unitsPerOne) := Nat.mul_lt_mul_of_pos_left hratio (by omega)
        _ = d.ratio.2 * (2 * unitsPerOne) := Nat.mul_left_comm _ _ _
        _ ≤ d.ratio.2 * 10 ^ 400 := Nat.mul_le_mul_left _ hsmall
    exact hne (hunits ▸ roundUnits_eq_zero hhalf)
  rw [toBinary64, if_neg hd, if_neg hhigh, if_neg hlow, hunits, Binary64.ofUnits, dif_pos hfits]

/-! The decimal of a number -/

theorem units_of_withDigits? {units count : Nat} {leading : Int} {d : Decimal}
    (h : withDigits? units leading count = some d) : d.units = units := by
  unfold withDigits? at h
  dsimp only at h
  unfold choose at h
  split at h
  · cases h
  · rename_i hlow hhigh
    cases h
    exact of_decide_eq_true hlow
  · rename_i hlow hhigh
    cases h
    exact of_decide_eq_true hhigh
  · rename_i hlow hhigh
    split at h
    · cases h
      exact of_decide_eq_true hlow
    · cases h
      exact of_decide_eq_true hhigh
    · cases h
      -- the even one of the two neighbours
      rcases Nat.mod_two_eq_zero_or_one (neighbours units unitsPerOne (leading - count + 1)).1 with heven | hodd
      · rw [heven]
        exact of_decide_eq_true hlow
      · rw [hodd]
        exact of_decide_eq_true hhigh

/-- A unit is a product of halves, so a number of units is a decimal with as many places. -/
theorem units_of_halves {d : Decimal} {units k : Nat} (hk : unitsPerOne = Nat.pow 2 k) (hpos : 0 < k)
    (hdigits : d.digits = units * Nat.pow 5 k) (hexponent : d.exponent = -k) (h : Fits units) :
    d.units = units := by
  have hround : roundUnits (units * Nat.pow 5 k * Nat.pow 2 k) (10 ^ k) = roundUnits units 1 := by
    refine roundUnits_of_cross ?_ (Nat.pow_pos (by omega)) Nat.one_pos
    rw [Nat.mul_one, Nat.mul_assoc, Nat.pow_eq, Nat.pow_eq, ← Nat.mul_pow]
  rw [Decimal.units, ratio_of_neg (by omega), hk, hdigits, hexponent, Int.neg_neg, Int.toNat_natCast, hround,
    roundUnits_of_fits h]

theorem units_exact {units : Nat} (h : Fits units) : (exact units).units = units :=
  units_of_halves (k := 1074) (by decide +kernel) (by omega) rfl rfl h

/-- The decimal that is chosen for a number is read as this number. -/
theorem toBinary64_shortest {units : Nat} (hne : units ≠ 0) (hfits : Fits units) (negative : Bool) :
    (shortest units).toBinary64 negative = .finite negative units hfits := by
  rw [shortest, toBinary64_trimZeros]
  refine toBinary64_of_units ?_ hne hfits negative
  cases hfound : (List.range 17).findSome? fun i =>
      withDigits? units (leadingExponent units unitsPerOne) (i + 1) with
  | none => exact units_exact hfits
  | some d =>
    obtain ⟨i, -, hi⟩ := List.exists_of_findSome?_eq_some hfound
    exact units_of_withDigits? hi

end Decimal

end SigilScript
