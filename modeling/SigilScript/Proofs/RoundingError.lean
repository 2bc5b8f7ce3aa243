import SigilScript.Proofs.DecimalReading

/-!
How far rounding goes. A quotient is moved by at most half of the lowest bit that is kept, never across a
power of two, and onto a magnitude that fits unless it overflows.
-/
namespace SigilScript

theorem roundHalfEven_cases (num den : Nat) :
    roundHalfEven num den = num / den ∧ 2 * (num % den) ≤ den ∨
      roundHalfEven num den = num / den + 1 ∧ den ≤ 2 * (num % den) := by
  rw [roundHalfEven]
  split
  · exact .inl ⟨rfl, by omega⟩
  · split
    · rcases Nat.mod_two_eq_zero_or_one (num / den) with heven | hodd
      · exact .inl ⟨by rw [heven]; rfl, by omega⟩
      · exact .inr ⟨by rw [hodd], by omega⟩
    · exact .inr ⟨rfl, by omega⟩

/-- The nearest whole number is at most a half away. -/
theorem roundHalfEven_near (num : Nat) {den : Nat} (hden : 0 < den) :
    2 * (den * roundHalfEven num den) ≤ 2 * num + den ∧ 2 * num ≤ 2 * (den * roundHalfEven num den) + den := by
  have hsplit := Nat.div_add_mod num den
  rcases roundHalfEven_cases num den with ⟨h, hhalf⟩ | ⟨h, hhalf⟩
  · rw [h]
    omega
  · have hlt := Nat.mod_lt num hden
    rw [h, Nat.mul_add, Nat.mul_one]
    omega

theorem roundHalfEven_le {num den bound : Nat} (hden : 0 < den) (h : num ≤ den * bound) :
    roundHalfEven num den ≤ bound := by
  have hsplit := Nat.div_add_mod num den
  have hdiv : num / den ≤ bound := Nat.div_le_of_le_mul h
  rcases roundHalfEven_cases num den with ⟨hround, -⟩ | ⟨hround, hhalf⟩
  · rw [hround]
    exact hdiv
  · rw [hround]
    refine Nat.lt_of_le_of_ne hdiv fun heq => ?_
    rw [heq] at hsplit
    omega

theorem pow_scaleOf_pos (units : Nat) : 0 < Nat.pow 2 (scaleOf units) := Nat.pow_pos Nat.two_pos

/-- Rounding moves a quotient by at most half of its lowest significant bit. -/
theorem roundUnits_near (num : Nat) {den : Nat} (hden : 0 < den) :
    2 * (den * roundUnits num den) ≤ 2 * num + den * Nat.pow 2 (scaleOf (num / den)) ∧
      2 * num ≤ 2 * (den * roundUnits num den) + den * Nat.pow 2 (scaleOf (num / den)) := by
  have hnear := roundHalfEven_near num (Nat.mul_pos hden (pow_scaleOf_pos (num / den)))
  have hunits : den * roundUnits num den = den * Nat.pow 2 (scaleOf (num / den)) *
      roundHalfEven num (den * Nat.pow 2 (scaleOf (num / den))) := by
    rw [roundUnits, Nat.mul_assoc]
  rwa [hunits]

/-- A quotient is not rounded above a power of two. -/
theorem roundUnits_le_pow {num den bound k : Nat} (hbound : bound = Nat.pow 2 k) (hden : 0 < den)
    (h : num ≤ den * bound) : roundUnits num den ≤ bound := by
  subst hbound
  have hscale : scaleOf (num / den) ≤ k := by
    have hdiv : num / den ≤ 2 ^ k := Nat.div_le_of_le_mul h
    by_cases hzero : num / den = 0
    · rw [hzero]
      exact Nat.zero_le k
    · have hlog : (num / den).log2 < k + 1 :=
        (Nat.log2_lt hzero).mpr (hdiv.trans_lt (Nat.pow_lt_pow_right (by omega) (by omega)))
      rw [scaleOf]
      omega
  have hpow : Nat.pow 2 (scaleOf (num / den)) * Nat.pow 2 (k - scaleOf (num / den)) = Nat.pow 2 k := by
    rw [Nat.pow_eq, Nat.pow_eq, Nat.pow_eq, ← Nat.pow_add, Nat.add_sub_cancel' hscale]
  calc roundUnits num den
      ≤ Nat.pow 2 (scaleOf (num / den)) * Nat.pow 2 (k - scaleOf (num / den)) :=
        Nat.mul_le_mul_left _ (roundHalfEven_le (Nat.mul_pos hden (pow_scaleOf_pos _))
          (by rwa [Nat.mul_assoc, hpow]))
    _ = Nat.pow 2 k := hpow

/-- The lowest significant bit of a magnitude below a bound of 53 bits. -/
theorem pow_scaleOf_dvd {units bit k : Nat} (hbit : bit = Nat.pow 2 k) (h : units < bit * 2 ^ 53) :
    Nat.pow 2 (scaleOf units) ∣ bit := by
  rw [hbit, Nat.pow_eq, ← Nat.pow_add] at h
  have hscale : scaleOf units ≤ k := by
    by_cases hzero : units = 0
    · rw [hzero]
      exact Nat.zero_le k
    · have hlog : units.log2 < k + 53 := (Nat.log2_lt hzero).mpr h
      rw [scaleOf]
      omega
  rw [hbit]
  exact Nat.pow_dvd_pow 2 hscale

theorem pow_scaleOf_mul_le {units : Nat} (h : 2 ^ 52 ≤ units) : Nat.pow 2 (scaleOf units) * 2 ^ 52 ≤ units := by
  have hne : units ≠ 0 := by
    rintro rfl
    exact absurd h (by decide)
  have hlog : 52 ≤ units.log2 := (Nat.le_log2 hne).mpr h
  calc Nat.pow 2 (scaleOf units) * 2 ^ 52 = 2 ^ (scaleOf units + 52) := (Nat.pow_add _ _ _).symm
    _ = 2 ^ units.log2 := by rw [scaleOf, Nat.sub_add_cancel hlog]
    _ ≤ units := Nat.log2_self_le hne

/-- A magnitude fits if it has at most 53 bits above some bit, and none below. -/
theorem fits_of_dvd {units bit k : Nat} (hbit : bit = Nat.pow 2 k) (hdvd : bit ∣ units)
    (hlt : units < bit * 2 ^ 53) (hoverflow : units < overflowUnits) : Fits units :=
  ⟨hoverflow, Nat.mod_eq_zero_of_dvd ((pow_scaleOf_dvd hbit hlt).trans hdvd)⟩

theorem dvd_of_fits {units bit k : Nat} (hbit : bit = Nat.pow 2 k) (hfits : Fits units)
    (hle : bit * 2 ^ 52 ≤ units) : bit ∣ units := by
  have hscale : k ≤ scaleOf units := by
    rw [hbit, Nat.pow_eq, ← Nat.pow_add] at hle
    have hne : units ≠ 0 := Nat.ne_of_gt (Nat.lt_of_lt_of_le (Nat.pow_pos Nat.two_pos) hle)
    have hlog : k + 52 ≤ units.log2 := (Nat.le_log2 hne).mpr hle
    rw [scaleOf]
    omega
  rw [hbit]
  exact (Nat.pow_dvd_pow 2 hscale).trans (Nat.dvd_of_mod_eq_zero hfits.2)

theorem fits_roundUnits {num den : Nat} (hden : 0 < den) (h : roundUnits num den < overflowUnits) :
    Fits (roundUnits num den) := by
  have hpos := pow_scaleOf_pos (num / den)
  have hround : roundHalfEven num (den * Nat.pow 2 (scaleOf (num / den))) ≤ 2 ^ 53 := by
    refine roundHalfEven_le (Nat.mul_pos hden hpos) ?_
    have hlt : num / den < 2 ^ (scaleOf (num / den) + 53) := by
      refine Nat.lt_log2_self.trans_le (Nat.pow_le_pow_right (by omega) ?_)
      rw [scaleOf]
      omega
    rw [Nat.mul_assoc, Nat.pow_eq, ← Nat.pow_add]
    exact ((Nat.div_lt_iff_lt_mul hden).mp hlt).le.trans_eq (Nat.mul_comm _ _)
  have hunits : roundUnits num den = Nat.pow 2 (scaleOf (num / den)) *
      roundHalfEven num (den * Nat.pow 2 (scaleOf (num / den))) := rfl
  rcases Nat.lt_or_eq_of_le hround with hlt | heq
  · exact fits_of_dvd rfl ⟨_, hunits⟩ (hunits ▸ Nat.mul_lt_mul_of_pos_left hlt hpos) h
  · -- rounded up to the next power of two, which has one bit more
    have hdouble : roundUnits num den = Nat.pow 2 (scaleOf (num / den) + 1) * 2 ^ 52 := by
      rw [hunits, heq, Nat.pow_eq, Nat.pow_eq, ← Nat.pow_add, ← Nat.pow_add]
    apply fits_of_dvd rfl ⟨_, hdouble⟩ _ h
    rw [hdouble]
    exact Nat.mul_lt_mul_of_pos_left (by decide) (Nat.pow_pos Nat.two_pos)

/-! Powers of two, in units -/

theorem mul_pow_two (a b : Nat) : 2 ^ a * Nat.pow 2 b = Nat.pow 2 (a + b) := (Nat.pow_add 2 a b).symm

/-- The number of units in one, as a multiple of a lower bit. -/
theorem exists_unitsPerOne_eq {a : Nat} (h : a ≤ 1074) : ∃ k bit, bit = Nat.pow 2 k ∧ unitsPerOne = 2 ^ a * bit := by
  obtain ⟨n, hn, hunit⟩ : ∃ n, n = 1074 ∧ unitsPerOne = Nat.pow 2 n := ⟨_, rfl, by decide +kernel⟩
  refine ⟨n - a, _, rfl, ?_⟩
  rw [hunit, mul_pow_two, Nat.add_sub_cancel' (hn ▸ h)]

theorem exists_unitsPerOne_eq_pow : ∃ k, 52 ≤ k ∧ unitsPerOne = Nat.pow 2 k := by
  obtain ⟨k, bit, hbit, hunit⟩ := exists_unitsPerOne_eq (a := 52) (by omega)
  exact ⟨52 + k, by omega, by rw [hunit, hbit, mul_pow_two]⟩

theorem mul_unitsPerOne_lt {a : Nat} (h : a < 1024) : 2 ^ a * unitsPerOne < overflowUnits := by
  obtain ⟨n, hn, hoverflow⟩ : ∃ n, n = 1024 ∧ overflowUnits = 2 ^ n * unitsPerOne := ⟨_, rfl, by decide +kernel⟩
  rw [hoverflow]
  exact Nat.mul_lt_mul_of_pos_right (Nat.pow_lt_pow_right (by omega) (hn ▸ h)) Decimal.unitsPerOne_pos

theorem roundUnits_le {num den a : Nat} (hden : 0 < den) (h : num ≤ den * (2 ^ a * unitsPerOne)) :
    roundUnits num den ≤ 2 ^ a * unitsPerOne := by
  obtain ⟨k, -, hk⟩ := exists_unitsPerOne_eq_pow
  exact roundUnits_le_pow (by rw [hk, mul_pow_two]) hden h

theorem unitsPerOne_le_roundUnits {num den : Nat} (h : unitsPerOne ≤ num / den) :
    unitsPerOne ≤ roundUnits num den := by
  obtain ⟨k, hlarge, hk⟩ := exists_unitsPerOne_eq_pow
  exact pow_le_roundUnits hk hlarge h

theorem le_roundUnits {num den a : Nat} (h : 2 ^ a * unitsPerOne ≤ num / den) :
    2 ^ a * unitsPerOne ≤ roundUnits num den := by
  obtain ⟨k, hlarge, hk⟩ := exists_unitsPerOne_eq_pow
  refine pow_le_roundUnits (k := a + k) ?_ (by omega) h
  rw [hk, mul_pow_two]

/-! Whole numbers -/

/-- Up to `2 ^ 53` every whole number fits. -/
theorem fits_whole {n : Nat} (h : n ≤ 2 ^ 53) : Fits (n * unitsPerOne) := by
  have hoverflow : 2 ^ 53 * unitsPerOne < overflowUnits := mul_unitsPerOne_lt (by omega)
  have hpos := Decimal.unitsPerOne_pos
  obtain ⟨k, -, hk⟩ := exists_unitsPerOne_eq_pow
  rcases Nat.lt_or_eq_of_le h with hlt | rfl
  · have hunits : n * unitsPerOne < 2 ^ 53 * unitsPerOne := Nat.mul_lt_mul_of_pos_right hlt hpos
    refine fits_of_dvd hk (Nat.dvd_mul_left _ _) ?_ (hunits.trans hoverflow)
    rwa [Nat.mul_comm unitsPerOne]
  · -- the last one has a bit more, but no other
    obtain ⟨bit, hunits⟩ : ∃ bit, bit = 2 ^ 53 * unitsPerOne := ⟨_, rfl⟩
    have hbit : bit = Nat.pow 2 (53 + k) := by rw [hunits, hk, mul_pow_two]
    have hone : 0 < bit := hbit ▸ Nat.pow_pos Nat.two_pos
    rw [← hunits] at hoverflow ⊢
    exact fits_of_dvd hbit (Nat.dvd_refl _) (by omega) hoverflow

/-- Below `2 ^ 1024` every whole number is rounded to a finite one. -/
theorem fits_roundUnits_whole {n a : Nat} (ha : a < 1024) (h : n ≤ 2 ^ a) : Fits (roundUnits (n * unitsPerOne) 1) := by
  apply fits_roundUnits Nat.one_pos
  have hle : n * unitsPerOne ≤ 1 * (2 ^ a * unitsPerOne) := by
    rw [Nat.one_mul]
    exact Nat.mul_le_mul_right _ h
  calc roundUnits (n * unitsPerOne) 1 ≤ 2 ^ a * unitsPerOne := roundUnits_le Nat.one_pos hle
    _ < overflowUnits := mul_unitsPerOne_lt ha

theorem roundUnits_whole_ne_zero {n : Nat} (h : n ≠ 0) : roundUnits (n * unitsPerOne) 1 ≠ 0 := by
  have hle : unitsPerOne ≤ roundUnits (n * unitsPerOne) 1 := by
    apply unitsPerOne_le_roundUnits
    rw [Nat.div_one]
    exact Nat.le_mul_of_pos_left _ (Nat.pos_of_ne_zero h)
  exact (Nat.lt_of_lt_of_le Decimal.unitsPerOne_pos hle).ne'

/-- A whole number is read as the number nearest to it. -/
theorem Decimal.toBinary64_integer (negative : Bool) {n : Nat} (h : Fits (roundUnits (n * unitsPerOne) 1)) :
    Decimal.toBinary64 negative ⟨n, 0⟩ = .finite negative (roundUnits (n * unitsPerOne) 1) h := by
  by_cases hzero : n = 0
  · -- zero is read without rounding
    have hround : roundUnits (n * unitsPerOne) 1 = 0 := by
      rw [hzero, Nat.zero_mul]
      exact roundUnits_eq_zero Nat.one_pos
    rw [Decimal.toBinary64, if_pos hzero, Binary64.zero]
    congr 1
    exact hround.symm
  · have hunits : Decimal.units ⟨n, 0⟩ = roundUnits (n * unitsPerOne) 1 := by
      rw [Decimal.units, Decimal.ratio_of_nonneg (Int.le_refl 0), Int.toNat_zero, Nat.pow_zero, Nat.mul_one]
    exact Decimal.toBinary64_of_units hunits (roundUnits_whole_ne_zero hzero) h negative

/-- Up to `2 ^ 53` a whole number is read as it is. -/
theorem Decimal.toBinary64_whole {n : Nat} (h : n ≤ 2 ^ 53) (negative : Bool) :
    toBinary64 negative ⟨n, 0⟩ = .finite negative (n * unitsPerOne) (fits_whole h) := by
  rw [toBinary64_integer negative (fits_roundUnits_whole (by omega) h), Binary64.finite.injEq]
  exact ⟨rfl, roundUnits_of_fits (fits_whole h)⟩

/-! Sums -/

/-- A sum of two numbers that does not overflow. -/
theorem Binary64.add_finite {negative negative' : Bool} {units units' : Nat} (hfits : Fits units) (hfits' : Fits units')
    {sum : Int} (hsum : sum = signedUnits negative units + signedUnits negative' units') {a : Nat} (ha : a < 1024)
    (hle : sum.natAbs ≤ 2 ^ a * unitsPerOne) :
    ((finite negative units hfits).add (finite negative' units' hfits')).isFinite ∧
      ((finite negative units hfits).add (finite negative' units' hfits')).extent =
        some (signedUnits (sum < 0) (roundUnits sum.natAbs 1)) := by
  have hround : roundUnits sum.natAbs 1 ≤ 2 ^ a * unitsPerOne :=
    roundUnits_le Nat.one_pos (by rwa [Nat.one_mul])
  have hfits := fits_roundUnits Nat.one_pos (hround.trans_lt (mul_unitsPerOne_lt ha))
  rw [add, ← hsum]
  split
  · rename_i hzero
    rw [hzero, Int.natAbs_zero, roundUnits_eq_zero (by omega)]
    refine ⟨rfl, ?_⟩
    cases negative <;> cases negative' <;> rfl
  · rw [ofRatio, ofUnits, dif_pos hfits]
    exact ⟨rfl, rfl⟩

end SigilScript
