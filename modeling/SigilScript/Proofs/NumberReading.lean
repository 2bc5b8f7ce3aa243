import SigilScript.Proofs.NumberText
import SigilScript.Proofs.NumeralToken

/-!
Texts of numbers that are read again. Every spelling is a numeral, with zeros before it or not, and the plain
notation of a finite number is read as a number at the same place, though the sign of a zero is lost.
-/
namespace SigilScript

/-! Digits -/

theorem decimal?_digit {d : Nat} (h : d < 10) : (CodePoint.ofNat (48 + d)).decimal? = some d := by
  match d, h with
  | 0, _ | 1, _ | 2, _ | 3, _ | 4, _ | 5, _ | 6, _ | 7, _ | 8, _ | 9, _ => rfl

theorem takeDecimals_digitText {digits : List Nat} {rest : Text} (h : ∀ d ∈ digits, d < 10)
    (hrest : ∀ c, rest.head? = some c → c.decimal? = none) :
    takeDecimals (digitText digits ++ rest) = (digits, rest) := by
  induction digits with
  | nil =>
    cases rest with
    | nil => rfl
    | cons c rest =>
      have hc : c.decimal? = none := hrest c rfl
      rw [digitText, List.map_nil, List.nil_append, takeDecimals, hc]
  | cons d digits ih =>
    have hd : (CodePoint.ofNat (48 + d)).decimal? = some d := decimal?_digit (h d List.mem_cons_self)
    have hmore := ih fun d hd => h d (List.mem_cons_of_mem _ hd)
    rw [digitText, List.map_cons, List.cons_append, takeDecimals, hd]
    rw [digitText] at hmore
    dsimp only
    rw [hmore]

namespace Spelling

/-- Digits everywhere, and at least one before the point. -/
structure Readable (s : Spelling) : Prop where
  nonempty : s.whole ≠ []
  whole : ∀ d ∈ s.whole, d < 10
  fraction : ∀ d ∈ s.fraction, d < 10
  exponent : ∀ negative digits, s.exponent = some (negative, digits) → digits ≠ [] ∧ ∀ d ∈ digits, d < 10

theorem Regular.readable {s : Spelling} (h : s.Regular) : s.Readable where
  nonempty := by
    rcases h.first with hzero | ⟨d, ds, hcons, -⟩
    · rw [hzero]
      exact List.cons_ne_nil _ _
    · rw [hcons]
      exact List.cons_ne_nil _ _
  whole := h.whole
  fraction := h.fraction
  exponent := h.exponent

theorem head_exponentText {exponent : Option (Bool × List Nat)} {c : CodePoint}
    (h : (exponentText exponent).head? = some c) : c = 'e' := by
  cases exponent with
  | none => cases h
  | some p => exact (Option.some.inj h).symm

theorem head_fractionText {fraction : List Nat} {exponent : Option (Bool × List Nat)} {c : CodePoint}
    (h : (fractionText fraction ++ exponentText exponent).head? = some c) : c = '.' ∨ c = 'e' := by
  rw [fractionText] at h
  split at h
  · exact .inr (head_exponentText h)
  · exact .inl (Option.some.inj h).symm

theorem takeFraction_text {s : Spelling} (h : s.Readable) :
    ∃ found, Numeral.takeFraction (fractionText s.fraction ++ exponentText s.exponent) =
      (found, exponentText s.exponent) ∧ found.getD [] = s.fraction := by
  rw [fractionText]
  split
  · rename_i hnil
    refine ⟨none, ?_, hnil.symm⟩
    rw [List.nil_append]
    cases hexponent : exponentText s.exponent with
    | nil => rfl
    | cons c rest =>
      have hc : c = 'e' := head_exponentText (congrArg List.head? hexponent)
      rw [hc]
      rfl
  · refine ⟨some s.fraction, ?_, rfl⟩
    have hdigits : takeDecimals (digitText s.fraction ++ exponentText s.exponent) =
        (s.fraction, exponentText s.exponent) := by
      refine takeDecimals_digitText h.fraction fun c hc => ?_
      rw [head_exponentText hc]
      rfl
    rw [List.cons_append, Numeral.takeFraction, if_pos rfl, hdigits]
    rfl

theorem exponent?_text {s : Spelling} (h : s.Readable) :
    Numeral.exponent? (exponentText s.exponent) = some s.exponentValue := by
  cases hexponent : s.exponent with
  | none =>
    rw [exponentValue, hexponent]
    rfl
  | some p =>
    obtain ⟨negative, digits⟩ := p
    obtain ⟨hne, hten⟩ := h.exponent negative digits hexponent
    have hsign : takeSign ((if negative then ('-' : CodePoint) else ('+' : CodePoint)) :: digitText digits) =
        (negative, digitText digits) := by
      cases negative <;> rfl
    have hdigits : takeDecimals (digitText digits ++ []) = (digits, []) :=
      takeDecimals_digitText hten fun c hc => by cases hc
    rw [List.append_nil] at hdigits
    obtain ⟨d, ds, rfl⟩ := List.exists_cons_of_ne_nil hne
    rw [exponentText, Numeral.exponent?, if_pos (.inl rfl), hsign]
    dsimp only
    rw [hdigits, exponentValue, hexponent]

theorem magnitude?_text {s : Spelling} (h : s.Readable) : Numeral.magnitude? s.text = some (s.numeral false) := by
  have hwhole : takeDecimals s.text = (s.whole, fractionText s.fraction ++ exponentText s.exponent) := by
    refine takeDecimals_digitText h.whole fun c hc => ?_
    rcases head_fractionText hc with rfl | rfl <;> rfl
  obtain ⟨found, hfraction, hfound⟩ := takeFraction_text h
  have hsome : s.whole.isEmpty = false := by
    rw [List.isEmpty_eq_false_iff]
    exact h.nonempty
  simp only [Numeral.magnitude?, hwhole, hfraction, hsome, Bool.false_and, Bool.false_eq_true, if_false,
    exponent?_text h, hfound]
  rfl

/-- Every spelling, with its sign, is a numeral. -/
theorem ofText?_text {s : Spelling} (h : s.Readable) (negative : Bool) :
    Numeral.ofText? (signText negative ++ s.text) = some (s.numeral negative) := by
  obtain ⟨whole, fraction, exponent, hunsigned⟩ := Numeral.unsigned_of_magnitude? (magnitude?_text h)
  have hsign : takeSign (signText negative ++ s.text) = (negative, s.text) := by
    cases negative with
    | false => exact hunsigned.takeSign_eq
    | true => rfl
  rw [Numeral.ofText?_eq, hsign, magnitude?_text h]
  rfl

end Spelling

/-! Code points of numerals -/

def CodePoint.isNumeric (c : CodePoint) : Bool :=
  c.isDecimal || c = '.' || c = '+' || c = '-' || c = 'e' || c = 'E'

theorem CodePoint.isNumeric_of_isDecimal {c : CodePoint} (h : c.isDecimal) : c.isNumeric := by
  simp [isNumeric, h]

theorem CodePoint.not_isBlank_of_isNumeric {c : CodePoint} (h : c.isNumeric) : c.isBlank = false := by
  simp only [isNumeric, Bool.or_eq_true, decide_eq_true_eq] at h
  obtain ((((hd | rfl) | rfl) | rfl) | rfl) | rfl := h
  · exact not_isBlank_of_isDigit (isDigit_of_isDecimal hd)
  all_goals decide

theorem Signed.isNumeric {sign : Text} {negative : Bool} (h : Signed sign negative) :
    ∀ c ∈ sign, c.isNumeric := by
  cases h <;> decide

theorem Fractional.isNumeric {fraction : Text} (h : Fractional fraction) : ∀ c ∈ fraction, c.isNumeric := by
  cases h with
  | none => nofun
  | point h =>
    exact List.forall_mem_cons.mpr ⟨by decide, fun c hc => CodePoint.isNumeric_of_isDecimal (h c hc)⟩

theorem Exponential.isNumeric {exponent : Text} (h : Exponential exponent) : ∀ c ∈ exponent, c.isNumeric := by
  cases h with
  | none => nofun
  | @digits e sign digits negative he hs hne h =>
    refine List.forall_mem_cons.mpr ⟨?_, List.forall_mem_append.mpr ⟨hs.isNumeric, fun c hc => ?_⟩⟩
    · obtain rfl | rfl := he <;> decide
    · exact CodePoint.isNumeric_of_isDecimal (h c hc)

theorem Numeral.isNumeric_of_ofText? {t : Text} {n : Numeral} (h : ofText? t = some n) : ∀ c ∈ t, c.isNumeric := by
  rw [ofText?_eq] at h
  obtain ⟨m, hm, -⟩ := Option.map_eq_some_iff.mp h
  obtain ⟨sign, hsplit, hsign⟩ := takeSign_eq t
  obtain ⟨whole, fraction, exponent, hunsigned⟩ := unsigned_of_magnitude? hm
  rw [hsplit, hunsigned.eq]
  refine List.forall_mem_append.mpr ⟨hsign.isNumeric, List.forall_mem_append.mpr ⟨fun c hc => ?_,
    List.forall_mem_append.mpr ⟨hunsigned.fractional.isNumeric, hunsigned.exponential.isNumeric⟩⟩⟩
  exact CodePoint.isNumeric_of_isDecimal (hunsigned.whole_decimal c hc)

namespace Text

theorem strip_of_not_blank {t : Text} (h : ∀ c ∈ t, c.isBlank = false) : t.strip = t := by
  have hkept {u : Text} (hu : ∀ c ∈ u, c.isBlank = false) : u.dropWhile CodePoint.isBlank = u := by
    cases u with
    | nil => rfl
    | cons c u => rw [List.dropWhile_cons, hu c List.mem_cons_self, if_neg Bool.false_ne_true]
  have hreverse : ∀ c ∈ t.reverse, c.isBlank = false := fun c hc => h c (List.mem_reverse.mp hc)
  rw [strip, stripStart, hkept h, stripEnd, hkept hreverse, List.reverse_reverse]

theorem strip_of_numeral {t : Text} {n : Numeral} (h : Numeral.ofText? t = some n) : t.strip = t :=
  strip_of_not_blank fun c hc => CodePoint.not_isBlank_of_isNumeric (Numeral.isNumeric_of_ofText? h c hc)

/-- A numeral with nothing around it. -/
theorem number?_of_numeral {t : Text} {n : Numeral} (h : Numeral.ofText? t = some n) : t.number? = some n.value := by
  rw [number?, strip_of_numeral h, h]
  rfl

end Text

namespace Binary64

/-! The plain notation -/

theorem natAbs_signedUnits (negative : Bool) (units : Nat) : (signedUnits negative units).natAbs = units := by
  cases negative <;> simp [signedUnits]

theorem equals_iff {x y : Binary64} : x.equals y ↔ ∃ place, x.extent = some place ∧ y.extent = some place := by
  rw [equals, relate]
  constructor
  · intro h
    split at h
    · rename_i a b ha hb
      exact ⟨a, ha, by rw [hb, eq_of_beq h]⟩
    · cases h
  · rintro ⟨place, hx, hy⟩
    rw [hx, hy]
    exact beq_self_eq_true place

theorem equals_trans {x y z : Binary64} (hxy : x.equals y) (hyz : y.equals z) : x.equals z := by
  obtain ⟨place, hx, hy⟩ := equals_iff.mp hxy
  obtain ⟨place', hy', hz⟩ := equals_iff.mp hyz
  obtain rfl : place = place' := Option.some.inj (hy.symm.trans hy')
  exact equals_iff.mpr ⟨place, hx, hz⟩

theorem equals_symm {x y : Binary64} (h : x.equals y) : y.equals x := by
  obtain ⟨place, hx, hy⟩ := equals_iff.mp h
  exact equals_iff.mpr ⟨place, hy, hx⟩

theorem equals_self {x : Binary64} (h : x.isFinite) : x.equals x := by
  cases x with
  | nan => cases h
  | infinite negative => cases h
  | finite negative units hfits => exact equals_iff.mpr ⟨_, rfl, rfl⟩

theorem isFinite_of_equals {x y : Binary64} (h : y.equals x) (hx : x.isFinite) : y.isFinite := by
  obtain ⟨place, hy, hplace⟩ := equals_iff.mp h
  cases x with
  | nan => cases hx
  | infinite => cases hx
  | finite negative units hfits =>
    cases y with
    | nan => cases hy
    | finite => rfl
    | infinite negative' =>
      have heq : signedUnits negative' overflowUnits = signedUnits negative units :=
        Option.some.inj (hy.trans hplace.symm)
      have habs := congrArg Int.natAbs heq
      rw [natAbs_signedUnits, natAbs_signedUnits] at habs
      exact absurd hfits.1 (Nat.not_lt.mpr habs.le)

/-- A number in positional notation: digits, and perhaps a point, but no exponent. -/
def Positional (x : Binary64) (t : Text) : Prop :=
  ∃ (negative : Bool) (s : Spelling), s.Readable ∧ s.exponent = none ∧ t = signText negative ++ s.text ∧
    (s.numeral negative).value.equals x

/-- A number in scientific notation: not zero, and read from a decimal far from one. -/
structure Scientific (x : Binary64) (t : Text) (negative : Bool) (d : Decimal) : Prop where
  text : t = signText negative ++ d.scientificSpelling.text
  nonzero : ∃ units hfits, units ≠ 0 ∧ x = .finite negative units hfits
  digits : 0 < d.digits
  magnitude : d.magnitude < -4 ∨ 16 ≤ d.magnitude
  read : d.toBinary64 negative = x

/-- A whole number is spelled by its digits. -/
theorem exists_spelling (n : Int) : ∃ s : Spelling, s.Readable ∧ s.exponent = none ∧
    Text.ofString (toString n) = signText (n < 0) ++ s.text ∧
    ∀ negative, (s.numeral negative).value = Decimal.toBinary64 negative ⟨n.natAbs, 0⟩ := by
  let s : Spelling := ⟨decimalDigits n.natAbs, [], none⟩
  have hs : s.Readable :=
    { nonempty := List.ne_nil_of_length_pos (length_decimalDigits_pos _)
      whole := lt_ten_of_mem_decimalDigits _
      fraction := nofun
      exponent := nofun }
  have htext : s.text = digitText s.whole := by
    rw [Spelling.text]
    exact List.append_nil _
  refine ⟨s, hs, rfl, by rw [htext, ofString_toString], fun negative => ?_⟩
  have hdecimal : (s.numeral negative).decimal = ⟨n.natAbs, 0⟩ := by
    simp only [s, Spelling.numeral, Numeral.decimal, List.append_nil, ofDigits_decimalDigits]
    rfl
  rw [Numeral.value, hdecimal]
  rfl

/-- The digits of a whole number are a numeral for it. -/
theorem numeral_toString (n : Int) : ∃ m, Numeral.ofText? (Text.ofString (toString n)) = some m ∧
    m.value = Decimal.toBinary64 (n < 0) ⟨n.natAbs, 0⟩ := by
  obtain ⟨s, hs, -, htext, hvalue⟩ := exists_spelling n
  exact ⟨s.numeral (n < 0), by rw [htext, s.ofText?_text hs], hvalue _⟩

theorem positional_whole {negative : Bool} {n units : Nat} (hn : n * unitsPerOne = units) (hfits : Fits units) :
    Positional (.finite negative units hfits) (Text.ofString (toString (signedUnits negative n))) := by
  obtain ⟨s, hs, hexponent, htext, hvalue⟩ := exists_spelling (signedUnits negative n)
  refine ⟨signedUnits negative n < 0, s, hs, hexponent, htext, ?_⟩
  rw [hvalue, natAbs_signedUnits]
  by_cases hzero : n = 0
  · -- the sign of a zero is not written
    rw [hzero, Nat.zero_mul] at hn
    subst hzero hn
    rw [Decimal.toBinary64, if_pos rfl]
    cases negative <;> exact equals_iff.mpr ⟨0, rfl, rfl⟩
  · have hsign : decide (signedUnits negative n < 0) = negative := by
      cases negative with
      | false => exact decide_eq_false (Int.not_lt.mpr (Int.natCast_nonneg n))
      | true => exact decide_eq_true (Int.neg_neg_of_pos (Int.natCast_pos.mpr (Nat.pos_of_ne_zero hzero)))
    have hunits : Decimal.units ⟨n, 0⟩ = units := by
      rw [Decimal.units, Decimal.ratio_of_nonneg (Int.le_refl 0), Int.toNat_zero, Nat.pow_zero, Nat.mul_one, hn]
      exact roundUnits_of_fits hfits
    have hne : units ≠ 0 := hn ▸ Nat.mul_ne_zero hzero Decimal.unitsPerOne_pos.ne'
    rw [Decimal.toBinary64_of_units hunits hne hfits, hsign]
    exact equals_self rfl

/-- The plain notation of a finite number is positional or scientific. -/
theorem format_cases {x : Binary64} (h : x.isFinite) :
    Positional x (Text.ofString x.format) ∨
      ∃ negative d, Scientific x (Text.ofString x.format) negative d := by
  cases x with
  | nan => cases h
  | infinite negative => cases h
  | finite negative units hfits =>
    rw [format]
    split
    · rename_i hwhole
      have hdvd : unitsPerOne ∣ units := Nat.dvd_of_mod_eq_zero (of_decide_eq_true hwhole.1)
      exact .inl (positional_whole (Nat.div_mul_cancel hdvd) hfits)
    · rename_i hwhole
      have hne : units ≠ 0 := by
        rintro rfl
        have hzero : (finite negative 0 hfits).isWhole = true := by
          rw [isWhole, Nat.zero_mod]
          exact decide_eq_true rfl
        have hlt : 0 < Nat.pow 10 21 * unitsPerOne := by decide +kernel
        exact hwhole (And.intro hzero hlt)
      have hread := Decimal.toBinary64_shortest hne hfits negative
      have hdigits : 0 < (Decimal.shortest units).digits := Nat.pos_of_ne_zero fun hzero => by
        rw [Decimal.toBinary64, if_pos hzero] at hread
        exact hne (Binary64.finite.inj hread).2.symm
      rw [render, if_neg hne, ofString_append, ofString_signString, Decimal.render]
      split
      · obtain ⟨s, hs, htext, hexponent, -, hvalue⟩ := Decimal.spelledBy_positional hdigits
        refine .inl ⟨negative, s, hs.readable, hexponent, by rw [htext], ?_⟩
        rw [hvalue, hread]
        exact equals_self rfl
      · rename_i hrange
        refine .inr ⟨negative, Decimal.shortest units, ?_, ⟨units, hfits, hne, rfl⟩, hdigits, by omega, hread⟩
        rw [Decimal.ofString_scientific hdigits]

/-- The plain notation of a finite number is a numeral for a number at the same place. -/
theorem numeral_format {x : Binary64} (h : x.isFinite) :
    ∃ n, Numeral.ofText? (Text.ofString x.format) = some n ∧ n.value.equals x := by
  rcases format_cases h with ⟨negative, s, hs, -, htext, hvalue⟩ | ⟨negative, d, hd⟩
  · rw [htext]
    exact ⟨_, s.ofText?_text hs negative, hvalue⟩
  · have hs := Decimal.regular_scientificSpelling hd.digits
    rw [hd.text]
    refine ⟨_, Spelling.ofText?_text hs.readable negative, ?_⟩
    rw [Decimal.value_scientificSpelling, hd.read]
    exact equals_self h

theorem number?_format {x : Binary64} (h : x.isFinite) :
    ∃ y, (Text.ofString x.format).number? = some y ∧ y.equals x := by
  obtain ⟨n, hn, hvalue⟩ := numeral_format h
  exact ⟨_, Text.number?_of_numeral hn, hvalue⟩

end Binary64

end SigilScript
