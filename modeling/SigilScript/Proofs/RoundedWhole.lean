import SigilScript.Proofs.FiniteResults
import SigilScript.Proofs.StoredNumber
import SigilScript.Proofs.TypeAnswers

/-!
Rounding of whole numbers. A number is rounded by adding one half and leaving out the fraction, and the sum is itself
rounded. Up to `2 ^ 52` there is a bit for the half, and a whole number is left alone. From there to `2 ^ 53` there is
none: the sum lies between two whole numbers and goes to the even one, so that an odd number becomes the next one.
-/
namespace SigilScript

/-! Sums with a half, in units -/

/-- A magnitude with `a` bits more than fit loses them. -/
theorem roundUnits_of_bounds {unit m k a : Nat} (hunit : unit = Nat.pow 2 m) (hlow : 2 ^ (a + 52) ≤ k)
    (hhigh : k < 2 ^ (a + 53)) : roundUnits (k * unit) 1 = 2 ^ a * unit * roundHalfEven k (2 ^ a) := by
  have hpos : 0 < unit := hunit ▸ Nat.pow_pos Nat.two_pos
  have hne : k * unit ≠ 0 := Nat.mul_ne_zero (Nat.ne_of_gt (Nat.lt_of_lt_of_le (Nat.pow_pos Nat.two_pos) hlow)) hpos.ne'
  have hpow (e : Nat) : 2 ^ (e + m) = 2 ^ e * unit := by
    rw [hunit]
    exact Nat.pow_add 2 e m
  have hlog : (k * unit).log2 = a + 52 + m := by
    rw [Nat.log2_eq_iff hne, Nat.add_right_comm _ m 1, hpow, hpow]
    exact ⟨Nat.mul_le_mul_right _ hlow, Nat.mul_lt_mul_of_pos_right hhigh hpos⟩
  have hscale : Nat.pow 2 (scaleOf (k * unit)) = 2 ^ a * unit := by
    rw [scaleOf, hlog, hunit, mul_pow_two]
    congr 1
    omega
  have hdigits : roundHalfEven (k * unit) (2 ^ a * unit) = roundHalfEven k (2 ^ a) := by
    rw [Nat.mul_comm k, Nat.mul_comm (2 ^ a), roundHalfEven_scale hpos]
  simp only [roundUnits, Nat.div_one, Nat.one_mul, hscale, hdigits]

/-- An odd number of halves for which there is no bit goes to the even one of its neighbours. -/
theorem roundUnits_odd_halves {unit m j : Nat} (hunit : unit = Nat.pow 2 m) (hlow : 2 ^ 52 ≤ j) (hhigh : j ≤ 2 ^ 53) :
    roundUnits ((2 * j + 1) * unit) 1 = (j + j % 2) * (2 * unit) := by
  rcases Nat.lt_or_eq_of_le hhigh with hlt | rfl
  · have heven : roundHalfEven (2 * j + 1) (2 ^ 1) = j + j % 2 := by
      have hdiv : (2 * j + 1) / 2 = j := by omega
      have hmod : (2 * j + 1) % 2 = 1 := by omega
      simp only [roundHalfEven, Nat.pow_one, hdiv, hmod]
      rfl
    rw [roundUnits_of_bounds (a := 1) hunit (by omega) (by omega), heven, Nat.pow_one, Nat.mul_comm]
  · -- one bit more is lost here, and the neighbours are further apart
    have heven : roundHalfEven (2 * 2 ^ 53 + 1) (2 ^ 2) = 2 ^ 52 := by decide
    rw [roundUnits_of_bounds (a := 2) hunit (by omega) (by omega), heven]
    omega

/-- Below `2 ^ 53` halves there is a bit for each. -/
theorem roundUnits_halves_of_lt {unit m k : Nat} (hunit : unit = Nat.pow 2 m) (hone : unitsPerOne = 2 * unit)
    (hk : k < 2 ^ 53) : roundUnits (k * unit) 1 = k * unit := by
  have hpos : 0 < unit := hunit ▸ Nat.pow_pos Nat.two_pos
  have hlt : k * unit < unit * 2 ^ 53 := by
    rw [Nat.mul_comm]
    exact Nat.mul_lt_mul_of_pos_left hk hpos
  have hbound : unit * 2 ^ 53 ≤ 2 ^ 53 * unitsPerOne := by
    rw [hone, Nat.mul_comm]
    exact Nat.mul_le_mul_left _ (by omega)
  have hoverflow : k * unit < overflowUnits := hlt.trans_le (hbound.trans (mul_unitsPerOne_lt (by omega)).le)
  exact roundUnits_of_fits (fits_of_dvd hunit (Nat.dvd_mul_left _ _) hlt hoverflow)

namespace Binary64

theorem floor?_of_extent {x : Binary64} (hx : x.isFinite) {place : Int} (h : x.extent = some place) :
    x.floor? = some (place / unitsPerOne) := by
  cases x with
  | nan => cases hx
  | infinite negative => cases hx
  | finite negative units fits =>
    have hplace : signedUnits negative units = place := Option.some.inj h
    rw [floor?, hplace, Int.fdiv_eq_ediv_of_nonneg _ (Int.natCast_nonneg _)]

theorem signedUnits_natAbs_halves (n : Int) : signedUnits (n < 0) (2 * n + 1).natAbs = 2 * n + 1 := by
  have hsign : decide (n < 0) = decide (2 * n + 1 < 0) := decide_eq_decide.mpr (by omega)
  rw [hsign, signedUnits_natAbs]

/-- Different whole numbers are written differently. -/
theorem ofString_toString_inj {a b : Int} (ha : a.natAbs ≤ 2 ^ 53) (hb : b.natAbs ≤ 2 ^ 53) :
    Text.ofString (toString a) = Text.ofString (toString b) ↔ a = b := by
  constructor
  · intro htext
    have hnumber : some (ofInt a) = some (ofInt b) := by
      rw [← number?_toString ha, htext, number?_toString hb]
    have hwhole : some a = some b := by
      rw [← truncate?_ofInt ha, Option.some.inj hnumber, truncate?_ofInt hb]
    exact Option.some.inj hwhole
  · rintro rfl
    rfl

end Binary64

namespace Directive

theorem exists_half : ∃ m unit hfits,
    unit = Nat.pow 2 m ∧ unitsPerOne = 2 * unit ∧ half = .finite false unit hfits :=
  ⟨1073, Nat.pow 2 1073, by decide +kernel, rfl, by decide +kernel, by decide +kernel⟩

/-- What a whole number is rounded to. -/
def roundedWhole (n : Int) : Int := if 2 ∣ n ∨ n.natAbs ≤ 2 ^ 52 then n else n + 1

section Whole

variable {n : Int} (h : n.natAbs ≤ 2 ^ 53)

include h

theorem natAbs_roundedWhole_le : (roundedWhole n).natAbs ≤ 2 ^ 53 := by
  rw [roundedWhole]
  split <;> omega

/-- The whole part of the rounded sum. -/
theorem roundUnits_halves_ediv {unit m : Nat} (hunit : unit = Nat.pow 2 m) (hone : unitsPerOne = 2 * unit) :
    Binary64.signedUnits (n < 0) (roundUnits ((2 * n + 1).natAbs * unit) 1) / unitsPerOne = roundedWhole n := by
  have hpos : 0 < unit := hunit ▸ Nat.pow_pos Nat.two_pos
  rcases Nat.lt_or_ge (2 * n + 1).natAbs (2 ^ 53) with hsmall | hlarge
  · have hcast : (unitsPerOne : Int) = 2 * unit := by rw [hone, Nat.cast_mul, Nat.cast_two]
    rw [roundUnits_halves_of_lt hunit hone hsmall, Binary64.signedUnits_mul, Binary64.signedUnits_natAbs_halves, hcast,
      Int.mul_ediv_mul_of_pos_left _ _ (by omega), roundedWhole, if_pos (by omega)]
    omega
  · obtain ⟨j, hj⟩ : ∃ j, (2 * n + 1).natAbs = 2 * j + 1 := ⟨(2 * n + 1).natAbs / 2, by omega⟩
    rw [hj, roundUnits_odd_halves hunit (by omega) (by omega), ← hone, Binary64.signedUnits_mul,
      Int.mul_ediv_cancel _ Binary64.unitsPerOne_cast_ne_zero, roundedWhole, Binary64.signedUnits]
    simp only [decide_eq_true_eq]
    split <;> split <;> omega

/-- The sum with a half is exact, or a whole number. -/
theorem floor?_add_half : ((Binary64.ofInt n).add half).floor? = some (roundedWhole n) := by
  obtain ⟨m, unit, hfits, hunit, hone, hhalf⟩ := exists_half
  obtain ⟨sum, hsum⟩ : ∃ sum : Int, sum = (2 * n + 1) * unit := ⟨_, rfl⟩
  have hparts : sum = Binary64.signedUnits (n < 0) (n.natAbs * unitsPerOne) + Binary64.signedUnits false unit := by
    rw [Binary64.signedUnits_mul, Binary64.signedUnits_natAbs, hone, hsum]
    simp only [Binary64.signedUnits, Bool.false_eq_true, if_false]
    push_cast
    ring
  have habs : sum.natAbs = (2 * n + 1).natAbs * unit := by rw [hsum, Int.natAbs_mul, Int.natAbs_natCast]
  have hsign : decide (sum < 0) = decide (n < 0) := by
    have hpos : 0 < unit := hunit ▸ Nat.pow_pos Nat.two_pos
    rw [hsum, decide_eq_decide]
    constructor
    · intro hneg
      by_contra hn
      have hnonneg : 0 ≤ (2 * n + 1) * (unit : Int) := Int.mul_nonneg (by omega) (by omega)
      omega
    · intro hn
      exact Int.mul_neg_of_neg_of_pos (by omega) (by omega)
  have hle : sum.natAbs ≤ 2 ^ 54 * unitsPerOne := by
    rw [habs, hone, ← Nat.mul_assoc]
    exact Nat.mul_le_mul_right _ (by omega)
  obtain ⟨hfinite, hextent⟩ := Binary64.add_finite (fits_whole h) hfits hparts (by omega) hle
  rw [Binary64.ofInt_whole h, hhalf, Binary64.floor?_of_extent hfinite hextent, hsign, habs,
    roundUnits_halves_ediv h hunit hone]

end Whole

/-- A finite number with a whole part is rounded to this part, which is written if it is finite. -/
theorem runFrom_round {d : Dispatcher} {args t : Text} {c c' : Context} {x : Binary64} {m : Int}
    (hargument : (d.argument args).runFrom c = (.ok t, c')) (hnumber : t.number? = some x)
    (hfloor : (x.add half).floor? = some m) (hfinite : (Binary64.ofInt m).isFinite) :
    (round d args).runFrom c = (.ok (.text (Binary64.ofInt m).format), c') := by
  rw [round, Exec.runFrom_bind, hargument, Ending.andThen_ok, hnumber]
  dsimp only
  rw [hfloor]
  rcases settles_finiteOrZero "ROUND" (.ofInt m) c' with ⟨-, hrun⟩ | ⟨hinfinite, -⟩
  · exact hrun
  · rw [hfinite] at hinfinite
    cases hinfinite

/-- However a whole number up to `2 ^ 53` comes to be rounded, the answer is a whole number and nothing is reported. -/
theorem Question.answer_round {n : Int} (h : n.natAbs ≤ 2 ^ 53) (q : Question (toString n)) {answer : Text} :
    q.Answer "round" answer ↔ Text.ofString (toString (roundedWhole n)) = answer := by
  have hhandler : table.lookup "round" = some round := rfl
  have hrounded := natAbs_roundedWhole_le h
  rw [q.answer_iff_run hhandler, runFrom_round q.value (Binary64.number?_toString h) (floor?_add_half h)
    (Binary64.isFinite_ofInt hrounded), Binary64.format_ofInt hrounded, reply_eq_iff]

/-- Rounding leaves a whole number up to `2 ^ 53` alone if it is even or at most `2 ^ 52`, and makes any other one
the next. In no case is anything reported. -/
theorem round_keeps_whole_iff {n : Int} (h : n.natAbs ≤ 2 ^ 53) :
    (∀ (d : Dispatcher) (c : Context),
      (d.argument (toString n)).runFrom c = (.ok (Text.ofString (toString n)), c)) ∧
    ∀ q : Question (toString n),
      (q.Answer "round" (toString n) ↔ 2 ∣ n ∨ n.natAbs ≤ 2 ^ 52) ∧
        (¬(2 ∣ n ∨ n.natAbs ≤ 2 ^ 52) → q.Answer "round" (toString (n + 1))) := by
  refine ⟨fun d c => ?_, fun q => ⟨?_, fun hodd => ?_⟩⟩
  · obtain ⟨m, hnumeral, -⟩ := Binary64.numeral_toString n
    exact d.runFrom_argument_numeral hnumeral c
  · rw [q.answer_round h, Binary64.ofString_toString_inj (natAbs_roundedWhole_le h) h, roundedWhole]
    split
    · exact iff_of_true rfl ‹_›
    · exact iff_of_false (by omega) ‹_›
  · rw [q.answer_round h, roundedWhole, if_neg hodd]

/-- Written out, the largest of these numbers is kept, and the odd one next to the smallest is not. -/
theorem round_keeps_whole_iff_ends :
    let last : Int := 9007199254740992
    let odd : Int := -9007199254740991
    let c : Context :=
      .start false (.empty false) ⟨⟨⟨false, []⟩, []⟩, [], fun _ low _ => low, 0, .one, ⟨2024, 1, 2, 3, 4, 5⟩⟩
    (last.natAbs ≤ 2 ^ 53 ∧ ∃ q : Question (toString last), q.args = toString last ∧ q.before = c ∧ q.after = c ∧
      q.Answer "round" (toString last)) ∧
    odd.natAbs ≤ 2 ^ 53 ∧ ∃ q : Question (toString odd), q.args = toString odd ∧ q.before = c ∧ q.after = c ∧
      ¬q.Answer "round" (toString odd) ∧ q.Answer "round" "-9007199254740990" := by
  intro last odd c
  have hlast : last.natAbs ≤ 2 ^ 53 := by decide
  have hodd : odd.natAbs ≤ 2 ^ 53 := by decide
  have hchanged : ¬(2 ∣ odd ∨ odd.natAbs ≤ 2 ^ 52) := by decide
  let d := (install .empty).dispatcher
  refine ⟨⟨hlast, ?_⟩, hodd, ?_⟩
  · obtain ⟨hargument, hround⟩ := round_keeps_whole_iff hlast
    let q : Question (toString last) := ⟨d, toString last, c, c, hargument d c⟩
    exact ⟨q, rfl, rfl, rfl, (hround q).1.mpr (by decide)⟩
  · obtain ⟨hargument, hround⟩ := round_keeps_whole_iff hodd
    let q : Question (toString odd) := ⟨d, toString odd, c, c, hargument d c⟩
    exact ⟨q, rfl, rfl, rfl, mt (hround q).1.mp hchanged, (hround q).2 hchanged⟩

/-- The first whole number that rounding changes. -/
theorem round_first_changed :
    let n : Int := 4503599627370497
    n.natAbs ≤ 2 ^ 53 ∧ Nonempty (Question (toString n)) ∧ ∀ q : Question (toString n),
      ¬q.Answer "round" (toString n) ∧ q.Answer "round" "4503599627370498" := by
  intro n
  have h : n.natAbs ≤ 2 ^ 53 := by decide
  have hrounded : roundedWhole n = 4503599627370498 := by decide
  refine ⟨h, Question.nonempty _, fun q => ?_⟩
  rw [q.answer_round h, q.answer_round h, hrounded, Binary64.ofString_toString_inj (by decide) h]
  exact ⟨by decide, rfl⟩

end Directive

end SigilScript
