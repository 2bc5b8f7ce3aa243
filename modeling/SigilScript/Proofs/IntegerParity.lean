import SigilScript.Proofs.StoredNumber
import SigilScript.Proofs.TypeAnswers

/-!
The parity of integer texts. An integer text is recognised by its digits, of which there may be any number; but its
parity is that of the number nearest to it. Below `2 ^ 53` this is the integer. From there on the lowest bit that is
kept stands for two or more, and every integer counts as even.
-/
namespace SigilScript

/-- From `2 ^ 53` on, what a whole number is rounded to is even. -/
theorem two_mul_unitsPerOne_dvd_roundUnits {n : Nat} (h : 2 ^ 53 ≤ n) (hfits : Fits (roundUnits (n * unitsPerOne) 1)) :
    2 * unitsPerOne ∣ roundUnits (n * unitsPerOne) 1 := by
  obtain ⟨k, -, hk⟩ := exists_unitsPerOne_eq_pow
  obtain ⟨bit, hbit⟩ : ∃ bit, bit = 2 * unitsPerOne := ⟨_, rfl⟩
  have hpow : bit = Nat.pow 2 (1 + k) := by rw [hbit, hk, ← mul_pow_two, Nat.pow_one]
  have hle : bit * 2 ^ 52 ≤ roundUnits (n * unitsPerOne) 1 := by
    rw [hbit, Nat.mul_right_comm, ← Nat.pow_succ']
    apply le_roundUnits
    rw [Nat.div_one]
    exact Nat.mul_le_mul_right _ h
  rw [← hbit]
  exact dvd_of_fits hpow hfits hle

namespace Binary64

theorem isFinite_ofInt_iff {n : Int} : (ofInt n).isFinite ↔ Fits (roundUnits (n.natAbs * unitsPerOne) 1) := by
  rw [ofInt, ofRatio, ofUnits]
  split
  · rename_i hfits
    exact iff_of_true rfl hfits
  · rename_i hfits
    exact iff_of_false Bool.false_ne_true hfits

end Binary64

namespace Text

theorem parity?_of_dvd {t : Text} {negative : Bool} {units k : Nat} {hfits : Fits units}
    (h : t.number? = some (.finite negative units hfits)) (hunits : units = k * unitsPerOne) :
    t.parity? = some (Binary64.signedUnits negative k % 2) := by
  rw [parity?, h]
  dsimp only
  rw [if_pos (Binary64.isWhole_of_eq_mul hunits), Binary64.truncate?, hunits, Nat.mul_div_cancel _ Decimal.unitsPerOne_pos, Option.map_some]

/-- The parity of an integer text: its own, as long as it is below `2 ^ 53`. -/
theorem parity?_of_integer {t : Text} {m : IntegerNumeral} (hm : IntegerNumeral.ofText? t = some m)
    (hfinite : (Binary64.ofInt m.value).isFinite) :
    t.parity? = some (if m.value.natAbs < 2 ^ 53 then m.value % 2 else 0) := by
  have hvalue : m.value = Binary64.signedUnits m.negative (ofDigits m.digits) := rfl
  have habs : m.value.natAbs = ofDigits m.digits := by rw [hvalue, Binary64.natAbs_signedUnits]
  have hfits := Binary64.isFinite_ofInt_iff.mp hfinite
  rw [habs] at hfits ⊢
  have hnumber : t.number? = some (.finite m.negative (roundUnits (ofDigits m.digits * unitsPerOne) 1) hfits) := by
    have hdecimal : Numeral.decimal ⟨m.negative, m.digits, [], 0⟩ = ⟨ofDigits m.digits, 0⟩ := by
      rw [Numeral.decimal, List.append_nil]
      rfl
    rw [number?, numeral_of_integer hm, Option.map_some, Numeral.value, hdecimal, Decimal.toBinary64_integer _ hfits]
  split
  · rename_i hsmall
    rw [parity?_of_dvd hnumber (roundUnits_of_fits (fits_whole hsmall.le)), hvalue]
  · rename_i hlarge
    obtain ⟨k, hk⟩ := two_mul_unitsPerOne_dvd_roundUnits (Nat.le_of_not_lt hlarge) hfits
    have hunits : roundUnits (ofDigits m.digits * unitsPerOne) 1 = k * 2 * unitsPerOne := by
      rw [hk, Nat.mul_comm, Nat.mul_assoc]
    rw [parity?_of_dvd hnumber hunits, Binary64.signedUnits_mul, Nat.cast_two, Int.mul_emod_left]

end Text

namespace Directive

/-- An integer text is odd if it is an odd integer below `2 ^ 53`, and even if it is an even integer or one above
`2 ^ 53`, of either sign, as long as the number nearest to it is finite. -/
theorem parity_of_integer {t : Text} {m : IntegerNumeral} (hm : IntegerNumeral.ofText? t = some m)
    (hfinite : (Binary64.ofInt m.value).isFinite) :
    Nonempty (Question t) ∧ ∀ q : Question t,
      (q.Holds "isOdd" ↔ ¬2 ∣ m.value ∧ m.value.natAbs < 2 ^ 53) ∧
        (q.Holds "isEven" ↔ 2 ∣ m.value ∨ 2 ^ 53 < m.value.natAbs) := by
  refine ⟨Question.nonempty t, fun q => ?_⟩
  have hodd : q.Holds "isOdd" ↔ t.isOdd = true := q.holds_predicate rfl
  have heven : q.Holds "isEven" ↔ t.isEven = true := q.holds_predicate rfl
  rw [hodd, heven, Text.isOdd, Text.isEven, Text.parity?_of_integer hm hfinite, decide_eq_true_eq, decide_eq_true_eq,
    Option.some.injEq, Option.some.injEq]
  split <;> omega

/-- A sign, blanks and leading zeros do not matter; the odd number after `2 ^ 65` counts as even. -/
theorem parity_of_integer_spellings :
    let t : Text := " -0009007199254740991 "
    let m : IntegerNumeral := ⟨true, [0, 0, 0, 9, 0, 0, 7, 1, 9, 9, 2, 5, 4, 7, 4, 0, 9, 9, 1]⟩
    let t' : Text := "36893488147419103233"
    let m' : IntegerNumeral := ⟨false, [3, 6, 8, 9, 3, 4, 8, 8, 1, 4, 7, 4, 1, 9, 1, 0, 3, 2, 3, 3]⟩
    (IntegerNumeral.ofText? t = some m ∧ (Binary64.ofInt m.value).isFinite ∧
      ∃ q : Question t, q.Holds "isOdd" ∧ ¬q.Holds "isEven") ∧
    IntegerNumeral.ofText? t' = some m' ∧ (Binary64.ofInt m'.value).isFinite ∧
      ∃ q : Question t', ¬q.Holds "isOdd" ∧ q.Holds "isEven" := by
  intro t m t' m'
  have hm : IntegerNumeral.ofText? t = some m ∧ (Binary64.ofInt m.value).isFinite := by decide +kernel
  have hm' : IntegerNumeral.ofText? t' = some m' ∧ (Binary64.ofInt m'.value).isFinite := by decide +kernel
  obtain ⟨⟨q⟩, hq⟩ := parity_of_integer hm.1 hm.2
  obtain ⟨⟨q'⟩, hq'⟩ := parity_of_integer hm'.1 hm'.2
  refine ⟨⟨hm.1, hm.2, q, ?_⟩, hm'.1, hm'.2, q', ?_⟩
  · rw [(hq q).1, (hq q).2]
    decide
  · rw [(hq' q').1, (hq' q').2]
    decide

/-- The first odd integer that counts as even, although it counts as an integer too. -/
theorem parity_first_changed :
    let t : Text := "9007199254740993"
    let m : IntegerNumeral := ⟨false, [9, 0, 0, 7, 1, 9, 9, 2, 5, 4, 7, 4, 0, 9, 9, 3]⟩
    IntegerNumeral.ofText? t = some m ∧ (Binary64.ofInt m.value).isFinite ∧ ¬2 ∣ m.value ∧ Nonempty (Question t) ∧
      ∀ q : Question t, q.Holds "isInt" ∧ ¬q.Holds "isOdd" ∧ q.Holds "isEven" := by
  intro t m
  have hm : IntegerNumeral.ofText? t = some m ∧ (Binary64.ofInt m.value).isFinite ∧ ¬2 ∣ m.value := by decide +kernel
  have htests : t.isInteger = true ∧ t.isOdd = false ∧ t.isEven = true := by decide +kernel
  obtain ⟨hinteger, hodd, heven⟩ := htests
  refine ⟨hm.1, hm.2.1, hm.2.2, Question.nonempty t, fun q => ⟨(q.holds_predicate rfl).mpr hinteger, ?_,
    (q.holds_predicate rfl).mpr heven⟩⟩
  intro hholds
  have hyes : t.isOdd = true := (q.holds_predicate rfl).mp hholds
  rw [hodd] at hyes
  cases hyes

end Directive

end SigilScript
