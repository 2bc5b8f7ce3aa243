import SigilScript.Proofs.AssignedNumber
import SigilScript.Proofs.LongestName
import SigilScript.Proofs.NumericName
import SigilScript.Proofs.RoundingError

/-!
Numbers that are kept as texts. A variable holds a text, so that a number which is stored is written first and read
again when it is needed. The plain notation has two forms, with the digits of a whole number or with the fewest digits
that read back, and the reader has a grammar of its own; a number comes back through them as one at the same place.
Whole numbers up to `2 ^ 53` fit as they are, and are written and read as such.
-/
namespace SigilScript

namespace Binary64

theorem signedUnits_natAbs (n : Int) : signedUnits (n < 0) n.natAbs = n := by
  simp only [signedUnits, decide_eq_true_eq]
  split <;> omega

theorem signedUnits_mul (negative : Bool) (units k : Nat) :
    signedUnits negative (units * k) = signedUnits negative units * k := by
  cases negative <;> simp [signedUnits]

theorem unitsPerOne_cast_ne_zero : (unitsPerOne : Int) ≠ 0 := Int.natCast_ne_zero.mpr Decimal.unitsPerOne_pos.ne'

theorem isWhole_of_eq_mul {negative : Bool} {units k : Nat} {hfits : Fits units} (h : units = k * unitsPerOne) :
    isWhole (.finite negative units hfits) := by
  refine decide_eq_true ?_
  rw [h, Nat.mul_mod_left]

section Whole

variable {n : Int} (h : n.natAbs ≤ 2 ^ 53)

include h

theorem ofInt_whole : ofInt n = .finite (n < 0) (n.natAbs * unitsPerOne) (fits_whole h) := by
  rw [ofInt, ofRatio, ofUnits, dif_pos (fits_roundUnits_whole (by omega) h), finite.injEq]
  exact ⟨rfl, roundUnits_of_fits (fits_whole h)⟩

theorem isFinite_ofInt : (ofInt n).isFinite := by
  rw [ofInt_whole h]
  rfl

/-- A whole number stands at its place on the line. -/
theorem extent_ofInt : (ofInt n).extent = some (n * unitsPerOne) := by
  rw [ofInt_whole h, extent, signedUnits_mul, signedUnits_natAbs]

theorem truncate?_ofInt : (ofInt n).truncate? = some n := by
  rw [ofInt_whole h, truncate?, Nat.mul_div_cancel _ Decimal.unitsPerOne_pos, signedUnits_natAbs]

/-- What stands at the place of a whole number is written with its digits. Of the two zeros, neither has a sign. -/
theorem format_of_extent {x : Binary64} (hx : x.isFinite) (hextent : x.extent = some (n * unitsPerOne)) :
    x.format = toString n := by
  cases x with
  | nan => cases hx
  | infinite negative => cases hx
  | finite negative units fits =>
    have hvalue : signedUnits negative units = n * unitsPerOne := Option.some.inj hextent
    have hunits : units = n.natAbs * unitsPerOne := by
      rw [← natAbs_signedUnits negative units, hvalue, Int.natAbs_mul, Int.natAbs_natCast]
    have hsign : signedUnits negative n.natAbs = n := by
      rw [hunits, signedUnits_mul] at hvalue
      exact Int.eq_of_mul_eq_mul_right unitsPerOne_cast_ne_zero hvalue
    have hlt : units < Nat.pow 10 21 * unitsPerOne := by
      rw [hunits]
      refine Nat.mul_lt_mul_of_pos_right (h.trans_lt ?_) Decimal.unitsPerOne_pos
      decide
    rw [format, if_pos ⟨isWhole_of_eq_mul hunits, hlt⟩, hunits, Nat.mul_div_cancel _ Decimal.unitsPerOne_pos, hsign]

theorem format_ofInt : (ofInt n).format = toString n := format_of_extent h (isFinite_ofInt h) (extent_ofInt h)

/-- The digits of a whole number are read as this number. -/
theorem number?_toString : (Text.ofString (toString n)).number? = some (ofInt n) := by
  obtain ⟨m, hnumeral, hvalue⟩ := numeral_toString n
  rw [Text.number?_of_numeral hnumeral, hvalue, Decimal.toBinary64_whole h, ofInt_whole h]

end Whole

end Binary64

/-! Variables -/

theorem Dispatcher.runFrom_argument_variable (d : Dispatcher) {name value : Text} (hname : name.isName) {c : Context}
    (h : c.store.lookup name = some value) : (d.argument (variableMark :: name)).runFrom c = (.ok value, c) := by
  have hplain : Argument.IsPlain (variableMark :: name) :=
    List.forall_mem_cons.mpr ⟨by decide, Argument.isPlain_of_isName hname⟩
  have hstrip : Text.strip (variableMark :: name) = variableMark :: name := by
    refine Text.strip_of_not_blank (List.forall_mem_cons.mpr ⟨by decide, fun c hc => ?_⟩)
    exact CodePoint.not_isBlank_of_isIdentifierPart (isIdentifierPart_of_isName hname c hc)
  rw [d.runFrom_argument_plain hplain, hstrip, Substitution.substitute_variable h]

/-- Written and read again, the first number is the second one: as a text, and in a variable, where an argument and a
condition see it. -/
structure ReadsBack (x y : Binary64) : Prop where
  text : (Text.ofString x.format).number? = some y
  stored : ∀ (d : Dispatcher) (c : Context) (name : Text), name.isName → ∃ c' t,
    (Exec.setVariable name x.format).runFrom c = (.ok (), c') ∧
      (d.argument (variableMark :: name)).runFrom c' = (.ok t, c') ∧ t.number? = some y ∧
      (Expr.bindingsOf c'.store).lookup name = some (.number y)

theorem readsBack_of_number? {x y : Binary64} (h : (Text.ofString x.format).number? = some y) : ReadsBack x y := by
  refine ⟨h, fun d c name hname => ?_⟩
  let c' : Context := { c with store := Store.assign name x.format c.store }
  have hvalue : c'.store.lookup name = some (Text.ofString x.format) := Store.lookup_assign_self name _ c.store
  refine ⟨c', x.format, ?_, d.runFrom_argument_variable hname hvalue, h, ?_⟩
  · simp [Exec.setVariable, hname, c']
  · rw [Expr.lookup_bindingsOf, hvalue, Option.map_some, h]
    rfl

/-- Every finite number reads back as a number at the same place. One that is whole, up to `2 ^ 53`, is written with
its digits, and reads back exactly. -/
theorem numbers_read_back :
    (∀ x : Binary64, x.isFinite → ∃ y, ReadsBack x y ∧ y.equals x) ∧
      ∀ n : Int, n.natAbs ≤ 2 ^ 53 → (Binary64.ofInt n).extent = some (n * unitsPerOne) ∧
        ∀ x : Binary64, x.isFinite → x.extent = some (n * unitsPerOne) →
          x.format = toString n ∧ ReadsBack x (Binary64.ofInt n) := by
  constructor
  · intro x hx
    obtain ⟨y, hy, hequals⟩ := Binary64.number?_format hx
    exact ⟨y, readsBack_of_number? hy, hequals⟩
  · intro n hn
    refine ⟨Binary64.extent_ofInt hn, fun x hx hextent => ?_⟩
    have hformat := Binary64.format_of_extent hn hx hextent
    refine ⟨hformat, readsBack_of_number? ?_⟩
    rw [hformat, Binary64.number?_toString hn]

/-- The least positive number, the negative zero and the least whole number that the bound allows, the last as a
counter. -/
theorem numbers_read_back_extremes :
    let least : Binary64 := .finite false 1 (by decide +kernel)
    let zero : Binary64 := .finite true 0 (by decide +kernel)
    let n : Int := -9007199254740992
    let name : Text := "counter"
    (∃ y, ReadsBack least y ∧ y.equals least) ∧
      (zero.format = "0" ∧ ReadsBack zero (.ofInt 0)) ∧
      n.natAbs ≤ 2 ^ 53 ∧ (Binary64.ofInt n).format = "-9007199254740992" ∧ ∃ c t,
        (Exec.setVariable name (Binary64.ofInt n).format).runFrom
          (.start false (.empty false) ⟨⟨⟨false, []⟩, []⟩, [], fun _ low _ => low, 0, .one, ⟨2024, 1, 2, 3, 4, 5⟩⟩) =
            (.ok (), c) ∧
        ((Directive.install .empty).dispatcher.argument "$counter").runFrom c = (.ok t, c) ∧
        t.number? = some (.ofInt n) ∧ (Expr.bindingsOf c.store).lookup name = some (.number (.ofInt n)) := by
  intro least zero n name
  have hn : n.natAbs ≤ 2 ^ 53 := by decide
  obtain ⟨hleast, hwhole⟩ := numbers_read_back
  have hzero : zero.extent = some ((0 : Int) * unitsPerOne) := by
    rw [Int.zero_mul]
    rfl
  obtain ⟨hextent, hat⟩ := hwhole n hn
  obtain ⟨hformat, hback⟩ := hat (.ofInt n) (Binary64.isFinite_ofInt hn) hextent
  refine ⟨hleast least rfl, (hwhole 0 (by decide)).2 zero rfl hzero, hn, hformat, ?_⟩
  exact hback.stored _ _ name (by decide)

end SigilScript
