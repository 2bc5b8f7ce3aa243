import SigilScript.Proofs.LostExponent
import SigilScript.Proofs.NumericName

/-!
Numbers as arithmetic. A number that has only ASCII digits, points and signs is its own value. One in
scientific notation has a sign before its exponent and loses the letter, so that its value is a sum.
-/
namespace SigilScript

namespace Expr

/-! Short texts -/

namespace Opening

theorem length_after_le (o : Opening) (lexeme : ExprLexeme) :
    (o.after lexeme).levels.length ≤ o.levels.length + 1 := by
  have hdrop (p : Level → Bool) (levels : List Level) : (levels.dropWhile p).length ≤ levels.length :=
    (List.dropWhile_suffix p).length_le
  have hunsigned : (unsigned o.levels).length ≤ o.levels.length := hdrop _ _
  have henclosing : (enclosing o.levels).length ≤ o.levels.length := hdrop _ _
  have houter : (unsigned (enclosing o.levels).tail).length ≤ (enclosing o.levels).tail.length := hdrop _ _
  rw [List.length_tail] at houter
  cases lexeme with
  | operator op =>
    cases op with
    | plus | minus =>
      simp only [after]
      split
      · omega
      · exact Nat.le_refl _
    | _ =>
      simp only [after, List.length_cons]
      omega
  | _ =>
    simp only [after, List.length_cons]
    omega

/-- Every token opens at most one level. -/
theorem deepest_le_length (o : Opening) (ts : List ExprToken) : o.deepest ts ≤ o.levels.length + ts.length := by
  induction ts generalizing o with
  | nil => exact Nat.le_refl _
  | cons t ts ih =>
    have hafter := o.length_after_le t.lexeme
    have hlater := ih (o.after t.lexeme)
    rw [deepest, List.length_cons]
    omega

end Opening

theorem parse_of_nesting {t : Text} {before : List ExprToken} {last : Nat} {e : Expr}
    (hscan : ExprToken.scan t = .ok (before ++ [⟨.endOfInput, last⟩])) (hd : Derives .alternatives before e)
    (hnesting : nesting before < maxRecursion) : parse t = .ok e := by
  have hparse : parse t = ofTokens (before ++ [⟨.endOfInput, last⟩]) := by
    rw [parse, hscan]
    rfl
  rw [hparse]
  refine (hd.ofTokens rfl []).resolve_right fun hlimit => ?_
  exact absurd (nesting_of_recursionLimit rfl hlimit) (Nat.not_le.mpr hnesting)

theorem parse_of_derives {t : Text} {before : List ExprToken} {last : Nat} {e : Expr}
    (hscan : ExprToken.scan t = .ok (before ++ [⟨.endOfInput, last⟩])) (hd : Derives .alternatives before e)
    (hshort : before.length < maxRecursion) : parse t = .ok e := by
  refine parse_of_nesting hscan hd ?_
  have hlength : nesting before ≤ 0 + before.length := Opening.start.deepest_le_length before
  omega

theorem Spells.length_le {x : Binary64} {lexed : List ExprToken} {tree : Expr} (h : Spells x lexed tree) :
    lexed.length ≤ 2 := by
  cases h with
  | unsigned => exact Nat.le_succ 1
  | signed => exact Nat.le_refl 2

theorem Spells.evalAt_succ {x : Binary64} {lexed : List ExprToken} {tree : Expr} (h : Spells x lexed tree)
    (strict : Bool) (bindings : Bindings) (levels : Nat) :
    Expr.evalAt strict bindings (levels + 2) tree = .ok (.number x) :=
  (h.evalAt strict bindings (levels + 1)).resolve_right fun hlimit => Nat.succ_ne_zero levels hlimit.2

end Expr

namespace Arithmetic

open SigilScript.Expr

/-- A number with nothing to drop is its own value. -/
theorem eval_number {t : Text} {x : Binary64} (h : t.number? = some x) (hkept : sanitize t = t) :
    eval t = .ok x := by
  obtain ⟨lexed, tree, last, hscan, hspells⟩ := scan_number h
  have hderives : Derives .alternatives lexed tree :=
    .operand (.operand (.operand (.operand (.operand (.operand hspells.derives)))))
  have hshort : lexed.length < maxRecursion := hspells.length_le.trans_lt (by decide)
  rw [eval, hkept, parse_of_derives hscan hderives hshort]
  have hvalue : Expr.eval true [] tree = .ok (.number x) := hspells.evalAt_succ true [] 998
  change (Expr.eval true [] tree).map Value.toNumber = _
  rw [hvalue]
  rfl

/-! What is left without the letter -/

def signPoint (minus : Bool) : CodePoint := if minus then '-' else '+'

theorem numberEnds_sign (minus : Bool) (rest : Text) : NumberEnds (signPoint minus :: rest) := by
  intro c hc
  obtain rfl : signPoint minus = c := Option.some.inj hc
  cases minus <;> decide

/-- The operator between two numbers. -/
theorem scanFrom_sign (minus : Bool) (position : Nat) (rest : Text) :
    ExprToken.scanFrom position (signPoint minus :: rest) = (ExprToken.scanFrom (position + 1) rest).map
      (⟨.operator (if minus then .minus else .plus), position⟩ :: ·) := by
  cases minus with
  | false => exact ExprToken.scanFrom_lexeme (by decide) (ExprToken.lexemeAt_plus position rest)
  | true => exact ExprToken.scanFrom_lexeme (by decide) (ExprToken.lexemeAt_minus position rest)

/-- The tokens of a sum of two numbers, of which the first may have a sign. -/
theorem scan_sum {sign m m' : Text} {negative : Bool} {n n' : Numeral} (hs : Signed sign negative)
    (hm : Numeral.magnitude? m = some n) (hm' : Numeral.magnitude? m' = some n') (minus : Bool) :
    ∃ lexed lexed' tree tree' position last, ExprToken.scan (sign ++ (m ++ signPoint minus :: m')) =
        .ok (lexed ++ (⟨.operator (if minus then .minus else .plus), position⟩ :: lexed') ++ [⟨.endOfInput, last⟩]) ∧
      Spells (Numeral.value ⟨negative, n.whole, n.fraction, n.exponent⟩) lexed tree ∧
      Spells (Numeral.value ⟨false, n'.whole, n'.fraction, n'.exponent⟩) lexed' tree' := by
  obtain ⟨lexed, tree, hscan, hspells⟩ := scanFrom_signed hs hm (numberEnds_sign minus m') 0
  have hnothing : NumberEnds [] := fun c hc => by cases hc
  obtain ⟨lexed', tree', hscan', hspells'⟩ := scanFrom_signed .none hm' hnothing (0 + sign.length + m.length + 1)
  obtain ⟨last, hend⟩ : ∃ last, ExprToken.scanFrom (0 + sign.length + m.length + 1 + List.length (α := CodePoint) [] +
      m'.length) [] = .ok [⟨.endOfInput, last⟩] := ⟨_, ExprToken.scanFrom_end (List.forall_mem_nil _) _⟩
  rw [hend, List.nil_append, List.append_nil] at hscan'
  refine ⟨lexed, lexed', tree, tree', 0 + sign.length + m.length, last, ?_, hspells, hspells'⟩
  rw [ExprToken.scan, hscan, scanFrom_sign, hscan', List.append_assoc]
  rfl

/-- The value of the sum of two numbers, or of their difference. -/
theorem eval_sum {t sign m m' : Text} {negative minus : Bool} {n n' : Numeral} (hs : Signed sign negative)
    (hm : Numeral.magnitude? m = some n) (hm' : Numeral.magnitude? m' = some n')
    (ht : sanitize t = sign ++ (m ++ signPoint minus :: m')) {x y : Binary64}
    (hx : Numeral.value ⟨negative, n.whole, n.fraction, n.exponent⟩ = x)
    (hy : Numeral.value ⟨false, n'.whole, n'.fraction, n'.exponent⟩ = y) :
    eval t = .ok (if minus then x.sub y else x.add y) := by
  obtain ⟨lexed, lexed', tree, tree', position, last, hscan, hspells, hspells'⟩ := scan_sum hs hm hm' minus
  rw [hx] at hspells
  rw [hy] at hspells'
  have hsum : Derives .sum (lexed ++ ⟨.operator (if minus then .minus else .plus), position⟩ :: lexed')
      (.binary (if minus then .minus else .plus) tree tree') := by
    refine .group rfl rfl ?_ (.operand (.operand hspells.derives)) (.operand hspells'.derives)
    cases minus
    · exact .plus
    · exact .minus
  have hderives : Derives .alternatives (lexed ++ ⟨.operator (if minus then .minus else .plus), position⟩ :: lexed')
      (.binary (if minus then .minus else .plus) tree tree') := .operand (.operand (.operand (.operand hsum)))
  have hshort : (lexed ++ ⟨.operator (if minus then .minus else .plus), position⟩ :: lexed').length <
      maxRecursion := by
    have hlimit : maxRecursion = 1000 := rfl
    have hle := hspells.length_le
    have hle' := hspells'.length_le
    rw [List.length_append, List.length_cons]
    omega
  have hvalue : Expr.eval true [] (.binary (if minus then .minus else .plus) tree tree') =
      .ok (.number (if minus then x.sub y else x.add y)) := by
    change evalAt true [] (997 + 2 + 1) _ = _
    rw [evalAt, hspells.evalAt_succ, hspells'.evalAt_succ]
    cases minus <;> rfl
  rw [eval, ht, parse_of_derives hscan hderives hshort]
  change (Expr.eval true [] _).map Value.toNumber = _
  rw [hvalue]
  rfl

theorem sanitize_append (t u : Text) : sanitize (t ++ u) = sanitize t ++ sanitize u := List.filter_append t u

theorem sanitize_eq_self {t : Text} (h : ∀ c ∈ t, c.isAsciiDigit || c = '.' || isTrigger c) : sanitize t = t :=
  List.filter_eq_self.mpr h

theorem sanitize_digitText {digits : List Nat} (h : ∀ d ∈ digits, d < 10) :
    sanitize (digitText digits) = digitText digits :=
  sanitize_eq_self fun c hc => by rw [isAsciiDigit_of_mem h c hc, Bool.true_or, Bool.true_or]

theorem sanitize_signText (negative : Bool) : sanitize (signText negative) = signText negative := by
  cases negative <;> rfl

theorem sanitize_fractionText {digits : List Nat} (h : ∀ d ∈ digits, d < 10) :
    sanitize (Spelling.fractionText digits) = Spelling.fractionText digits := by
  rw [Spelling.fractionText]
  split
  · rfl
  · exact congrArg (_ :: ·) (sanitize_digitText h)

end Arithmetic

namespace Decimal

/-- The part before the letter. -/
def leadingSpelling (d : Decimal) : Spelling :=
  ⟨(decimalDigits d.digits).take 1, (decimalDigits d.digits).drop 1, none⟩

/-- The part after the letter and the sign. -/
def exponentSpelling (d : Decimal) : Spelling := ⟨d.exponentDigits, [], none⟩

theorem readable_leadingSpelling {d : Decimal} (hd : 0 < d.digits) : d.leadingSpelling.Readable where
  nonempty := (regular_scientificSpelling hd).readable.nonempty
  whole := (regular_scientificSpelling hd).whole
  fraction := (regular_scientificSpelling hd).fraction
  exponent := nofun

theorem readable_exponentSpelling (d : Decimal) : d.exponentSpelling.Readable where
  nonempty := d.exponentDigits_ne_nil
  whole := lt_ten_of_mem_exponentDigits
  fraction := List.forall_mem_nil _
  exponent := nofun

theorem value_leadingSpelling (d : Decimal) (negative : Bool) :
    (d.leadingSpelling.numeral negative).value = d.leading.toBinary64 negative := by
  have hpos := length_decimalDigits_pos d.digits
  have hdecimal : (d.leadingSpelling.numeral negative).decimal = d.leading := by
    simp only [leadingSpelling, Spelling.numeral, Spelling.exponentValue, Numeral.decimal, List.take_append_drop,
      ofDigits_decimalDigits, leading, List.length_drop, Decimal.mk.injEq, true_and]
    omega
  rw [Numeral.value, hdecimal]
  rfl

theorem value_exponentSpelling (d : Decimal) :
    (d.exponentSpelling.numeral false).value = toBinary64 false ⟨d.magnitude.natAbs, 0⟩ := by
  rw [Numeral.value, Numeral.decimal, Spelling.numeral, exponentSpelling, List.append_nil, ofDigits_exponentDigits]
  rfl

end Decimal

namespace Arithmetic

theorem sanitize_scientific {d : Decimal} (hd : 0 < d.digits) (negative : Bool) :
    sanitize (signText negative ++ d.scientificSpelling.text) = signText negative ++
      (d.leadingSpelling.text ++ signPoint (d.magnitude < 0) :: d.exponentSpelling.text) := by
  have hs := Decimal.regular_scientificSpelling hd
  have hexponent : sanitize (Spelling.exponentText d.scientificSpelling.exponent) =
      signPoint (d.magnitude < 0) :: d.exponentSpelling.text := by
    have hdigits := sanitize_digitText (Decimal.lt_ten_of_mem_exponentDigits (d := d))
    have htext : d.exponentSpelling.text = digitText d.exponentDigits := List.append_nil _
    rw [htext, ← hdigits]
    by_cases h : d.magnitude < 0
    · simp only [Decimal.scientificSpelling, Spelling.exponentText, decide_eq_true h]
      rfl
    · simp only [Decimal.scientificSpelling, Spelling.exponentText, decide_eq_false h]
      rfl
  have hleading : d.leadingSpelling.text =
      digitText d.scientificSpelling.whole ++ Spelling.fractionText d.scientificSpelling.fraction :=
    congrArg (digitText d.scientificSpelling.whole ++ ·) (List.append_nil _)
  rw [Spelling.text, sanitize_append, sanitize_append, sanitize_append, sanitize_signText,
    sanitize_digitText hs.whole, sanitize_fractionText hs.fraction, hexponent, hleading, List.append_assoc]

/-- The value of a number in scientific notation, as arithmetic. -/
theorem eval_scientific {d : Decimal} (hd : 0 < d.digits) (negative : Bool) :
    eval (signText negative ++ d.scientificSpelling.text) = .ok (d.withoutLetter negative) := by
  have hsign : Signed (signText negative) negative := by
    cases negative
    · exact .none
    · exact .minus
  have hsum := eval_sum hsign (Spelling.magnitude?_text (Decimal.readable_leadingSpelling hd))
    (Spelling.magnitude?_text d.readable_exponentSpelling) (sanitize_scientific hd negative)
    (d.value_leadingSpelling negative) d.value_exponentSpelling
  rw [hsum, Decimal.withoutLetter]
  simp only [decide_eq_true_eq]

end Arithmetic

end SigilScript
