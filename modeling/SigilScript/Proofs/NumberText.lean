import SigilScript.Identifier
import SigilScript.Number.Notation
import SigilScript.Number.Numeral
import SigilScript.Proofs.DecimalReading

/-!
The texts of numbers. Every notation of a decimal spells whole digits, a fraction and an exponent, of which
the last two may be missing. A `Spelling` holds these parts; whichever notation is chosen for a decimal, its
spelling stands for a number that is read as the decimal is.
-/
namespace SigilScript

/-! Digits as code points -/

def digitText (digits : List Nat) : Text := digits.map fun d => CodePoint.ofNat (48 + d)

theorem val_digit {d : Nat} (h : d < 10) : (CodePoint.ofNat (48 + d)).val = 48 + d := by
  rw [CodePoint.ofNat, dif_pos (by omega)]

theorem isAsciiDigit_of_mem {digits : List Nat} (h : ∀ d ∈ digits, d < 10) :
    ∀ c ∈ digitText digits, c.isAsciiDigit := by
  intro c hc
  obtain ⟨d, hd, rfl⟩ := List.mem_map.mp hc
  have hten : d < 10 := h d hd
  simp only [CodePoint.isAsciiDigit, val_digit hten, Bool.and_eq_true, decide_eq_true_eq]
  omega

theorem ofString_append (a b : String) : Text.ofString (a ++ b) = Text.ofString a ++ Text.ofString b := by
  simp [Text.ofString]

theorem ofString_digitString {digits : List Nat} (h : ∀ d ∈ digits, d < 10) :
    Text.ofString (digitString digits) = digitText digits := by
  rw [Text.ofString, digitString, String.toList_ofList, List.map_map, digitText]
  refine List.map_congr_left fun d hd => CodePoint.ext ?_
  have hvalid : (48 + d).isValidChar := .inl (by have := h d hd; omega)
  rw [val_digit (h d hd), Function.comp_apply, CodePoint.ofChar_val, Char.ofNat, dif_pos hvalid]
  rfl

/-! Spellings -/

structure Spelling where
  whole : List Nat
  /-- No digits if there is no point. -/
  fraction : List Nat
  /-- Whether the exponent is negative, and its digits. -/
  exponent : Option (Bool × List Nat)

namespace Spelling

def fractionText (digits : List Nat) : Text := if digits = [] then [] else '.' :: digitText digits

def exponentText : Option (Bool × List Nat) → Text
  | none => []
  | some (negative, digits) =>
    ('e' : CodePoint) :: (if negative then ('-' : CodePoint) else ('+' : CodePoint)) :: digitText digits

def text (s : Spelling) : Text := digitText s.whole ++ (fractionText s.fraction ++ exponentText s.exponent)

def exponentValue (s : Spelling) : Int :=
  match s.exponent with
  | none => 0
  | some (negative, digits) => if negative then -(ofDigits digits : Int) else ofDigits digits

def numeral (negative : Bool) (s : Spelling) : Numeral := ⟨negative, s.whole, s.fraction, s.exponentValue⟩

/-- Digits everywhere, and none before the whole number but a single zero. -/
structure Regular (s : Spelling) : Prop where
  first : s.whole = [0] ∨ ∃ d ds, s.whole = d :: ds ∧ d ≠ 0
  whole : ∀ d ∈ s.whole, d < 10
  fraction : ∀ d ∈ s.fraction, d < 10
  exponent : ∀ negative digits, s.exponent = some (negative, digits) → digits ≠ [] ∧ ∀ d ∈ digits, d < 10

end Spelling

namespace Decimal

theorem toBinary64_shifted (negative : Bool) (d : Decimal) (k : Nat) :
    toBinary64 negative ⟨d.digits * 10 ^ k, d.exponent - k⟩ = d.toBinary64 negative := by
  induction k with
  | zero =>
    have hsame : (⟨d.digits * 10 ^ 0, d.exponent - (0 : Nat)⟩ : Decimal) = d := by simp
    rw [hsame]
  | succ k ih =>
    have hshift : (⟨d.digits * 10 ^ (k + 1), d.exponent - (k + 1 : Nat)⟩ : Decimal) =
        shift ⟨d.digits * 10 ^ k, d.exponent - k⟩ := by
      simp only [shift, Decimal.mk.injEq]
      exact ⟨by ring, by omega⟩
    rw [hshift, toBinary64_shift, ih]

/-- A text that spells the number of a decimal, with the given exponent, or else with a fraction. -/
def SpelledBy (d : Decimal) (t : Text) (exponent : Option (Bool × List Nat)) : Prop :=
  ∃ s : Spelling, s.Regular ∧ t = s.text ∧ s.exponent = exponent ∧ (s.fraction ≠ [] ∨ s.exponent ≠ none) ∧
    ∀ negative, (s.numeral negative).value = d.toBinary64 negative

/-- The spelled digits are those of the decimal and some zeros, and the exponent is lower by as many. -/
theorem spelledBy_text {d : Decimal} {s : Spelling} (hs : s.Regular) (hparts : s.fraction ≠ [] ∨ s.exponent ≠ none)
    (k : Nat) (hdigits : ofDigits (s.whole ++ s.fraction) = d.digits * 10 ^ k)
    (hexponent : s.exponentValue - s.fraction.length = d.exponent - k) :
    d.SpelledBy s.text s.exponent := by
  refine ⟨s, hs, rfl, rfl, hparts, fun negative => ?_⟩
  rw [← toBinary64_shifted negative d k, ← hdigits, ← hexponent]
  rfl

theorem lt_ten_of_mem_zeros {k d : Nat} (h : d ∈ zeros k) : d < 10 := by
  rw [(List.mem_replicate.mp h).2]
  omega

theorem ofDigits_zeros_append (k : Nat) (digits : List Nat) : ofDigits (zeros k ++ digits) = ofDigits digits := by
  rw [ofDigits_append, zeros, ofDigits_replicate_zero, Nat.zero_mul, Nat.zero_add]

theorem ofDigits_append_zeros (digits : List Nat) (k : Nat) :
    ofDigits (digits ++ zeros k) = ofDigits digits * 10 ^ k := by
  rw [ofDigits_append, zeros, ofDigits_replicate_zero, List.length_replicate, Nat.add_zero]

theorem ofString_point (digits : List Nat) :
    Text.ofString (if digits.isEmpty then "" else ".") ++ digitText digits = Spelling.fractionText digits := by
  cases digits with
  | nil => rfl
  | cons d digits =>
    rw [Spelling.fractionText, if_neg (List.cons_ne_nil _ _), List.isEmpty_cons, if_neg Bool.false_ne_true]
    rfl

theorem ofString_exponentSign (n : Int) : Text.ofString (if n < 0 then "-" else "+") =
    [if decide (n < 0) then ('-' : CodePoint) else ('+' : CodePoint)] := by
  by_cases h : n < 0
  · rw [if_pos h, decide_eq_true h]
    rfl
  · rw [if_neg h, decide_eq_false h]
    rfl

/-- The digits of the exponent in scientific notation, at least two. -/
def exponentDigits (d : Decimal) : List Nat :=
  zeros (2 - (decimalDigits d.magnitude.natAbs).length) ++ decimalDigits d.magnitude.natAbs

theorem exponentDigits_ne_nil (d : Decimal) : d.exponentDigits ≠ [] := by
  have hpos := length_decimalDigits_pos d.magnitude.natAbs
  apply List.ne_nil_of_length_pos
  rw [exponentDigits, List.length_append]
  omega

theorem lt_ten_of_mem_exponentDigits {d : Decimal} : ∀ k ∈ d.exponentDigits, k < 10 :=
  fun k hk => (List.mem_append.mp hk).elim lt_ten_of_mem_zeros (lt_ten_of_mem_decimalDigits _ k)

theorem ofDigits_exponentDigits (d : Decimal) : ofDigits d.exponentDigits = d.magnitude.natAbs := by
  rw [exponentDigits, ofDigits_zeros_append, ofDigits_decimalDigits]

/-- One digit before the point, the others after it, and an exponent. -/
def scientificSpelling (d : Decimal) : Spelling :=
  ⟨(decimalDigits d.digits).take 1, (decimalDigits d.digits).drop 1, some (d.magnitude < 0, d.exponentDigits)⟩

theorem value_scientificSpelling (d : Decimal) (negative : Bool) :
    (d.scientificSpelling.numeral negative).value = d.toBinary64 negative := by
  have hexponent : d.scientificSpelling.exponentValue = d.magnitude := by
    simp only [scientificSpelling, Spelling.exponentValue, ofDigits_exponentDigits]
    split
    · rename_i h
      have hnegative : d.magnitude < 0 := of_decide_eq_true h
      omega
    · rename_i h
      have hnegative : ¬d.magnitude < 0 := of_decide_eq_false (Bool.eq_false_iff.mpr h)
      omega
  have hdigits : ofDigits (d.scientificSpelling.whole ++ d.scientificSpelling.fraction) = d.digits := by
    rw [scientificSpelling, List.take_append_drop, ofDigits_decimalDigits]
  have hplaces : d.magnitude - d.scientificSpelling.fraction.length = d.exponent := by
    have hpos := length_decimalDigits_pos d.digits
    rw [magnitude]
    simp only [scientificSpelling, List.length_drop]
    omega
  have hdecimal : (d.scientificSpelling.numeral negative).decimal = d := by
    rw [Numeral.decimal, Spelling.numeral, hdigits, hexponent, hplaces]
  rw [Numeral.value, hdecimal]
  rfl

section Notations

variable {d : Decimal} (hd : 0 < d.digits)

include hd

/-- Zeros after the digits, and one after the point. -/
theorem spelledBy_whole (he : 0 ≤ d.exponent) :
    d.SpelledBy (digitText (decimalDigits d.digits ++ zeros d.exponent.toNat) ++ Text.ofString ".0") none := by
  obtain ⟨first, others, hfirst, hne⟩ := head_decimalDigits hd
  let s : Spelling := ⟨decimalDigits d.digits ++ zeros d.exponent.toNat, [0], none⟩
  have hs : s.Regular :=
    { first := .inr ⟨first, others ++ zeros d.exponent.toNat, by simp only [s, hfirst, List.cons_append], hne⟩
      whole := fun k hk => (List.mem_append.mp hk).elim (lt_ten_of_mem_decimalDigits _ k) lt_ten_of_mem_zeros
      fraction := fun k hk => by rw [List.mem_singleton.mp hk]; omega
      exponent := nofun }
  refine spelledBy_text hs (.inl nofun) (d.exponent.toNat + 1) ?_ ?_
  · have hzeros : s.whole ++ s.fraction = decimalDigits d.digits ++ zeros (d.exponent.toNat + 1) := by
      simp only [s, zeros, List.replicate_succ', List.append_assoc]
    rw [hzeros, ofDigits_append_zeros, ofDigits_decimalDigits]
  · simp only [s, Spelling.exponentValue, List.length_singleton]
    omega

/-- A point between the digits. -/
theorem spelledBy_parted {places : Nat} (he : d.exponent = -places) (hplaces : 0 < places)
    (hlong : places < (decimalDigits d.digits).length) :
    d.SpelledBy (digitText ((decimalDigits d.digits).take ((decimalDigits d.digits).length - places)) ++
      (Text.ofString "." ++ digitText ((decimalDigits d.digits).drop ((decimalDigits d.digits).length - places)))) none := by
  have hten := lt_ten_of_mem_decimalDigits d.digits
  obtain ⟨first, others, hfirst, hne⟩ := head_decimalDigits hd
  let digits := decimalDigits d.digits
  let s : Spelling := ⟨digits.take (digits.length - places), digits.drop (digits.length - places), none⟩
  have hfraction : s.fraction ≠ [] := by
    refine List.ne_nil_of_length_pos ?_
    simp only [s, digits, List.length_drop]
    omega
  have htake : s.whole = first :: others.take (digits.length - places - 1) := by
    have hpos : 0 < digits.length - places := Nat.sub_pos_of_lt hlong
    have hdigits : digits = first :: others := hfirst
    simp only [s]
    rw [hdigits] at hpos ⊢
    exact List.take_cons hpos
  have hs : s.Regular :=
    { first := .inr ⟨first, _, htake, hne⟩
      whole := fun k hk => hten k (List.mem_of_mem_take hk)
      fraction := fun k hk => hten k (List.mem_of_mem_drop hk)
      exponent := nofun }
  have htext : s.text = digitText s.whole ++ (Text.ofString "." ++ digitText s.fraction) := by
    rw [Spelling.text, Spelling.fractionText, if_neg hfraction]
    exact congrArg (digitText s.whole ++ ·) (List.append_nil _)
  rw [← htext]
  refine spelledBy_text hs (.inl hfraction) 0 ?_ ?_
  · rw [List.take_append_drop, ofDigits_decimalDigits, Nat.pow_zero, Nat.mul_one]
  · simp only [s, digits, Spelling.exponentValue, List.length_drop]
    omega

omit hd in
/-- Zeros before the digits. -/
theorem spelledBy_small {places : Nat} (he : d.exponent = -places)
    (hshort : (decimalDigits d.digits).length ≤ places) :
    d.SpelledBy (Text.ofString "0." ++
      digitText (zeros (places - (decimalDigits d.digits).length) ++ decimalDigits d.digits)) none := by
  have hpos := length_decimalDigits_pos d.digits
  let s : Spelling := ⟨[0], zeros (places - (decimalDigits d.digits).length) ++ decimalDigits d.digits, none⟩
  have hlength : s.fraction.length = places := by
    simp only [s, zeros, List.length_append, List.length_replicate]
    omega
  have hfraction : s.fraction ≠ [] := List.ne_nil_of_length_pos (by omega)
  have hs : s.Regular :=
    { first := .inl rfl
      whole := fun k hk => by rw [List.mem_singleton.mp hk]; omega
      fraction := fun k hk => (List.mem_append.mp hk).elim lt_ten_of_mem_zeros (lt_ten_of_mem_decimalDigits _ k)
      exponent := nofun }
  have htext : s.text = Text.ofString "0." ++ digitText s.fraction := by
    rw [Spelling.text, Spelling.fractionText, if_neg hfraction]
    exact congrArg (digitText [0] ++ ·) (List.append_nil _)
  rw [← htext]
  refine spelledBy_text hs (.inl hfraction) 0 ?_ ?_
  · have hzeros : s.whole ++ s.fraction = zeros (places - (decimalDigits d.digits).length + 1) ++
        decimalDigits d.digits := by
      simp only [s, zeros, List.replicate_succ, List.cons_append, List.nil_append]
    rw [hzeros, ofDigits_zeros_append, ofDigits_decimalDigits, Nat.pow_zero, Nat.mul_one]
  · rw [hlength]
    simp only [s, Spelling.exponentValue]
    omega

theorem spelledBy_positional : d.SpelledBy (Text.ofString d.positional) none := by
  have hten := lt_ten_of_mem_decimalDigits d.digits
  rw [positional]
  dsimp only
  split
  · rename_i he
    rw [ofString_append, ofString_digitString fun k hk =>
      (List.mem_append.mp hk).elim (hten k) lt_ten_of_mem_zeros]
    exact spelledBy_whole hd he
  · rename_i he
    split
    · rename_i hwhole
      rw [ofString_append, ofString_append, ofString_digitString fun k hk => hten k (List.mem_of_mem_take hk),
        ofString_digitString fun k hk => hten k (List.mem_of_mem_drop hk), List.append_assoc]
      exact spelledBy_parted hd (by omega) (by omega) (by omega)
    · rename_i hwhole
      rw [ofString_append, ofString_digitString fun k hk =>
        (List.mem_append.mp hk).elim lt_ten_of_mem_zeros (hten k)]
      exact spelledBy_small (by omega) (by omega)

theorem regular_scientificSpelling : d.scientificSpelling.Regular := by
  have hten := lt_ten_of_mem_decimalDigits d.digits
  obtain ⟨first, others, hfirst, hne⟩ := head_decimalDigits hd
  exact
    { first := .inr ⟨first, [], by rw [scientificSpelling, hfirst]; rfl, hne⟩
      whole := fun k hk => hten k (List.mem_of_mem_take hk)
      fraction := fun k hk => hten k (List.mem_of_mem_drop hk)
      exponent := by
        rintro negative digits ⟨⟩
        exact ⟨d.exponentDigits_ne_nil, lt_ten_of_mem_exponentDigits⟩ }

theorem ofString_scientific : Text.ofString d.scientific = d.scientificSpelling.text := by
  have hs := regular_scientificSpelling hd
  have hpadded : Text.ofString (padded 2 d.magnitude.natAbs) = digitText d.exponentDigits :=
    ofString_digitString lt_ten_of_mem_exponentDigits
  have hfraction : Text.ofString (digitString ((decimalDigits d.digits).drop 1)) =
      digitText ((decimalDigits d.digits).drop 1) := ofString_digitString hs.fraction
  have hwhole : Text.ofString (digitString ((decimalDigits d.digits).take 1)) =
      digitText ((decimalDigits d.digits).take 1) := ofString_digitString hs.whole
  have he : Text.ofString "e" = [('e' : CodePoint)] := rfl
  simp only [scientific, ofString_append, hpadded, hfraction, hwhole, ofString_exponentSign, he]
  rw [Spelling.text, ← ofString_point]
  simp only [List.append_assoc, List.cons_append, List.nil_append]
  rfl

theorem spelledBy_scientific :
    d.SpelledBy (Text.ofString d.scientific) (some (d.magnitude < 0, d.exponentDigits)) :=
  ⟨d.scientificSpelling, regular_scientificSpelling hd, ofString_scientific hd, rfl, .inr nofun,
    d.value_scientificSpelling⟩

theorem spelledBy_render : ∃ exponent, d.SpelledBy (Text.ofString d.render) exponent := by
  rw [render]
  split
  · exact ⟨none, spelledBy_positional hd⟩
  · exact ⟨_, spelledBy_scientific hd⟩

end Notations

end Decimal

/-! Numbers with a sign -/

def signText (negative : Bool) : Text := if negative then [('-' : CodePoint)] else []

theorem ofString_signString (negative : Bool) : Text.ofString (Binary64.signString negative) = signText negative := by
  cases negative <;> rfl

/-- The full notation of a finite number spells this number. -/
theorem Binary64.spelled_render (negative : Bool) {units : Nat} (hfits : Fits units) :
    ∃ s : Spelling, s.Regular ∧ Text.ofString (render (.finite negative units hfits)) = signText negative ++ s.text ∧
      (s.fraction ≠ [] ∨ s.exponent ≠ none) ∧ (s.numeral negative).value = .finite negative units hfits := by
  rw [render, ofString_append, ofString_signString]
  split
  · rename_i hzero
    subst hzero
    exact ⟨⟨[0], [0], none⟩, ⟨.inl rfl, by decide, by decide, nofun⟩, rfl, .inl nofun, rfl⟩
  · rename_i hne
    have hshortest := Decimal.toBinary64_shortest hne hfits
    have hdigits : (Decimal.shortest units).digits ≠ 0 := by
      intro hzero
      have hread := hshortest negative
      rw [Decimal.toBinary64, if_pos hzero] at hread
      exact hne (Binary64.finite.inj hread).2.symm
    obtain ⟨exponent, s, hs, htext, -, hparts, hvalue⟩ := Decimal.spelledBy_render (Nat.pos_of_ne_zero hdigits)
    exact ⟨s, hs, by rw [htext], hparts, by rw [hvalue, hshortest]⟩

theorem ofString_repr (n : Nat) : Text.ofString n.repr = digitText (decimalDigits n) := by
  rw [Text.ofString, Nat.repr_eq_ofList_toDigits, String.toList_ofList, digitText, decimalDigits, List.map_map]
  refine List.map_congr_left fun c hc => CodePoint.ext ?_
  have hdigit : 48 ≤ c.toNat ∧ c.toNat ≤ 57 :=
    Char.isDigit_iff_toNat.mp (Nat.isDigit_of_mem_toDigits (by omega) (by omega) hc)
  rw [Function.comp_apply, val_digit (by omega), CodePoint.ofChar_val]
  omega

theorem ofString_toString (n : Int) :
    Text.ofString (toString n) = signText (n < 0) ++ digitText (decimalDigits n.natAbs) := by
  cases n with
  | ofNat n => exact ofString_repr n
  | negSucc n =>
    have hneg : decide (Int.negSucc n < 0) = true := decide_eq_true (Int.negSucc_lt_zero n)
    rw [hneg]
    exact (ofString_append "-" (n + 1).repr).trans (congrArg (_ ++ ·) (ofString_repr (n + 1)))

end SigilScript
