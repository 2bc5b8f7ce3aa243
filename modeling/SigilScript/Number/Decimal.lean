import SigilScript.Number.Arithmetic

/-!
Decimal numbers `digits · 10 ^ exponent`, read as binary64 numbers, and the way back: the fewest
digits that read back as the number, and of those the nearest.
-/
namespace SigilScript

structure Decimal where
  digits : Nat
  exponent : Int
  deriving DecidableEq, Repr

/-- Decimal digits of a natural number, highest first, as values. -/
def decimalDigits (n : Nat) : List Nat := (Nat.toDigits 10 n).map fun c => c.toNat - 48

/-- The natural number with the given digits, highest first. -/
def ofDigits (digits : List Nat) : Nat := digits.foldl (fun n d => 10 * n + d) 0

namespace Decimal

/-- The magnitude in units, as a quotient. -/
def ratio (d : Decimal) : Nat × Nat :=
  if 0 ≤ d.exponent then (d.digits * Nat.pow 10 d.exponent.toNat * unitsPerOne, 1)
  else (d.digits * unitsPerOne, Nat.pow 10 (-d.exponent).toNat)

/-- The nearest number of units. -/
def units (d : Decimal) : Nat := roundUnits d.ratio.1 d.ratio.2

/-- The decimal exponent of the first digit. -/
def magnitude (d : Decimal) : Int := d.exponent + (decimalDigits d.digits).length - 1

/-- The number nearest to `± d`. From `10 ^ 400` on everything overflows and below `10 ^ -400`
everything is zero, so powers beyond these are never formed. -/
def toBinary64 (negative : Bool) (d : Decimal) : Binary64 :=
  if d.digits = 0 then .zero negative
  else if 400 < d.magnitude then .infinite negative
  else if d.magnitude < -400 then .zero negative
  else .ofUnits negative d.units

/-- Moves the zeros at the end of the digits into the exponent; `fuel` bounds their number. -/
def trimZeros : Nat → Decimal → Decimal
  | 0, d => d
  | fuel + 1, d => if d.digits % 10 = 0 then trimZeros fuel ⟨d.digits / 10, d.exponent + 1⟩ else d

/-- Whether `10 ^ exponent` is at most `num / den`. -/
def reaches (num den : Nat) (exponent : Int) : Bool :=
  if 0 ≤ exponent then den * Nat.pow 10 exponent.toNat ≤ num
  else den ≤ num * Nat.pow 10 (-exponent).toNat

/-- The exponent of the greatest power of ten at most `num / den`. The lengths in bits give it up
to one, ten being `2 ^ (100000 / 30103)` nearly. -/
def leadingExponent (num den : Nat) : Int :=
  let guess : Int := ((num.log2 : Int) - den.log2 + 1) * 30103 / 100000
  if reaches num den (guess + 1) then guess + 1
  else if reaches num den guess then guess
  else guess - 1

/-- The two neighbours of `num / den` units among the multiples of `10 ^ exponent`, as digit
counts, and whether the lower, the upper or neither is nearer. -/
def neighbours (num den : Nat) (exponent : Int) : Nat × Ordering :=
  let (n, d) :=
    if 0 ≤ exponent then (num, den * Nat.pow 10 exponent.toNat)
    else (num * Nat.pow 10 (-exponent).toNat, den)
  (n / d, compare (2 * (n % d)) d)

/-- The nearer of two decimals that both read back; a tie goes to the even digit. -/
def choose (low : Nat) (nearer : Ordering) (exponent : Int) (lowHits highHits : Bool) :
    Option Decimal :=
  match lowHits, highHits with
  | false, false => none
  | true, false => some ⟨low, exponent⟩
  | false, true => some ⟨low + 1, exponent⟩
  | true, true =>
    match nearer with
    | .lt => some ⟨low, exponent⟩
    | .gt => some ⟨low + 1, exponent⟩
    | .eq => some ⟨low + low % 2, exponent⟩

/-- A decimal with `count` digits that reads back as the given units, if there is one. -/
def withDigits? (units : Nat) (leading : Int) (count : Nat) : Option Decimal :=
  let exponent := leading - count + 1
  let (low, nearer) := neighbours units unitsPerOne exponent
  choose low nearer exponent (Decimal.units ⟨low, exponent⟩ = units)
    (Decimal.units ⟨low + 1, exponent⟩ = units)

/-- The decimal that has exactly the value of the given units. -/
def exact (units : Nat) : Decimal := ⟨units * Nat.pow 5 1074, -1074⟩

/-- The fewest digits that read back as the given units, which are not zero. Seventeen digits
always do. -/
def shortest (units : Nat) : Decimal :=
  let leading := leadingExponent units unitsPerOne
  let found := ((List.range 17).findSome? fun i => withDigits? units leading (i + 1)).getD
    (exact units)
  trimZeros (decimalDigits found.digits).length found

end Decimal

end SigilScript
