import SigilScript.Number.Decimal

/-!
How numbers are written. `render` is the full notation: the fewest digits that read back, always
with a point or an exponent, the exponent from `1e+16` on and below `1e-04`. `format` is the plain
notation of the language: whole numbers below `10 ^ 21` have no point, and the numbers without a
finite value have names.
-/
namespace SigilScript

def digitString (digits : List Nat) : String :=
  String.ofList (digits.map fun d => Char.ofNat (48 + d))

def zeros (n : Nat) : List Nat := List.replicate n 0

/-- Pads a natural number with zeros to at least `width` digits. -/
def padded (width n : Nat) : String :=
  let digits := decimalDigits n
  digitString (zeros (width - digits.length) ++ digits)

namespace Decimal

/-- Positional notation, with at least one digit on each side of the point. -/
def positional (d : Decimal) : String :=
  let digits := decimalDigits d.digits
  if 0 ≤ d.exponent then digitString (digits ++ zeros d.exponent.toNat) ++ ".0"
  else
    let places := (-d.exponent).toNat
    let whole := digits.length - places
    if 0 < whole then digitString (digits.take whole) ++ "." ++ digitString (digits.drop whole)
    else "0." ++ digitString (zeros (places - digits.length) ++ digits)

/-- One digit before the point, and a signed exponent of at least two digits. -/
def scientific (d : Decimal) : String :=
  let digits := decimalDigits d.digits
  let fraction := digits.drop 1
  let point := if fraction.isEmpty then "" else "."
  let sign := if d.magnitude < 0 then "-" else "+"
  digitString (digits.take 1) ++ point ++ digitString fraction ++ "e" ++ sign ++
    padded 2 d.magnitude.natAbs

def render (d : Decimal) : String :=
  if -4 ≤ d.magnitude ∧ d.magnitude < 16 then d.positional else d.scientific

end Decimal

namespace Binary64

def signString (negative : Bool) : String := if negative then "-" else ""

/-- The full notation. -/
def render : Binary64 → String
  | .nan => "nan"
  | .infinite negative => signString negative ++ "inf"
  | .finite negative units _ =>
    signString negative ++ if units = 0 then "0.0" else (Decimal.shortest units).render

/-- The plain notation. -/
def format (x : Binary64) : String :=
  match x with
  | .nan => "NaN"
  | .infinite negative => signString negative ++ "Infinity"
  | .finite negative units _ =>
    if x.isWhole ∧ units < Nat.pow 10 21 * unitsPerOne then
      toString (signedUnits negative (units / unitsPerOne))
    else x.render

end Binary64

end SigilScript
