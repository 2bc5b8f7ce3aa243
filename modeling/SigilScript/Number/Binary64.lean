/-!
Binary floating point numbers of 64 bits, by exact arithmetic. Every finite number is a whole
number of units of `2 ^ -1074`, so a magnitude is a natural number, and the magnitudes that fit are
those below `2 ^ 2098` with at most 53 significant bits. One function, `roundUnits`, rounds an exact
quotient to the nearest magnitude, a tie going to the even one; every operation computes exactly
and rounds once.
-/
namespace SigilScript

/-- The number of units in one. -/
def unitsPerOne : Nat := Nat.pow 2 1074

/-- Magnitudes from here on overflow. -/
def overflowUnits : Nat := Nat.pow 2 2098

/-- How far the lowest of the 53 significant bits stands above the lowest unit. -/
def scaleOf (units : Nat) : Nat := units.log2 - 52

/-- A magnitude that fits: below the overflow bound, and with no bit below its lowest
significant one. -/
def Fits (units : Nat) : Prop := units < overflowUnits ∧ units % Nat.pow 2 (scaleOf units) = 0

instance (units : Nat) : Decidable (Fits units) := inferInstanceAs (Decidable (_ ∧ _))

/-- The nearest whole number to `num / den`, the even one of two. -/
def roundHalfEven (num den : Nat) : Nat :=
  let q := num / den
  let r := num % den
  if 2 * r < den then q
  else if 2 * r = den then q + q % 2
  else q + 1

/-- The nearest number of units with 53 significant bits to `num / den` units. -/
def roundUnits (num den : Nat) : Nat :=
  let scale := scaleOf (num / den)
  Nat.pow 2 scale * roundHalfEven num (den * Nat.pow 2 scale)

inductive Binary64 where
  | nan
  | infinite (negative : Bool)
  | finite (negative : Bool) (units : Nat) (fits : Fits units)
  deriving DecidableEq

namespace Binary64

theorem fits_zero : Fits 0 := ⟨Nat.pow_pos Nat.two_pos, Nat.zero_mod _⟩

def zero (negative : Bool) : Binary64 := .finite negative 0 fits_zero

instance : Inhabited Binary64 := ⟨zero false⟩

/-- A rounded magnitude with its sign; what does not fit is infinite. -/
def ofUnits (negative : Bool) (units : Nat) : Binary64 :=
  if h : Fits units then .finite negative units h else .infinite negative

/-- The number nearest to `± num / den` units. -/
def ofRatio (negative : Bool) (num den : Nat) : Binary64 :=
  ofUnits negative (roundUnits num den)

/-- The number nearest to a whole number. -/
def ofInt (n : Int) : Binary64 := ofRatio (n < 0) (n.natAbs * unitsPerOne) 1

def one : Binary64 := ofInt 1

def isNaN : Binary64 → Bool
  | .nan => true
  | _ => false

def isFinite : Binary64 → Bool
  | .finite .. => true
  | _ => false

def isZero : Binary64 → Bool
  | .finite _ units _ => units = 0
  | _ => false

def isNegative : Binary64 → Bool
  | .nan => false
  | .infinite negative => negative
  | .finite negative _ _ => negative

/-- A finite number in signed units. -/
def signedUnits (negative : Bool) (units : Nat) : Int :=
  if negative then -(units : Int) else units

/-- A whole number, in the sense of having no fraction. -/
def isWhole : Binary64 → Bool
  | .finite _ units _ => units % unitsPerOne = 0
  | _ => false

/-- The whole part, cut toward zero; there is none without a finite value. -/
def truncate? : Binary64 → Option Int
  | .finite negative units _ => some (signedUnits negative (units / unitsPerOne))
  | _ => none

/-- The greatest whole number not above a finite value. -/
def floor? : Binary64 → Option Int
  | .finite negative units _ => some (Int.fdiv (signedUnits negative units) unitsPerOne)
  | _ => none

end Binary64

end SigilScript
