import SigilScript.Number.Binary64

/-!
Arithmetic and comparison of binary64 numbers. An infinite operand or a missing value is handled
first; what is left is exact arithmetic on units and one rounding.
-/
namespace SigilScript.Binary64

def neg : Binary64 → Binary64
  | .nan => .nan
  | .infinite n => .infinite !n
  | .finite n units h => .finite (!n) units h

/-- An exact sum of zero is negative only if both terms are. -/
def add : Binary64 → Binary64 → Binary64
  | .nan, _ => .nan
  | _, .nan => .nan
  | .infinite n, .infinite n' => if n = n' then .infinite n else .nan
  | .infinite n, .finite .. => .infinite n
  | .finite .., .infinite n => .infinite n
  | .finite n units _, .finite n' units' _ =>
    let sum := signedUnits n units + signedUnits n' units'
    if sum = 0 then zero (n && n') else ofRatio (sum < 0) sum.natAbs 1

def sub (x y : Binary64) : Binary64 := add x (neg y)

def mul : Binary64 → Binary64 → Binary64
  | .nan, _ => .nan
  | _, .nan => .nan
  | .infinite n, .infinite n' => .infinite (n != n')
  | .infinite n, .finite n' units _ => if units = 0 then .nan else .infinite (n != n')
  | .finite n units _, .infinite n' => if units = 0 then .nan else .infinite (n != n')
  | .finite n units _, .finite n' units' _ => ofRatio (n != n') (units * units') unitsPerOne

/-- Division by a zero is infinite, and missing for a zero over a zero. -/
def div : Binary64 → Binary64 → Binary64
  | .nan, _ => .nan
  | _, .nan => .nan
  | .infinite _, .infinite _ => .nan
  | .infinite n, .finite n' _ _ => .infinite (n != n')
  | .finite n _ _, .infinite n' => zero (n != n')
  | .finite n units _, .finite n' units' _ =>
    if units' = 0 then (if units = 0 then .nan else .infinite (n != n'))
    else ofRatio (n != n') (units * unitsPerOne) units'

/-- The remainder of a division cut toward zero; it has the sign of the dividend. -/
def rem : Binary64 → Binary64 → Binary64
  | .finite n units h, .infinite _ => .finite n units h
  | .finite n units _, .finite _ units' _ =>
    if units' = 0 then .nan else ofRatio n (units % units') 1
  | _, _ => .nan

/-- The place of a number on the line, in units; an infinite one stands where overflow begins. -/
def extent : Binary64 → Option Int
  | .nan => none
  | .infinite negative => some (signedUnits negative overflowUnits)
  | .finite negative units _ => some (signedUnits negative units)

def relate (r : Int → Int → Bool) (x y : Binary64) : Bool :=
  match x.extent, y.extent with
  | some a, some b => r a b
  | _, _ => false

def equals (x y : Binary64) : Bool := relate (fun a b => a == b) x y

def less (x y : Binary64) : Bool := relate (fun a b => a < b) x y

def atMost (x y : Binary64) : Bool := relate (fun a b => a ≤ b) x y

end SigilScript.Binary64
