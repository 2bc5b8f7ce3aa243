import SigilScript.Number.Decimal
import SigilScript.Text.Blank
import SigilScript.Text.Digit
import SigilScript.Text.Quoted

/-!
Numerals: the texts that are numbers. A numeral is a sign, digits with an optional point, and an
optional exponent; the digits may be those of any script. An integer text is a sign and digits.
Blanks around either are ignored. Converting a text to an integer is stricter about the blanks than
telling that it is one: information separators are not ignored, so an integer text that has some
cannot be converted.
-/
namespace SigilScript

/-- The values of the decimal digits that start a text, and the rest. -/
def takeDecimals : Text → List Nat × Text
  | [] => ([], [])
  | c :: rest =>
    match c.decimal? with
    | none => ([], c :: rest)
    | some d => ((takeDecimals rest).1.cons d, (takeDecimals rest).2)

/-- A sign, if there is one, and the rest; true for a minus. -/
def takeSign : Text → Bool × Text
  | [] => (false, [])
  | c :: rest => if c = '-' then (true, rest) else if c = '+' then (false, rest) else (false, c :: rest)

structure Numeral where
  negative : Bool
  whole : List Nat
  fraction : List Nat
  exponent : Int
  deriving DecidableEq, Repr

namespace Numeral

def decimal (n : Numeral) : Decimal :=
  ⟨ofDigits (n.whole ++ n.fraction), n.exponent - n.fraction.length⟩

def value (n : Numeral) : Binary64 := n.decimal.toBinary64 n.negative

/-- The fraction after a point; the point alone is an empty fraction. -/
def takeFraction : Text → Option (List Nat) × Text
  | [] => (none, [])
  | c :: rest => if c = '.' then ((takeDecimals rest).map some id) else (none, c :: rest)

/-- The exponent that fills the rest of a text; no text at all is the exponent zero. -/
def exponent? : Text → Option Int
  | [] => some 0
  | c :: rest =>
    if c = 'e' ∨ c = 'E' then
      let (negative, rest) := takeSign rest
      match takeDecimals rest with
      | (d :: ds, []) =>
        let n : Int := ofDigits (d :: ds)
        some (if negative then -n else n)
      | _ => none
    else none

/-- The numeral that a text is, with nothing before or after it. -/
def ofText? (t : Text) : Option Numeral := do
  let (negative, rest) := takeSign t
  let (whole, rest) := takeDecimals rest
  let (fraction, rest) := takeFraction rest
  if whole.isEmpty && (fraction.getD []).isEmpty then none
  let exponent ← exponent? rest
  return ⟨negative, whole, fraction.getD [], exponent⟩

end Numeral

/-- An integer text: a sign and at least one digit. -/
structure IntegerNumeral where
  negative : Bool
  digits : List Nat
  deriving DecidableEq, Repr

namespace IntegerNumeral

def value (n : IntegerNumeral) : Int :=
  if n.negative then -(ofDigits n.digits : Int) else ofDigits n.digits

/-- The integer that a text is, but for blanks around it. -/
def ofText? (t : Text) : Option IntegerNumeral :=
  let (negative, rest) := takeSign t.strip
  match takeDecimals rest with
  | (d :: ds, []) => some ⟨negative, d :: ds⟩
  | _ => none

/-- Integers are only converted up to this number of digits, zeros at the start included. -/
def maxDigits : Nat := 4300

end IntegerNumeral

/-! Conversion -/

/-- Why a text cannot be converted to an integer. -/
inductive IntegerError where
  | unreadable (t : Text)
  | tooManyDigits (count : Nat)
  deriving DecidableEq, Repr

/-- A text is shown up to this many code points, its quotes included. -/
def IntegerError.shownLength : Nat := 200

def IntegerError.message : IntegerError → String
  | .unreadable t =>
    let shown := String.ofList (t.quoted.toList.take shownLength)
    s!"invalid literal for int() with base 10: {shown}"
  | .tooManyDigits count =>
    s!"Exceeds the limit ({IntegerNumeral.maxDigits} digits) for integer string conversion: " ++
      s!"value has {count} digits; use sys.set_int_max_str_digits() to increase the limit"

/-- The values of digits with single underscores between them. -/
def groupedDigits? : Text → Option (List Nat)
  | [] => none
  | [c] => c.decimal?.map fun d => [d]
  | c :: e :: rest =>
    match c.decimal? with
    | none => none
    | some d =>
      if e = '_' then (groupedDigits? rest).map (d :: ·)
      else (groupedDigits? (e :: rest)).map (d :: ·)

/-- A decimal digit, or what may stand between two of them. -/
def CodePoint.isGrouped (c : CodePoint) : Bool := c.isDecimal || c = '_'

/-- The integer that a text is converted to. Too many digits are noticed before what follows
them. -/
def Text.toInteger (t : Text) : Except IntegerError Int :=
  let (negative, rest) := takeSign (t.dropWhile CodePoint.isMargin)
  match groupedDigits? (rest.takeWhile CodePoint.isGrouped) with
  | none => .error (.unreadable t)
  | some digits =>
    if IntegerNumeral.maxDigits < digits.length then .error (.tooManyDigits digits.length)
    else if (rest.dropWhile CodePoint.isGrouped).all CodePoint.isMargin then
      .ok (IntegerNumeral.value ⟨negative, digits⟩)
    else .error (.unreadable t)

namespace Text

/-- The number that a text is, but for blanks around it. -/
def number? (t : Text) : Option Binary64 := (Numeral.ofText? t.strip).map Numeral.value

def isInteger (t : Text) : Bool := (IntegerNumeral.ofText? t).isSome

end Text

end SigilScript
