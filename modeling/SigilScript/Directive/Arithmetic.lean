import SigilScript.Directive.Control

/-!
Directives that compute with numbers. Operands that are no numbers are reported, and the result is
then zero.
-/
namespace SigilScript.Directive

/-- The first two arguments as numbers; none after a report. -/
def operands (d : Dispatcher) (name : String) (args : Text) :
    Exec (Option (Binary64 × Binary64)) := do
  match ← d.arguments args with
  | a :: b :: _ =>
    match a.number?, b.number? with
    | some x, some y => return some (x, y)
    | _, _ =>
      Exec.error name.toUpper s!"Invalid numeric arguments: '{a}' and '{b}'"
      return none
  | _ =>
    Exec.error name.toUpper s!"§{name} expects two arguments, got: §{name}[{args}]"
    return none

/-- A directive with two numbers and a number as its result. -/
def binary (name : String) (f : Binary64 → Binary64 → Binary64) : Handler := fun d args => do
  match ← operands d name args with
  | none => return .text "0"
  | some (x, y) => return .text (← finiteOrZero name.toUpper (f x y))

def add : Handler := binary "add" .add

def sub : Handler := binary "sub" .sub

def mul : Handler := binary "mul" .mul

/-- `§div[a; b]`; a zero divisor is reported. -/
def div : Handler := fun d args => do
  match ← operands d "div" args with
  | none => return .text "0"
  | some (x, y) =>
    if y.isZero then
      Exec.error "DIV" s!"Division by zero: {x.format} / {y.format}"
      return .text "0"
    return .text (← finiteOrZero "DIV" (x.div y))

/-- One half. -/
def half : Binary64 := Binary64.one.div (.ofInt 2)

/-- `§round[x]` is the greatest whole number at most `x + 0.5`. -/
def round : Handler := fun d args => do
  let t ← d.argument args
  match t.number? with
  | none =>
    Exec.error "ROUND" s!"Invalid numeric argument: '{t}'"
    return .text "0"
  | some x =>
    match (x.add half).floor? with
    | none => Exec.fail .infiniteInteger
    | some n => return .text (← finiteOrZero "ROUND" (.ofInt n))

/-- Random numbers are drawn between bounds of 64 bits. -/
def minBound : Int := -Int.pow 2 63

def maxBound : Int := Int.pow 2 63 - 1

/-- `§random[min; max]` is a whole number between two bounds, both included. -/
def random : Handler := fun d args => do
  match ← d.arguments args with
  | a :: b :: _ =>
    match a.number?.bind Binary64.truncate?, b.number?.bind Binary64.truncate? with
    | some low, some high =>
      if high < low then
        Exec.error "RANDOM" s!"Invalid range: min {low} is greater than max {high}"
        return .text "0"
      if low < minBound ∨ maxBound < high then
        Exec.error "RANDOM" s!"Range {low}..{high} is outside the supported integer range"
        return .text "0"
      return .text (toString (← Exec.draw low high))
    | _, _ =>
      Exec.error "RANDOM" s!"Invalid numeric arguments: '{a}' and '{b}'"
      return .text "0"
  | _ =>
    Exec.error "RANDOM" s!"§random expects [min; max], got: §random[{args}]"
    return .text "0"

end SigilScript.Directive
