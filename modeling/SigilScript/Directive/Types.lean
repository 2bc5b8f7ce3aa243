import SigilScript.Registry
import SigilScript.TextType

/-!
Directives that tell what a text looks like.
-/
namespace SigilScript

namespace Text

/-- The remainder of a whole number by two; other texts have none. -/
def parity? (t : Text) : Option Int :=
  match t.number? with
  | none => none
  | some x => if x.isWhole then x.truncate?.map (· % 2) else none

def isText (t : Text) : Bool := !t.isEmpty && !t.isNumeric

def isFloat (t : Text) : Bool := t.isNumeric && !t.isInteger

def isEven (t : Text) : Bool := t.parity? = some 0

def isOdd (t : Text) : Bool := t.parity? = some 1

end Text

namespace Directive

/-- A directive that tests its argument. -/
def predicate (p : Text → Bool) : Handler := fun d args => do
  return .text (boolString (p (← d.argument args)))

def isNumeric : Handler := predicate Text.isNumeric

def isText : Handler := predicate Text.isText

def isBool : Handler := predicate Text.isBool

def isInt : Handler := predicate Text.isInteger

def isFloat : Handler := predicate Text.isFloat

/-- Only nesting beyond the recursion limit leaves it open whether a text is JSON. -/
def isJson : Handler := fun d args => do
  match (← d.argument args).isJson with
  | .error e => Exec.fail (.json e)
  | .ok b => return .text (boolString b)

def isNaN : Handler := predicate fun t => !t.isNumeric

def isEven : Handler := predicate Text.isEven

def isOdd : Handler := predicate Text.isOdd

def isMathExpression : Handler := predicate Arithmetic.looksArithmetic

def typeOf : Handler := fun d args => do
  match (← d.argument args).type with
  | .error e => Exec.fail (.json e)
  | .ok type => return .text type.label

end Directive

end SigilScript
