import SigilScript.Expr.Reader
import SigilScript.Store

/-!
Evaluation. Values convert as a loosely typed language does: a text that is a numeral counts as its
number, a blank text as zero and any other text as no number. Division by zero has a value, unless
evaluation is strict.
-/
namespace SigilScript

namespace Value

def toNumber : Value → Binary64
  | .bool b => if b then .one else .zero false
  | .number x => x
  | .text t => if t.strip.isEmpty then .zero false else t.number?.getD .nan

def toText : Value → Text
  | .bool b => if b then "true" else "false"
  | .number x => x.format
  | .text t => t

def truthy : Value → Bool
  | .bool b => b
  | .number x => !x.isZero && !x.isNaN
  | .text t => !t.isEmpty

/-- Equal and of one type. -/
def identical : Value → Value → Bool
  | .bool a, .bool b => a = b
  | .number x, .number y => x.equals y
  | .text s, .text t => s = t
  | _, _ => false

/-- Equal as they are, or as numbers if the types differ. -/
def looselyEqual (a b : Value) : Bool :=
  match a, b with
  | .bool _, .bool _ | .number _, .number _ | .text _, .text _ => identical a b
  | _, _ => a.toNumber.equals b.toNumber

/-- Two texts are ordered by their code points, anything else by number; nothing is ordered
against a value that is no number. -/
def less : Value → Value → Bool
  | .text s, .text t => decide (s < t)
  | a, b => a.toNumber.less b.toNumber

def atMost : Value → Value → Bool
  | .text s, .text t => !decide (t < s)
  | a, b => a.toNumber.atMost b.toNumber

def add (a b : Value) : Value :=
  match a, b with
  | .text _, _ | _, .text _ => .text (a.toText ++ b.toText)
  | _, _ => .number (a.toNumber.add b.toNumber)

end Value

namespace Expr

abbrev Bindings := List (Text × Value)

/-- A quotient or a remainder; a strict one has no zero divisor. -/
def divide (strict : Bool) (f : Binary64 → Binary64 → Binary64) (a b : Value) :
    Except ExprError Value :=
  if strict ∧ b.toNumber.isZero then .error .divisionByZero
  else .ok (.number (f a.toNumber b.toNumber))

def unaryValue (op : UnaryOp) (v : Value) : Value :=
  match op with
  | .not => .bool !v.truthy
  | .minus => .number v.toNumber.neg
  | .plus => .number v.toNumber

/-- The value of an operator on the values of both operands. -/
def binaryValue (strict : Bool) (op : BinaryOp) (a b : Value) : Except ExprError Value :=
  match op with
  | .or => .ok (if a.truthy then a else b)
  | .and => .ok (if a.truthy then b else a)
  | .equal => .ok (.bool (a.looselyEqual b))
  | .notEqual => .ok (.bool !a.looselyEqual b)
  | .identical => .ok (.bool (a.identical b))
  | .notIdentical => .ok (.bool !a.identical b)
  | .less => .ok (.bool (a.less b))
  | .atMost => .ok (.bool (a.atMost b))
  | .greater => .ok (.bool (b.less a))
  | .atLeast => .ok (.bool (b.atMost a))
  | .plus => .ok (a.add b)
  | .minus => .ok (.number (a.toNumber.sub b.toNumber))
  | .times => .ok (.number (a.toNumber.mul b.toNumber))
  | .divide => divide strict Binary64.div a b
  | .modulo => divide strict Binary64.rem a b

/-- The left operand decides alone whether the right one is evaluated. -/
def decides (op : BinaryOp) (a : Value) : Bool :=
  match op with
  | .or => a.truthy
  | .and => !a.truthy
  | _ => false

/-- Evaluates from the left, at most so many levels deep. -/
def evalAt (strict : Bool) (bindings : Bindings) : Nat → Expr → Except ExprError Value
  | 0, _ => .error .recursionLimit
  | _ + 1, .literal v => .ok v
  | _ + 1, .name n =>
    match bindings.lookup n with
    | none => .error (.unknownName n)
    | some v => .ok v
  | levels + 1, .unary op e => (evalAt strict bindings levels e).map (unaryValue op)
  | levels + 1, .binary op l r =>
    match evalAt strict bindings levels l with
    | .error e => .error e
    | .ok a =>
      if decides op a then .ok a
      else
        match evalAt strict bindings levels r with
        | .error e => .error e
        | .ok b => binaryValue strict op a b

def eval (strict : Bool) (bindings : Bindings) (e : Expr) : Except ExprError Value :=
  evalAt strict bindings maxRecursion e

/-- What a condition sees of the variables: numerals as numbers. -/
def bindingsOf (store : Store) : Bindings :=
  store.map fun (n, t) => (n, t.number?.elim (.text t) .number)

def evalCondition (t : Text) (bindings : Bindings) : Except ExprError Bool :=
  (parse t).bind fun e => (eval false bindings e).map Value.truthy

end Expr

/-! Arithmetic in the value of an assignment: everything that is not arithmetic is dropped. -/
namespace Arithmetic

def isTrigger (c : CodePoint) : Bool :=
  c = '+' || c = '-' || c = '*' || c = '/' || c = '(' || c = ')'

/-- A text with an arithmetic character in it, and without directives. -/
def looksArithmetic (t : Text) : Bool := !t.any (· = sigil) && t.any isTrigger

def sanitize (t : Text) : Text := t.filter fun c => c.isAsciiDigit || c = '.' || isTrigger c

def eval (t : Text) : Except ExprError Binary64 :=
  (Expr.parse (sanitize t)).bind fun e => (Expr.eval true [] e).map Value.toNumber

end Arithmetic

end SigilScript
