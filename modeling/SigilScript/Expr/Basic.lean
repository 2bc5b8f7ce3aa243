import SigilScript.Limit
import SigilScript.Number.Notation
import SigilScript.Number.Numeral
import SigilScript.Text.Quoted

/-!
Expressions of conditions and arithmetic: values, operators, trees and everything that can go
wrong with them.
-/
namespace SigilScript

inductive Value where
  | number (x : Binary64)
  | text (t : Text)
  | bool (b : Bool)
  deriving DecidableEq

inductive UnaryOp where
  | not | minus | plus
  deriving DecidableEq, Repr

inductive BinaryOp where
  | or | and
  | equal | notEqual | identical | notIdentical | less | atMost | greater | atLeast
  | plus | minus | times | divide | modulo
  deriving DecidableEq, Repr

def UnaryOp.symbol : UnaryOp → String
  | .not => "!"
  | .minus => "-"
  | .plus => "+"

def BinaryOp.symbol : BinaryOp → String
  | .or => "||"
  | .and => "&&"
  | .equal => "=="
  | .notEqual => "!="
  | .identical => "==="
  | .notIdentical => "!=="
  | .less => "<"
  | .atMost => "<="
  | .greater => ">"
  | .atLeast => ">="
  | .plus => "+"
  | .minus => "-"
  | .times => "*"
  | .divide => "/"
  | .modulo => "%"

inductive Expr where
  | literal (value : Value)
  | name (name : Text)
  | unary (op : UnaryOp) (operand : Expr)
  | binary (op : BinaryOp) (left right : Expr)
  deriving DecidableEq

/-- Positions count code points of the text of the expression, from zero. -/
inductive ExprError where
  | unexpectedCharacter (c : CodePoint) (position : Nat)
  | unterminatedString (position : Nat)
  | unexpectedToken (value : Text) (position : Nat)
  | expectedParenthesis (position : Nat)
  | unexpectedEnd
  | unreadableNumber (text : Text)
  | unknownName (name : Text)
  | divisionByZero
  | recursionLimit
  deriving DecidableEq, Repr

def ExprError.message : ExprError → String
  | .unexpectedCharacter c position => s!"Unexpected character '{c.toChar}' at position {position}"
  | .unterminatedString position => s!"Unterminated string starting at position {position}"
  | .unexpectedToken value position => s!"Unexpected '{value}' at position {position}"
  | .expectedParenthesis position => s!"Expected ')' at position {position}"
  | .unexpectedEnd => "Unexpected end of expression"
  | .unreadableNumber text => s!"could not convert string to float: {text.quoted}"
  | .unknownName name => s!"Unknown name '{name}'"
  | .divisionByZero => "Division by zero"
  | .recursionLimit => recursionMessage

end SigilScript
