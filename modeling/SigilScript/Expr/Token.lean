import SigilScript.Expr.Basic
import SigilScript.Identifier
import SigilScript.Text.Digit

/-!
Tokens of an expression. The digits of a number may be of any script and even superscripts, which
are refused only when the number is read. Of the operators that start at a place the longest is
taken.
-/
namespace SigilScript

inductive Operator where
  | identical | notIdentical | equal | notEqual | atMost | atLeast | and | or | less | greater
  | not | plus | minus | times | divide | modulo
  deriving DecidableEq, Repr

def Operator.symbol : Operator → String
  | .identical => "==="
  | .notIdentical => "!=="
  | .equal => "=="
  | .notEqual => "!="
  | .atMost => "<="
  | .atLeast => ">="
  | .and => "&&"
  | .or => "||"
  | .less => "<"
  | .greater => ">"
  | .not => "!"
  | .plus => "+"
  | .minus => "-"
  | .times => "*"
  | .divide => "/"
  | .modulo => "%"

/-- All operators, none after one that starts with it. -/
def Operator.all : List Operator :=
  [.identical, .notIdentical, .equal, .notEqual, .atMost, .atLeast, .and, .or, .less, .greater,
    .not, .plus, .minus, .times, .divide, .modulo]

inductive ExprLexeme where
  | number (text : Text)
  | string (value : Text)
  | bool (value : Bool)
  | name (name : Text)
  | leftParenthesis
  | rightParenthesis
  | operator (op : Operator)
  | endOfInput
  deriving DecidableEq, Repr

namespace ExprLexeme

/-- The text of a lexeme, as messages show it. -/
def value : ExprLexeme → Text
  | .number text => text
  | .string value => value
  | .bool value => if value then "true" else "false"
  | .name n => n
  | .leftParenthesis => "("
  | .rightParenthesis => ")"
  | .operator op => op.symbol
  | .endOfInput => []

end ExprLexeme

structure ExprToken where
  lexeme : ExprLexeme
  position : Nat
  deriving DecidableEq, Repr

namespace ExprToken

/-- The length of an exponent with at least one digit at the start of a text, or zero. -/
def exponentLength (t : Text) : Nat :=
  match t with
  | [] => 0
  | e :: rest =>
    let sign := if rest.head? = some ('+' : CodePoint) ∨ rest.head? = some ('-' : CodePoint) then 1 else 0
    let digits := ((rest.drop sign).takeWhile CodePoint.isDigit).length
    if (e = 'e' ∨ e = 'E') ∧ 0 < digits then 1 + sign + digits else 0

/-- The length of a point and the digits after it at the start of a text, or zero. -/
def fractionLength (t : Text) : Nat :=
  match t with
  | [] => 0
  | c :: rest => if c = '.' then 1 + (rest.takeWhile CodePoint.isDigit).length else 0

/-- The length of a number that starts a text. -/
def numberLength (t : Text) : Nat :=
  let whole := (t.takeWhile CodePoint.isDigit).length
  let fraction := fractionLength (t.drop whole)
  whole + fraction + exponentLength (t.drop (whole + fraction))

/-- The content of a string after its opening quote, and the length of what it was read from with
the closing quote, if that is there. A backslash stands for the code point after it. -/
def stringContent? (quote : CodePoint) : Text → Option (Text × Nat)
  | [] => none
  | c :: rest =>
    if c = '\\' then
      match rest with
      | [] => none
      | d :: rest => (stringContent? quote rest).map fun (value, n) => (d :: value, n + 2)
    else if c = quote then some ([], 1)
    else (stringContent? quote rest).map fun (value, n) => (c :: value, n + 1)

def startsNumber (c : CodePoint) (rest : Text) : Bool :=
  c.isDigit || (c = '.' && rest.head?.any CodePoint.isDigit)

def wordLexeme (word : Text) : ExprLexeme :=
  if word = "true" then .bool true else if word = "false" then .bool false else .name word

/-- What starts with `c` at `position`, followed by `rest`, and the number of code points that it
takes beside `c`. -/
def lexemeAt (position : Nat) (c : CodePoint) (rest : Text) : Except ExprError (ExprLexeme × Nat) :=
  if startsNumber c rest then
    let n := numberLength (c :: rest)
    .ok (.number ((c :: rest).take n), n - 1)
  else if c = '"' ∨ c = '\'' then
    match stringContent? c rest with
    | none => .error (.unterminatedString position)
    | some (value, n) => .ok (.string value, n)
  else if c.isIdentifierStart then
    let more := rest.takeWhile CodePoint.isIdentifierPart
    .ok (wordLexeme (c :: more), more.length)
  else if c = '(' then .ok (.leftParenthesis, 0)
  else if c = ')' then .ok (.rightParenthesis, 0)
  else
    match Operator.all.find? fun op => (Text.ofString op.symbol).isPrefixOf (c :: rest) with
    | some op => .ok (.operator op, op.symbol.length - 1)
    | none => .error (.unexpectedCharacter c position)

/-- The tokens of a text that starts at `position`. -/
def scanFrom (position : Nat) : Text → Except ExprError (List ExprToken)
  | [] => .ok [⟨.endOfInput, position⟩]
  | c :: rest =>
    if c.isBlank then scanFrom (position + 1) rest
    else
      match lexemeAt position c rest with
      | .error e => .error e
      | .ok (l, extra) =>
        (scanFrom (position + 1 + extra) (rest.drop extra)).map (⟨l, position⟩ :: ·)
termination_by t => t.length
decreasing_by all_goals simp only [List.length_cons, List.length_drop]; omega

def scan (t : Text) : Except ExprError (List ExprToken) := scanFrom 0 t

end ExprToken

end SigilScript
