import SigilScript.Expr.Token

/-!
From tokens to trees. The grammar, loosest first: alternatives `||`, conjunctions `&&`, negation
`!`, one comparison, sums, products, signs, and atoms. All binary operators but the comparisons
group to the left. A level of nesting is a parenthesis, a negation or a sign; `parseAt` goes down a
given number of levels, each defined by `step` from the next one down.
-/
namespace SigilScript.Expr

/-- The places of the grammar at which a level of nesting starts. -/
inductive Entry where
  | alternatives | negation | sign
  deriving DecidableEq, Repr

abbrev Parser := List ExprToken → Except ExprError (Expr × List ExprToken)

/-- The operator that a token is. -/
def operator? (tokens : List ExprToken) : Option Operator :=
  match tokens with
  | ⟨.operator op, _⟩ :: _ => some op
  | _ => none

def orOp? : Operator → Option BinaryOp
  | .or => some .or
  | _ => none

def andOp? : Operator → Option BinaryOp
  | .and => some .and
  | _ => none

def comparisonOp? : Operator → Option BinaryOp
  | .equal => some .equal
  | .notEqual => some .notEqual
  | .identical => some .identical
  | .notIdentical => some .notIdentical
  | .less => some .less
  | .atMost => some .atMost
  | .greater => some .greater
  | .atLeast => some .atLeast
  | _ => none

def sumOp? : Operator → Option BinaryOp
  | .plus => some .plus
  | .minus => some .minus
  | _ => none

def productOp? : Operator → Option BinaryOp
  | .times => some .times
  | .divide => some .divide
  | .modulo => some .modulo
  | _ => none

def signOp? : Operator → Option UnaryOp
  | .plus => some .plus
  | .minus => some .minus
  | _ => none

/-- Operands of one rank after `left`, grouped to the left. Each takes a token, so `fuel` at least
the number of tokens suffices. -/
def chainFrom (op? : Operator → Option BinaryOp) (operand : Parser) : Nat → Expr → Parser
  | 0, left, tokens => .ok (left, tokens)
  | fuel + 1, left, tokens =>
    match (operator? tokens).bind op? with
    | none => .ok (left, tokens)
    | some op =>
      match operand tokens.tail with
      | .error e => .error e
      | .ok (right, rest) => chainFrom op? operand fuel (.binary op left right) rest

def chain (op? : Operator → Option BinaryOp) (operand : Parser) : Parser := fun tokens =>
  match operand tokens with
  | .error e => .error e
  | .ok (left, rest) => chainFrom op? operand rest.length left rest

/-- At most one comparison. -/
def comparison (operand : Parser) : Parser := fun tokens =>
  match operand tokens with
  | .error e => .error e
  | .ok (left, rest) =>
    match (operator? rest).bind comparisonOp? with
    | none => .ok (left, rest)
    | some op => (operand rest.tail).map fun (right, rest) => (.binary op left right, rest)

def readNumber (text : Text) : Except ExprError Binary64 :=
  match Numeral.ofText? text with
  | none => .error (.unreadableNumber text)
  | some numeral => .ok numeral.value

/-- The closing parenthesis after an expression. -/
def closeParenthesis : Expr × List ExprToken → Except ExprError (Expr × List ExprToken)
  | (e, ⟨.rightParenthesis, _⟩ :: rest) => .ok (e, rest)
  | (_, token :: _) => .error (.expectedParenthesis token.position)
  | (_, []) => .error .unexpectedEnd

def atom (alternatives : Parser) : Parser
  | [] => .error .unexpectedEnd
  | token :: rest =>
    match token.lexeme with
    | .number text => (readNumber text).map fun x => (.literal (.number x), rest)
    | .string value => .ok (.literal (.text value), rest)
    | .bool value => .ok (.literal (.bool value), rest)
    | .name n => .ok (.name n, rest)
    | .leftParenthesis => (alternatives rest).bind closeParenthesis
    | .endOfInput => .error .unexpectedEnd
    | .rightParenthesis | .operator _ =>
      .error (.unexpectedToken token.lexeme.value token.position)

/-- Signs before an atom, given the parsers one level down. -/
def signed (below : Entry → Parser) : Parser := fun tokens =>
  match (operator? tokens).bind signOp? with
  | some op => (below .sign tokens.tail).map fun (e, rest) => (.unary op e, rest)
  | none => atom (below .alternatives) tokens

def product (below : Entry → Parser) : Parser := chain productOp? (signed below)

def sum (below : Entry → Parser) : Parser := chain sumOp? (product below)

def negated (below : Entry → Parser) : Parser := fun tokens =>
  if operator? tokens = some .not then
    (below .negation tokens.tail).map fun (e, rest) => (.unary .not e, rest)
  else comparison (sum below) tokens

def conjunction (below : Entry → Parser) : Parser := chain andOp? (negated below)

def alternatives (below : Entry → Parser) : Parser := chain orOp? (conjunction below)

def step (below : Entry → Parser) : Entry → Parser
  | .alternatives => alternatives below
  | .negation => negated below
  | .sign => signed below

/-- Parses with at most so many levels of nesting. -/
def parseAt : Nat → Entry → Parser
  | 0, _, _ => .error .recursionLimit
  | levels + 1, entry, tokens => step (parseAt levels) entry tokens

/-- The tree of a whole list of tokens. -/
def ofTokens (tokens : List ExprToken) : Except ExprError Expr :=
  match parseAt maxRecursion .alternatives tokens with
  | .error e => .error e
  | .ok (e, ⟨.endOfInput, _⟩ :: _) => .ok e
  | .ok (_, token :: _) => .error (.unexpectedToken token.lexeme.value token.position)
  | .ok (_, []) => .error .unexpectedEnd

def parse (t : Text) : Except ExprError Expr := (ExprToken.scan t).bind ofTokens

end SigilScript.Expr
