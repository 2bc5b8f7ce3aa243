import SigilScript.Text.Quoted

/-!
Tokens of a script, for tools: a class, a value and the place where the token starts. Lines and
columns count from one.
-/
namespace SigilScript

inductive TokenKind where
  | function | variableName | leftBracket | rightBracket | semicolon | string | number
  | boolean | keyword | identifier | other | endOfInput
  deriving DecidableEq, Repr

def TokenKind.label : TokenKind → String
  | .function => "FUNCTION"
  | .variableName => "VARIABLE"
  | .leftBracket => "LBRACKET"
  | .rightBracket => "RBRACKET"
  | .semicolon => "SEMICOLON"
  | .string => "STRING"
  | .number => "NUMBER"
  | .boolean => "BOOLEAN"
  | .keyword => "KEYWORD"
  | .identifier => "IDENTIFIER"
  | .other => "OTHER"
  | .endOfInput => "EOF"

structure Position where
  line : Nat
  column : Nat
  deriving DecidableEq, Repr

namespace Position

def start : Position := ⟨1, 1⟩

/-- The place after one code point. -/
def next (p : Position) (c : CodePoint) : Position :=
  if c = '\n' then ⟨p.line + 1, 1⟩ else ⟨p.line, p.column + 1⟩

/-- The place after a text. -/
def after (p : Position) (t : Text) : Position := t.foldl next p

@[simp] theorem after_nil (p : Position) : p.after [] = p := rfl
@[simp] theorem after_cons (p : Position) (c : CodePoint) (t : Text) :
    p.after (c :: t) = (p.next c).after t := rfl
theorem after_append (p : Position) (s t : Text) : p.after (s ++ t) = (p.after s).after t := by
  simp [after]

def render (p : Position) : String := s!"L{p.line}:C{p.column}"

end Position

structure Token where
  kind : TokenKind
  value : Text
  position : Position
  deriving DecidableEq, Repr

def Token.render (t : Token) : String :=
  s!"Token({t.kind.label}, {t.value.quoted}, {t.position.render})"

/-- The tokens of each class, in the order in which the classes first occur. -/
def Token.groups (tokens : List Token) : List (TokenKind × List Token) :=
  let kinds := (tokens.map Token.kind).eraseDups
  kinds.map fun kind => (kind, tokens.filter (·.kind = kind))

/-- A listing of all tokens but the end of input, by class. -/
def Token.dump (tokens : List Token) : String :=
  let tokens := tokens.filter (·.kind ≠ .endOfInput)
  let group := fun (kind, members) =>
    s!"{TokenKind.label kind} ({List.length members}):" ::
      members.map fun t => s!"  {t.value.quoted} @ {t.position.render}"
  "\n".intercalate (s!"Total tokens: {tokens.length}" :: (Token.groups tokens).flatMap group)

end SigilScript
