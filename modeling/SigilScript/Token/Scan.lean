import SigilScript.Identifier
import SigilScript.Text.Digit
import SigilScript.Token

/-!
Scanning a script into tokens. `lexeme` decides what starts at a place: how many code points it
takes, and the token it makes of them, unless they are blank or a comment. Scanning never fails; a
string that is not closed runs to the end of the input.
-/
namespace SigilScript

namespace CodePoint

/-- What may stand in a bare word, which may be the name of a file. -/
def isBarewordPart (c : CodePoint) : Bool :=
  c.isIdentifierPart || c = '-' || c = '.' || c = '/'

end CodePoint

namespace Token

/-- `extra` code points are taken beside the first; a lexeme without a class makes no token. -/
structure Lexeme where
  kind : Option TokenKind
  value : Text
  extra : Nat
  deriving DecidableEq, Repr

def keywords : List Text :=
  ["if", "elseif", "else", "endif", "while", "endwhile", "for", "endfor", "break", "continue",
    "exit"]

def booleans : List Text := ["true", "false"]

def wordKind (word : Text) : TokenKind :=
  if word ∈ booleans then .boolean else if word ∈ keywords then .keyword else .identifier

/-- The content of a string after its opening quote, and the length of what it was read from. A
backslash stands for the code point after it. -/
def stringContent (quote : CodePoint) : Text → Text × Nat
  | [] => ([], 0)
  | c :: rest =>
    if c = '\\' then
      match rest with
      | [] => ([], 1)
      | d :: rest =>
        let (value, length) := stringContent quote rest
        (d :: value, length + 2)
    else if c = quote then ([], 1)
    else
      let (value, length) := stringContent quote rest
      (c :: value, length + 1)

/-- A mark followed by a name refers to something; a mark alone does not. -/
def reference (kind : TokenKind) (mark : CodePoint) (rest : Text) : Lexeme :=
  match rest.takeIdentifier.1 with
  | [] => ⟨some .other, [mark], 0⟩
  | name => ⟨some kind, name, name.length⟩

/-- What starts with `c`, followed by `rest`. -/
def lexeme (c : CodePoint) (rest : Text) : Lexeme :=
  if c = ' ' ∨ c = '\t' ∨ c = '\r' ∨ c = '\n' then ⟨none, [], 0⟩
  else if c = commentMark then ⟨none, [], (rest.takeWhile fun d : CodePoint => d ≠ '\n').length⟩
  else if c = sigil then reference .function c rest
  else if c = variableMark then reference .variableName c rest
  else if c = '[' then ⟨some .leftBracket, [c], 0⟩
  else if c = ']' then ⟨some .rightBracket, [c], 0⟩
  else if c = ';' then ⟨some .semicolon, [c], 0⟩
  else if c = '"' ∨ c = '\'' then
    let (value, length) := stringContent c rest
    ⟨some .string, value, length⟩
  else if c.isDigit then
    let more := rest.takeWhile fun d : CodePoint => d.isDigit || d = '.'
    ⟨some .number, c :: more, more.length⟩
  else if c.isBarewordPart then
    let more := rest.takeWhile CodePoint.isBarewordPart
    ⟨some (wordKind (c :: more)), c :: more, more.length⟩
  else ⟨some .other, [c], 0⟩

/-- The tokens of a text that starts at `position`. -/
def scanFrom (position : Position) : Text → List Token
  | [] => [⟨.endOfInput, [], position⟩]
  | c :: rest =>
    let l := lexeme c rest
    let tokens := scanFrom (position.after (c :: rest.take l.extra)) (rest.drop l.extra)
    match l.kind with
    | none => tokens
    | some kind => ⟨kind, l.value, position⟩ :: tokens
termination_by t => t.length
decreasing_by simp only [List.length_drop, List.length_cons]; omega

def scan (t : Text) : List Token := scanFrom .start t

end Token

end SigilScript
