import SigilScript.Text.CodePoint

/-!
Identifiers: an ASCII letter or an underscore, then letters, digits and underscores. Directives
and variables have such names, whatever script the text around them is in.
-/
namespace SigilScript

/-- The mark before the name of a directive. -/
def sigil : CodePoint := '§'

/-- The mark before the name of a variable. -/
def variableMark : CodePoint := '$'

/-- The mark that starts a comment line. -/
def commentMark : CodePoint := '#'

namespace CodePoint

def isAsciiDigit (c : CodePoint) : Bool := 48 ≤ c.val && c.val ≤ 57

def isIdentifierStart (c : CodePoint) : Bool :=
  (97 ≤ c.val && c.val ≤ 122) || (65 ≤ c.val && c.val ≤ 90) || c.val = 95

def isIdentifierPart (c : CodePoint) : Bool := c.isIdentifierStart || c.isAsciiDigit

end CodePoint

namespace Text

/-- The identifier that starts a text, which may be empty, and the rest. -/
def takeIdentifier : Text → Text × Text
  | [] => ([], [])
  | c :: rest =>
    if c.isIdentifierStart then
      (c :: rest.takeWhile CodePoint.isIdentifierPart, rest.dropWhile CodePoint.isIdentifierPart)
    else ([], c :: rest)

theorem takeIdentifier_append (t : Text) : t.takeIdentifier.1 ++ t.takeIdentifier.2 = t := by
  cases t with
  | nil => rfl
  | cons c rest =>
    simp only [takeIdentifier]
    split
    · simp [List.takeWhile_append_dropWhile]
    · rfl

theorem takeIdentifier_length (t : Text) : t.takeIdentifier.2.length ≤ t.length := by
  have h := congrArg List.length (takeIdentifier_append t)
  simp only [List.length_append] at h
  omega

/-- A name: an identifier and nothing else. -/
def isName (t : Text) : Bool := !t.isEmpty && t.takeIdentifier.2.isEmpty

end Text

end SigilScript
