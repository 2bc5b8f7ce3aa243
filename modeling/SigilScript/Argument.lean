import SigilScript.Text.Blank

/-!
Arguments of a directive. They are separated by semicolons that stand outside brackets and quotes;
an empty last argument is dropped. Quotes around an argument are not part of it.
-/
namespace SigilScript.Argument

def isQuote (c : CodePoint) : Bool := c = '"' || c = '\''

/-- What surrounds a place: the number of open brackets, which may fall below zero, and the quote
that is open. -/
structure Nesting where
  depth : Int
  quote : Option CodePoint
  deriving DecidableEq, Repr

namespace Nesting

def outside : Nesting := ⟨0, none⟩

def next (s : Nesting) (c : CodePoint) : Nesting :=
  match s.quote with
  | some q => if c = q then { s with quote := none } else s
  | none =>
    if isQuote c then { s with quote := some c }
    else if c = '[' then { s with depth := s.depth + 1 }
    else if c = ']' then { s with depth := s.depth - 1 }
    else s

end Nesting

/-- A semicolon separates where nothing is open. -/
def separates (s : Nesting) (c : CodePoint) : Bool := c = ';' && s.next c = .outside

/-- The arguments from a place on; `current` has the begun one, last first. -/
def splitFrom (s : Nesting) (current : Text) : Text → List Text
  | [] => if current.isEmpty then [] else [current.reverse]
  | c :: rest =>
    if separates s c then current.reverse :: splitFrom (s.next c) [] rest
    else splitFrom (s.next c) (c :: current) rest

def split (args : Text) : List Text := splitFrom .outside [] args

/-- Without the blanks around a text, and then without a pair of equal quotes around it. -/
def unquote (t : Text) : Text :=
  match t.strip with
  | [] => []
  | first :: rest =>
    if isQuote first && rest.getLast? = some first then rest.dropLast else first :: rest

end SigilScript.Argument
