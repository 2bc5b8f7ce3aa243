import SigilScript.Json.Reader

/-!
The type that a text has by its look: a truth value, a number, a JSON document or plain text.
-/
namespace SigilScript

inductive TextType where
  | bool | int | float | json | string
  deriving DecidableEq, Repr

def TextType.label : TextType → String
  | .bool => "bool"
  | .int => "int"
  | .float => "float"
  | .json => "json"
  | .string => "string"

namespace Text

def isBool (t : Text) : Bool := t = "true" || t = "false"

def isNumeric (t : Text) : Bool := t.number?.isSome

/-- Whether a text is a JSON document; the only error is nesting beyond the recursion limit. -/
def isJson (t : Text) : Except Json.ReadError Bool :=
  match Json.parse t with
  | .ok _ => .ok true
  | .error .recursionLimit => .error .recursionLimit
  | .error _ => .ok false

def type (t : Text) : Except Json.ReadError TextType :=
  if t.isBool then .ok .bool
  else if t.isInteger then .ok .int
  else if t.isNumeric then .ok .float
  else t.isJson.map fun json => if json then .json else .string

end Text

end SigilScript
