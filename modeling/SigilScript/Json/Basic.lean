import SigilScript.Number.Numeral

/-!
JSON documents. Whole numbers are exact, other numbers are binary64 numbers, and the members of an
object keep the order in which their names were first seen.
-/
namespace SigilScript

inductive Json where
  | null
  | bool (value : Bool)
  | integer (value : Int)
  | number (value : Binary64)
  | string (value : Text)
  | array (items : List Json)
  | object (members : List (Text × Json))

namespace Json

instance : Inhabited Json := ⟨.null⟩

def isContainer : Json → Bool
  | .array _ | .object _ => true
  | _ => false

mutual

/-- The number of levels of brackets. -/
def depth : Json → Nat
  | .array items => depthOfItems items + 1
  | .object members => depthOfMembers members + 1
  | _ => 0

def depthOfItems : List Json → Nat
  | [] => 0
  | item :: items => max item.depth (depthOfItems items)

def depthOfMembers : List (Text × Json) → Nat
  | [] => 0
  | (_, value) :: members => max value.depth (depthOfMembers members)

end

/-- Sets a member in place, or adds it at the end. -/
def insert (name : Text) (value : Json) : List (Text × Json) → List (Text × Json)
  | [] => [(name, value)]
  | (n, v) :: rest => if n = name then (n, value) :: rest else (n, v) :: insert name value rest

/-- Members in the order of first occurrence, each with its last value. -/
def ofMembers (members : List (Text × Json)) : Json :=
  .object (members.foldl (fun done (n, v) => insert n v done) [])

end Json

end SigilScript
