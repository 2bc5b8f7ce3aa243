import SigilScript.Json.Basic
import SigilScript.Text.Quoted
import SigilScript.Text.Search

/-!
Paths into a document: parts between points, each the name of a member or the index of an item. A
negative index counts from the end.
-/
namespace SigilScript

namespace Json

inductive PathError where
  | missing (part : Text)
  | badIndex (error : IntegerError)
  deriving DecidableEq, Repr

/-- The index that a part is in a list of the given length, if it is one. A part that is an integer
text has to be convertible. -/
def index? (length : Nat) (part : Text) : Except PathError (Option Nat) :=
  if !part.isInteger then .ok none
  else
    match part.toInteger with
    | .error e => .error (.badIndex e)
    | .ok i =>
      if 0 ≤ i then .ok (if i < length then some i.toNat else none)
      else .ok (if -(length : Int) ≤ i then some (i + length).toNat else none)

/-- The value at a path, if there is one. -/
def get? (document : Json) : List Text → Except PathError (Option Json)
  | [] => .ok (some document)
  | part :: parts =>
    match document with
    | .object members =>
      match members.lookup part with
      | none => .ok none
      | some child => child.get? parts
    | .array items => do
      match (← index? items.length part).bind (items[·]?) with
      | none => return none
      | some child => child.get? parts
    | _ => .ok none

/-- A container to go on in: the child itself, or an empty object in place of anything else. -/
def asContainer (child : Option Json) : Json :=
  match child with
  | some (.array items) => .array items
  | some (.object members) => .object members
  | _ => .object []

/-- Sets the value at a path inside a container, adding objects on the way. A path that leads
nowhere gives an error, together with the document as far as it was changed. -/
def setIn (container : Json) (value : Json) : List Text → Json × Option PathError
  | [] => (value, none)
  | part :: parts =>
    match container with
    | .object members =>
      match parts with
      | [] => (.object (insert part value members), none)
      | _ :: _ =>
        let (child, error) := setIn (asContainer (members.lookup part)) value parts
        (.object (insert part child members), error)
    | .array items =>
      match index? items.length part with
      | .error e => (.array items, some e)
      | .ok none => (.array items, some (.missing part))
      | .ok (some i) =>
        match parts with
        | [] => (.array (items.set i value), none)
        | _ :: _ =>
          let (child, error) := setIn (asContainer items[i]?) value parts
          (.array (items.set i child), error)
    | other => (other, some (.missing part))

/-- The parts of a path as it is written. -/
def pathParts (key : Text) : List Text := key.splitOn '.'

/-- Sets the value at a written path; the empty path is the whole document, and anything but a
container makes way for an object. -/
def setPath (document : Json) (key : Text) (value : Json) : Json × Option PathError :=
  if key = [] then (value, none) else (asContainer (some document)).setIn value (pathParts key)

end Json

end SigilScript
