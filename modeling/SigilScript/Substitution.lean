import SigilScript.Identifier
import SigilScript.Store

/-!
Substitution of variables: one pass from the left, in which each variable mark and the longest
variable name after it give way to the value. Values are not looked at again. The names are put in
order before the pass; a pattern made from them can be kept for as long as the names stay the same.
-/
namespace SigilScript

/-- The names of the variables, in the order of their first assignment. -/
def Store.names (store : Store) : List Text := store.map (·.1)

namespace Substitution

/-- The names to look for after a variable mark, in the order in which they are tried. -/
structure Pattern where
  names : List Text
  deriving DecidableEq, Repr

namespace Pattern

/-- Puts a name before the first one that is not longer. -/
def insertName (name : Text) : List Text → List Text
  | [] => [name]
  | first :: rest =>
    if first.length ≤ name.length then name :: first :: rest else first :: insertName name rest

/-- Longer names are tried before shorter ones. -/
def ofNames (names : List Text) : Pattern := ⟨names.foldr insertName []⟩

/-- The name that is found at the start of a text. -/
def match? (p : Pattern) (t : Text) : Option Text := p.names.find? (·.isPrefixOf t)

/-- Replaces what is found in a text; `skip` counts the code points of a name that are still to be
passed over. -/
def replaceFrom (p : Pattern) (store : Store) : Nat → Text → Text
  | _, [] => []
  | skip + 1, _ :: rest => p.replaceFrom store skip rest
  | 0, c :: rest =>
    if c = variableMark then
      match p.match? rest with
      | none => c :: p.replaceFrom store 0 rest
      | some name => (store.lookup name).getD [] ++ p.replaceFrom store name.length rest
    else c :: p.replaceFrom store 0 rest

end Pattern

/-- A pattern, and the names that it was made from. -/
structure Compiled where
  names : List Text
  pattern : Pattern
  deriving DecidableEq, Repr

def Compiled.ofNames (names : List Text) : Compiled := ⟨names, .ofNames names⟩

/-- The pattern for some names: the one that was kept if it was made from the same names, and else a
new one. Without names there is none. -/
def compile (kept : Option Compiled) (names : List Text) : Option Compiled :=
  if names.isEmpty then none
  else
    match kept with
    | none => some (.ofNames names)
    | some made => if made.names = names then some made else some (.ofNames names)

/-- Substitutes in a text with the pattern that was kept, and gives the one to keep. -/
def substituteKeeping (kept : Option Compiled) (store : Store) (t : Text) : Text × Option Compiled :=
  if variableMark ∈ t then
    match compile kept store.names with
    | none => (t, kept)
    | some made => (made.pattern.replaceFrom store 0 t, some made)
  else (t, kept)

def substitute (store : Store) (t : Text) : Text := (substituteKeeping none store t).1

end Substitution

end SigilScript
