import SigilScript.Text.Search

/-!
Paths. A written path is a text whose parts stand between slashes. An `AbsolutePath` is a normal
form: it starts at the root and has no empty part, no `.` and no `..`. Two slashes at the start,
but not three, are kept apart from one.
-/
namespace SigilScript

structure AbsolutePath where
  doubled : Bool
  parts : List Text
  deriving DecidableEq, Repr

namespace AbsolutePath

def toText (p : AbsolutePath) : Text :=
  (if p.doubled then "//" else "/") ++ Text.join "/" p.parts

instance : ToString AbsolutePath := ⟨fun p => p.toText.toString⟩

end AbsolutePath

namespace Path

/-- A path that starts at the root. -/
def isAbsolute (path : Text) : Bool := path.head? = some ('/' : CodePoint)

/-- A path seen from a directory; an absolute one does not depend on it. -/
def join (directory path : Text) : Text :=
  if isAbsolute path then path
  else if directory.isEmpty ∨ directory.getLast? = some ('/' : CodePoint) then directory ++ path
  else directory ++ ('/' : CodePoint) :: path

/-- Drops empty parts and `.`, and lets `..` cancel the part before it; above the root there is
nothing. The parts that are done stand last first. -/
def collapse (done : List Text) : List Text → List Text
  | [] => done.reverse
  | part :: rest =>
    if part = [] ∨ part = "." then collapse done rest
    else if part = ".." then collapse done.tail rest
    else collapse (part :: done) rest

def isDoubled (path : Text) : Bool :=
  List.isPrefixOf (Text.ofString "//") path && !List.isPrefixOf (Text.ofString "///") path

/-- The normal form of a path that starts at the root. -/
def normalize (path : Text) : AbsolutePath := ⟨isDoubled path, collapse [] (path.splitOn '/')⟩

/-- The normal form of any path, seen from a directory. -/
def resolve (directory : AbsolutePath) (path : Text) : AbsolutePath :=
  normalize (join directory.toText path)

end Path

end SigilScript
