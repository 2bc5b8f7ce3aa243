import SigilScript.Files.Path
import SigilScript.Text.Utf8

/-!
A tree of files and directories, and what reading and writing by path does to it. A path that is
opened is followed part by part, so `a/../b` needs a directory `a`; a slash at its end asks for a
directory. Paths that spell the same bytes are the same path.
-/
namespace SigilScript

inductive Entry where
  | file (bytes : List UInt8)
  | directory
  deriving DecidableEq, Repr

/-- Entries by their parts from the root, which is always a directory. -/
structure FileTree where
  workingDirectory : AbsolutePath
  entries : List (List Text × Entry)
  deriving DecidableEq, Repr

inductive FileError where
  | notFound | alreadyExists | notADirectory | isADirectory | nameTooLong
  | nullByte
  | unencodable (error : Utf8.EncodeError)
  deriving DecidableEq, Repr

namespace FileError

def number : FileError → Nat
  | .notFound => 2
  | .alreadyExists => 17
  | .notADirectory => 20
  | .isADirectory => 21
  | .nameTooLong => 36
  | .nullByte | .unencodable _ => 0

def reason : FileError → String
  | .notFound => "No such file or directory"
  | .alreadyExists => "File exists"
  | .notADirectory => "Not a directory"
  | .isADirectory => "Is a directory"
  | .nameTooLong => "File name too long"
  | .nullByte => "embedded null byte"
  | .unencodable e => e.message

/-- The path itself is at fault, and not the tree. -/
def isBadPath : FileError → Bool
  | .nullByte | .unencodable _ => true
  | _ => false

def message (path : Text) (e : FileError) : String :=
  if e.isBadPath then e.reason else s!"[Errno {e.number}] {e.reason}: {path.quoted}"

end FileError

namespace FileTree

def get? (tree : FileTree) (parts : List Text) : Option Entry :=
  if parts = [] then some .directory else tree.entries.lookup parts

/-- Sets an entry in place, or adds it. -/
def setEntry (parts : List Text) (entry : Entry) :
    List (List Text × Entry) → List (List Text × Entry)
  | [] => [(parts, entry)]
  | (p, e) :: rest =>
    if p = parts then (p, entry) :: rest else (p, e) :: setEntry parts entry rest

def put (tree : FileTree) (parts : List Text) (entry : Entry) : FileTree :=
  { tree with entries := setEntry parts entry tree.entries }

def byteLength (t : Text) : Nat := (t.flatMap Utf8.encodeNamePoint).length

/-- A name can be this many bytes long. -/
def maxNameBytes : Nat := 255

/-- A path is shorter than this many bytes. -/
def maxPathBytes : Nat := 4096

/-- A path as its bytes spell it; or what is wrong with it before the tree is looked at. -/
def openPath (path : Text) : Except FileError Text :=
  match Utf8.encodeName path with
  | .error e => .error (.unencodable e)
  | .ok bytes =>
    if bytes.contains 0 then .error .nullByte
    else if path.isEmpty then .error .notFound
    else if maxPathBytes ≤ bytes.length then .error .nameTooLong
    else .ok (Utf8.decodeName bytes)

/-- Follows the parts of a path from a directory on; nothing may follow a missing entry or a
file. -/
def walk (tree : FileTree) (here : List Text) : List Text → Except FileError (List Text × Entry)
  | [] => .ok (here, .directory)
  | part :: rest =>
    if part = [] ∨ part = "." then tree.walk here rest
    else if part = ".." then tree.walk here.dropLast rest
    else if maxNameBytes < byteLength part then .error .nameTooLong
    else
      match tree.get? (here ++ [part]) with
      | none => .error .notFound
      | some .directory => tree.walk (here ++ [part]) rest
      | some entry => if rest = [] then .ok (here ++ [part], entry) else .error .notADirectory

/-- Where following a path starts. -/
def start (tree : FileTree) (path : Text) : List Text :=
  if Path.isAbsolute path then [] else tree.workingDirectory.parts

/-- The entry at a path. -/
def locate (tree : FileTree) (path : Text) : Except FileError (List Text × Entry) := do
  let path ← openPath path
  tree.walk (tree.start path) (path.splitOn '/')

def isFile (tree : FileTree) (path : Text) : Bool :=
  match tree.locate path with
  | .ok (_, .file _) => true
  | _ => false

def exists? (tree : FileTree) (path : Text) : Bool := (tree.locate path).isOk

/-- The bytes of the file at a path. -/
def read (tree : FileTree) (path : Text) : Except FileError (List UInt8) :=
  match tree.locate path with
  | .error e => .error e
  | .ok (_, .directory) => .error .isADirectory
  | .ok (_, .file bytes) => .ok bytes

/-- The last part of a path that is not empty, and the parts before it, in order. -/
def splitLast (path : Text) : Option (List Text × Text) :=
  match (path.splitOn '/').reverse.dropWhile (·.isEmpty) with
  | [] => none
  | last :: before => some (before.reverse, last)

/-- The place of a file to be written, and what is there now. The directory has to exist. -/
def target (tree : FileTree) (path : Text) : Except FileError (List Text × Option Entry) := do
  let path ← openPath path
  match splitLast path with
  | none => return ([], some .directory)
  | some (before, last) =>
    match ← tree.walk (tree.start path) before with
    | (_, .file _) => throw .notADirectory
    | (here, .directory) =>
      if last = "." ∨ last = ".." then return (here, some .directory)
      if path.getLast? = some ('/' : CodePoint) then throw .isADirectory
      if maxNameBytes < byteLength last then throw .nameTooLong
      return (here ++ [last], tree.get? (here ++ [last]))

/-- A new, empty file. -/
def create (tree : FileTree) (path : Text) : Except FileError FileTree :=
  match tree.target path with
  | .error e => .error e
  | .ok (_, some _) => .error .alreadyExists
  | .ok (parts, none) => .ok (tree.put parts (.file []))

/-- Empties a file or makes a new one; the place of the file comes with the tree. -/
def truncate (tree : FileTree) (path : Text) : Except FileError (List Text × FileTree) :=
  match tree.target path with
  | .error e => .error e
  | .ok (_, some .directory) => .error .isADirectory
  | .ok (parts, _) => .ok (parts, tree.put parts (.file []))

/-- Writes a whole file. A text that cannot be encoded leaves the file empty. -/
def write (tree : FileTree) (path content : Text) :
    Except FileError (FileTree × Option Utf8.EncodeError) :=
  match tree.truncate path with
  | .error e => .error e
  | .ok (parts, emptied) =>
    match Utf8.encode content with
    | .error e => .ok (emptied, some e)
    | .ok bytes => .ok (emptied.put parts (.file bytes), none)

end FileTree

end SigilScript
