import SigilScript.Files.Tree
import SigilScript.Fragment
import SigilScript.Inclusion
import SigilScript.Json.Reader
import SigilScript.Statement

/-!
What can end a directive early. A `Fault` stops the run with a message; a signal leaves a loop or
the run; a `Failure` is anything else that went wrong inside a directive, and becomes a fault of
the directive that it happened in.
-/
namespace SigilScript

structure Fault where
  message : String
  location : Option Location
  rule : Option String
  deriving DecidableEq, Repr

inductive Failure where
  | fragment (error : FragmentError)
  | json (error : Json.ReadError)
  | file (path : Text) (error : FileError)
  | unencodable (error : Utf8.EncodeError)
  | infiniteInteger
  | integer (error : IntegerError)
  | unknownDirective (name : Text)
  | unknownPolicy (policy : Text)
  | recursionLimit
  | raised (message : String)
  | refused (message : String)
  deriving DecidableEq, Repr

def Failure.message : Failure → String
  | .fragment e => e.message
  | .json e => e.message
  | .file path e => e.message path
  | .unencodable e => e.message
  | .infiniteInteger => "cannot convert float infinity to integer"
  | .integer e => e.message
  | .unknownDirective name => s!"Unknown directive '{name}'"
  | .unknownPolicy policy => Inclusion.Policy.unknownMessage policy
  | .recursionLimit => recursionMessage
  | .raised message => message
  | .refused message => message

inductive Interrupt where
  | exitRun (code : Int)
  | breakLoop
  | continueLoop
  | fault (fault : Fault)
  | failure (failure : Failure)
  deriving DecidableEq, Repr

end SigilScript
