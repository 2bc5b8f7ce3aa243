import SigilScript.Directive.Arithmetic
import SigilScript.Directive.Control
import SigilScript.Directive.Files
import SigilScript.Directive.Strings
import SigilScript.Directive.Terminal
import SigilScript.Directive.Types

/-!
The directives of the language, in the order in which they are registered.
-/
namespace SigilScript.Directive

def table : List (String × Handler) :=
  [("log", log), ("var", assignVariable), ("exit", exit), ("break", breakLoop),
    ("continue", continueLoop), ("require", require),
    ("add", add), ("sub", sub), ("mul", mul), ("div", div), ("round", round), ("random", random),
    ("upper", upper), ("lower", lower), ("trim", trim), ("len", len), ("contains", contains),
    ("replace", replace), ("equalsIgnoreCase", equalsIgnoreCase),
    ("isNumeric", isNumeric), ("isText", isText), ("isBool", isBool), ("isInt", isInt),
    ("isFloat", isFloat), ("isJson", isJson), ("isNaN", isNaN), ("isEven", isEven),
    ("isOdd", isOdd), ("isMathExpression", isMathExpression), ("typeOf", typeOf),
    ("isFileExist", isFileExist), ("createFile", createFile), ("readFile", readFile),
    ("writeFile", writeFile), ("jsonRead", jsonRead), ("jsonWrite", jsonWrite),
    ("jsonGet", jsonGet), ("jsonSet", jsonSet), ("getPath", getPath),
    ("time", time), ("date", date), ("sleep", sleep), ("input", input), ("clear", clear)]

def builtinOrigin : Text := "builtin"

def builtinPriority : Int := 0

/-- A registry with the directives of the language added. -/
def install (r : Registry) : Registry :=
  table.foldl (fun r (name, handler) => r.add name handler builtinOrigin builtinPriority) r

end SigilScript.Directive
