import SigilScript.Statement

/-!
Diagnostics: what a run reports beside its output.
-/
namespace SigilScript

inductive Severity where
  | error | warning | debug
  deriving DecidableEq, Repr

namespace Severity

def label : Severity → String
  | .error => "error"
  | .warning => "warning"
  | .debug => "debug"

def heading : Severity → String
  | .error => "ERROR"
  | .warning => "WARNING"
  | .debug => "DEBUG"

end Severity

structure Diagnostic where
  severity : Severity
  rule : String
  message : String
  location : Option Location
  deriving DecidableEq, Repr

def Diagnostic.render (d : Diagnostic) : String :=
  let place := d.location.elim "" fun l => s!"{l.file}:{l.line}: "
  s!"[{d.severity.heading} {d.rule}] {place}{d.message}"

end SigilScript
