import SigilScript.Failure
import SigilScript.Json.Writer
import SigilScript.StepLog

/-!
Tracebacks: the last steps before a fault, and the fault itself, as text and as JSON.
-/
namespace SigilScript

/-- A fault that ended a run, and the last step before it. -/
structure Stop where
  fault : Fault
  step : Option Nat
  deriving DecidableEq, Repr

/-- The rule of a fault, or a name for having none. -/
def Fault.ruleOr (f : Fault) (fallback : String) : String :=
  match f.rule with
  | some rule => if rule.isEmpty then fallback else rule
  | none => fallback

namespace Traceback

def defaultDepth : Int := 5

/-- The steps to show: the last `depth` ones, all of them for zero, and for a negative depth all but
the first ones. -/
def steps (log : StepLog) (depth : Int) : List StepEntry :=
  let entries := log.entries.toList
  if 0 < depth then entries.drop (entries.length - depth.toNat) else entries.drop (-depth).toNat

/-- What a fault is called. -/
def faultKind : String := "SiglaRuntimeError"

def placeLines (e : StepEntry) : List String :=
  match e.location with
  | none => ["  <unknown location>"]
  | some l =>
    s!"  File \"{l.file}\", line {l.line}" ::
      match e.statement with
      | none => []
      | some t => if t.isEmpty then [] else [s!"    {t}"]

def variableLines (verbose : Bool) (e : StepEntry) : List String :=
  match verbose, e.store with
  | true, some store =>
    let shown := ", ".intercalate (store.map fun (name, value) => s!"{name}={value}")
    [s!"    Env snapshot: {shown}"]
  | _, _ => []

def stepLines (verbose : Bool) (e : StepEntry) : List String :=
  placeLines e ++ [s!"    State log index: {e.index}  State id: {e.id}"] ++ variableLines verbose e

def render (log : StepLog) (depth : Int) (verbose : Bool) (stop : Stop) : String :=
  let rule := stop.fault.ruleOr "runtime"
  "\n".intercalate
    ("Traceback (most recent step last):" :: (steps log depth).flatMap (stepLines verbose) ++
      [s!"{faultKind}: {stop.fault.message} (rule: {rule})"])

/-! As JSON -/

def natural (n : Nat) : Json := .integer n

def placeMembers (e : StepEntry) : List (Text × Json) :=
  match e.location with
  | none => []
  | some l =>
    [("source_location",
      .object [("file", .string l.file), ("line", natural l.line), ("statement", .string l.statement)])]

def variableMembers (e : StepEntry) : List (Text × Json) :=
  match e.store with
  | none => []
  | some store =>
    [("env_snapshot", .object (store.map fun (name, value) => (name, .string value)))]

def logMembers (e : StepEntry) : List (Text × Json) :=
  [("state_id", .string e.id), ("step_index", natural e.index), ("rule", .string e.rule)]

def stepJson (index : Nat) (e : StepEntry) : Json :=
  .object (("frame_index", natural index) ::
    (placeMembers e ++ logMembers e ++ variableMembers e))

def toJson (log : StepLog) (depth : Int) (stop : Stop) : Json :=
  .object [
    ("error", .object [("type", .string faultKind), ("message", .string stop.fault.message),
      ("failing_step_index", stop.step.elim .null natural)]),
    ("traceback", .array ((steps log depth).mapIdx stepJson))]

def renderJson (log : StepLog) (depth : Int) (stop : Stop) : String :=
  ((toJson log depth stop).render Json.reportStyle).toString

end Traceback

end SigilScript
