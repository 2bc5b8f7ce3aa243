import SigilScript.Directive.Table
import SigilScript.Execution
import SigilScript.Inclusion
import SigilScript.Traceback
import SigilScript.Validation

/-!
Sessions: a source that is prepared, checked and run. Preparation includes required files and
checks the block structure; only a source that passes is run. Every run starts with no variables,
but goes on with the step log and the world of the run before.
-/
namespace SigilScript

/-- The name of a source that does not come from a file. -/
def literalName : Text := "<string>"

structure Session where
  source : Text
  file : Text
  debug : Bool
  registry : Registry
  base : Option Text
  policy : Text

/-- How a run ended. -/
structure Outcome where
  success : Bool
  exitCode : Int
  stop : Option Stop
  context : Context

namespace Session

/-- The name under which a source is shown. -/
def fileName (workingDirectory : AbsolutePath) (name : Text) : Text :=
  if name = literalName then name else (Path.resolve workingDirectory name).toText

/-- Reports the faults of the block structure, each at its line. -/
def reportProblems (s : Session) (problems : List Validation.Problem) : Exec Unit :=
  problems.forM fun p => do
    let _ ← Exec.report "VALIDATE" p.message .error (some ⟨s.file, p.line, 1, p.statement⟩)

/-- The source with required files included; none after a report. -/
def include? (s : Session) (policy : Inclusion.Policy) : Exec (Option Text) := do
  let origin := if s.file = literalName then none else some s.file
  let options : Inclusion.Options := ⟨s.base, Inclusion.defaultExtension, policy⟩
  let (result, progress) := Inclusion.resolve (← Exec.files) options origin s.source
  progress.notes.forM fun note => Exec.trace "REQUIRE" note.message
  match result with
  | .error e =>
    Exec.error "REQUIRE" e.message
    return none
  | .ok resolved =>
    resolved.failures.forM fun f => Exec.error "REQUIRE" f.message
    if resolved.complete then return some resolved.text
    if resolved.failures.isEmpty then
      let left := Text.join ", " resolved.unresolved
      Exec.error "REQUIRE" s!"Unresolved directives remain: {left}"
    return none

/-- The lines of a source that may run; none after a report. -/
def prepare (s : Session) : Exec (Option (List Line)) := do
  if s.source.strip.isEmpty then
    Exec.error "RUN" "Program is empty"
    return none
  match Inclusion.Policy.ofText? s.policy with
  | none => Exec.fail (.unknownPolicy s.policy)
  | some policy =>
    match ← s.include? policy with
    | none => return none
    | some text =>
      match Validation.validate text with
      | [] =>
        match Program.parse text s.file with
        | .ok lines => return some lines
        | .error e =>
          Exec.error "PARSE" e.message
          return none
      | problems =>
        s.reportProblems problems
        return none

/-- The fault that an interrupt of a whole program is; an exit is none. -/
def faultOf (log : StepLog) : Interrupt → Fault
  | .fault f => f
  | .failure f =>
    ⟨s!"Internal interpreter error: {f.message}", log.last?.bind StepEntry.location, some "internal"⟩
  | .exitRun _ | .breakLoop | .continueLoop =>
    ⟨"Internal interpreter error: ", log.last?.bind StepEntry.location, some "internal"⟩

/-- Ends a run with a fault, which is reported. -/
def stopWith (fault : Fault) (c : Context) : Outcome :=
  let report := Exec.report (fault.ruleOr "RUNTIME") fault.message .error fault.location
  ⟨false, 0, some ⟨fault, c.log.last?.map StepEntry.index⟩, (report.run.run c).2⟩

/-- Runs prepared lines. -/
def execute (s : Session) (lines : List Line) (c : Context) : Outcome :=
  match (Execution.program s.registry.dispatcher lines).run.run c with
  | (.ok _, c) => ⟨true, 0, none, c⟩
  | (.error (.exitRun code), c) => ⟨true, code, none, c⟩
  | (.error e, c) => stopWith (faultOf c.log e) c

/-- Prepares without running. An interrupted preparation gives no outcome. -/
def check (s : Session) (log : StepLog) (world : World) : Except Interrupt Outcome :=
  match s.prepare.run.run (Context.start s.debug log world) with
  | (.error e, _) => .error e
  | (.ok lines, c) => .ok ⟨lines.isSome, 0, none, c⟩

/-- Prepares and runs. An interrupted preparation gives no outcome. -/
def run (s : Session) (log : StepLog) (world : World) : Except Interrupt Outcome :=
  match s.prepare.run.run (Context.start s.debug log world) with
  | (.error e, _) => .error e
  | (.ok none, c) => .ok ⟨false, 0, none, c⟩
  | (.ok (some lines), c) => .ok (s.execute lines c)

end Session

end SigilScript
