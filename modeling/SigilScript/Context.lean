import SigilScript.Diagnostic
import SigilScript.Failure
import SigilScript.StepLog

/-!
The state of a run, and the actions on it. Everything that can be observed of a run is an `Event`;
events are kept in one trace, in the order in which they happened.
-/
namespace SigilScript

/-- Requests that a directive leaves behind: to exit with a code, to leave the loop, or to start its
next pass. -/
structure Flags where
  exit : Option Int
  leave : Bool
  next : Bool
  deriving DecidableEq, Repr

namespace Flags

def clear : Flags := ⟨none, false, false⟩

def resetLoop (f : Flags) : Flags := { f with leave := false, next := false }

end Flags

structure DateTime where
  year : Nat
  month : Nat
  day : Nat
  hour : Nat
  minute : Nat
  second : Nat
  deriving DecidableEq, Repr

/-- What lies outside the run. Of the inputs, a missing one is the end of input. The random source
gives a number between two bounds for each draw, counted from zero. -/
structure World where
  files : FileTree
  inputs : List (Option Text)
  random : Nat → Int → Int → Int
  drawn : Nat
  time : Binary64
  now : DateTime

inductive Event where
  | output (text : Text)
  | input (prompt text : Text)
  | exit (code : Int)
  | diagnostic (d : Diagnostic)
  | clear
  | sleep (seconds : Binary64)
  | draw (low high : Int)
  | call (name args : Text)
  | step (index : Nat) (flags : Flags)
  deriving DecidableEq

structure Context where
  debug : Bool
  store : Store
  flags : Flags
  location : Option Location
  log : StepLog
  events : Array Event
  world : World

/-- An action on the context, which keeps what it did also when it is interrupted. -/
abbrev Exec := ExceptT Interrupt (StateM Context)

namespace Context

/-- The start of a run that goes on with a log. -/
def start (debug : Bool) (log : StepLog) (world : World) : Context :=
  ⟨debug, [], .clear, none, log, #[], world⟩

def diagnostics (c : Context) : List Diagnostic :=
  c.events.toList.filterMap fun
    | .diagnostic d => some d
    | _ => none

end Context

namespace Exec

def emit (e : Event) : Exec Unit := modify fun c => { c with events := c.events.push e }

def fail {α : Type} (f : Failure) : Exec α := throw (.failure f)

/-! Diagnostics -/

/-- Reports at a location, or at the current one. -/
def report (rule message : String) (severity : Severity) (location : Option Location) :
    Exec Diagnostic := do
  let c ← get
  let d : Diagnostic := ⟨severity, rule, message, location <|> c.location⟩
  emit (.diagnostic d)
  return d

def error (rule message : String) : Exec Unit := do
  let _ ← report rule message .error none

def warn (rule message : String) : Exec Unit := do
  let _ ← report rule message .warning none

/-- Reported only when debugging. -/
def trace (rule message : String) : Exec Unit := do
  if (← get).debug then
    let _ ← report rule message .debug none

/-! Variables -/

def setVariable (name value : Text) : Exec Unit := do
  if !name.isName then
    throw (.fault ⟨s!"Invalid variable name '{name}'", (← get).location, some "VAR"⟩)
  modify fun c => { c with store := Store.assign name value c.store }

def getVariable (name fallback : Text) : Exec Text := do
  return ((← get).store.lookup name).getD fallback

/-! Flags -/

def requestExit (code : Int) : Exec Unit :=
  modify fun c => { c with flags := { c.flags with exit := some code } }

def requestBreak : Exec Unit := modify fun c => { c with flags := { c.flags with leave := true } }

def requestContinue : Exec Unit := modify fun c => { c with flags := { c.flags with next := true } }

def resetLoop : Exec Unit := modify fun c => { c with flags := c.flags.resetLoop }

/-! Input and output -/

def output (text : Text) : Exec Unit := emit (.output text)

/-- The next input; the end of input reads as an empty text. -/
def readInput (prompt : Text) : Exec Text := do
  let inputs := (← get).world.inputs
  let text := (inputs.head?.join).getD []
  modify fun c => { c with world := { c.world with inputs := inputs.tail } }
  emit (.input prompt text)
  return text

def clear : Exec Unit := emit .clear

def sleep (seconds : Binary64) : Exec Unit := emit (.sleep seconds)

/-- A random number between two bounds. -/
def draw (low high : Int) : Exec Int := do
  let world := (← get).world
  modify fun c => { c with world := { c.world with drawn := c.world.drawn + 1 } }
  emit (.draw low high)
  return world.random world.drawn low high

def files : Exec FileTree := return (← get).world.files

def setFiles (tree : FileTree) : Exec Unit :=
  modify fun c => { c with world := { c.world with files := tree } }

/-! Steps -/

/-- Starts a line: it becomes the current location and enters the log. -/
def logStep (line : Line) : Exec Unit := do
  let rule := if line.name.isEmpty then line.kind.label else line.name.toString
  modify fun c => { c with
    location := some line.location
    log := c.log.record (some line.location) (some line.text) rule (some c.store)
    events := c.events.push (.step c.log.entries.size c.flags) }

/-- Runs an action, and then another one, also when the first is interrupted. -/
def ensuring {α : Type} (action : Exec α) (after : Exec Unit) : Exec α := do
  let result ← tryCatch action fun e => do
    after
    throw e
  after
  return result

end Exec

end SigilScript
