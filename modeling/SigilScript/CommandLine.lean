import SigilScript.CommandLine.Arguments
import SigilScript.Plugin
import SigilScript.Session
import SigilScript.Token.Scan

/-!
The command line: what a call with some arguments prints, and the code that it ends with. The
world is given and changed, but never touched.
-/
namespace SigilScript.CommandLine

/-- Something that is shown, or a pause, in the order in which they happen. -/
inductive Chunk where
  | output (t : Text)
  | error (t : Text)
  | pause (seconds : Binary64)
  deriving DecidableEq

structure Result where
  code : Int
  chunks : List Chunk
  files : FileTree

/-- Why a call has no result. -/
inductive Abort where
  | refusal (refusal : Refusal)
  | unreadable (path : Text) (error : FileError)
  | interrupt (interrupt : Interrupt)

def Abort.message : Abort → String
  | .refusal r => r.message
  | .unreadable path e => e.message path
  | .interrupt (.fault f) => f.message
  | .interrupt (.failure f) => f.message
  | .interrupt (.exitRun code) => toString code
  | .interrupt .breakLoop | .interrupt .continueLoop => ""

/-- The code that a call without a result ends with. -/
def Abort.code : Abort → UInt32
  | .refusal r => r.code
  | _ => 1

def Result.output (r : Result) : Text :=
  r.chunks.flatMap fun
    | .output t => t
    | _ => []

def Result.errors (r : Result) : Text :=
  r.chunks.flatMap fun
    | .error t => t
    | _ => []

def newline : Text := "\n"

def outputLine (t : Text) : Chunk := .output (t ++ newline)

def errorLine (s : String) : Chunk := .error (s ++ newline)

def clearCode : Text := "\x1b[2J\x1b[H"

/-- What an event shows. -/
def Chunk.ofEvent : Event → Option Chunk
  | .output t => some (outputLine t)
  | .input prompt _ => some (.output prompt)
  | .diagnostic d => some (errorLine d.render)
  | .clear => some (.output clearCode)
  | .sleep seconds => some (.pause seconds)
  | .exit _ | .draw _ _ | .call _ _ | .step _ _ => none

/-- The lines of a text; the end of the last one may be missing. -/
def inputLines (t : Text) : List Text :=
  let parts := t.splitOn '\n'
  if parts.getLast? = some [] then parts.dropLast else parts

def pluginLine (p : Plugin) : Text :=
  let names := Text.join ", " (Text.sort p.functionNames)
  s!"{p.name} {p.version} by {p.author}: {names}"

def directiveLine (r : Registry) (name : Text) : Text :=
  let origin := ((r.get? name).map (·.origin)).getD []
  s!"§{name} ({origin})"

/-- Lists the plugins, and then all directives with where they come from. -/
def listPlugins (plugins : List Plugin) (files : FileTree) : Result :=
  let registry := Registry.ofPlugins plugins
  ⟨0, (plugins.map pluginLine ++ registry.names.map (directiveLine registry)).map outputLine, files⟩

/-- The traceback of a run that was stopped. -/
def tracebackChunks (a : Arguments) (log : StepLog) (stop : Stop) : List Chunk :=
  errorLine (Traceback.render log Traceback.defaultDepth a.debug stop) ::
    if a.tracebackJson then [errorLine (Traceback.renderJson log Traceback.defaultDepth stop)]
    else []

def ofOutcome (a : Arguments) (o : Outcome) : Result :=
  let shown := o.context.events.toList.filterMap Chunk.ofEvent
  let stopped := o.stop.elim [] (tracebackChunks a o.context.log)
  ⟨if o.success then o.exitCode else 1, shown ++ stopped, o.context.world.files⟩

/-- Checks or runs a source. -/
def runSource (catalog : Catalog) (a : Arguments) (source file : Text) (world : World) :
    Except Abort Result :=
  match Plugin.loadAll world.files catalog a.extensions with
  | .error e => .ok ⟨1, [errorLine s!"ExtensionError: {e.message}"], world.files⟩
  | .ok plugins =>
    let session : Session :=
      { source, debug := a.debug, registry := Registry.ofPlugins plugins, base := none
        file := Session.fileName world.files.workingDirectory file, policy := a.policy.label }
    let log := StepLog.empty a.debug
    let outcome := if a.check then session.check log world else session.run log world
    match outcome with
    | .error e => .error (.interrupt e)
    | .ok o => .ok (ofOutcome a o)

/-- The source that the arguments ask for, and its name; or why it cannot be read. -/
def readSource (a : Arguments) (program : Text) (files : FileTree) :
    Except Abort (Except String (Text × Text)) :=
  if a.literal then .ok (.ok (program, literalName))
  else
    match files.read program with
    | .error e =>
      if e.isBadPath then .error (.unreadable program e)
      else .ok (.error s!"Failed to read {program}: {e.message program}")
    | .ok bytes =>
      match Utf8.decode bytes with
      | .error e => .ok (.error s!"Failed to read {program}: {e.message}")
      | .ok t => .ok (.ok (t.normalizeNewlines, program))

/-- A call with some arguments. -/
def call (catalog : Catalog) (argv : List Text) (world : World) : Except Abort Result :=
  match Arguments.read argv with
  | .error e => .error (.refusal e)
  | .ok a =>
    if a.plugins then
      match Plugin.loadAll world.files catalog a.extensions with
      | .error e => .ok ⟨1, [errorLine s!"ExtensionError: {e.message}"], world.files⟩
      | .ok plugins => .ok (listPlugins plugins world.files)
    else
      match a.program with
      | none => .error (.refusal (.usage .noProgram))
      | some program =>
        match readSource a program world.files with
        | .error e => .error e
        | .ok (.error message) => .ok ⟨1, [errorLine message], world.files⟩
        | .ok (.ok (source, file)) =>
          if a.tokens then
            .ok ⟨0, [outputLine (Token.dump (Token.scan source))], world.files⟩
          else runSource catalog a source file world

end SigilScript.CommandLine
