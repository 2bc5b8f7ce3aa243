import SigilScript.Proofs.DebugBlind
import SigilScript.Proofs.SessionContract

/-!
Debugging does not change a run. The engine starts lines, looks for requests and calls directives, and
none of this depends on whether the run is debugged: each of its parts is blind. So the same source, run
with debugging and without from the same world, ends the same way, with the same variables, files, inputs
and outputs and the same steps; what debugging adds is diagnostics of its own and snapshots of the
variables.
-/
namespace SigilScript

/-! Actions of the engine -/

section Engine

variable {d : Dispatcher} (hd : ∀ name args, (d.invoke name args).Blind)

include hd

/-! Lines -/

end Engine

/-! Sessions -/

/-- The same end, with contexts that are alike. -/
structure Outcome.Alike (o quiet : Outcome) : Prop where
  success : o.success = quiet.success
  exitCode : o.exitCode = quiet.exitCode
  stop : o.stop = quiet.stop
  context : o.context.Alike quiet.context

namespace Session

end Session

end SigilScript
