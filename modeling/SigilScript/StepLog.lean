import SigilScript.Number.Notation
import SigilScript.Statement
import SigilScript.Store

/-!
The step log: one numbered entry for each statement or condition that was started. A verbose log
also keeps the variables as they were then.
-/
namespace SigilScript

structure StepEntry where
  index : Nat
  location : Option Location
  statement : Option Text
  rule : String
  store : Option Store
  deriving DecidableEq, Repr

def StepEntry.id (e : StepEntry) : String := "s_" ++ padded 6 e.index

structure StepLog where
  verbose : Bool
  entries : Array StepEntry
  deriving Repr

namespace StepLog

def empty (verbose : Bool) : StepLog := ⟨verbose, #[]⟩

def record (log : StepLog) (location : Option Location) (statement : Option Text) (rule : String)
    (store : Option Store) : StepLog :=
  let entry : StepEntry :=
    ⟨log.entries.size, location, statement, rule, if log.verbose then store else none⟩
  { log with entries := log.entries.push entry }

def last? (log : StepLog) : Option StepEntry := log.entries.back?

end StepLog

end SigilScript
