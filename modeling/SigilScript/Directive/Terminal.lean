import SigilScript.Registry
import SigilScript.Text.Search

/-!
Directives for time and the terminal.
-/
namespace SigilScript.Directive

/-- A thousand. -/
def thousand : Binary64 := .ofInt 1000

/-- `§time[]` is the time in milliseconds. -/
def time : Handler := fun _ _ => do
  match ((← get).world.time.mul thousand).truncate? with
  | none => Exec.fail .infiniteInteger
  | some n => return .text (toString n)

/-- What the letters of a date pattern stand for. -/
def dateFields (now : DateTime) : List (Text × Text) :=
  [("YYYY", padded 4 now.year), ("MM", padded 2 now.month), ("DD", padded 2 now.day),
    ("HH", padded 2 now.hour), ("mm", padded 2 now.minute), ("ss", padded 2 now.second)]

/-- Replaces each field once, one after the other. -/
def formatDate (now : DateTime) (pattern : Text) : Text :=
  (dateFields now).foldl (fun t (token, value) => Text.replaceFirst token value t) pattern

/-- `§date[pattern]` is the date, year first without a pattern. -/
def date : Handler := fun d args => do
  let pattern ← d.argument args
  let now := (← get).world.now
  return .text (formatDate now (if pattern.isEmpty then "YYYY-MM-DD" else pattern))

/-- No sleep is longer than a day, in milliseconds. -/
def maxSleep : Binary64 := .ofInt (24 * 60 * 60 * 1000)

/-- The milliseconds to sleep: one second without a finite number, and none for a negative one. -/
def sleepTime (number : Option Binary64) : Binary64 :=
  match number with
  | some x => if !x.isFinite then thousand else if (Binary64.zero false).less x then x else .zero false
  | none => thousand

/-- `§sleep[milliseconds]` -/
def sleep : Handler := fun d args => do
  let millis := sleepTime (← d.argument args).number?
  if maxSleep.less millis then
    Exec.error "SLEEP"
      s!"Sleep of {millis.format} ms exceeds the limit of {maxSleep.format} ms; skipped"
    return .nothing
  Exec.sleep (millis.div thousand)
  return .nothing

/-- `§input[prompt]` is the next line of input. -/
def input : Handler := fun d args => do
  let prompt ← d.argument args
  return .text (← Exec.readInput (if prompt.isEmpty then [] else prompt ++ [(' ' : CodePoint)]))

/-- `§clear[]` clears the screen. -/
def clear : Handler := fun _ _ => do
  Exec.clear
  return .text "cleared"

end SigilScript.Directive
