import SigilScript.Registry

/-!
Directives for output, variables and control.
-/
namespace SigilScript.Directive

/-- `§log[text]` writes a text. -/
def log : Handler := fun d args => do
  Exec.output (← d.argument args)
  return .nothing

/-- A result that has to be a finite number; any other is reported and replaced by zero. -/
def finiteOrZero (rule : String) (x : Binary64) : Exec Text := do
  if x.isFinite then return x.format
  Exec.error rule s!"Result is not a finite number ({x.format})"
  return "0"

/-- The value of an arithmetic text, as it is assigned. -/
def arithmetic (t : Text) : Exec Text := do
  match Arithmetic.eval t with
  | .error e =>
    Exec.error "MATH" s!"Cannot evaluate '{t}': {e.message}"
    return "0"
  | .ok x => finiteOrZero "MATH" x

/-- `§var[name; value]` assigns a variable. A value that looks like arithmetic is computed. -/
def assignVariable : Handler := fun d args => do
  match Argument.split args with
  | first :: second :: others =>
    let name := first.strip
    if !name.isName then
      Exec.error "VAR" s!"Invalid variable name '{name}'"
      return .nothing
    let value ← d.resolve (Text.join ";" (second :: others)).strip
    let value ← if Arithmetic.looksArithmetic value then arithmetic value else pure value
    let value := Argument.unquote value
    Exec.setVariable name value
    Exec.trace "VAR" s!"{name} = {value}"
    return .nothing
  | _ =>
    Exec.error "VAR" s!"Invalid §var syntax: expected §var[name; value], got: §var[{args}]"
    return .nothing

/-- `§exit[code]` ends the run after this statement. Without a finite number the code is zero. -/
def exit : Handler := fun d args => do
  let number := (← d.argument args).number?
  let code := (number.bind Binary64.truncate?).getD 0
  Exec.requestExit code
  Exec.emit (.exit code)
  return .text (toString code)

/-- `§break` leaves the innermost loop. -/
def breakLoop : Handler := fun _ _ => do
  Exec.requestBreak
  return .nothing

/-- `§continue` starts the next pass of the innermost loop. -/
def continueLoop : Handler := fun _ _ => do
  Exec.requestContinue
  return .nothing

/-- `§require[file]` is resolved before a run; one that is left over is ignored. -/
def require : Handler := fun _ args => do
  Exec.warn "REQUIRE" s!"§require[{args}] reached execution unresolved; ignored"
  return .text []

end SigilScript.Directive
