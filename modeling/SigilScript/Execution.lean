import SigilScript.Block
import SigilScript.Registry

/-!
Execution of the lines of a program. Plain lines call their directive; conditionals and loops run
the blocks inside them. A directive leaves requests behind as flags; after each statement and each
condition a pending request becomes an interrupt, of which a loop takes those that concern it.
Outside of every loop they are reported and passed over.
-/
namespace SigilScript

namespace Exec

def checkExit : Exec Unit := do
  match (← get).flags.exit with
  | some code => throw (.exitRun code)
  | none => return

/-- Turns the first pending request into an interrupt. -/
def raisePending : Exec Unit := do
  checkExit
  let flags := (← get).flags
  if flags.leave then throw .breakLoop
  if flags.next then throw .continueLoop

end Exec

namespace Execution

def maxWhilePasses : Nat := 1000

def maxForPasses : Nat := 10000

/-- Runs a plain line. Text, and lines that only divide blocks, do nothing. -/
def statement (d : Dispatcher) (line : Line) : Exec Unit := do
  if line.kind = .directive then
    Exec.logStep line
    if !line.trailing.isEmpty then
      Exec.warn "STATEMENT"
        s!"Unexpected text after §{line.name}[...]: '{line.trailing}'; statement skipped"
    else if !d.knows line.name then
      Exec.warn "DISPATCH" s!"Unknown directive §{line.name}"
    else
      let _ ← d.invoke line.name line.args
      Exec.raisePending

/-- The truth of the condition in the head of a branch or a loop. -/
def condition (d : Dispatcher) (head : Line) : Exec Bool := do
  Exec.checkExit
  Exec.logStep head
  let result ← d.condition head.args
  Exec.raisePending
  return result

/-- Runs the first branch that is taken. -/
def conditional (d : Dispatcher) : List (Line × Exec Unit) → Exec Unit
  | [] => return
  | (head, body) :: others => do
    if head.kind = .elseHead then body
    else if ← condition d head then body
    else conditional d others

/-- Runs the body of a loop once, and tells whether the loop goes on. -/
def pass (body : Exec Unit) : Exec Bool :=
  tryCatch (do body; return true) fun
    | .breakLoop => return false
    | .continueLoop => return true
    | e => throw e

/-- The condition of a loop; leaving the loop there, or asking for its next pass, ends it. -/
def loopCondition (d : Dispatcher) (head : Line) : Exec Bool :=
  tryCatch (condition d head) fun
    | .breakLoop | .continueLoop => return false
    | e => throw e

/-- Passes of a while loop, of which `left` are still allowed; the result counts all of them. -/
def whilePasses (d : Dispatcher) (head : Line) (body : Exec Unit) (left done : Nat) : Exec Nat := do
  Exec.resetLoop
  if !(← loopCondition d head) then return done
  match left with
  | 0 =>
    let _ ← Exec.report "WHILE"
      (s!"Loop exceeded {maxWhilePasses} iterations, possible infinite loop: " ++
        s!"§while[{head.args}]") .error (some head.location)
    return done
  | left + 1 =>
    if ← pass body then whilePasses d head body left (done + 1) else return done + 1

def whileLoop (d : Dispatcher) (head : Line) (body : Exec Unit) : Exec Unit := do
  let done ← Exec.ensuring (whilePasses d head body maxWhilePasses 0) Exec.resetLoop
  Exec.trace "WHILE" s!"§while[{head.args}] finished after {done} iterations"

/-- Passes of a for loop from a counter up to a limit, of which `left` are still allowed. The
counter does not depend on what the body does to the loop variable. -/
def forPasses (head : Line) (name : Text) (limit : Binary64) (body : Exec Unit) (left done : Nat)
    (counter : Binary64) : Exec Nat := do
  if !counter.less limit then return done
  Exec.resetLoop
  Exec.checkExit
  match left with
  | 0 =>
    let _ ← Exec.report "FOR" s!"Loop exceeded {maxForPasses} iterations: §for[{head.args}]" .error
      (some head.location)
    return done
  | left + 1 =>
    Exec.setVariable name counter.format
    if ← pass body then forPasses head name limit body left (done + 1) (counter.add .one)
    else return done + 1

def forLoop (d : Dispatcher) (head : Line) (body : Exec Unit) : Exec Unit := do
  Exec.checkExit
  Exec.logStep head
  match Argument.split head.args with
  | [first, second, third] =>
    let name := first.strip
    if !name.isName then
      Exec.error "FOR" s!"Invalid loop variable name '{name}'"
    else
      let startText ← d.argument second
      let limitText ← d.argument third
      Exec.raisePending
      match startText.number?, limitText.number? with
      | some start, some limit =>
        let done ←
          Exec.ensuring (forPasses head name limit body maxForPasses 0 start) Exec.resetLoop
        Exec.trace "FOR" s!"§for[{head.args}] finished after {done} iterations"
      | _, _ =>
        Exec.error "FOR"
          s!"Invalid loop bounds: '{startText}' and '{limitText}' must be numbers"
  | _ =>
    Exec.error "FOR"
      s!"Invalid §for syntax: expected §for[var; start; end], got: §for[{head.args}]"

/-- Runs a construct, given how to run the blocks inside it. -/
def construct (d : Dispatcher) :
    (c : Construct) → ((body : List Line) → body ∈ c.bodies → Exec Unit) → Exec Unit
  | .plain line, _ => statement d line
  | .conditional branches, block =>
    conditional d (branches.attach.map fun ⟨b, h⟩ => (b.head, block b.body (List.mem_map_of_mem h)))
  | .whileLoop head body, block => whileLoop d head (block body (List.mem_singleton_self _))
  | .forLoop head body, block => forLoop d head (block body (List.mem_singleton_self _))

/-- Runs the lines of a block. -/
def block (d : Dispatcher) (lines : List Line) : Exec Unit :=
  match lines with
  | [] => return
  | line :: rest => do
    Exec.checkExit
    match h : Construct.read line rest with
    | .error e => throw (.fault e.fault)
    | .ok (c, after) =>
      construct d c fun body hb =>
        have _hlt := read_body_le h hb
        block d body
      have _hlt := read_after_le h
      block d after
termination_by lines.length
decreasing_by all_goals simp only [List.length_cons]; omega

/-- Reports a request to leave a loop where there is none. -/
def outsideLoop (rule word : String) : Exec Unit := do
  Exec.error rule s!"§{word} used outside of a loop"
  Exec.resetLoop

/-- Runs an action outside of every loop. -/
def unlooped (action : Exec Unit) : Exec Unit :=
  tryCatch action fun
    | .breakLoop => outsideLoop "BREAK" "break"
    | .continueLoop => outsideLoop "CONTINUE" "continue"
    | e => throw e

/-- Runs a program. A construct that is left by a misplaced request is passed over as a whole. -/
def program (d : Dispatcher) (lines : List Line) : Exec Unit :=
  match lines with
  | [] => return
  | line :: rest => do
    Exec.checkExit
    if line.isOpener && (splitBlock 0 rest).isNone then
      throw (.fault (StructureError.noTerminator line).fault)
    match h : Construct.read line rest with
    | .error e => throw (.fault e.fault)
    | .ok (c, after) =>
      unlooped (construct d c fun body _ => block d body)
      have _hlt := read_after_le h
      program d after
termination_by lines.length
decreasing_by simp only [List.length_cons]; omega

end Execution

end SigilScript
