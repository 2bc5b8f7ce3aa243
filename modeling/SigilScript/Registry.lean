import SigilScript.Argument
import SigilScript.Context
import SigilScript.Expr.Eval
import SigilScript.Substitution
import SigilScript.Text.Letter

/-!
Directives and their registry. A handler gets the raw text of its arguments, and a `Dispatcher`
through which it can resolve them, which may call further directives. Of the handlers registered
for a name the one with the highest priority is called, and of those the last one.
-/
namespace SigilScript

def boolString (b : Bool) : String := if b then "true" else "false"

/-- Access to the other directives: which are known, and calling one by name. -/
structure Dispatcher where
  knows : Text → Bool
  invoke : Text → Text → Exec (Option Text)

namespace Dispatcher

/-- The text that takes the place of a call: its result if it has one, or else the call as it is
written. -/
def call (d : Dispatcher) (node : Node) (name args : Text) : Exec Text := do
  if !d.knows name then
    Exec.trace "CALL" s!"Unknown directive §{name} left as text"
    return node.source
  let result ← d.invoke name (Argument.unquote args)
  return result.getD node.source

/-- Expands nodes in order; literal text is passed through `literal` when its turn comes. -/
def expandNodes (d : Dispatcher) (literal : Text → Exec Text) : List Node → Exec Text
  | [] => return []
  | .text value :: rest => do
    let first ← literal value
    let others ← d.expandNodes literal rest
    return first ++ others
  | node@(.call name args _) :: rest => do
    let first ← d.call node name args
    let others ← d.expandNodes literal rest
    return first ++ others

/-- Expands a text. One that is nested too deep is reported and taken as literal. -/
def expandWith (d : Dispatcher) (literal : Text → Exec Text) (t : Text) : Exec Text := do
  match Fragment.parse t with
  | .ok nodes => d.expandNodes literal nodes
  | .error .nestingTooDeep =>
    Exec.error "PARSE" FragmentError.nestingTooDeep.message
    literal t
  | .error .recursionLimit => Exec.fail (.fragment .recursionLimit)

def substitute (t : Text) : Exec Text := do
  return Substitution.substitute (← get).store t

/-- Expands calls, and leaves the rest alone. -/
def expand (d : Dispatcher) (t : Text) : Exec Text := d.expandWith pure t

/-- Expands calls, and substitutes variables in the rest. -/
def resolve (d : Dispatcher) (t : Text) : Exec Text := d.expandWith substitute t

/-- The value of one argument: quotes are taken off the written text, never off the value. -/
def argument (d : Dispatcher) (t : Text) : Exec Text := d.resolve (Argument.unquote t)

def arguments (d : Dispatcher) (t : Text) : Exec (List Text) := (Argument.split t).mapM d.argument

/-- The truth of a condition; one that cannot be evaluated is false. -/
def condition (d : Dispatcher) (t : Text) : Exec Bool := do
  let resolved ← d.resolve t
  match Expr.evalCondition resolved (Expr.bindingsOf (← get).store) with
  | .error e =>
    Exec.trace "CONDITION" s!"'{resolved}' could not be evaluated ({e.message}); treated as false"
    return false
  | .ok result =>
    Exec.trace "CONDITION" s!"'{resolved}' -> {boolString result}"
    return result

end Dispatcher

/-- What a handler gives back; nothing leaves the call as it is written. -/
inductive Reply where
  | nothing
  | bool (b : Bool)
  | number (x : Binary64)
  | integer (n : Int)
  | text (t : Text)
  deriving DecidableEq

def Reply.toText? : Reply → Option Text
  | .nothing => none
  | .bool b => some (boolString b)
  | .number x => some x.format
  | .integer n => some (toString n : String)
  | .text t => some t

abbrev Handler := Dispatcher → Text → Exec Reply

structure Directive where
  name : Text
  handler : Handler
  origin : Text
  priority : Int
  sequence : Nat

/-- Directives in the order of their registration. -/
structure Registry where
  directives : List Directive

namespace Registry

def empty : Registry := ⟨[]⟩

inductive Refusal where
  | invalidName (shown : String)
  | notCallable (name : Text)
  deriving DecidableEq, Repr

def Refusal.message : Refusal → String
  | .invalidName shown => s!"Invalid directive name {shown}"
  | .notCallable name => s!"Handler for '{name}' is not callable"

/-- Adds a directive, which comes after all others. -/
def add (r : Registry) (name : Text) (handler : Handler) (origin : Text) (priority : Int) :
    Registry :=
  ⟨r.directives ++ [⟨name, handler, origin, priority, r.directives.length + 1⟩]⟩

/-- Registers a handler; what is not a name or not a handler is refused. -/
def register (r : Registry) (name : Text) (handler : Option Handler) (origin : Text)
    (priority : Int) : Except Refusal Registry :=
  if !name.isName then .error (.invalidName name.quoted)
  else
    match handler with
    | none => .error (.notCallable name)
    | some h => .ok (r.add name h origin priority)

/-- The later of two directives, unless the earlier one has a higher priority. -/
def prefer (best : Option Directive) (d : Directive) : Option Directive :=
  match best with
  | none => some d
  | some b => if b.priority ≤ d.priority then some d else some b

/-- The directive that serves a name. -/
def get? (r : Registry) (name : Text) : Option Directive :=
  (r.directives.filter (·.name = name)).foldl prefer none

def contains (r : Registry) (name : Text) : Bool := r.directives.any (·.name = name)

/-- All names, sorted. -/
def names (r : Registry) : List Text := Text.sort (r.directives.map (·.name)).eraseDups

/-- The number of names. -/
def size (r : Registry) : Nat := (r.directives.map (·.name)).eraseDups.length

/-- What goes wrong inside a directive is a fault of that directive. -/
def blame {α : Type} (name : Text) (action : Exec α) : Exec α :=
  tryCatch action fun
    | .failure f => do
      throw (.fault ⟨s!"Internal interpreter error in §{name}: {f.message}", (← get).location,
        some name.upper.toString⟩)
    | e => throw e

/-- Calls a directive, with at most so many calls inside one another. -/
def invoke (r : Registry) : Nat → Text → Text → Exec (Option Text)
  | 0, name, _ => blame name (Exec.fail .recursionLimit)
  | levels + 1, name, args => do
    Exec.emit (.call name args)
    let reply ← blame name do
      match r.get? name with
      | none => Exec.fail (.unknownDirective name)
      | some d => d.handler ⟨r.contains, r.invoke levels⟩ args
    return reply.toText?

/-- Access to all directives from outside of any. -/
def dispatcher (r : Registry) : Dispatcher := ⟨r.contains, r.invoke maxRecursion⟩

end Registry

end SigilScript
