import SigilScript.Execution
import SigilScript.Proofs.BlockTree
import SigilScript.Proofs.Ending

/-!
The meaning of a block tree, by recursion on the tree. Forms run in order. A conditional runs the body
of the first branch whose condition is true. A loop takes the interrupts that concern it where its
body ends, so they never leave it; all others end every block around them. Outside of every loop
a request to leave one is reported, and the run goes on after the form in which it was made. The lines
of a tree, read one construct at a time, run as the tree does.
-/
namespace SigilScript

namespace Context

/-- With no request to leave a loop or to start its next pass. -/
def settled (c : Context) : Context := { c with flags := c.flags.resetLoop }

/-- With one more error, at the current location unless another one is given. -/
def reported (rule message : String) (location : Option Location) (c : Context) : Context :=
  { c with events := c.events.push (.diagnostic ⟨.error, rule, message, location <|> c.location⟩) }

end Context

namespace Tree

/-- Ends the run if this has been requested, and goes on otherwise. -/
def unlessExit {α : Type} (next : Context → Ending α) (c : Context) : Ending α :=
  match c.flags.exit with
  | some code => (.error (.exitRun code), c)
  | none => next c

/-- What a loop makes of the end of its body: the next pass, or its own end. -/
def afterPass {α : Type} (next leave : Context → Ending α) : Ending Unit → Ending α
  | (.ok _, c) => next c
  | (.error .continueLoop, c) => next c
  | (.error .breakLoop, c) => leave c
  | (.error e, c) => (.error e, c)

/-- Passes of a while loop, of which `left` are still allowed; the result counts all of them. -/
def whilePasses (head : Line) (test : Context → Ending Bool) (body : Context → Ending Unit)
    (left done : Nat) (c : Context) : Ending Nat :=
  match test c.settled with
  | (.ok true, c) =>
    match left with
    | 0 =>
      (.ok done, c.reported "WHILE"
        (s!"Loop exceeded {Execution.maxWhilePasses} iterations, possible infinite loop: " ++
          s!"§while[{head.args}]") (some head.location))
    | left + 1 =>
      afterPass (whilePasses head test body left (done + 1)) (fun c => (.ok (done + 1), c)) (body c)
  | (.ok false, c) => (.ok done, c)
  | (.error .breakLoop, c) => (.ok done, c)
  | (.error .continueLoop, c) => (.ok done, c)
  | (.error e, c) => (.error e, c)

/-- The end of a loop: its requests are gone, however it ended, and its passes are noted. -/
def finished (rule : String) (message : Nat → String) (passes : Ending Nat) : Ending Unit :=
  Ending.andThen (passes.1, passes.2.settled) fun done => (Exec.trace rule (message done)).runFrom

def whileLoop (d : Dispatcher) (head : Line) (body : Context → Ending Unit) (c : Context) :
    Ending Unit :=
  finished "WHILE" (fun done => s!"§while[{head.args}] finished after {done} iterations")
    (whilePasses head (Execution.condition d head).runFrom body Execution.maxWhilePasses 0 c)

/-- The variable of a counting loop and its bounds, found once; none after a report. -/
def forHeader (d : Dispatcher) (head : Line) : Exec (Option (Text × Binary64 × Binary64)) := do
  Exec.checkExit
  Exec.logStep head
  match Argument.split head.args with
  | [first, second, third] =>
    let name := first.strip
    if !name.isName then
      Exec.error "FOR" s!"Invalid loop variable name '{name}'"
      return none
    let startText ← d.argument second
    let limitText ← d.argument third
    Exec.raisePending
    match startText.number?, limitText.number? with
    | some start, some limit => return some (name, start, limit)
    | _, _ =>
      Exec.error "FOR" s!"Invalid loop bounds: '{startText}' and '{limitText}' must be numbers"
      return none
  | _ =>
    Exec.error "FOR"
      s!"Invalid §for syntax: expected §for[var; start; end], got: §for[{head.args}]"
    return none

/-- Passes of a counting loop while the counter is below the limit, of which `left` are still
allowed; the result counts all of them. -/
def forPasses (head : Line) (name : Text) (limit : Binary64) (body : Context → Ending Unit)
    (left done : Nat) (counter : Binary64) (c : Context) : Ending Nat :=
  if counter.less limit then
    unlessExit (c := c.settled) fun c =>
      match left with
      | 0 =>
        (.ok done, c.reported "FOR"
          s!"Loop exceeded {Execution.maxForPasses} iterations: §for[{head.args}]"
          (some head.location))
      | left + 1 =>
        ((Exec.setVariable name counter.format).runFrom c).andThen fun _ c =>
          afterPass (forPasses head name limit body left (done + 1) (counter.add .one))
            (fun c => (.ok (done + 1), c)) (body c)
  else (.ok done, c)

def forLoop (d : Dispatcher) (head : Line) (body : Context → Ending Unit) (c : Context) :
    Ending Unit :=
  ((forHeader d head).runFrom c).andThen fun header c =>
    match header with
    | none => (.ok (), c)
    | some (name, start, limit) =>
      finished "FOR" (fun done => s!"§for[{head.args}] finished after {done} iterations")
        (forPasses head name limit body Execution.maxForPasses 0 start c)

mutual

def Form.eval (d : Dispatcher) : Form → Context → Ending Unit
  | .plain line _ => (Execution.statement d line).runFrom
  | .conditional head body others _ => fun c =>
    ((Execution.condition d head.val).runFrom c).andThen fun taken c =>
      if taken then body.eval d c else others.eval d c
  | .whileLoop head body _ => whileLoop d head.val (body.eval d)
  | .forLoop head body _ => forLoop d head.val (body.eval d)

def Block.eval (d : Dispatcher) : Block → Context → Ending Unit
  | .nil => fun c => (.ok (), c)
  | .cons first rest =>
    unlessExit fun c => (first.eval d c).andThen fun _ c => rest.eval d c

def Branches.eval (d : Dispatcher) : Branches → Context → Ending Unit
  | .none => fun c => (.ok (), c)
  | .otherwise _ body => body.eval d
  | .elseIf head body others => fun c =>
    ((Execution.condition d head.val).runFrom c).andThen fun taken c =>
      if taken then body.eval d c else others.eval d c

end

/-- A request to leave a loop where there is none: it is reported, and then forgotten. -/
def misplaced (rule word : String) (c : Context) : Context :=
  (c.reported rule s!"§{word} used outside of a loop" none).settled

/-- The meaning of a whole program. -/
def Block.evalProgram (d : Dispatcher) : Block → Context → Ending Unit
  | .nil => fun c => (.ok (), c)
  | .cons first rest =>
    unlessExit fun c =>
      match first.eval d c with
      | (.ok _, c) => rest.evalProgram d c
      | (.error .breakLoop, c) => rest.evalProgram d (misplaced "BREAK" "break" c)
      | (.error .continueLoop, c) => rest.evalProgram d (misplaced "CONTINUE" "continue" c)
      | (.error e, c) => (.error e, c)

end Tree

/-! The equations of an execution -/

namespace Execution

theorem construct_conditional (d : Dispatcher) (branches : List Branch)
    (block : List Line → Exec Unit) :
    construct d (.conditional branches) (fun body _ => block body) =
      conditional d (branches.map fun b => (b.head, block b.body)) := by
  simp [construct]

theorem block_cons (d : Dispatcher) (line : Line) (rest : List Line) :
    block d (line :: rest) = (do
      Exec.checkExit
      match Construct.read line rest with
      | .error e => throw (.fault e.fault)
      | .ok (c, after) =>
        construct d c fun body _ => block d body
        block d after) := by
  rw [block]
  congr 1
  funext _
  split <;> rename_i he <;> simp only [he]

theorem program_cons (d : Dispatcher) (line : Line) (rest : List Line) :
    program d (line :: rest) = (do
      Exec.checkExit
      if line.isOpener && (splitBlock 0 rest).isNone then
        throw (.fault (StructureError.noTerminator line).fault)
      else
        match Construct.read line rest with
        | .error e => throw (.fault e.fault)
        | .ok (c, after) =>
          unlooped (construct d c fun body _ => block d body)
          program d after) := by
  rw [program]
  congr 1
  funext _
  cases line.isOpener && (splitBlock 0 rest).isNone with
  | true => rfl
  | false =>
    simp only [Bool.false_eq_true, if_false]
    split <;> rename_i he <;> simp only [he]

end Execution

/-! The parts of an execution -/

theorem runFrom_checkExit (c : Context) :
    Exec.checkExit.runFrom c = Tree.unlessExit (fun c => (.ok (), c)) c := by
  unfold Exec.checkExit Tree.unlessExit
  simp only [Exec.runFrom_bind, Exec.runFrom_get, Ending.andThen_ok]
  cases c.flags.exit <;> rfl

theorem unlessExit_andThen {α β : Type} (first : Context → Ending α)
    (next : α → Context → Ending β) (c : Context) :
    (Tree.unlessExit first c).andThen next = Tree.unlessExit (fun c => (first c).andThen next) c := by
  unfold Tree.unlessExit
  cases c.flags.exit <;> rfl

theorem runFrom_resetLoop (c : Context) : Exec.resetLoop.runFrom c = (.ok (), c.settled) := rfl

theorem runFrom_ensuring {α : Type} (x : Exec α) (c : Context) :
    (Exec.ensuring x Exec.resetLoop).runFrom c = ((x.runFrom c).1, (x.runFrom c).2.settled) := by
  unfold Exec.ensuring
  rw [Exec.runFrom_bind, Exec.runFrom_tryCatch]
  rcases x.runFrom c with ⟨_ | _, c⟩ <;> rfl

theorem runFrom_pass (body : Exec Unit) (c : Context) :
    (Execution.pass body).runFrom c =
      Tree.afterPass (fun c => (.ok true, c)) (fun c => (.ok false, c)) (body.runFrom c) := by
  unfold Execution.pass
  rw [Exec.runFrom_tryCatch, Exec.runFrom_bind]
  rcases body.runFrom c with ⟨e | _, c⟩
  · cases e <;> rfl
  · rfl

theorem afterPass_andThen {α β : Type} (next leave : Context → Ending α) (r : Ending Unit)
    (go : α → Context → Ending β) :
    (Tree.afterPass next leave r).andThen go =
      Tree.afterPass (fun c => (next c).andThen go) (fun c => (leave c).andThen go) r := by
  rcases r with ⟨e | _, c⟩
  · cases e <;> rfl
  · rfl

namespace Tree

/-- A loop whose body runs as some meaning does goes through the same passes. -/
theorem runFrom_whilePasses (d : Dispatcher) (head : Line) {body : Exec Unit}
    {meaning : Context → Ending Unit} (hb : ∀ c, body.runFrom c = meaning c) (left done : Nat)
    (c : Context) :
    (Execution.whilePasses d head body left done).runFrom c =
      whilePasses head (Execution.condition d head).runFrom meaning left done c := by
  induction left generalizing done c with
  | zero =>
    unfold Execution.whilePasses whilePasses
    rw [Exec.runFrom_bind, runFrom_resetLoop, Ending.andThen_ok, Exec.runFrom_bind,
      Execution.loopCondition, Exec.runFrom_tryCatch]
    rcases (Execution.condition d head).runFrom c.settled with ⟨e | t, c⟩
    · cases e <;> rfl
    · cases t <;> rfl
  | succ left ih =>
    unfold Execution.whilePasses whilePasses
    rw [Exec.runFrom_bind, runFrom_resetLoop, Ending.andThen_ok, Exec.runFrom_bind,
      Execution.loopCondition, Exec.runFrom_tryCatch]
    rcases (Execution.condition d head).runFrom c.settled with ⟨e | t, c⟩
    · cases e <;> rfl
    · cases t with
      | false => rfl
      | true =>
        simp only [Ending.andThen_ok, Bool.not_true, Bool.false_eq_true, if_false,
          Exec.runFrom_bind, runFrom_pass, afterPass_andThen, hb]
        simp only [if_true, ih, Exec.runFrom_pure]

theorem runFrom_whileLoop (d : Dispatcher) (head : Line) {body : Exec Unit}
    {meaning : Context → Ending Unit} (hb : ∀ c, body.runFrom c = meaning c) (c : Context) :
    (Execution.whileLoop d head body).runFrom c = whileLoop d head meaning c := by
  unfold Execution.whileLoop whileLoop finished
  rw [Exec.runFrom_bind, runFrom_ensuring, runFrom_whilePasses d head hb]

theorem runFrom_forPasses (head : Line) (name : Text) (limit : Binary64) {body : Exec Unit}
    {meaning : Context → Ending Unit} (hb : ∀ c, body.runFrom c = meaning c) (left done : Nat)
    (counter : Binary64) (c : Context) :
    (Execution.forPasses head name limit body left done counter).runFrom c =
      forPasses head name limit meaning left done counter c := by
  induction left generalizing done counter c with
  | zero =>
    unfold Execution.forPasses forPasses
    cases counter.less limit with
    | false => rfl
    | true =>
      simp only [Bool.not_true, Bool.false_eq_true, if_false, if_true, Exec.runFrom_bind,
        runFrom_resetLoop, Ending.andThen_ok, runFrom_checkExit, unlessExit_andThen]
      rfl
  | succ left ih =>
    unfold Execution.forPasses forPasses
    cases counter.less limit with
    | false => rfl
    | true =>
      simp only [Bool.not_true, Bool.false_eq_true, if_false, if_true, Exec.runFrom_bind,
        runFrom_resetLoop, Ending.andThen_ok, runFrom_checkExit, unlessExit_andThen, runFrom_pass,
        afterPass_andThen, hb, ih, Exec.runFrom_pure]

theorem runFrom_forLoop (d : Dispatcher) (head : Line) {body : Exec Unit}
    {meaning : Context → Ending Unit} (hb : ∀ c, body.runFrom c = meaning c) (c : Context) :
    (Execution.forLoop d head body).runFrom c = forLoop d head meaning c := by
  unfold Execution.forLoop forLoop forHeader finished
  simp only [Exec.runFrom_bind, Ending.andThen_assoc]
  congr 1
  funext _ c
  congr 1
  funext _ c
  -- only a list of three arguments has a header
  rcases Argument.split head.args with _ | ⟨first, _ | ⟨second, _ | ⟨third, _ | ⟨fourth, others⟩⟩⟩⟩
  · rfl
  · rfl
  · rfl
  · cases hn : first.strip.isName with
    | false =>
      simp only [hn, Bool.not_false, if_true]
      rfl
    | true =>
      simp only [hn, Bool.not_true, Bool.false_eq_true, if_false, Exec.runFrom_bind,
        Ending.andThen_assoc]
      congr 1
      funext start c
      congr 1
      funext limit c
      congr 1
      funext _ c
      cases start.number? with
      | none => rfl
      | some start =>
        cases limit.number? with
        | none => rfl
        | some limit =>
          simp only [Exec.runFrom_bind, Exec.runFrom_pure, Ending.andThen_ok, runFrom_ensuring,
            runFrom_forPasses head first.strip limit hb]
  · rfl

/-! Blocks -/

theorem runFrom_branch (d : Dispatcher) {head : Line} (hk : head.kind ≠ .elseHead)
    (body : Exec Unit) (others : List (Line × Exec Unit)) (c : Context) :
    (Execution.conditional d ((head, body) :: others)).runFrom c =
      ((Execution.condition d head).runFrom c).andThen fun taken c =>
        if taken then body.runFrom c else (Execution.conditional d others).runFrom c := by
  simp only [Execution.conditional, if_neg hk, Exec.runFrom_bind]
  congr 1
  funext taken c
  cases taken <;> rfl

mutual

theorem Form.runFrom_construct (d : Dispatcher) (f : Form) (c : Context) :
    (Execution.construct d f.construct fun body _ => Execution.block d body).runFrom c =
      f.eval d c := by
  cases f with
  | plain line h => simp only [Form.construct, Execution.construct, Form.eval]
  | conditional head body others closer =>
    have hk : head.val.kind ≠ .elseHead := by simp [head.property]
    simp only [Form.construct, Execution.construct_conditional, List.map_cons, Form.eval]
    rw [runFrom_branch d hk]
    simp only [Block.runFrom_block d body, Branches.runFrom_conditional d others]
  | whileLoop head body closer =>
    simp only [Form.construct, Execution.construct, Form.eval]
    exact runFrom_whileLoop d head.val (Block.runFrom_block d body) c
  | forLoop head body closer =>
    simp only [Form.construct, Execution.construct, Form.eval]
    exact runFrom_forLoop d head.val (Block.runFrom_block d body) c

/-- The lines of a block run as its tree does. -/
theorem Block.runFrom_block (d : Dispatcher) (b : Block) (c : Context) :
    (Execution.block d b.lines).runFrom c = b.eval d c := by
  cases b with
  | nil =>
    rw [Block.lines, Execution.block]
    simp only [Block.eval, Exec.runFrom_pure]
  | cons f rest =>
    rw [Block.lines, Execution.block_cons, read_form]
    simp only [Exec.runFrom_bind, runFrom_checkExit, unlessExit_andThen, Ending.andThen_ok,
      Form.runFrom_construct d f, Block.runFrom_block d rest, Block.eval]

theorem Branches.runFrom_conditional (d : Dispatcher) (bs : Branches) (c : Context) :
    (Execution.conditional d (bs.list.map fun b => (b.head, Execution.block d b.body))).runFrom c =
      bs.eval d c := by
  cases bs with
  | none => simp only [Branches.list, List.map_nil, Execution.conditional, Branches.eval,
      Exec.runFrom_pure]
  | otherwise head body =>
    simp only [Branches.list, List.map_cons, Execution.conditional, head.property, if_true,
      Branches.eval, Block.runFrom_block d body]
  | elseIf head body others =>
    have hk : head.val.kind ≠ .elseHead := by simp [head.property]
    simp only [Branches.list, List.map_cons, Branches.eval]
    rw [runFrom_branch d hk]
    simp only [Block.runFrom_block d body, Branches.runFrom_conditional d others]

end

theorem runFrom_unlooped (action : Exec Unit) (c : Context) :
    (Execution.unlooped action).runFrom c =
      match action.runFrom c with
      | (.ok _, c) => (.ok (), c)
      | (.error .breakLoop, c) => (.ok (), misplaced "BREAK" "break" c)
      | (.error .continueLoop, c) => (.ok (), misplaced "CONTINUE" "continue" c)
      | (.error e, c) => (.error e, c) := by
  unfold Execution.unlooped
  rw [Exec.runFrom_tryCatch]
  rcases action.runFrom c with ⟨e | _, c⟩
  · cases e <;> rfl
  · rfl

/-- A form that opens a block also closes it. -/
theorem splitBlock_form (f : Form) (rest : List Line) :
    (f.head.isOpener && (splitBlock 0 (f.tail ++ rest)).isNone) = false := by
  cases ho : f.head.isOpener with
  | false => rfl
  | true =>
    obtain ⟨inner, closer, ht, hn, hc, -⟩ := f.tail_of_isOpener ho
    rw [ht, List.append_assoc, List.singleton_append, splitBlock_nested hn, splitBlock_closer hc]
    rfl

/-- The lines of a program run as its tree does. -/
theorem Block.runFrom_program (d : Dispatcher) : (b : Block) → (c : Context) →
    (Execution.program d b.lines).runFrom c = b.evalProgram d c
  | .nil, c => by
    rw [Block.lines, Execution.program]
    simp only [Block.evalProgram, Exec.runFrom_pure]
  | .cons f rest, c => by
    rw [Block.lines, Execution.program_cons, read_form, splitBlock_form]
    simp only [Bool.false_eq_true, if_false, Exec.runFrom_bind, runFrom_checkExit,
      unlessExit_andThen, Ending.andThen_ok, runFrom_unlooped, Form.runFrom_construct d f,
      Block.runFrom_program d rest, Block.evalProgram]
    congr 1
    funext c
    rcases f.eval d c with ⟨e | _, c⟩
    · cases e <;> rfl
    · rfl

end Tree

end SigilScript
