import SigilScript.Proofs.EngineContract
import SigilScript.Proofs.ValidatedProgram

/-!
Loops where they stand in a program. A loop is a head, nested lines and a closer; what stands after the
closer is run from the context that the loop leaves. Inside, a loop goes through passes: each is entered
from where the one before it ended, and a body that asks for the next pass has ended as well.
-/
namespace SigilScript

namespace Context

/-- With one more note, which is only taken when debugging. -/
def traced (rule message : String) (c : Context) : Context :=
  if c.debug then
    { c with events := c.events.push (.diagnostic ⟨.debug, rule, message, c.location⟩) }
  else c

theorem flags_traced (rule message : String) (c : Context) : (c.traced rule message).flags = c.flags := by
  unfold traced
  split <;> rfl

theorem settled_of_clear {c : Context} (h : c.flags = .clear) : c.settled = c := by
  have hflags : c.flags.resetLoop = c.flags := by
    rw [h]
    rfl
  rw [settled, hflags]

theorem settled_reported (rule message : String) (location : Option Location) (c : Context) :
    (c.reported rule message location).settled = c.settled.reported rule message location := rfl

theorem flags_settled {c : Context} (h : c.flags.exit = none) : c.settled.flags = .clear := by
  rw [settled, Flags.resetLoop, h]
  rfl

end Context

theorem Exec.runFrom_traced (rule message : String) (c : Context) :
    (Exec.trace rule message).runFrom c = (.ok (), c.traced rule message) := by
  rw [Exec.trace, Exec.runFrom_bind, Exec.runFrom_get, Ending.andThen_ok, Context.traced]
  split <;> rfl

theorem Tree.finished_ok (rule : String) (message : Nat → String) (done : Nat) (c : Context) :
    finished rule message (.ok done, c) = (.ok (), c.settled.traced rule (message done)) :=
  Exec.runFrom_traced rule (message done) c.settled

/-! Lines that open a block -/

namespace Tree

/-- The lines from one that opens a block on start with the lines of a form. -/
def OpensForms (lines : List Line) : Prop :=
  ∀ before head rest, lines = before ++ head :: rest → head.isOpener →
    ∃ (f : Form) (after : List Line), f.head = head ∧ rest = f.tail ++ after

namespace OpensForms

theorem nil : OpensForms [] := by
  intro before head rest h
  simp at h

theorem cons {line : Line} {lines : List Line} (h : OpensForms lines)
    (hline : line.isOpener → ∃ (f : Form) (after : List Line), f.head = line ∧ lines = f.tail ++ after) :
    OpensForms (line :: lines) := by
  intro before head rest he ho
  cases before with
  | nil =>
    obtain ⟨rfl, rfl⟩ := List.cons.inj he
    exact hline ho
  | cons first before => exact h before head rest (List.cons.inj he).2 ho

/-- A line that opens nothing in front. -/
theorem plain {line : Line} {lines : List Line} (h : OpensForms lines) (hline : line.isOpener = false) :
    OpensForms (line :: lines) :=
  h.cons fun ho => absurd ho (by rw [hline]; exact Bool.false_ne_true)

theorem append {first second : List Line} (h : OpensForms first) (hs : OpensForms second) :
    OpensForms (first ++ second) := by
  intro before head rest he ho
  rcases List.append_eq_append_iff.mp he with ⟨between, rfl, hsecond⟩ | ⟨between, hfirst, hrest⟩
  · exact hs between head rest hsecond ho
  · cases between with
    | nil => exact hs [] head rest hrest.symm ho
    | cons line between =>
      obtain ⟨rfl, rfl⟩ := List.cons.inj hrest
      obtain ⟨f, after, hf, rfl⟩ := h before head between hfirst ho
      exact ⟨f, after ++ second, hf, List.append_assoc _ _ _⟩

end OpensForms

mutual

theorem Form.opensForms (f : Form) : OpensForms f.lines := by
  have htail : OpensForms f.tail := by
    cases f with
    | plain line h => exact .nil
    | conditional head body others closer =>
      exact body.opensForms.append (others.opensForms.append (.plain .nil (isOpener_of_kind closer.property)))
    | whileLoop head body closer =>
      exact body.opensForms.append (.plain .nil (isOpener_of_kind closer.property))
    | forLoop head body closer =>
      exact body.opensForms.append (.plain .nil (isOpener_of_kind closer.property))
  exact htail.cons fun _ => ⟨f, [], rfl, (List.append_nil _).symm⟩

theorem Block.opensForms (b : Block) : OpensForms b.lines := by
  cases b with
  | nil => exact .nil
  | cons first rest => exact first.opensForms.append rest.opensForms

theorem Branches.opensForms (bs : Branches) : OpensForms bs.lines := by
  cases bs with
  | none => exact .nil
  | otherwise head body => exact body.opensForms.plain (isOpener_of_kind head.property)
  | elseIf head body others =>
    exact (body.opensForms.append others.opensForms).plain (isOpener_of_kind head.property)

end

end Tree

/-! Requests -/

/-- What the pending requests of a context are turned into, if there are any. -/
def Flags.pending? (f : Flags) : Option Interrupt :=
  match f.exit with
  | some code => some (.exitRun code)
  | none => if f.leave then some .breakLoop else if f.next then some .continueLoop else none

theorem Flags.pending?_eq_none_iff (f : Flags) : f.pending? = none ↔ f = .clear := by
  obtain ⟨exit, leave, next⟩ := f
  cases exit <;> cases leave <;> cases next <;> simp [pending?, clear]

theorem runFrom_raisePending_none {c : Context} (h : c.flags.pending? = none) :
    Exec.raisePending.runFrom c = (.ok (), c) := by
  rw [runFrom_raisePending, (Flags.pending?_eq_none_iff _).mp h]
  rfl

theorem runFrom_raisePending_some {c : Context} {e : Interrupt} (h : c.flags.pending? = some e) :
    Exec.raisePending.runFrom c = (.error e, c) := by
  rw [runFrom_raisePending]
  revert h
  unfold Flags.pending?
  cases c.flags.exit <;> cases c.flags.leave <;> cases c.flags.next <;> simp +contextual

namespace Execution

theorem runFrom_checkExit_none {c : Context} (h : c.flags.exit = none) :
    Exec.checkExit.runFrom c = (.ok (), c) := by
  rw [runFrom_checkExit, Tree.unlessExit, h]

/-- A condition that is evaluated without leaving a request behind. -/
theorem runFrom_condition {d : Dispatcher} {head : Line} {t : Bool} {c c' : Context} (hexit : c.flags.exit = none)
    (h : (d.condition head.args).runFrom (c.started head) = (.ok t, c')) (hclear : c'.flags = .clear) :
    (condition d head).runFrom c = (.ok t, c') := by
  have hlog : (Exec.logStep head).runFrom c = (.ok (), c.started head) := rfl
  have hpending := runFrom_raisePending_none ((Flags.pending?_eq_none_iff _).mpr hclear)
  rw [condition, Exec.runFrom_bind, runFrom_checkExit_none hexit, Ending.andThen_ok, Exec.runFrom_bind, hlog,
    Ending.andThen_ok, Exec.runFrom_bind, h, Ending.andThen_ok, Exec.runFrom_bind, hpending, Ending.andThen_ok,
    Exec.runFrom_pure]

/-- A condition that was evaluated has left no request behind, and found none to exit. -/
theorem flags_of_condition {d : Dispatcher} {head : Line} {t : Bool} {c c' : Context}
    (h : (condition d head).runFrom c = (.ok t, c')) : c.flags.exit = none ∧ c'.flags = .clear := by
  rw [condition] at h
  obtain ⟨_, c₁, hcheck, h⟩ := Exec.of_runFrom_bind h
  obtain ⟨_, c₂, -, h⟩ := Exec.of_runFrom_bind h
  obtain ⟨_, c₃, -, h⟩ := Exec.of_runFrom_bind h
  obtain ⟨_, c₄, hpending, h⟩ := Exec.of_runFrom_bind h
  cases h
  constructor
  · rw [runFrom_checkExit, Tree.unlessExit] at hcheck
    cases hx : c.flags.exit with
    | none => rfl
    | some code =>
      rw [hx] at hcheck
      cases hcheck
  · cases hp : c₃.flags.pending? with
    | none =>
      rw [runFrom_raisePending_none hp] at hpending
      cases hpending
      exact (Flags.pending?_eq_none_iff _).mp hp
    | some e =>
      rw [runFrom_raisePending_some hp] at hpending
      cases hpending

/-! Where a loop stands -/

/-- The lines, run from a context, do the same as the lines that are left, run from another one: inside a
block as well as outside of every block. -/
def LeadsTo (d : Dispatcher) (lines : List Line) (c : Context) (left : List Line) (c' : Context) : Prop :=
  (block d lines).runFrom c = (block d left).runFrom c' ∧
    (program d lines).runFrom c = (program d left).runFrom c'

theorem runFrom_block_cons {d : Dispatcher} {line : Line} {rest left : List Line} {construct : Construct}
    {c : Context} (hread : Construct.read line rest = .ok (construct, left)) (hexit : c.flags.exit = none) :
    (block d (line :: rest)).runFrom c =
      ((Execution.construct d construct fun body _ => block d body).runFrom c).andThen fun _ c =>
        (block d left).runFrom c := by
  rw [block_cons, hread, Exec.runFrom_bind, runFrom_checkExit_none hexit, Ending.andThen_ok, Exec.runFrom_bind]

/-- A construct that ends is left behind. -/
theorem leadsTo_of_read {d : Dispatcher} {line : Line} {rest left : List Line} {construct : Construct}
    {c c' : Context} (hread : Construct.read line rest = .ok (construct, left))
    (hclosed : (line.isOpener && (splitBlock 0 rest).isNone) = false) (hexit : c.flags.exit = none)
    (hrun : (Execution.construct d construct fun body _ => block d body).runFrom c = (.ok (), c')) :
    LeadsTo d (line :: rest) c left c' := by
  constructor
  · rw [runFrom_block_cons hread hexit, hrun, Ending.andThen_ok]
  · rw [program_cons, hread, hclosed, Exec.runFrom_bind, runFrom_checkExit_none hexit, Ending.andThen_ok]
    simp only [Bool.false_eq_true, if_false]
    rw [Exec.runFrom_bind, Tree.runFrom_unlooped, hrun, Ending.andThen_ok]

/-- A loop that ends is left behind with its closer. -/
theorem leadsTo_of_loop {d : Dispatcher} {head closer : Line} {body left : List Line} {construct : Construct}
    {c c' : Context} (hbody : Nested body) (hcloser : closer.isCloser)
    (hread : splitBlock 0 (body ++ closer :: left) = some (body, left) →
      Construct.read head (body ++ closer :: left) = .ok (construct, left))
    (hexit : c.flags.exit = none)
    (hrun : (Execution.construct d construct fun body _ => block d body).runFrom c = (.ok (), c')) :
    LeadsTo d (head :: (body ++ closer :: left)) c left c' := by
  have hsplit : splitBlock 0 (body ++ closer :: left) = some (body, left) := by
    rw [splitBlock_nested hbody, splitBlock_closer hcloser]
    simp [prepend]
  refine leadsTo_of_read (hread hsplit) ?_ hexit hrun
  rw [hsplit, Option.isNone_some, Bool.and_false]

/-! Passes -/

/-- One pass through a body that neither leaves the loop nor ends the run: it gets to its end, or asks for
the next pass. -/
structure Passes (body : Exec Unit) (c c' : Context) : Prop where
  ends : body.runFrom c = (.ok (), c') ∨ body.runFrom c = (.error .continueLoop, c')
  exit : c'.flags.exit = none

/-- Passes of a loop, counted from zero: `enters n` tells how the pass after `n` others is entered from the
context that these have left. -/
inductive Passing (enters : Nat → Context → Context → Prop) (body : Exec Unit) (c : Context) :
    Nat → Context → Prop
  | start : Passing enters body c 0 c
  | next {n : Nat} {c₁ c₂ c₃ : Context} (before : Passing enters body c n c₁) (entered : enters n c₁ c₂)
      (pass : Passes body c₂ c₃) : Passing enters body c (n + 1) c₃

/-- Whatever the body does in the first passes, it neither leaves the loop nor ends the run. -/
def Undisturbed (enters : Nat → Context → Context → Prop) (body : Exec Unit) (limit : Nat) (c : Context) :
    Prop :=
  ∀ n c₁ c₂, n < limit → Passing enters body c n c₁ → enters n c₁ c₂ → ∃ c₃, Passes body c₂ c₃

variable {enters : Nat → Context → Context → Prop} {body : Exec Unit} {c c' : Context} {n : Nat}

theorem Passes.afterPass {α : Type} (h : Passes body c c') (next leave : Context → Ending α) :
    Tree.afterPass next leave (body.runFrom c) = next c' := by
  rcases h.ends with h | h <;> rw [h] <;> rfl

theorem Passing.exit (h : Passing enters body c n c') (hexit : c.flags.exit = none) : c'.flags.exit = none := by
  cases h with
  | start => exact hexit
  | next _ _ pass => exact pass.exit

/-- Where each pass can be entered, nothing stops the passes. -/
theorem Undisturbed.passing {limit : Nat} (h : Undisturbed enters body limit c)
    (henters : ∀ k c₁, k < n → Passing enters body c k c₁ → ∃ c₂, enters k c₁ c₂) (hn : n ≤ limit) :
    ∃ c', Passing enters body c n c' := by
  induction n with
  | zero => exact ⟨c, .start⟩
  | succ n ih =>
    obtain ⟨c₁, h₁⟩ := ih (fun k c₁ hk => henters k c₁ (Nat.lt_succ_of_lt hk)) (Nat.le_of_succ_le hn)
    obtain ⟨c₂, h₂⟩ := henters n c₁ (Nat.lt_succ_self n) h₁
    obtain ⟨c₃, h₃⟩ := h n c₁ c₂ hn h₁ h₂
    exact ⟨c₃, .next h₁ h₂ h₃⟩

/-- A body that only asks for the next pass. -/
theorem passes_continue {line : Line} (hkind : line.kind = .directive) (htrailing : line.trailing = [])
    (hname : line.name = "continue") {c : Context} (hclear : c.flags = .clear) :
    ∃ c', Passes (block (Directive.install Registry.empty).dispatcher [line]) c c' := by
  have hread : Construct.read line [] = .ok (.plain line, []) := by rw [Construct.read, hkind]
  have hlog : (Exec.logStep line).runFrom c = (.ok (), c.started line) := rfl
  let c' : Context := { c.started line with
    events := (c.started line).events.push (.call "continue" line.args)
    flags := { c.flags with next := true } }
  have hstatement : (statement (Directive.install Registry.empty).dispatcher line).runFrom c =
      (.error .continueLoop, c') := by
    rw [statement, if_pos hkind, Exec.runFrom_bind, hlog, Ending.andThen_ok, htrailing, hname]
    change Exec.raisePending.runFrom c' = _
    apply runFrom_raisePending_some
    change Flags.pending? { c.flags with next := true } = _
    rw [hclear]
    rfl
  refine ⟨c', .inr ?_, ?_⟩
  · rw [runFrom_block_cons hread (congrArg Flags.exit hclear), construct, hstatement]
    rfl
  · change c.flags.exit = none
    rw [hclear]
    rfl

end Execution

end SigilScript
