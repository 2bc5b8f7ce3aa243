import SigilScript.Proofs.BasicAction
import SigilScript.Proofs.ProgramCounter

/-!
The contract of a run. It says where a line may start, what holds while its directives run, what holds
between lines, and how a run may be interrupted. If directives keep to this, then so does every part of
the engine, whatever it does with requests and signals. Each part has a contract of its own; those of
blocks and programs follow by induction on the number of lines. Most contracts come from an invariant that
directives keep, and from the flags at which a line may start.
-/
namespace SigilScript

/-- The lines that a construct runs itself: a plain line, and those that start branches and loops. -/
def Construct.heads : Construct → List Line
  | .plain line => [line]
  | .conditional branches => branches.map Branch.head
  | .whileLoop head _ => [head]
  | .forLoop head _ => [head]

theorem Conditional.subset_of_mem_others {c : Conditional} {b : Branch} (h : b ∈ c.others) :
    b.head :: b.body ⊆ c.lines := by
  intro line hm
  exact List.mem_append_right _ (List.mem_flatMap.mpr ⟨b, h, hm⟩)

theorem splitBlock_subset {rest body after : List Line} (h : splitBlock 0 rest = some (body, after)) :
    body ⊆ rest ∧ after ⊆ rest := by
  obtain ⟨closer, -, rfl⟩ := splitBlock_eq h
  refine ⟨List.subset_append_left _ _, fun line hm => ?_⟩
  exact List.mem_append_right _ (List.mem_cons_of_mem _ hm)

theorem scanBranches_subset {opener : Line} {rest : List Line} {c : Conditional}
    (h : scanBranches opener 0 rest = .ok c) : c.lines ⊆ rest ∧ c.after ⊆ rest := by
  obtain ⟨closer, -, rfl⟩ := scanBranches_eq h
  refine ⟨List.subset_append_left _ _, fun line hm => ?_⟩
  exact List.mem_append_right _ (List.mem_cons_of_mem _ hm)

/-- Reading a construct makes up no lines. -/
theorem read_subset {line : Line} {rest after : List Line} {c : Construct}
    (h : Construct.read line rest = .ok (c, after)) :
    c.heads ⊆ line :: rest ∧ (∀ body ∈ c.bodies, body ⊆ line :: rest) ∧ after ⊆ line :: rest := by
  have hrest : rest ⊆ line :: rest := List.subset_cons_self _ _
  have loop : ∀ {body after : List Line}, Construct.readLoop line rest = .ok (body, after) →
      [line] ⊆ line :: rest ∧ (∀ b ∈ [body], b ⊆ line :: rest) ∧ after ⊆ line :: rest := by
    intro body after hl
    obtain ⟨hb, ha⟩ := splitBlock_subset (readLoop_eq hl)
    refine ⟨by simp, ?_, List.Subset.trans ha hrest⟩
    rw [List.forall_mem_singleton]
    exact List.Subset.trans hb hrest
  unfold Construct.read at h
  split at h
  · obtain ⟨s, hs, he⟩ := map_eq_ok h
    simp only [Prod.mk.injEq] at he
    obtain ⟨rfl, rfl⟩ := he
    obtain ⟨hl, ha⟩ := scanBranches_subset hs
    refine ⟨?_, ?_, List.Subset.trans ha hrest⟩
    · rw [Construct.heads, List.map_cons, List.cons_subset]
      refine ⟨List.mem_cons_self, fun head hm => ?_⟩
      obtain ⟨b, hb, rfl⟩ := List.mem_map.mp hm
      exact hrest (hl (Conditional.subset_of_mem_others hb List.mem_cons_self))
    · rw [Construct.bodies, List.map_cons, List.forall_mem_cons, List.forall_mem_map]
      refine ⟨fun line hm => hrest (hl (List.mem_append_left _ hm)), fun b hb line hm => ?_⟩
      exact hrest (hl (Conditional.subset_of_mem_others hb (List.mem_cons_of_mem _ hm)))
  · obtain ⟨⟨body, a⟩, hs, he⟩ := map_eq_ok h
    simp only [Prod.mk.injEq] at he
    obtain ⟨rfl, rfl⟩ := he
    exact loop hs
  · obtain ⟨⟨body, a⟩, hs, he⟩ := map_eq_ok h
    simp only [Prod.mk.injEq] at he
    obtain ⟨rfl, rfl⟩ := he
    exact loop hs
  · simp only [Except.ok.injEq, Prod.mk.injEq] at h
    obtain ⟨rfl, rfl⟩ := h
    exact ⟨by simp [Construct.heads], by simp [Construct.bodies], hrest⟩


/-- Leaves a loop or the run. -/
def Interrupt.isSignal : Interrupt → Bool
  | .exitRun _ | .breakLoop | .continueLoop => true
  | .fault _ | .failure _ => false

/-- A line that asks for a directive: it is a statement of the directive, or a call of it stands in the
line. -/
def Line.Names (line : Line) (name : Text) : Prop :=
  line.kind = .directive ∧ line.name = name ∨ sigil :: name ++ [('[' : CodePoint)] <:+: line.text

/-- A call that some line asks for, with arguments that stand in the line. -/
def Dispatches (lines : List Line) (name args : Text) : Prop :=
  ∃ line ∈ lines, line.Names name ∧ args <:+: line.text

theorem NestedCall.dispatches {lines : List Line} {name args : Text} (h : NestedCall lines name args) :
    Dispatches lines name args := by
  obtain ⟨line, hm, hn, ha⟩ := h
  exact ⟨line, hm, .inr hn, ha⟩

/-- The context when a line has just started. -/
def Context.started (c : Context) (line : Line) : Context := ((Exec.logStep line).runFrom c).2

/-- What is assumed of the directives, and of the places in a run: where a line may start, in the midst of
a line, between lines, and where the run is interrupted. -/
structure Conduct (lines : List Line) (d : Dispatcher) (ready during waiting : Context → Prop)
    (stop : Interrupt → Context → Prop) : Prop where
  spelled : ∀ line ∈ lines, line.Spelled
  calls : ∀ name args, d.knows name → Dispatches lines name args →
    (d.invoke name args).Meets during (fun _ => during) stop
  depth : ∀ (f : Failure) c, f.isDepth → during c → stop (.failure f) c
  invariant : Invariant during
  reportsReady : Exec.IgnoresReports ready
  reportsWaiting : Exec.IgnoresReports waiting
  step : ∀ c line, ready c → ready (c.started line)
  assign : ∀ c store, ready c → ready { c with store := store }
  enters : ∀ c, ready c → during c
  waits : ∀ c, ready c → waiting c
  checks : Exec.checkExit.Meets waiting (fun _ => ready) stop
  pending : Exec.raisePending.Meets during (fun _ => ready) stop
  settle : ∀ c, waiting c → waiting c.settled
  leave : ∀ c, stop .breakLoop c ∨ stop .continueLoop c → waiting c.settled
  stopped : ∀ e c, stop e c → stop e c.settled

/-- A property of lines that holds also of the blocks in them, and under which the block structure is
interrupted only in certain ways. -/
structure Structural (P : List Line → Prop) (E : Interrupt → Prop) : Prop where
  hereditary : Counter.Hereditary P
  read : ∀ {line rest e}, P (line :: rest) → Construct.read line rest = .error e → E (.fault e.fault)
  unended : ∀ {line rest}, P (line :: rest) → line.isOpener → splitBlock 0 rest = none →
    E (.fault (StructureError.noTerminator line).fault)

theorem Structural.any : Structural (fun _ => True) fun _ => True :=
  ⟨fun _ _ _ _ _ _ => ⟨fun _ _ => trivial, trivial⟩, fun _ _ => trivial, fun _ _ _ => trivial⟩

theorem runFrom_raisePending (c : Context) :
    Exec.raisePending.runFrom c =
      (match c.flags.exit with
        | some code => .error (.exitRun code)
        | none =>
          if c.flags.leave then .error .breakLoop
          else if c.flags.next then .error .continueLoop
          else .ok (), c) := by
  rw [Exec.raisePending, Exec.runFrom_bind, runFrom_checkExit, Tree.unlessExit]
  cases c.flags.exit with
  | some code => rfl
  | none =>
    simp only [Ending.andThen_ok, Exec.runFrom_bind, Exec.runFrom_get]
    cases c.flags.leave <;> cases c.flags.next <;> rfl

section Engine

variable {lines : List Line} {d : Dispatcher} {ready during waiting : Context → Prop}
  {stop : Interrupt → Context → Prop} {E : Interrupt → Prop}

namespace Conduct

theorem meets_logStep (R : Conduct lines d ready during waiting stop) (line : Line) :
    (Exec.logStep line).Meets ready (fun _ => ready) stop :=
  Exec.meets_modify fun c hc => R.step c line hc

/-- What the engine itself reads of a line. -/
theorem meets_basic (R : Conduct lines d ready during waiting stop) {α : Type} {x : Exec α}
    (hx : x.Basic d (d.Calls lines) (fun _ => False)) : x.Meets during (fun _ => during) stop := by
  refine hx.meets R.invariant (fun name args h => R.calls name args h.1 h.2.dispatches) ?_
  rintro f c (hf | hf) hc
  · exact R.depth f c hf hc
  · exact hf.elim

/-! Lines -/

theorem meets_statement (R : Conduct lines d ready during waiting stop) {line : Line}
    (hm : line ∈ lines) : (Execution.statement d line).Meets ready (fun _ => ready) stop := by
  unfold Execution.statement
  split
  · rename_i hk
    refine (R.meets_logStep line).bind fun _ => ?_
    split
    · exact (Exec.obeys_warn R.reportsReady _ _).uninterrupted
    · split
      · exact (Exec.obeys_warn R.reportsReady _ _).uninterrupted
      · rename_i hknown
        have hcall : Dispatches lines line.name line.args :=
          ⟨line, hm, .inl ⟨hk, rfl⟩, (R.spelled line hm).args⟩
        exact ((R.calls _ _ (by simpa using hknown) hcall).assuming R.enters).bind fun _ => R.pending
  · exact Exec.meets_pure fun _ h => h

theorem meets_condition (R : Conduct lines d ready during waiting stop) {head : Line}
    (h : Written lines head.args) :
    (Execution.condition d head).Meets waiting (fun _ => ready) stop := by
  have hvalue := (R.meets_basic (d.basic_condition h)).assuming R.enters
  exact R.checks.bind fun _ => (R.meets_logStep head).bind fun _ => hvalue.bind fun _ =>
    R.pending.bind fun _ => Exec.meets_pure fun _ hc => hc

/-- A block is run between lines, and ends between lines. -/
def BlockMeets (waiting : Context → Prop) (stop : Interrupt → Context → Prop) (x : Exec Unit) : Prop :=
  x.Meets waiting (fun _ => waiting) stop

theorem meets_conditional (R : Conduct lines d ready during waiting stop)
    {branches : List (Line × Exec Unit)}
    (h : ∀ b ∈ branches, Written lines b.1.args ∧ BlockMeets waiting stop b.2) :
    BlockMeets waiting stop (Execution.conditional d branches) := by
  induction branches with
  | nil => exact Exec.meets_pure fun _ hc => hc
  | cons b others ih =>
    rw [List.forall_mem_cons] at h
    unfold Execution.conditional
    split
    · exact h.1.2
    · refine (R.meets_condition h.1.1).bind fun taken => ?_
      split
      · exact h.1.2.assuming R.waits
      · exact (ih h.2).assuming R.waits

/-! Loops -/

/-- Between lines, once the requests of a loop are gone. -/
def Settles (waiting : Context → Prop) (c : Context) : Prop := waiting c.settled

theorem settles (R : Conduct lines d ready during waiting stop) {c : Context} (h : ready c) :
    Settles waiting c := R.settle c (R.waits c h)

theorem reportsSettles (R : Conduct lines d ready during waiting stop) :
    Exec.IgnoresReports (Settles waiting) := fun c d hc => R.reportsWaiting c.settled d hc

theorem meets_resetLoop (waiting : Context → Prop) (stop : Interrupt → Context → Prop) :
    Exec.resetLoop.Meets (Settles waiting) (fun _ => waiting) stop := Exec.meets_modify fun _ hc => hc

theorem meets_pass (R : Conduct lines d ready during waiting stop) {body : Exec Unit}
    (hb : BlockMeets waiting stop body) :
    (Execution.pass body).Meets waiting (fun _ => Settles waiting) stop := by
  have hbody : (do body; return true : Exec Bool).Meets waiting (fun _ => Settles waiting) stop :=
    hb.bind fun _ => Exec.meets_pure fun c hc => R.settle c hc
  refine hbody.tryCatch fun e => ?_
  split
  · exact Exec.meets_pure fun c hc => R.leave c (.inl hc)
  · exact Exec.meets_pure fun c hc => R.leave c (.inr hc)
  · exact Exec.meets_throw fun _ hc => hc

/-- A body may start only after a condition that is true. -/
theorem meets_loopCondition (R : Conduct lines d ready during waiting stop) {head : Line}
    (h : Written lines head.args) :
    (Execution.loopCondition d head).Meets waiting
      (fun taken c => Settles waiting c ∧ (taken → ready c)) stop := by
  have hcondition := (R.meets_condition h).promising fun (taken : Bool) c hc =>
    show Settles waiting c ∧ (taken → ready c) from ⟨R.settles hc, fun _ => hc⟩
  refine hcondition.tryCatch fun e => ?_
  split
  · exact Exec.meets_pure fun c hc => ⟨R.leave c (.inl hc), fun ht => absurd ht (by simp)⟩
  · exact Exec.meets_pure fun c hc => ⟨R.leave c (.inr hc), fun ht => absurd ht (by simp)⟩
  · exact Exec.meets_throw fun _ hc => hc

theorem meets_whilePasses (R : Conduct lines d ready during waiting stop) {head : Line}
    (h : Written lines head.args) {body : Exec Unit} (hb : BlockMeets waiting stop body)
    (left done : Nat) :
    (Execution.whilePasses d head body left done).Meets (Settles waiting) (fun _ => Settles waiting)
      stop := by
  induction left generalizing done with
  | zero =>
    unfold Execution.whilePasses
    refine (meets_resetLoop waiting stop).bind fun _ => (R.meets_loopCondition h).bind fun taken => ?_
    split
    · exact Exec.meets_pure fun _ hc => hc.1
    · exact ((Exec.obeys_report R.reportsSettles _ _ _ _).uninterrupted.assuming fun _ hc => hc.1).bind
        fun _ => Exec.meets_pure fun _ hc => hc
  | succ left ih =>
    unfold Execution.whilePasses
    refine (meets_resetLoop waiting stop).bind fun _ => (R.meets_loopCondition h).bind fun taken => ?_
    split
    · exact Exec.meets_pure fun _ hc => hc.1
    · rename_i ht
      refine ((R.meets_pass hb).assuming fun c hc => R.waits c (hc.2 (by simpa using ht))).bind
        fun goesOn => ?_
      split
      · exact ih (done + 1)
      · exact Exec.meets_pure fun _ hc => hc

/-- However the passes of a loop end, no request to leave it is left. -/
theorem meets_passes (R : Conduct lines d ready during waiting stop) {passes : Exec Nat}
    (hp : passes.Meets (Settles waiting) (fun _ => Settles waiting) stop) :
    (Exec.ensuring passes Exec.resetLoop).Meets (Settles waiting) (fun _ => waiting) stop := by
  refine hp.ensuring (fun _ => meets_resetLoop waiting stop) fun e => ?_
  exact Exec.meets_modify fun c hc => R.stopped e c hc

theorem meets_whileLoop (R : Conduct lines d ready during waiting stop) {head : Line}
    (h : Written lines head.args) {body : Exec Unit} (hb : BlockMeets waiting stop body) :
    (Execution.whileLoop d head body).Meets (Settles waiting) (fun _ => waiting) stop :=
  (R.meets_passes (R.meets_whilePasses h hb _ _)).bind fun _ =>
    (Exec.obeys_trace R.reportsWaiting _ _).uninterrupted

theorem meets_setVariable (R : Conduct lines d ready during waiting stop) {name : Text}
    (h : name.isName) (value : Text) :
    (Exec.setVariable name value).Meets ready (fun _ => ready) stop := by
  simp only [Exec.setVariable, h]
  exact Exec.meets_modify fun c hc => R.assign c _ hc

theorem meets_forPasses (R : Conduct lines d ready during waiting stop) {head : Line} {name : Text}
    (hn : name.isName) {limit : Binary64} {body : Exec Unit} (hb : BlockMeets waiting stop body)
    (left done : Nat) (counter : Binary64) :
    (Execution.forPasses head name limit body left done counter).Meets (Settles waiting)
      (fun _ => Settles waiting) stop := by
  induction left generalizing done counter with
  | zero =>
    unfold Execution.forPasses
    split
    · exact Exec.meets_pure fun _ hc => hc
    · exact (meets_resetLoop waiting stop).bind fun _ => R.checks.bind fun _ =>
        (Exec.obeys_report R.reportsReady _ _ _ _).uninterrupted.bind fun _ =>
          Exec.meets_pure fun _ hc => R.settles hc
  | succ left ih =>
    unfold Execution.forPasses
    split
    · exact Exec.meets_pure fun _ hc => hc
    · refine (meets_resetLoop waiting stop).bind fun _ => R.checks.bind fun _ =>
        (R.meets_setVariable hn _).bind fun _ =>
          ((R.meets_pass hb).assuming R.waits).bind fun goesOn => ?_
      split
      · exact ih (done + 1) _
      · exact Exec.meets_pure fun _ hc => hc

theorem meets_forLoop (R : Conduct lines d ready during waiting stop) {head : Line}
    (h : Written lines head.args) {body : Exec Unit} (hb : BlockMeets waiting stop body) :
    BlockMeets waiting stop (Execution.forLoop d head body) := by
  have herror : ∀ rule message, (Exec.error rule message).Meets ready (fun _ => waiting) stop :=
    fun rule message =>
      (Exec.obeys_error R.reportsReady rule message).uninterrupted.promising fun _ => R.waits
  refine R.checks.bind fun _ => (R.meets_logStep head).bind fun _ => ?_
  split
  · rename_i first second third hs
    have hstart : Written lines second := h.of_isInfix (Argument.isInfix_of_mem_split (by simp [hs]))
    have hlimit : Written lines third := h.of_isInfix (Argument.isInfix_of_mem_split (by simp [hs]))
    dsimp only
    split
    · exact herror _ _
    · rename_i hn
      refine ((R.meets_basic (d.basic_argument hstart)).assuming R.enters).bind fun start =>
        (R.meets_basic (d.basic_argument hlimit)).bind fun limit => R.pending.bind fun _ => ?_
      split
      · exact ((R.meets_passes (R.meets_forPasses (by simpa using hn) hb _ _ _)).assuming
          fun _ hc => R.settles hc).bind fun _ => (Exec.obeys_trace R.reportsWaiting _ _).uninterrupted
      · exact herror _ _
  · exact herror _ _

/-! Blocks and programs -/

theorem meets_construct (R : Conduct lines d ready during waiting stop) {c : Construct}
    (hh : c.heads ⊆ lines) {block : (body : List Line) → body ∈ c.bodies → Exec Unit}
    (hb : ∀ body hm, BlockMeets waiting stop (block body hm)) :
    (Execution.construct d c block).Meets ready (fun _ => waiting) stop := by
  have written : ∀ line ∈ c.heads, Written lines line.args := fun line hm =>
    ⟨line, hh hm, (R.spelled line (hh hm)).args⟩
  cases c with
  | plain line =>
    exact (R.meets_statement (hh (List.mem_singleton_self line))).promising fun _ => R.waits
  | conditional branches =>
    refine (R.meets_conditional ?_).assuming R.waits
    rw [List.forall_mem_map]
    rintro ⟨b, hm⟩ -
    exact ⟨written b.head (List.mem_map_of_mem hm), hb b.body _⟩
  | whileLoop head body =>
    exact (R.meets_whileLoop (written head (List.mem_singleton_self _)) (hb _ _)).assuming
      fun _ hc => R.settles hc
  | forLoop head body =>
    exact (R.meets_forLoop (written head (List.mem_singleton_self _)) (hb _ _)).assuming R.waits

theorem meets_block (R : Conduct lines d ready during waiting stop) {P : List Line → Prop}
    (S : Structural P E) (hS : ∀ e c, E e → ready c → stop e c) {segment : List Line}
    (h : segment ⊆ lines) (hp : P segment) : BlockMeets waiting stop (Execution.block d segment) := by
  -- The bodies of a construct and the lines after it are parts of the segment, and shorter.
  induction hn : segment.length using Nat.strong_induction_on generalizing segment with
  | _ n ih =>
    cases segment with
    | nil =>
      rw [Execution.block]
      exact Exec.meets_pure fun _ hc => hc
    | cons line rest =>
      rw [Execution.block_cons]
      refine R.checks.bind fun _ => ?_
      cases hr : Construct.read line rest with
      | error e => exact Exec.meets_throw fun c hc => hS _ c (S.read hp hr) hc
      | ok r =>
        obtain ⟨c, after⟩ := r
        obtain ⟨hheads, hbodies, hafter⟩ := read_subset hr
        obtain ⟨hpb, hpa⟩ := S.hereditary line rest c after hp hr
        have hlt := read_after_le hr
        rw [List.length_cons] at hn
        refine (R.meets_construct (List.Subset.trans hheads h) fun body hm => ?_).bind fun _ =>
          ih after.length (by omega) (List.Subset.trans hafter h) hpa rfl
        have hle := read_body_le hr hm
        exact ih body.length (by omega) (List.Subset.trans (hbodies body hm) h) (hpb body hm) rfl

/-- How a program is interrupted: outside of every loop, a request to leave one does not stop the run. -/
def Ended (stop : Interrupt → Context → Prop) (e : Interrupt) (c : Context) : Prop :=
  stop e c ∧ e ≠ .breakLoop ∧ e ≠ .continueLoop

theorem meets_check (R : Conduct lines d ready during waiting stop) :
    Exec.checkExit.Meets waiting (fun _ => ready) (Ended stop) := by
  intro c hc
  have h := R.checks c hc
  rw [runFrom_checkExit, Tree.unlessExit] at h ⊢
  cases he : c.flags.exit with
  | none => simpa [he] using h
  | some code => exact ⟨by simpa [he] using h, by simp, by simp⟩

theorem meets_unlooped (R : Conduct lines d ready during waiting stop) {x : Exec Unit}
    (hx : x.Meets ready (fun _ => waiting) stop) :
    (Execution.unlooped x).Meets ready (fun _ => waiting) (Ended stop) := by
  have houtside : ∀ rule word, (Execution.outsideLoop rule word).Meets (Settles waiting)
      (fun _ => waiting) (Ended stop) := fun rule word =>
    (Exec.obeys_error R.reportsSettles _ _).uninterrupted.bind fun _ => meets_resetLoop _ _
  refine hx.tryCatch fun e => ?_
  split
  · exact (houtside _ _).assuming fun c hc => R.leave c (.inl hc)
  · exact (houtside _ _).assuming fun c hc => R.leave c (.inr hc)
  · rename_i hb hn
    exact Exec.meets_throw fun _ hc => ⟨hc, hb, hn⟩

/-- A run of lines of the program starts each line where it may start, and is interrupted only where it
may be. -/
theorem meets_program (R : Conduct lines d ready during waiting stop) {P : List Line → Prop}
    (S : Structural P E) (hS : ∀ e c, E e → ready c → stop e c) {segment : List Line}
    (h : segment ⊆ lines) (hp : P segment) :
    (Execution.program d segment).Meets waiting (fun _ => waiting) (Ended stop) := by
  have hfault : ∀ f c, E (.fault f) → ready c → Ended stop (.fault f) c := fun f c he hc =>
    ⟨hS _ c he hc, by simp, by simp⟩
  induction hn : segment.length using Nat.strong_induction_on generalizing segment with
  | _ n ih =>
    cases segment with
    | nil =>
      rw [Execution.program]
      exact Exec.meets_pure fun _ hc => hc
    | cons line rest =>
      rw [Execution.program_cons]
      refine R.meets_check.bind fun _ => ?_
      split
      · rename_i ho
        simp only [Bool.and_eq_true, Option.isNone_iff_eq_none] at ho
        exact Exec.meets_throw fun c hc => hfault _ c (S.unended hp ho.1 ho.2) hc
      · cases hr : Construct.read line rest with
        | error e => exact Exec.meets_throw fun c hc => hfault _ c (S.read hp hr) hc
        | ok r =>
          obtain ⟨c, after⟩ := r
          obtain ⟨hheads, hbodies, hafter⟩ := read_subset hr
          obtain ⟨hpb, hpa⟩ := S.hereditary line rest c after hp hr
          have hlt := read_after_le hr
          rw [List.length_cons] at hn
          refine (R.meets_unlooped (R.meets_construct (List.Subset.trans hheads h)
            fun body hm => ?_)).bind fun _ => ih after.length (by omega) (List.Subset.trans hafter h) hpa rfl
          exact R.meets_block S hS (List.Subset.trans (hbodies body hm) h) (hpb body hm)

end Conduct

end Engine

/-! Runs under an invariant -/

/-- What is assumed of the directives, of the invariant, and of the flags at which a line may start. -/
structure Regime (lines : List Line) (d : Dispatcher) (starts : Flags → Prop) (I : Context → Prop)
    (E : Interrupt → Prop) : Prop where
  spelled : ∀ line ∈ lines, line.Spelled
  invariant : Invariant I
  calls : ∀ name args, d.knows name → Dispatches lines name args → (d.invoke name args).Obeys I E
  depth : ∀ f : Failure, f.isDepth → E (.failure f)
  clear : starts .clear
  noExit : ∀ f, starts f → starts { f with exit := none }
  step : ∀ c line, I c → starts c.flags → I (c.started line)

/-- A line may start. -/
def Ready (starts : Flags → Prop) (I : Context → Prop) (c : Context) : Prop := I c ∧ starts c.flags

/-- A line may start, unless the run is to end. -/
def Waiting (starts : Flags → Prop) (I : Context → Prop) (c : Context) : Prop :=
  I c ∧ starts { c.flags with exit := none }

/-- Inside a program, signals are allowed too. -/
def Interrupted (I : Context → Prop) (E : Interrupt → Prop) (e : Interrupt) (c : Context) : Prop :=
  I c ∧ (e.isSignal ∨ E e)

/-- How a program is interrupted: it ends the run by an exit, or in one of the certain ways. -/
def Stopped (I : Context → Prop) (E : Interrupt → Prop) (e : Interrupt) (c : Context) : Prop :=
  I c ∧ ((∃ code, e = .exitRun code) ∨ E e)

section Invariants

variable {lines : List Line} {d : Dispatcher} {starts : Flags → Prop} {I : Context → Prop}
  {E : Interrupt → Prop}

/-- An action that changes no flags, such as a report, keeps a line ready. -/
theorem ignoresReports_ready (hI : Invariant I) : Exec.IgnoresReports (Ready starts I) :=
  fun c d hc => ⟨hI.ignoresReports c d hc.1, hc.2⟩

theorem ignoresReports_waiting (hI : Invariant I) : Exec.IgnoresReports (Waiting starts I) :=
  fun c d hc => ⟨hI.ignoresReports c d hc.1, hc.2⟩

theorem Ready.waiting (R : Regime lines d starts I E) {c : Context} (h : Ready starts I c) :
    Waiting starts I c :=
  ⟨h.1, R.noExit _ h.2⟩

theorem meets_checkExit : Exec.checkExit.Meets (Waiting starts I) (fun _ => Ready starts I)
    (Interrupted I E) := by
  rintro c ⟨hc, hf⟩
  rw [runFrom_checkExit, Tree.unlessExit]
  split
  · exact ⟨hc, .inl rfl⟩
  · rename_i hn
    rw [← hn] at hf
    exact ⟨hc, hf⟩

/-- When no request is pending, the flags are clear. -/
theorem meets_raisePending (hclear : starts .clear) :
    Exec.raisePending.Meets I (fun _ => Ready starts I) (Interrupted I E) := by
  intro c hc
  rw [runFrom_raisePending]
  split
  · exact ⟨hc, .inl rfl⟩
  · rename_i hexit
    split
    · exact ⟨hc, .inl rfl⟩
    · rename_i hleave
      split
      · exact ⟨hc, .inl rfl⟩
      · rename_i hnext
        have hflags : c.flags = .clear := by
          cases hf : c.flags
          simp_all [Flags.clear]
        exact ⟨hc, hflags ▸ hclear⟩

theorem Regime.conduct (R : Regime lines d starts I E) :
    Conduct lines d (Ready starts I) I (Waiting starts I) (Interrupted I E) where
  spelled := R.spelled
  calls name args hk hd := Exec.Meets.weaken (R.calls name args hk hd) (fun _ h => h) (fun _ _ h => h)
    fun _ _ h => ⟨h.1, .inr h.2⟩
  depth f _ hf hc := ⟨hc, .inr (R.depth f hf)⟩
  invariant := R.invariant
  reportsReady := ignoresReports_ready R.invariant
  reportsWaiting := ignoresReports_waiting R.invariant
  step c line hc := ⟨R.step c line hc.1 hc.2, hc.2⟩
  assign c store hc := ⟨R.invariant.change c store c.flags c.world hc.1, hc.2⟩
  enters _ hc := hc.1
  waits _ hc := hc.waiting R
  checks := meets_checkExit
  pending := meets_raisePending R.clear
  settle c hc := ⟨R.invariant.change c c.store .clear c.world hc.1, R.clear⟩
  leave c hc := ⟨R.invariant.change c c.store .clear c.world (hc.elim And.left And.left), R.clear⟩
  stopped _ c hc := ⟨R.invariant.change c c.store .clear c.world hc.1, hc.2⟩

/-- A run of lines of the program keeps the invariant, starts each line at the right flags, and is
interrupted only in the certain ways. -/
theorem Regime.meets_program (R : Regime lines d starts I E) {P : List Line → Prop}
    (S : Structural P E) {segment : List Line} (h : segment ⊆ lines) (hp : P segment) :
    (Execution.program d segment).Meets (Waiting starts I) (fun _ => Waiting starts I)
      (Stopped I E) := by
  refine (R.conduct.meets_program S (fun _ _ he hc => ⟨hc.1, .inr he⟩) h hp).weaken (fun _ hc => hc)
    (fun _ _ hc => hc) ?_
  rintro e c ⟨⟨hc, hs | he⟩, hb, hn⟩
  · refine ⟨hc, .inl ?_⟩
    cases e with
    | exitRun code => exact ⟨code, rfl⟩
    | breakLoop => exact absurd rfl hb
    | continueLoop => exact absurd rfl hn
    | fault f => simp [Interrupt.isSignal] at hs
    | failure f => simp [Interrupt.isSignal] at hs
  · exact ⟨hc, .inr he⟩

end Invariants

end SigilScript
