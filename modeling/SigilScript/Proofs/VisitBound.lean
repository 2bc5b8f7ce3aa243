import Mathlib.Tactic.Ring
import SigilScript.Proofs.ClearSteps
import SigilScript.Proofs.ValidatedRun

/-!
How often a line is run. The passes of a loop are limited: a while loop has at most 1000 of them, and its
condition is tested once more; a counting loop has at most 10000. Every run of a source that passes
therefore comes to an end, and how often a line starts in it is bounded by the loops that are open where
the line stands, whatever the directives do.

What a tree adds to the log is bounded by recursion on the tree. In the lines of the tree the same bound
is found in one scan, with the loops that are open before each line.
-/
namespace SigilScript

/-! Loops around a line -/

/-- How many loops of each kind are open. -/
structure Loops where
  whiles : Nat
  fors : Nat
  deriving DecidableEq, Repr

namespace Loops

def none : Loops := ⟨0, 0⟩

/-- The loops that are open after a line. -/
def next (n : Loops) (line : Line) : Loops :=
  match line.kind with
  | .whileHead => { n with whiles := n.whiles + 1 }
  | .endWhile => { n with whiles := n.whiles - 1 }
  | .forHead => { n with fors := n.fors + 1 }
  | .endFor => { n with fors := n.fors - 1 }
  | _ => n

/-- How many passes the open loops have at most, taken together. -/
def passes (n : Loops) : Nat :=
  Nat.pow Execution.maxWhilePasses n.whiles * Nat.pow Execution.maxForPasses n.fors

/-- How often a line starts at most: once in each pass, and a condition once more than its passes. -/
def limit (n : Loops) (line : Line) : Nat :=
  if line.kind = .whileHead then (Execution.maxWhilePasses + 1) * n.passes else n.passes

/-- The limits of all lines together, each as often as it counts. -/
def total (weight : Line → Nat) : Loops → List Line → Nat
  | _, [] => 0
  | n, line :: rest => weight line * n.limit line + total weight (n.next line) rest

theorem total_eq_zero {weight : Line → Nat} {lines : List Line} (h : ∀ line ∈ lines, weight line = 0)
    (n : Loops) : total weight n lines = 0 := by
  induction lines generalizing n with
  | nil => rfl
  | cons line rest ih =>
    rw [List.forall_mem_cons] at h
    rw [total, h.1, Nat.zero_mul, Nat.zero_add]
    exact ih h.2 _

/-- If only one line counts, its own limit is left. -/
theorem total_single {weight : Line → Nat} {before after : List Line} {line : Line}
    (hbefore : ∀ l ∈ before, weight l = 0) (hafter : ∀ l ∈ after, weight l = 0) (n : Loops) :
    total weight n (before ++ line :: after) = weight line * (before.foldl next n).limit line := by
  induction before generalizing n with
  | nil => rw [List.nil_append, total, total_eq_zero hafter, Nat.add_zero, List.foldl_nil]
  | cons first before ih =>
    rw [List.forall_mem_cons] at hbefore
    rw [List.cons_append, total, hbefore.1, Nat.zero_mul, Nat.zero_add, ih hbefore.2, List.foldl_cons]

theorem passes_while (n : Loops) :
    passes { n with whiles := n.whiles + 1 } = Execution.maxWhilePasses * n.passes := by
  simp only [passes, Nat.pow_eq]
  ring

theorem passes_for (n : Loops) :
    passes { n with fors := n.fors + 1 } = Execution.maxForPasses * n.passes := by
  simp only [passes, Nat.pow_eq]
  ring

/-- A branch and those after it: their head opens nothing. -/
theorem branch_le_total {weight : Line → Nat} {n : Loops} {head : Line} {body others rest : List Line}
    {inBody inOthers : Nat} (hnext : n.next head = n) (hlimit : n.limit head = n.passes)
    (hbody : n.passes * inBody + n.total weight (others ++ rest) ≤
      n.total weight (body ++ (others ++ rest)))
    (hothers : n.passes * inOthers + n.total weight rest ≤ n.total weight (others ++ rest)) :
    n.passes * (weight head + (inBody + inOthers)) + n.total weight rest ≤
      n.total weight (head :: (body ++ (others ++ rest))) := by
  rw [total, hnext, hlimit, Nat.mul_add, Nat.mul_add, Nat.mul_comm (weight head)]
  omega

/-- A loop that is open from its head to its closer. -/
theorem loop_le_total {weight : Line → Nat} {n inner : Loops} {head closer : Line}
    {body rest : List Line} {starts passes inBody : Nat} (hnext : n.next head = inner)
    (hafter : inner.next closer = n) (hlimit : n.limit head = starts * n.passes)
    (hpasses : inner.passes = passes * n.passes)
    (hbody : inner.passes * inBody + inner.total weight (closer :: rest) ≤
      inner.total weight (body ++ closer :: rest)) :
    n.passes * (starts * weight head + passes * inBody) + n.total weight rest ≤
      n.total weight (head :: (body ++ closer :: rest)) := by
  have hcloser : n.total weight rest ≤ inner.total weight (closer :: rest) := by
    rw [total, hafter]
    exact Nat.le_add_left _ _
  have hsplit : n.passes * (starts * weight head + passes * inBody) =
      weight head * (starts * n.passes) + passes * n.passes * inBody := by ring
  rw [total, hnext, hlimit, hsplit]
  rw [hpasses] at hbody
  omega

end Loops

/-! Bounds on a tree -/

namespace Tree

mutual

/-- How often lines start in one run of a form at most, each as often as it counts. -/
def Form.bound (weight : Line → Nat) : Form → Nat
  | .plain line _ => weight line
  | .conditional head body others _ => weight head.val + (body.bound weight + others.bound weight)
  | .whileLoop head body _ =>
    (Execution.maxWhilePasses + 1) * weight head.val + Execution.maxWhilePasses * body.bound weight
  | .forLoop head body _ => weight head.val + Execution.maxForPasses * body.bound weight

def Block.bound (weight : Line → Nat) : Block → Nat
  | .nil => 0
  | .cons first rest => first.bound weight + rest.bound weight

def Branches.bound (weight : Line → Nat) : Branches → Nat
  | .none => 0
  | .otherwise _ body => body.bound weight
  | .elseIf head body others => weight head.val + (body.bound weight + others.bound weight)

end

mutual

/-- Scanning the lines of a form finds its bound, in each pass of the loops that are open before it, and
leaves these loops open. -/
theorem Form.bound_le_total (weight : Line → Nat) (n : Loops) (rest : List Line) (f : Form) :
    n.passes * f.bound weight + n.total weight rest ≤ n.total weight (f.head :: (f.tail ++ rest)) := by
  cases f with
  | plain line h =>
    have hnext : n.next line = n := by rcases h with h | h <;> simp [Loops.next, h]
    have hlimit : n.limit line = n.passes := by rcases h with h | h <;> simp [Loops.limit, h]
    simp only [Form.bound, Form.head, Form.tail, List.nil_append, Loops.total, hnext, hlimit]
    rw [Nat.mul_comm]
  | conditional head body others closer =>
    have hnext : n.next head.val = n := by simp [Loops.next, head.property]
    have hafter : n.next closer.val = n := by simp [Loops.next, closer.property]
    have hlimit : n.limit head.val = n.passes := by simp [Loops.limit, head.property]
    have hbranch := Loops.branch_le_total hnext hlimit
      (Block.bound_le_total weight n (others.lines ++ closer.val :: rest) body)
      (Branches.bound_le_total weight n (closer.val :: rest) others)
    simp only [Form.bound, Form.head, Form.tail, List.append_assoc, List.singleton_append]
    rw [Loops.total, hafter] at hbranch
    omega
  | whileLoop head body closer =>
    simp only [Form.bound, Form.head, Form.tail, List.append_assoc, List.singleton_append]
    refine Loops.loop_le_total ?_ ?_ ?_ n.passes_while (Block.bound_le_total weight _ _ body)
    · simp [Loops.next, head.property]
    · simp [Loops.next, closer.property]
    · simp [Loops.limit, head.property]
  | forLoop head body closer =>
    simp only [Form.bound, Form.head, Form.tail, List.append_assoc, List.singleton_append]
    rw [← Nat.one_mul (weight head.val)]
    refine Loops.loop_le_total ?_ ?_ ?_ n.passes_for (Block.bound_le_total weight _ _ body)
    · simp [Loops.next, head.property]
    · simp [Loops.next, closer.property]
    · simp [Loops.limit, head.property]

theorem Block.bound_le_total (weight : Line → Nat) (n : Loops) (rest : List Line) (b : Block) :
    n.passes * b.bound weight + n.total weight rest ≤ n.total weight (b.lines ++ rest) := by
  cases b with
  | nil => simp [Block.bound, Block.lines]
  | cons f others =>
    have hform := Form.bound_le_total weight n (others.lines ++ rest) f
    have hothers := Block.bound_le_total weight n rest others
    simp only [Block.bound, Block.lines, List.cons_append, List.append_assoc, Nat.mul_add]
    omega

theorem Branches.bound_le_total (weight : Line → Nat) (n : Loops) (rest : List Line) (bs : Branches) :
    n.passes * bs.bound weight + n.total weight rest ≤ n.total weight (bs.lines ++ rest) := by
  cases bs with
  | none => simp [Branches.bound, Branches.lines]
  | otherwise head body =>
    have hnext : n.next head.val = n := by simp [Loops.next, head.property]
    have hbody := Block.bound_le_total weight n rest body
    simp only [Branches.bound, Branches.lines, List.cons_append, Loops.total, hnext]
    omega
  | elseIf head body others =>
    have hnext : n.next head.val = n := by simp [Loops.next, head.property]
    have hlimit : n.limit head.val = n.passes := by simp [Loops.limit, head.property]
    simp only [Branches.bound, Branches.lines, List.cons_append, List.append_assoc]
    exact Loops.branch_le_total hnext hlimit
      (Block.bound_le_total weight n (others.lines ++ rest) body)
      (Branches.bound_le_total weight n rest others)

end

end Tree

/-! Entries that are added -/

/-- Entries were added to the log, at most `n` of them at the given places. -/
def Context.Visits (places : Option Location → Bool) (n : Nat) (before after : Context) : Prop :=
  ∃ new, after.log.entries.toList = before.log.entries.toList ++ new ∧
    new.countP (fun e => places e.location) ≤ n

/-- From each context, at most `n` entries are added at the given places. -/
def Visiting (places : Option Location → Bool) (n : Nat) {α : Type} (run : Context → Ending α) : Prop :=
  ∀ c : Context, c.Visits places n (run c).2

/-- A line counts if its place is one of those given. -/
def Line.weight (places : Option Location → Bool) (line : Line) : Nat :=
  if places (some line.location) then 1 else 0

variable {places : Option Location → Bool} {α β : Type} {n m : Nat}

namespace Context.Visits

theorem of_log_eq {c c' : Context} (h : c'.log = c.log) : c.Visits places n c' :=
  ⟨[], by rw [h, List.append_nil], Nat.zero_le _⟩

theorem trans {first second third : Context} (h : first.Visits places n second)
    (hs : second.Visits places m third) : first.Visits places (n + m) third := by
  obtain ⟨new, hnew, hn⟩ := h
  obtain ⟨more, hmore, hm⟩ := hs
  refine ⟨new ++ more, by rw [hmore, hnew, List.append_assoc], ?_⟩
  rw [List.countP_append]
  exact Nat.add_le_add hn hm

theorem mono {c c' : Context} (h : c.Visits places n c') (hle : n ≤ m) : c.Visits places m c' := by
  obtain ⟨new, hnew, hn⟩ := h
  exact ⟨new, hnew, hn.trans hle⟩

end Context.Visits

namespace Visiting

theorem mono {run : Context → Ending α} (h : Visiting places n run) (hle : n ≤ m) :
    Visiting places m run := fun c => (h c).mono hle

theorem andThen {run : Context → Ending α} {next : α → Context → Ending β}
    (h : Visiting places n run) (hnext : ∀ a, Visiting places m (next a)) :
    Visiting places (n + m) fun c => (run c).andThen next := by
  intro c
  have hrun := h c
  change c.Visits places (n + m) ((run c).andThen next).2
  generalize run c = r at hrun ⊢
  obtain ⟨e | a, c'⟩ := r
  · exact hrun.mono (Nat.le_add_right n m)
  · exact hrun.trans (hnext a c')

theorem bind {x : Exec α} {f : α → Exec β} (h : Visiting places n x.runFrom)
    (hf : ∀ a, Visiting places m (f a).runFrom) : Visiting places (n + m) (x >>= f).runFrom := by
  intro c
  rw [Exec.runFrom_bind]
  exact h.andThen hf c

theorem of_keepsLog {x : Exec α} (h : x.KeepsLog) : Visiting places n x.runFrom :=
  fun c => .of_log_eq (h c).log

theorem result (a : α) : Visiting places n fun c => (.ok a, c) := fun _ => .of_log_eq rfl

/-- What keeps the log may stand before and after. -/
theorem before {x : Exec α} {f : α → Exec β} (h : x.KeepsLog)
    (hf : ∀ a, Visiting places n (f a).runFrom) : Visiting places n (x >>= f).runFrom := by
  simpa only [Nat.zero_add] using (of_keepsLog (n := 0) h).bind hf

theorem after {x : Exec α} {f : α → Exec β} (h : Visiting places n x.runFrom)
    (hf : ∀ a, (f a).KeepsLog) : Visiting places n (x >>= f).runFrom :=
  h.bind (m := 0) fun a => of_keepsLog (hf a)

theorem logStep (line : Line) : Visiting places (line.weight places) (Exec.logStep line).runFrom := by
  intro c
  refine ⟨[_], Array.toList_push, ?_⟩
  simp only [List.countP_singleton]
  exact Nat.le_refl _

theorem unlessExit {run : Context → Ending α} (h : Visiting places n run) :
    Visiting places n (Tree.unlessExit run) := by
  intro c
  unfold Tree.unlessExit
  split
  · exact .of_log_eq rfl
  · exact h c

/-- A pass, and what follows it. -/
theorem afterPass {body : Context → Ending Unit} {next leave : Context → Ending α}
    (hb : Visiting places n body) (hn : Visiting places m next) (hl : Visiting places m leave) :
    Visiting places (n + m) fun c => Tree.afterPass next leave (body c) := by
  intro c
  have hbody := hb c
  change c.Visits places (n + m) (Tree.afterPass next leave (body c)).2
  generalize body c = r at hbody ⊢
  obtain ⟨e | _, c'⟩ := r
  · cases e with
    | continueLoop => exact hbody.trans (hn c')
    | breakLoop => exact hbody.trans (hl c')
    | exitRun code => exact hbody.mono (Nat.le_add_right n m)
    | fault f => exact hbody.mono (Nat.le_add_right n m)
    | failure f => exact hbody.mono (Nat.le_add_right n m)
  · exact hbody.trans (hn c')

end Visiting

/-! Lines -/

theorem Exec.KeepsLog.bind {x : Exec α} {f : α → Exec β} (h : x.KeepsLog) (hf : ∀ a, (f a).KeepsLog) :
    (x >>= f).KeepsLog :=
  Exec.related_of_obeys .refl fun c => (h.obeys c).bind fun a => (hf a).obeys c

theorem Exec.keepsLog_pure (a : α) : (pure a : Exec α).KeepsLog := fun c => .refl c

/-- An action that only reports. -/
theorem Exec.keepsLog_of_reports {x : Exec α}
    (h : ∀ I, Exec.IgnoresReports I → x.Obeys I fun _ => True) : x.KeepsLog :=
  Exec.related_of_obeys .refl fun c => h c.SameLog (Invariant.sameLog c).ignoresReports

theorem Exec.keepsLog_error (rule message : String) : (Exec.error rule message).KeepsLog :=
  keepsLog_of_reports fun _ hI => obeys_error hI rule message

theorem Exec.keepsLog_warn (rule message : String) : (Exec.warn rule message).KeepsLog :=
  keepsLog_of_reports fun _ hI => obeys_warn hI rule message

theorem Exec.keepsLog_trace (rule message : String) : (Exec.trace rule message).KeepsLog :=
  keepsLog_of_reports fun _ hI => obeys_trace hI rule message

theorem Exec.keepsLog_setVariable (name value : Text) : (Exec.setVariable name value).KeepsLog := by
  intro c
  unfold Exec.setVariable
  split <;> exact ⟨rfl, rfl⟩

theorem keepsLog_checkExit : Exec.checkExit.KeepsLog := by
  intro c
  rw [runFrom_checkExit, Tree.unlessExit]
  split <;> exact .refl c

theorem keepsLog_raisePending : Exec.raisePending.KeepsLog := by
  intro c
  rw [runFrom_raisePending]
  exact .refl c

namespace Visiting

variable {d : Dispatcher}

theorem statement (hd : ∀ name args, (d.invoke name args).KeepsLog) (line : Line) :
    Visiting places (line.weight places) (Execution.statement d line).runFrom := by
  unfold Execution.statement
  split
  · refine (logStep line).after fun _ => ?_
    split
    · exact Exec.keepsLog_warn _ _
    · split
      · exact Exec.keepsLog_warn _ _
      · exact (hd _ _).bind fun _ => keepsLog_raisePending
  · exact of_keepsLog (Exec.keepsLog_pure ())

theorem condition (hd : ∀ name args, (d.invoke name args).KeepsLog) (head : Line) :
    Visiting places (head.weight places) (Execution.condition d head).runFrom := by
  have hbasic : (d.condition head.args).Basic d _ (fun _ => False) :=
    d.basic_condition (.of_text head.args)
  refine before keepsLog_checkExit fun _ => (logStep head).after fun _ => ?_
  exact (hbasic.keepsLog hd).bind fun _ => keepsLog_raisePending.bind fun _ => Exec.keepsLog_pure _

/-- Only one of the branches is run. -/
theorem branch {k : Nat} {test : Context → Ending Bool} {body others : Context → Ending Unit}
    (ht : Visiting places n test) (hb : Visiting places m body) (ho : Visiting places k others) :
    Visiting places (n + (m + k))
      fun c => (test c).andThen fun taken c => if taken then body c else others c := by
  refine ht.andThen fun taken => ?_
  cases taken with
  | true => exact hb.mono (Nat.le_add_right m k)
  | false => exact ho.mono (Nat.le_add_left k m)

/-! Loops -/

/-- The condition is tested once more than the body is run. -/
theorem whilePasses {head : Line} {test : Context → Ending Bool} {body : Context → Ending Unit}
    (ht : Visiting places n test) (hb : Visiting places m body) (left done : Nat) :
    Visiting places ((left + 1) * n + left * m) (Tree.whilePasses head test body left done) := by
  induction left generalizing done with
  | zero =>
    intro c
    have htest : c.Visits places n (test c.settled).2 := ht c.settled
    rw [Tree.whilePasses]
    generalize test c.settled = r at htest ⊢
    have hle : n ≤ (0 + 1) * n + 0 * m := by omega
    obtain ⟨e | taken, c'⟩ := r
    · cases e <;> exact htest.mono hle
    · cases taken <;> exact htest.mono hle
  | succ left ih =>
    intro c
    have htest : c.Visits places n (test c.settled).2 := ht c.settled
    have hpass := hb.afterPass (ih (done + 1)) (result (done + 1))
    rw [Tree.whilePasses]
    generalize test c.settled = r at htest ⊢
    have hsum : (left + 1 + 1) * n + (left + 1) * m = n + (m + ((left + 1) * n + left * m)) := by ring
    rw [hsum]
    obtain ⟨e | taken, c'⟩ := r
    · cases e <;> exact htest.mono (Nat.le_add_right _ _)
    · cases taken with
      | false => exact htest.mono (Nat.le_add_right _ _)
      | true => exact htest.trans (hpass c')

theorem forPasses {head : Line} {name : Text} {limit : Binary64} {body : Context → Ending Unit}
    (hb : Visiting places n body) (left done : Nat) (counter : Binary64) :
    Visiting places (left * n) (Tree.forPasses head name limit body left done counter) := by
  induction left generalizing done counter with
  | zero =>
    intro c
    rw [Tree.forPasses]
    split
    · unfold Tree.unlessExit
      split <;> exact .of_log_eq rfl
    · exact .of_log_eq rfl
  | succ left ih =>
    have hpass := hb.afterPass (ih (done + 1) (counter.add .one)) (result (done + 1))
    have hset : Visiting places 0 (Exec.setVariable name counter.format).runFrom :=
      of_keepsLog (Exec.keepsLog_setVariable _ _)
    have hnext := (hset.andThen fun _ => hpass).unlessExit
    intro c
    have hsum : (left + 1) * n = 0 + (n + left * n) := by ring
    rw [Tree.forPasses, hsum]
    split
    · exact hnext c.settled
    · exact .of_log_eq rfl

/-- The end of a loop starts no line. -/
theorem finished {rule : String} {message : Nat → String} {passes : Context → Ending Nat}
    (h : Visiting places n passes) : Visiting places n fun c => Tree.finished rule message (passes c) := by
  have htrace : ∀ done, Visiting places 0 (Exec.trace rule (message done)).runFrom := fun done =>
    of_keepsLog (Exec.keepsLog_trace rule (message done))
  have hsettled : Visiting places n fun c => ((passes c).1, (passes c).2.settled) := h
  exact hsettled.andThen htrace

theorem whileLoop (hd : ∀ name args, (d.invoke name args).KeepsLog) (head : Line)
    {body : Context → Ending Unit} (hb : Visiting places n body) :
    Visiting places ((Execution.maxWhilePasses + 1) * head.weight places + Execution.maxWhilePasses * n)
      (Tree.whileLoop d head body) :=
  finished (whilePasses (condition hd head) hb Execution.maxWhilePasses 0)

theorem forHeader (hd : ∀ name args, (d.invoke name args).KeepsLog) (head : Line) :
    Visiting places (head.weight places) (Tree.forHeader d head).runFrom := by
  have hargument : ∀ t, (d.argument t).KeepsLog := by
    intro t
    have hbasic : (d.argument t).Basic d _ (fun _ => False) := d.basic_argument (.of_text t)
    exact hbasic.keepsLog hd
  have hnone : ∀ rule message, (do Exec.error rule message; return none :
      Exec (Option (Text × Binary64 × Binary64))).KeepsLog := fun rule message =>
    (Exec.keepsLog_error rule message).bind fun _ => Exec.keepsLog_pure _
  refine before keepsLog_checkExit fun _ => (logStep head).after fun _ => ?_
  split
  · dsimp only
    split
    · exact hnone _ _
    · refine (hargument _).bind fun _ => (hargument _).bind fun _ => keepsLog_raisePending.bind fun _ => ?_
      split
      · exact Exec.keepsLog_pure _
      · exact hnone _ _
  · exact hnone _ _

theorem forLoop (hd : ∀ name args, (d.invoke name args).KeepsLog) (head : Line)
    {body : Context → Ending Unit} (hb : Visiting places n body) :
    Visiting places (head.weight places + Execution.maxForPasses * n) (Tree.forLoop d head body) := by
  refine (forHeader hd head).andThen fun header => ?_
  match header with
  | none => exact result ()
  | some (name, start, limit) => exact finished (forPasses hb Execution.maxForPasses 0 start)

end Visiting

/-! Trees -/

namespace Tree

variable {d : Dispatcher}

mutual

theorem Form.visiting (hd : ∀ name args, (d.invoke name args).KeepsLog) (f : Form) :
    Visiting places (f.bound (Line.weight places)) (f.eval d) := by
  cases f with
  | plain line h =>
    rw [Form.bound, Form.eval]
    exact .statement hd line
  | conditional head body others closer =>
    rw [Form.bound, Form.eval]
    exact (Visiting.condition hd head.val).branch (body.visiting hd) (others.visiting hd)
  | whileLoop head body closer =>
    rw [Form.bound, Form.eval]
    exact .whileLoop hd head.val (body.visiting hd)
  | forLoop head body closer =>
    rw [Form.bound, Form.eval]
    exact .forLoop hd head.val (body.visiting hd)

theorem Block.visiting (hd : ∀ name args, (d.invoke name args).KeepsLog) (b : Block) :
    Visiting places (b.bound (Line.weight places)) (b.eval d) := by
  cases b with
  | nil =>
    rw [Block.eval]
    exact .result ()
  | cons f rest =>
    rw [Block.bound, Block.eval]
    exact ((f.visiting hd).andThen fun _ => rest.visiting hd).unlessExit

theorem Branches.visiting (hd : ∀ name args, (d.invoke name args).KeepsLog) (bs : Branches) :
    Visiting places (bs.bound (Line.weight places)) (bs.eval d) := by
  cases bs with
  | none =>
    rw [Branches.eval]
    exact .result ()
  | otherwise head body =>
    rw [Branches.bound, Branches.eval]
    exact body.visiting hd
  | elseIf head body others =>
    rw [Branches.bound, Branches.eval]
    exact (Visiting.condition hd head.val).branch (body.visiting hd) (others.visiting hd)

end

/-- A program adds no more than its block: what is reported between its forms starts no line. -/
theorem Block.visiting_program (hd : ∀ name args, (d.invoke name args).KeepsLog) : (b : Block) →
    Visiting places (b.bound (Line.weight places)) (b.evalProgram d)
  | .nil => by
    rw [Block.evalProgram]
    exact .result ()
  | .cons f rest => by
    rw [Block.bound, Block.evalProgram]
    refine Visiting.unlessExit fun c => ?_
    have hform : c.Visits places _ (f.eval d c).2 := f.visiting hd c
    have hrest : ∀ rule word (c : Context), c.Visits places (rest.bound (Line.weight places))
        (rest.evalProgram d (misplaced rule word c)).2 :=
      fun rule word c => rest.visiting_program hd (misplaced rule word c)
    generalize f.eval d c = r at hform ⊢
    obtain ⟨e | _, c'⟩ := r
    · cases e with
      | breakLoop => exact hform.trans (hrest _ _ c')
      | continueLoop => exact hform.trans (hrest _ _ c')
      | exitRun code => exact hform.mono (Nat.le_add_right _ _)
      | fault f => exact hform.mono (Nat.le_add_right _ _)
      | failure f => exact hform.mono (Nat.le_add_right _ _)
    · exact hform.trans (rest.visiting_program hd c')

end Tree

/-! Places of lines -/

theorem Line.ofRaw?_number {file raw : Text} {number : Nat} {line : Line}
    (h : Line.ofRaw? file number raw = .ok (some line)) : line.number = number := by
  unfold Line.ofRaw? at h
  simp only at h
  split at h
  · simp at h
  · obtain ⟨statement, -, hline⟩ := map_eq_ok h
    rw [Option.some.injEq] at hline
    rw [← hline]
    rfl

/-- The numbers of the lines of a program grow. -/
theorem Program.linesFrom_numbers {file : Text} {number : Nat} {raws : List Text} {lines : List Line}
    (h : Program.linesFrom file number raws = .ok lines) :
    (∀ line ∈ lines, number ≤ line.number) ∧ lines.Pairwise fun first later => first.number < later.number := by
  induction raws generalizing number lines with
  | nil =>
    simp only [Program.linesFrom, Except.ok.injEq] at h
    subst h
    exact ⟨by simp, List.Pairwise.nil⟩
  | cons raw rest ih =>
    simp only [Program.linesFrom] at h
    split at h
    · simp at h
    · rename_i first hfirst
      obtain ⟨others, hothers, hlines⟩ := map_eq_ok h
      subst hlines
      obtain ⟨hle, hpairs⟩ := ih hothers
      cases first with
      | none => exact ⟨fun line hm => Nat.le_of_succ_le (hle line hm), hpairs⟩
      | some line =>
        have hnumber : line.number = number := Line.ofRaw?_number hfirst
        refine ⟨?_, List.pairwise_cons.mpr ⟨fun later hm => ?_, hpairs⟩⟩
        · intro later hm
          rcases List.mem_cons.mp hm with rfl | hm
          · exact hnumber.ge
          · exact Nat.le_of_succ_le (hle later hm)
        · exact hnumber ▸ hle later hm

/-- No two lines stand at the same place. -/
theorem Program.location_ne {source file : Text} {before after : List Line} {line : Line}
    (h : Program.parse source file = .ok (before ++ line :: after)) :
    ∀ other ∈ before ++ after, other.location ≠ line.location := by
  obtain ⟨-, hpairs⟩ := Program.linesFrom_numbers h
  rw [List.pairwise_append, List.pairwise_cons] at hpairs
  obtain ⟨-, ⟨hafter, -⟩, hbefore⟩ := hpairs
  intro other hm heq
  have hnumber : other.number = line.number := congrArg Location.line heq
  rcases List.mem_append.mp hm with hm | hm
  · have hlt := hbefore other hm line List.mem_cons_self
    omega
  · have hlt := hafter other hm
    omega

/-! Runs -/

namespace Session

theorem visits_execute {s : Session} (hr : ∀ d ∈ s.registry.directives, LogKeeping d.handler)
    {lines : List Line} (h : Tree.AreBlock lines) (places : Option Location → Bool) (c : Context) :
    c.Visits places (Loops.none.total (Line.weight places) lines) (s.execute lines c).context := by
  obtain ⟨b, rfl⟩ := h
  have hle := b.bound_le_total (Line.weight places) .none []
  have hpasses : Loops.none.passes = 1 := rfl
  rw [hpasses, Nat.one_mul, List.append_nil] at hle
  have hb : Visiting places _ (b.evalProgram s.registry.dispatcher) :=
    b.visiting_program (Registry.keepsLog_invoke hr _)
  refine execute_context (fun _ _ hc => hc) ?_
  rw [Tree.Block.runFrom_program]
  exact (hb c).mono ((Nat.le_add_right _ _).trans hle)

/-- A run of a source that passes has an outcome, whatever its directives do, if only they leave the log
alone. What it adds to the log are entries of its lines. A line inside of `w` while loops and `f` counting
loops has at most 1000 ^ w * 10000 ^ f of them, and 1001 times as many if it is itself the head of a
while loop. -/
theorem visits_bounded {s : Session} {log : StepLog} {world : World} {lines : List Line} {c : Context}
    (hr : ∀ d ∈ s.registry.directives, LogKeeping d.handler)
    (hp : s.prepare.runFrom (Context.start s.debug log world) = (.ok (some lines), c)) :
    ∃ o new, s.run log world = .ok o ∧
      o.context.log.entries.toList = log.entries.toList ++ new ∧
      (∀ entry ∈ new, ∃ line ∈ lines, entry.location = some line.location) ∧
      ∀ before line after, lines = before ++ line :: after →
        new.countP (fun entry => entry.location = some line.location) ≤
          (before.foldl Loops.next .none).limit line := by
  obtain ⟨text, hv, hparse⟩ := passes_of_prepare hp
  have htree := Validation.tree_of_validated hv hparse
  have hlog : c.log = log := by
    have hprepared := meets_prepare (I := (·.log = log)) (fun _ _ hc => hc) s
      (Context.start s.debug log world) rfl
    rw [hp] at hprepared
    exact hprepared.1
  have hvisits := visits_execute hr htree
  -- The entries elsewhere are none, since no line counts there.
  obtain ⟨new, hnew, helse⟩ := hvisits (fun place => lines.all fun line => place ≠ some line.location) c
  refine ⟨_, new, run_of_prepare hp, by rw [hnew, hlog], ?_, ?_⟩
  · rw [Loops.total_eq_zero, Nat.le_zero, List.countP_eq_zero] at helse
    · intro entry hm
      simpa using helse entry hm
    · intro line hm
      have hplace : (lines.all fun other => some line.location ≠ some other.location) = false :=
        List.all_eq_false.mpr ⟨line, hm, by simp⟩
      simp only [Line.weight, hplace]
      rfl
  · rintro before line after rfl
    obtain ⟨new', hnew', hcount⟩ := hvisits (· = some line.location) c
    obtain rfl : new' = new := List.append_cancel_left (hnew'.symm.trans hnew)
    have hweight : ∀ other ∈ before ++ after, other.weight (· = some line.location) = 0 := by
      intro other hm
      simp [Line.weight, Program.location_ne hparse other hm]
    have hline : line.weight (· = some line.location) = 1 := by simp [Line.weight]
    rw [List.forall_mem_append] at hweight
    rw [Loops.total_single hweight.1 hweight.2, hline, Nat.one_mul] at hcount
    exact hcount

/-- A line inside of a while loop and a counting loop. -/
theorem visits_bounded_nested :
    let s : Session := ⟨"§for[i;0;2]\n§while[true]\n§log[x]\n§break\n§endwhile\n§endfor", literalName, false,
      Directive.install .empty, none, "skip"⟩
    let world : World := ⟨⟨⟨false, []⟩, []⟩, [], fun _ low _ => low, 0, .one, ⟨2024, 1, 2, 3, 4, 5⟩⟩
    (∀ d ∈ s.registry.directives, LogKeeping d.handler) ∧
      ∃ lines c, s.prepare.runFrom (Context.start s.debug (.empty false) world) = (.ok (some lines), c) ∧
        ∃ o new, s.run (.empty false) world = .ok o ∧ o.context.log.entries.toList = new ∧
          ∃ line ∈ lines, line.name = "log" ∧
            new.countP (fun entry => entry.location = some line.location) ≤ 1000 * 10000 := by
  intro s world
  have hr : ∀ d ∈ s.registry.directives, LogKeeping d.handler := by
    intro d hd
    obtain ⟨entry, hm, -, hh⟩ := Registry.mem_install hd
    rw [hh]
    exact (Directive.basic_of_mem_table entry hm).logKeeping
  obtain ⟨lines, line, hparse, hline, hname, hlimit⟩ :
      ∃ lines line, Program.parse s.source s.file = .ok lines ∧
        lines = lines.take 2 ++ line :: lines.drop 3 ∧ line.name = "log" ∧
        ((lines.take 2).foldl Loops.next .none).limit line = 1000 * 10000 :=
    ⟨_, _, rfl, rfl, by decide +kernel, by decide +kernel⟩
  have hp := prepare_of_unresolved (by decide +kernel) rfl (by decide +kernel) (by decide +kernel) hparse
    (.empty false) world
  obtain ⟨o, new, ho, hnew, -, hcount⟩ := visits_bounded hr hp
  refine ⟨hr, lines, _, hp, o, new, ho, hnew, line, ?_, hname, ?_⟩
  · rw [hline]
    simp
  · rw [← hlimit]
    exact hcount _ _ _ hline

end Session

end SigilScript
