import SigilScript.Proofs.AssignedNumber
import SigilScript.Proofs.LoopPasses

/-!
The ceiling of a while loop. The condition is evaluated before each pass, and once more after the last
one. If it becomes false after at most 1000 passes, that is all that happened. If it is still true after
1000 of them, it has been evaluated 1001 times, and the loop reports itself. In both cases the run goes
on after the line that ends the loop, with no request pending. Nothing is asked of the body but that it
does not leave the loop; it may ask for the next pass.
-/
namespace SigilScript.Execution

/-- A pass of a while loop is entered where the condition is true. -/
def Tested (d : Dispatcher) (head : Line) (_ : Nat) (c c' : Context) : Prop :=
  (condition d head).runFrom c.settled = (.ok true, c')

/-- The condition has been true `k` times, with a pass of the body each time, and is then evaluated once
more. -/
def TestedAfter (d : Dispatcher) (head : Line) (body : Exec Unit) (c : Context) (k : Nat) (t : Bool)
    (c' : Context) : Prop :=
  ∃ c₁, Passing (Tested d head) body c k c₁ ∧ (condition d head).runFrom c₁.settled = (.ok t, c')

/-- Up to the ceiling, no condition is interrupted and no pass leaves the loop. -/
structure Calm (d : Dispatcher) (head : Line) (body : Exec Unit) (c : Context) : Prop where
  tests : ∀ k c₁, k ≤ maxWhilePasses → Passing (Tested d head) body c k c₁ →
    ∃ t c₂, (condition d head).runFrom c₁.settled = (.ok t, c₂)
  passes : Undisturbed (Tested d head) body maxWhilePasses c

/-- The note at the end of a while loop. -/
def whileNote (head : Line) (done : Nat) : String := s!"§while[{head.args}] finished after {done} iterations"

/-- The message of a while loop that does not end. -/
def runawayMessage (head : Line) : String :=
  s!"Loop exceeded {maxWhilePasses} iterations, possible infinite loop: " ++ s!"§while[{head.args}]"

/-- The run goes on after the closer of a loop, with no request pending. -/
structure Resumes (d : Dispatcher) (head : Line) (body : List Line) (closer : Line) (c final : Context) :
    Prop where
  clear : final.flags = .clear
  leads : ∀ left, LeadsTo d (head :: (body ++ closer :: left)) c left final

section Loop

variable {d : Dispatcher} {head : Line} {body : Exec Unit} {c c₁ c₂ : Context} {n : Nat}

/-- Each pass moves one from those that are left to those that are done. -/
theorem whilePasses_of_passing (h : Passing (Tested d head) body c n c₁) (left done : Nat) :
    Tree.whilePasses head (condition d head).runFrom body.runFrom (left + n) done c =
      Tree.whilePasses head (condition d head).runFrom body.runFrom left (done + n) c₁ := by
  induction h generalizing left with
  | start => rfl
  | @next n c₁ c₂ c₃ before entered pass ih =>
    have hleft : left + (n + 1) = left + 1 + n := by omega
    rw [hleft, ih (left + 1), Tree.whilePasses, entered]
    exact pass.afterPass _ _

/-- A loop after some of its passes. -/
theorem runFrom_whileLoop_of_passing (h : Passing (Tested d head) body c n c₁) (hn : n ≤ maxWhilePasses) :
    (whileLoop d head body).runFrom c = Tree.finished "WHILE" (whileNote head)
      (Tree.whilePasses head (condition d head).runFrom body.runFrom (maxWhilePasses - n) n c₁) := by
  have hpasses := whilePasses_of_passing h (maxWhilePasses - n) 0
  rw [Nat.sub_add_cancel hn, Nat.zero_add] at hpasses
  rw [Tree.runFrom_whileLoop d head fun _ => rfl, Tree.whileLoop, hpasses]
  rfl

theorem settled_of_condition {t : Bool} (h : (condition d head).runFrom c₁ = (.ok t, c₂)) : c₂.settled = c₂ :=
  Context.settled_of_clear (flags_of_condition h).2

/-- The condition becomes false in time. -/
theorem runFrom_whileLoop_false (h : TestedAfter d head body c n false c₂) (hn : n ≤ maxWhilePasses) :
    (whileLoop d head body).runFrom c = (.ok (), c₂.traced "WHILE" (whileNote head n)) := by
  obtain ⟨c₁, hpassing, htest⟩ := h
  have hlast : Tree.whilePasses head (condition d head).runFrom body.runFrom (maxWhilePasses - n) n c₁ =
      (.ok n, c₂) := by
    rw [Tree.whilePasses.eq_def, htest]
  rw [runFrom_whileLoop_of_passing hpassing hn, hlast, Tree.finished_ok, settled_of_condition htest]

/-- The condition is still true at the ceiling. -/
theorem runFrom_whileLoop_true (h : TestedAfter d head body c maxWhilePasses true c₂) :
    (whileLoop d head body).runFrom c = (.ok (), (c₂.reported "WHILE" (runawayMessage head)
      (some head.location)).traced "WHILE" (whileNote head maxWhilePasses)) := by
  obtain ⟨c₁, hpassing, htest⟩ := h
  have hlast : Tree.whilePasses head (condition d head).runFrom body.runFrom 0 maxWhilePasses c₁ =
      (.ok maxWhilePasses, c₂.reported "WHILE" (runawayMessage head) (some head.location)) := by
    rw [Tree.whilePasses, htest]
    rfl
  rw [runFrom_whileLoop_of_passing hpassing (Nat.le_refl _), Nat.sub_self, hlast, Tree.finished_ok,
    Context.settled_reported, settled_of_condition htest]

/-- A calm loop whose condition is not found false gets to the ceiling. -/
theorem Calm.ceiling (h : Calm d head body c)
    (htrue : ¬∃ k c₂, k ≤ maxWhilePasses ∧ TestedAfter d head body c k false c₂) :
    ∃ c₂, TestedAfter d head body c maxWhilePasses true c₂ := by
  have htested : ∀ k c₁, k ≤ maxWhilePasses → Passing (Tested d head) body c k c₁ → ∃ c₂, Tested d head k c₁ c₂ := by
    intro k c₁ hk hpassing
    obtain ⟨t, c₂, htest⟩ := h.tests k c₁ hk hpassing
    cases t with
    | true => exact ⟨c₂, htest⟩
    | false => exact absurd ⟨k, c₂, hk, c₁, hpassing, htest⟩ htrue
  obtain ⟨c₁, hpassing⟩ := h.passes.passing (fun k c₁ hk => htested k c₁ hk.le) (Nat.le_refl _)
  obtain ⟨c₂, htest⟩ := htested _ c₁ (Nat.le_refl _) hpassing
  exact ⟨c₂, c₁, hpassing, htest⟩

/-- At the start of a loop nothing asks to exit, if the condition is evaluated there. -/
theorem exit_of_testedAfter {t : Bool} (h : TestedAfter d head body c n t c₂) : c.flags.exit = none := by
  obtain ⟨c₁, hpassing, htest⟩ := h
  induction hpassing generalizing t c₂ with
  | start => exact (flags_of_condition htest).1
  | next _ entered _ ih => exact ih entered

end Loop

theorem resumes_of_while {d : Dispatcher} {head closer : Line} {body : List Line} {c final : Context}
    (hhead : head.kind = .whileHead) (hbody : Nested body) (hcloser : closer.kind = .endWhile)
    (hexit : c.flags.exit = none) (hrun : (whileLoop d head (block d body)).runFrom c = (.ok (), final))
    (hclear : final.flags = .clear) : Resumes d head body closer c final where
  clear := hclear
  leads left := by
    have hread : splitBlock 0 (body ++ closer :: left) = some (body, left) →
        Construct.read head (body ++ closer :: left) = .ok (.whileLoop head body, left) := by
      intro hsplit
      rw [Construct.read, hhead, Construct.readLoop, hsplit]
      rfl
    exact leadsTo_of_loop hbody (isCloser_of_kind hcloser) hread hexit hrun

/-- A condition that holds in every context. -/
theorem runFrom_condition_true {d : Dispatcher} {head : Line} (hargs : head.args = "true") {c : Context}
    (hexit : c.flags.exit = none) : ∃ c', (condition d head).runFrom c.settled = (.ok true, c') := by
  have hparse : Expr.parse "true" = .ok (.literal (.bool true)) := by decide +kernel
  have hclear : (c.settled.started head).flags = .clear := Context.flags_settled hexit
  let c' : Context := (c.settled.started head).traced "CONDITION" "'true' -> true"
  have hcondition : (d.condition head.args).runFrom (c.settled.started head) = (.ok true, c') := by
    have heval (bindings : Expr.Bindings) : Expr.evalCondition "true" bindings = .ok true := by
      rw [Expr.evalCondition, hparse]
      rfl
    rw [hargs, Dispatcher.condition, Exec.runFrom_bind, d.runFrom_resolve_of_not_mem (by decide), Ending.andThen_ok,
      Substitution.substitute_of_not_mem _ (by decide), Exec.runFrom_bind, Exec.runFrom_get, Ending.andThen_ok, heval]
    dsimp only
    rw [Exec.runFrom_bind, Exec.runFrom_traced]
    rfl
  have hafter : c'.flags = .clear := (Context.flags_traced _ _ _).trans hclear
  exact ⟨c', runFrom_condition (congrArg Flags.exit (Context.flags_settled hexit)) hcondition hafter⟩

end SigilScript.Execution

namespace SigilScript.Validation

open Execution

theorem while_of_validated {source file : Text} {lines before rest : List Line} {head : Line}
    (h : validate source = []) (hp : Program.parse source file = .ok lines) (hl : lines = before ++ head :: rest)
    (hk : head.kind = .whileHead) :
    ∃ (body : List Line) (closer : Line) (after : List Line),
      rest = body ++ closer :: after ∧ Nested body ∧ closer.kind = .endWhile := by
  obtain ⟨tree, rfl⟩ := tree_of_validated h hp
  obtain ⟨f, after, rfl, rfl⟩ := tree.opensForms before head rest hl (isOpener_of_kind hk)
  obtain ⟨inner, closer, htail, hnested, -, hcloser⟩ := f.tail_of_isOpener (isOpener_of_kind hk)
  refine ⟨inner, closer, after, by rw [htail, List.append_assoc, List.singleton_append], hnested, ?_⟩
  rw [hk] at hcloser
  cases hc : closer.kind <;> rw [hc] at hcloser <;> first | rfl | cases hcloser

/-- Every while loop of a validated program, entered in any context. -/
theorem while_ceiling {source file : Text} {lines before rest : List Line} {head : Line}
    (h : validate source = []) (hp : Program.parse source file = .ok lines) (hl : lines = before ++ head :: rest)
    (hk : head.kind = .whileHead) :
    ∃ (body : List Line) (closer : Line) (after : List Line),
      rest = body ++ closer :: after ∧ Nested body ∧ closer.kind = .endWhile ∧
      ∀ (d : Dispatcher) (c : Context),
        (∀ k c', k ≤ maxWhilePasses → TestedAfter d head (block d body) c k false c' →
          Resumes d head body closer c (c'.traced "WHILE" (whileNote head k))) ∧
        (Calm d head (block d body) c →
          (¬∃ k c', k ≤ maxWhilePasses ∧ TestedAfter d head (block d body) c k false c') →
          ∃ c', TestedAfter d head (block d body) c maxWhilePasses true c' ∧
            Resumes d head body closer c ((c'.reported "WHILE" (runawayMessage head)
              (some head.location)).traced "WHILE" (whileNote head maxWhilePasses))) := by
  obtain ⟨body, closer, after, hrest, hbody, hcloser⟩ := while_of_validated h hp hl hk
  refine ⟨body, closer, after, hrest, hbody, hcloser, fun d c => ⟨?_, ?_⟩⟩
  · intro k c' hle htested
    refine resumes_of_while hk hbody hcloser (exit_of_testedAfter htested)
      (runFrom_whileLoop_false htested hle) ?_
    obtain ⟨c₁, -, htest⟩ := htested
    rw [Context.flags_traced]
    exact (flags_of_condition htest).2
  · intro hcalm htrue
    obtain ⟨c', htested⟩ := hcalm.ceiling htrue
    refine ⟨c', htested, resumes_of_while hk hbody hcloser (exit_of_testedAfter htested)
      (runFrom_whileLoop_true htested) ?_⟩
    obtain ⟨c₁, -, htest⟩ := htested
    rw [Context.flags_traced]
    exact (flags_of_condition htest).2

/-- Each pass of the loop asks for the next one, and the condition is never false. -/
theorem while_ceiling_continue :
    validate "§while[true]\n§continue\n§endwhile" = [] ∧
      ∃ head body closer : Line,
        Program.parse "§while[true]\n§continue\n§endwhile" "loop" = .ok [head, body, closer] ∧
        ∀ c : Context, c.flags.exit = none →
          ∃ c', TestedAfter (Directive.install Registry.empty).dispatcher head
              (block (Directive.install Registry.empty).dispatcher [body]) c maxWhilePasses true c' ∧
            Resumes (Directive.install Registry.empty).dispatcher head [body] closer c
              ((c'.reported "WHILE" (runawayMessage head) (some head.location)).traced "WHILE"
                (whileNote head maxWhilePasses)) := by
  have h : validate "§while[true]\n§continue\n§endwhile" = [] := by decide +kernel
  obtain ⟨head, body, closer, hp, hkind, hargs, hbody, htrailing, hname⟩ : ∃ head body closer : Line,
      Program.parse "§while[true]\n§continue\n§endwhile" "loop" = .ok [head, body, closer] ∧
        head.kind = .whileHead ∧ head.args = "true" ∧ body.kind = .directive ∧ body.trailing = [] ∧
        body.name = "continue" := ⟨_, _, _, rfl, rfl, rfl, rfl, rfl, rfl⟩
  have hlines : [head, body, closer] = [] ++ head :: [body, closer] := rfl
  obtain ⟨inner, last, after, hrest, -, hlast, hloop⟩ := while_ceiling h hp hlines hkind
  -- the line in the middle ends nothing, so it is the whole body
  obtain ⟨rfl, rfl⟩ : inner = [body] ∧ last = closer := by
    cases inner with
    | nil =>
      obtain ⟨rfl, -⟩ := List.cons.inj hrest
      rw [hbody] at hlast
      cases hlast
    | cons first others =>
      obtain ⟨rfl, hothers⟩ := List.cons.inj hrest
      cases others with
      | nil => exact ⟨rfl, (List.cons.inj hothers).1.symm⟩
      | cons second others => simp at hothers
  refine ⟨h, head, body, last, hp, fun c hexit => (hloop _ c).2 ⟨?_, ?_⟩ ?_⟩
  · intro k c₁ _ hpassing
    obtain ⟨c₂, htest⟩ := runFrom_condition_true hargs (hpassing.exit hexit)
    exact ⟨true, c₂, htest⟩
  · intro k c₁ c₂ _ _ htest
    exact passes_continue hbody htrailing hname (flags_of_condition htest).2
  · rintro ⟨k, c₂, -, c₁, hpassing, htest⟩
    obtain ⟨c₃, htrue⟩ := runFrom_condition_true hargs (hpassing.exit hexit)
    rw [htrue] at htest
    cases htest

end SigilScript.Validation
