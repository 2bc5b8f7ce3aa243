import Mathlib.Order.Bounds.Basic
import SigilScript.Proofs.LoopPasses
import SigilScript.Proofs.StoredContent

/-!
The passes of a counting loop. The head is evaluated once: it is split into three parts, the first of which
is the name of the variable, and the values of the other two are the bounds. If anything is wrong with the
head, that is reported, and the body does not run. A request that is left behind by the evaluation of the
bounds takes effect before they are looked at. Otherwise the bounds alone tell how many passes there are
and what the variable is at the start of each; nothing that the body does to the variables counts.
-/
namespace SigilScript.Execution

/-- The counter at the start of each pass. -/
def counter (start : Binary64) : Nat → Binary64
  | 0 => start
  | k + 1 => (counter start k).add .one

/-- A pass of a counting loop is entered with its counter in the variable, while it is below the limit. -/
def Counted (name : Text) (start limit : Binary64) (k : Nat) (c c' : Context) : Prop :=
  (counter start k).less limit ∧
    c' = { c.settled with store := Store.assign name (counter start k).format c.store }

/-! The head -/

/-- The three parts of a head that names a variable, and the values of its bounds: the start is evaluated
first, then the limit, and each once. -/
structure Bounds (d : Dispatcher) (head : Line) (c : Context) (name startText limitText : Text) (c' : Context) :
    Prop where
  isName : name.isName
  values : ∃ first second third c₁, Argument.split head.args = [first, second, third] ∧ first.strip = name ∧
    (d.argument second).runFrom (c.started head) = (.ok startText, c₁) ∧
    (d.argument third).runFrom c₁ = (.ok limitText, c')

/-- Both bounds are numbers, and their evaluation has left no request behind. -/
def Ready (d : Dispatcher) (head : Line) (c : Context) (name : Text) (start limit : Binary64) (c' : Context) :
    Prop :=
  ∃ startText limitText, Bounds d head c name startText limitText c' ∧ c'.flags = .clear ∧
    startText.number? = some start ∧ limitText.number? = some limit

/-- What can be wrong with a head. -/
inductive Refused (d : Dispatcher) (head : Line) (c : Context) : Context → Prop
  | parts (h : ∀ first second third, Argument.split head.args ≠ [first, second, third]) :
      Refused d head c (c.started head)
  | name {first second third : Text} (h : Argument.split head.args = [first, second, third])
      (hname : first.strip.isName = false) : Refused d head c (c.started head)
  | bounds {name startText limitText : Text} {c' : Context} (h : Bounds d head c name startText limitText c')
      (hclear : c'.flags = .clear) (hnumber : startText.number? = none ∨ limitText.number? = none) :
      Refused d head c c'

section Head

variable {d : Dispatcher} {head : Line} {c c' : Context} {name startText limitText : Text}

/-- What is left of the head when the bounds have their values. -/
def numbered (name startText limitText : Text) : Exec (Option (Text × Binary64 × Binary64)) := do
  Exec.raisePending
  match startText.number?, limitText.number? with
  | some start, some limit => return some (name, start, limit)
  | _, _ =>
    Exec.error "FOR" s!"Invalid loop bounds: '{startText}' and '{limitText}' must be numbers"
    return none

theorem Bounds.runFrom_forHeader (h : Bounds d head c name startText limitText c') (hexit : c.flags.exit = none) :
    (Tree.forHeader d head).runFrom c = (numbered name startText limitText).runFrom c' := by
  obtain ⟨first, second, third, c₁, hsplit, rfl, hstart, hlimit⟩ := h.values
  have hlog : (Exec.logStep head).runFrom c = (.ok (), c.started head) := rfl
  rw [Tree.forHeader, Exec.runFrom_bind, runFrom_checkExit_none hexit, Ending.andThen_ok, Exec.runFrom_bind, hlog,
    Ending.andThen_ok, hsplit]
  dsimp only
  rw [h.isName, Bool.not_true, if_neg Bool.false_ne_true, Exec.runFrom_bind, hstart, Ending.andThen_ok,
    Exec.runFrom_bind, hlimit, Ending.andThen_ok]
  rfl

theorem Ready.isName {start limit : Binary64} (h : Ready d head c name start limit c') : name.isName := by
  obtain ⟨startText, limitText, hbounds, -⟩ := h
  exact hbounds.isName

theorem Ready.exit {start limit : Binary64} (h : Ready d head c name start limit c') : c'.flags.exit = none := by
  obtain ⟨startText, limitText, -, hclear, -⟩ := h
  exact congrArg Flags.exit hclear

theorem Ready.runFrom_forHeader {start limit : Binary64} (h : Ready d head c name start limit c')
    (hexit : c.flags.exit = none) : (Tree.forHeader d head).runFrom c = (.ok (some (name, start, limit)), c') := by
  obtain ⟨startText, limitText, hbounds, hclear, hstart, hlimit⟩ := h
  rw [hbounds.runFrom_forHeader hexit, numbered, Exec.runFrom_bind,
    runFrom_raisePending_none ((Flags.pending?_eq_none_iff _).mpr hclear), Ending.andThen_ok, hstart, hlimit]
  rfl

/-- A request that the bounds have left behind takes effect before they are read as numbers. -/
theorem Bounds.runFrom_forLoop_pending {e : Interrupt} (h : Bounds d head c name startText limitText c')
    (hexit : c.flags.exit = none) (he : c'.flags.pending? = some e) (body : Exec Unit) :
    (forLoop d head body).runFrom c = (.error e, c') := by
  have hheader : (Tree.forHeader d head).runFrom c = (.error e, c') := by
    rw [h.runFrom_forHeader hexit, numbered, Exec.runFrom_bind, runFrom_raisePending_some he, Ending.andThen_error]
  rw [Tree.runFrom_forLoop d head fun _ => rfl, Tree.forLoop, hheader, Ending.andThen_error]

/-- A head with something wrong is reported once. -/
theorem Refused.runFrom_forHeader (h : Refused d head c c') (hexit : c.flags.exit = none) :
    ∃ message, (Tree.forHeader d head).runFrom c = (.ok none, c'.reported "FOR" message none) := by
  have hlog : (Exec.logStep head).runFrom c = (.ok (), c.started head) := rfl
  cases h with
  | parts hparts =>
    rw [Tree.forHeader, Exec.runFrom_bind, runFrom_checkExit_none hexit, Ending.andThen_ok, Exec.runFrom_bind, hlog,
      Ending.andThen_ok]
    rcases hsplit : Argument.split head.args with
      _ | ⟨first, _ | ⟨second, _ | ⟨third, _ | ⟨fourth, others⟩⟩⟩⟩
    · exact ⟨_, rfl⟩
    · exact ⟨_, rfl⟩
    · exact ⟨_, rfl⟩
    · exact absurd hsplit (hparts first second third)
    · exact ⟨_, rfl⟩
  | name hsplit hname =>
    rw [Tree.forHeader, Exec.runFrom_bind, runFrom_checkExit_none hexit, Ending.andThen_ok, Exec.runFrom_bind, hlog,
      Ending.andThen_ok, hsplit]
    dsimp only
    rw [hname, Bool.not_false, if_pos rfl]
    exact ⟨_, rfl⟩
  | @bounds name startText limitText c' hbounds hclear hnumber =>
    rw [hbounds.runFrom_forHeader hexit, numbered, Exec.runFrom_bind,
      runFrom_raisePending_none ((Flags.pending?_eq_none_iff _).mpr hclear), Ending.andThen_ok]
    cases hstart : startText.number? with
    | none => exact ⟨_, rfl⟩
    | some start =>
      cases hlimit : limitText.number? with
      | none => exact ⟨_, rfl⟩
      | some limit =>
        rw [hstart, hlimit] at hnumber
        rcases hnumber with hnumber | hnumber <;> cases hnumber

end Head

/-! The passes -/

/-- The note at the end of a counting loop. -/
def forNote (head : Line) (done : Nat) : String := s!"§for[{head.args}] finished after {done} iterations"

/-- The message of a counting loop with too many passes. -/
def overrunMessage (head : Line) : String := s!"Loop exceeded {maxForPasses} iterations: §for[{head.args}]"

section Loop

variable {d : Dispatcher} {head : Line} {body : Exec Unit} {c c₁ : Context} {name : Text}
  {start limit : Binary64} {n : Nat}

/-- Each pass moves one from those that are left to those that are done, and the counter on by one. -/
theorem forPasses_of_passing (head : Line) (hname : name.isName) (hexit : c.flags.exit = none)
    (h : Passing (Counted name start limit) body c n c₁) (left done : Nat) :
    Tree.forPasses head name limit body.runFrom (left + n) done start c =
      Tree.forPasses head name limit body.runFrom left (done + n) (counter start n) c₁ := by
  induction h generalizing left with
  | start => rfl
  | @next n c₁ c₂ c₃ before entered pass ih =>
    obtain ⟨hless, rfl⟩ := entered
    have hleft : left + (n + 1) = left + 1 + n := by omega
    have hflags : c₁.settled.flags.exit = none := before.exit hexit
    have hset : (Exec.setVariable name (counter start n).format).runFrom c₁.settled =
        (.ok (), { c₁.settled with store := Store.assign name (counter start n).format c₁.store }) := by
      rw [Exec.setVariable, hname]
      rfl
    rw [hleft, ih (left + 1), Tree.forPasses, if_pos hless, Tree.unlessExit, hflags]
    dsimp only
    rw [hset, Ending.andThen_ok]
    exact pass.afterPass _ _

theorem runFrom_forLoop_of_passing {c₀ : Context} (hready : Ready d head c name start limit c₀)
    (hexit : c.flags.exit = none) (h : Passing (Counted name start limit) body c₀ n c₁) (hn : n ≤ maxForPasses) :
    (forLoop d head body).runFrom c = Tree.finished "FOR" (forNote head)
      (Tree.forPasses head name limit body.runFrom (maxForPasses - n) n (counter start n) c₁) := by
  have hpasses := forPasses_of_passing head hready.isName hready.exit h (maxForPasses - n) 0
  rw [Nat.sub_add_cancel hn, Nat.zero_add] at hpasses
  rw [Tree.runFrom_forLoop d head fun _ => rfl, Tree.forLoop, hready.runFrom_forHeader hexit, Ending.andThen_ok]
  dsimp only
  rw [hpasses]
  rfl

/-- The loop ends where its counter is not below the limit any more. -/
theorem runFrom_forLoop_done {c₀ : Context} (hready : Ready d head c name start limit c₀)
    (hexit : c.flags.exit = none) (h : Passing (Counted name start limit) body c₀ n c₁) (hn : n ≤ maxForPasses)
    (hdone : (counter start n).less limit = false) :
    (forLoop d head body).runFrom c = (.ok (), c₁.settled.traced "FOR" (forNote head n)) := by
  have hlast : Tree.forPasses head name limit body.runFrom (maxForPasses - n) n (counter start n) c₁ =
      (.ok n, c₁) := by
    rw [Tree.forPasses.eq_def, hdone, if_neg Bool.false_ne_true]
  rw [runFrom_forLoop_of_passing hready hexit h hn, hlast, Tree.finished_ok]

/-- The loop has had all its passes, and is not done. -/
theorem runFrom_forLoop_overrun {c₀ : Context} (hready : Ready d head c name start limit c₀)
    (hexit : c.flags.exit = none) (h : Passing (Counted name start limit) body c₀ maxForPasses c₁)
    (hless : (counter start maxForPasses).less limit) :
    (forLoop d head body).runFrom c = (.ok (), (c₁.settled.reported "FOR" (overrunMessage head)
      (some head.location)).traced "FOR" (forNote head maxForPasses)) := by
  have hflags : c₁.settled.flags.exit = none := h.exit hready.exit
  have hlast : Tree.forPasses head name limit body.runFrom 0 maxForPasses (counter start maxForPasses) c₁ =
      (.ok maxForPasses, c₁.settled.reported "FOR" (overrunMessage head) (some head.location)) := by
    rw [Tree.forPasses, if_pos hless, Tree.unlessExit, hflags]
    rfl
  rw [runFrom_forLoop_of_passing hready hexit h (Nat.le_refl _), Nat.sub_self, hlast, Tree.finished_ok]
  rfl

end Loop

/-! How many passes there are -/

/-- The number of passes: all counters before it are below the limit, and its own is not, unless it is
the most that there may be. -/
structure PassCount (start limit : Binary64) (n : Nat) : Prop where
  le_max : n ≤ maxForPasses
  below : ∀ k < n, (counter start k).less limit
  stops : n < maxForPasses → (counter start n).less limit = false

theorem exists_passCount (start limit : Binary64) : ∃ n, PassCount start limit n := by
  suffices h : ∀ m ≤ maxForPasses, (∀ k < m, (counter start k).less limit) ∨ ∃ n, PassCount start limit n by
    rcases h maxForPasses (Nat.le_refl _) with hall | hcount
    · exact ⟨maxForPasses, Nat.le_refl _, hall, fun h => absurd h (Nat.lt_irrefl _)⟩
    · exact hcount
  intro m
  -- so far all counters are below the limit, or one was found that is not
  induction m with
  | zero => exact fun _ => .inl fun k hk => absurd hk (Nat.not_lt_zero k)
  | succ m ih =>
    intro hm
    rcases ih (Nat.le_of_succ_le hm) with hall | hcount
    · cases hless : (counter start m).less limit with
      | false => exact .inr ⟨m, Nat.le_of_succ_le hm, hall, fun _ => hless⟩
      | true =>
        refine .inl fun k hk => ?_
        rcases Nat.lt_succ_iff_lt_or_eq.mp hk with hk | rfl
        · exact hall k hk
        · exact hless
    · exact .inr hcount

namespace PassCount

variable {start limit : Binary64} {n : Nat}

theorem eq_min (h : PassCount start limit n) {m : Nat}
    (hm : IsLeast {k | (counter start k).less limit = false} m) : n = min maxForPasses m := by
  have hle : n ≤ m := by
    by_contra hlt
    have hbelow := h.below m (Nat.lt_of_not_le hlt)
    rw [hm.1] at hbelow
    cases hbelow
  rcases Nat.lt_or_eq_of_le h.le_max with hlt | heq
  · have hge : m ≤ n := hm.2 (h.stops hlt)
    have := h.le_max
    omega
  · omega

theorem eq_max (h : PassCount start limit n) (hall : ∀ k, (counter start k).less limit) : n = maxForPasses := by
  rcases Nat.lt_or_eq_of_le h.le_max with hlt | heq
  · have hstops := h.stops hlt
    rw [hall n] at hstops
    cases hstops
  · exact heq

/-- All counters up to the ceiling are below the limit exactly when the last one is, after all passes. -/
theorem overrun_iff (h : PassCount start limit n) :
    (∀ k ≤ maxForPasses, (counter start k).less limit) ↔ n = maxForPasses ∧ (counter start n).less limit := by
  constructor
  · intro hall
    rcases Nat.lt_or_eq_of_le h.le_max with hlt | rfl
    · have hstops := h.stops hlt
      rw [hall n hlt.le] at hstops
      cases hstops
    · exact ⟨rfl, hall _ (Nat.le_refl _)⟩
  · rintro ⟨rfl, hlast⟩ k hk
    rcases Nat.lt_or_eq_of_le hk with hlt | rfl
    · exact h.below k hlt
    · exact hlast

end PassCount

/-! The whole loop -/

theorem leadsTo_of_for {d : Dispatcher} {head closer : Line} {body : List Line} {c c' : Context}
    (hhead : head.kind = .forHead) (hbody : Nested body) (hcloser : closer.kind = .endFor)
    (hexit : c.flags.exit = none) (hrun : (forLoop d head (block d body)).runFrom c = (.ok (), c'))
    (left : List Line) : LeadsTo d (head :: (body ++ closer :: left)) c left c' := by
  have hread : splitBlock 0 (body ++ closer :: left) = some (body, left) →
      Construct.read head (body ++ closer :: left) = .ok (.forLoop head body, left) := by
    intro hsplit
    rw [Construct.read, hhead, Construct.readLoop, hsplit]
    rfl
  exact leadsTo_of_loop hbody (isCloser_of_kind hcloser) hread hexit hrun

/-- The bounds, evaluated once, fix the passes. Whatever the body does short of leaving the loop, the
counters are those of the bounds, and the passes are as many as there are counters below the limit, up to
the ceiling; the ceiling is reported where even the counter after the last pass is below the limit. A head
with something wrong is reported, and the body does not run. A request that the bounds leave behind ends
the loop before its first pass. -/
theorem for_passes_fixed {head closer : Line} {body : List Line} (hhead : head.kind = .forHead)
    (hbody : Nested body) (hcloser : closer.kind = .endFor) (d : Dispatcher) {c : Context}
    (hexit : c.flags.exit = none) :
    (∀ name start limit c₀, Ready d head c name start limit c₀ →
      Undisturbed (Counted name start limit) (block d body) maxForPasses c₀ →
      ∃ n c₁, Passing (Counted name start limit) (block d body) c₀ n c₁ ∧
        (∀ m, IsLeast {k | (counter start k).less limit = false} m → n = min maxForPasses m) ∧
        ((∀ k, (counter start k).less limit) → n = maxForPasses) ∧
        ((∀ k ≤ maxForPasses, (counter start k).less limit) →
          ∀ left, LeadsTo d (head :: (body ++ closer :: left)) c left
            ((c₁.settled.reported "FOR" (overrunMessage head) (some head.location)).traced "FOR"
              (forNote head n))) ∧
        ((¬∀ k ≤ maxForPasses, (counter start k).less limit) →
          ∀ left, LeadsTo d (head :: (body ++ closer :: left)) c left
            (c₁.settled.traced "FOR" (forNote head n)))) ∧
    (∀ c₀, Refused d head c c₀ → ∃ message, ∀ left,
      LeadsTo d (head :: (body ++ closer :: left)) c left (c₀.reported "FOR" message none)) ∧
    (∀ name startText limitText c₀ e, Bounds d head c name startText limitText c₀ →
      c₀.flags.pending? = some e → (forLoop d head (block d body)).runFrom c = (.error e, c₀)) := by
  refine ⟨?_, ?_, ?_⟩
  · intro name start limit c₀ hready hcalm
    obtain ⟨n, hcount⟩ := exists_passCount start limit
    -- the counters do not depend on the body, so each of these passes can be entered
    obtain ⟨c₁, hpassing⟩ := hcalm.passing (fun k c₁ hk _ => ⟨_, hcount.below k hk, rfl⟩) hcount.le_max
    refine ⟨n, c₁, hpassing, fun m => hcount.eq_min, hcount.eq_max, ?_, ?_⟩
    · intro hall
      obtain ⟨rfl, hless⟩ := hcount.overrun_iff.mp hall
      exact leadsTo_of_for hhead hbody hcloser hexit (runFrom_forLoop_overrun hready hexit hpassing hless)
    · intro hsome
      have hdone : (counter start n).less limit = false := by
        rcases Nat.lt_or_eq_of_le hcount.le_max with hlt | heq
        · exact hcount.stops hlt
        · exact Bool.eq_false_iff.mpr fun hless => hsome (hcount.overrun_iff.mpr ⟨heq, hless⟩)
      exact leadsTo_of_for hhead hbody hcloser hexit
        (runFrom_forLoop_done hready hexit hpassing hcount.le_max hdone)
  · intro c₀ hrefused
    obtain ⟨message, hheader⟩ := hrefused.runFrom_forHeader hexit
    refine ⟨message, leadsTo_of_for hhead hbody hcloser hexit ?_⟩
    rw [Tree.runFrom_forLoop d head fun _ => rfl, Tree.forLoop, hheader, Ending.andThen_ok]
  · intro name startText limitText c₀ e hbounds hpending
    exact hbounds.runFrom_forLoop_pending hexit hpending _

/-- Two passes, each of which asks for the next one. -/
theorem for_passes_fixed_continue :
    ∃ (head body closer : Line) (zero two : Binary64),
      Program.parse "§for[i;0;2]\n§continue\n§endfor" "loop" = .ok [head, body, closer] ∧
      Text.number? "0" = some zero ∧ Text.number? "2" = some two ∧
      ∀ c : Context, c.flags = .clear →
        ∃ c₁, Passing (Counted "i" zero two) (block (Directive.install Registry.empty).dispatcher [body])
            (c.started head) 2 c₁ ∧
          LeadsTo (Directive.install Registry.empty).dispatcher [head, body, closer] c []
            (c₁.settled.traced "FOR" (forNote head 2)) := by
  obtain ⟨head, body, closer, hp, hkind, hargs, hbody, htrailing, hname, hcloser⟩ : ∃ head body closer : Line,
      Program.parse "§for[i;0;2]\n§continue\n§endfor" "loop" = .ok [head, body, closer] ∧
        head.kind = .forHead ∧ head.args = "i;0;2" ∧ body.kind = .directive ∧ body.trailing = [] ∧
        body.name = "continue" ∧ closer.kind = .endFor := ⟨_, _, _, rfl, rfl, rfl, rfl, rfl, rfl, rfl⟩
  obtain ⟨zero, two, hzero, htwo, hless, hdone⟩ : ∃ zero two : Binary64, Text.number? "0" = some zero ∧
      Text.number? "2" = some two ∧ (∀ k < 2, (counter zero k).less two) ∧ (counter zero 2).less two = false :=
    ⟨_, _, rfl, rfl, by decide +kernel, by decide +kernel⟩
  refine ⟨head, body, closer, zero, two, hp, hzero, htwo, fun c hclear => ?_⟩
  have hexit : c.flags.exit = none := congrArg Flags.exit hclear
  have hnested : Nested [body] := .single (isOpener_of_kind hbody) (isCloser_of_kind hbody) .nil
  have hready : Ready (Directive.install Registry.empty).dispatcher head c "i" zero two (c.started head) := by
    refine ⟨"0", "2", ⟨by decide, "i", "0", "2", c.started head, ?_, by decide, ?_, ?_⟩, hclear, hzero, htwo⟩
    · rw [hargs]
      decide +kernel
    · exact Dispatcher.runFrom_argument_plain _ (by decide) _
    · exact Dispatcher.runFrom_argument_plain _ (by decide) _
  have hcalm : Undisturbed (Counted "i" zero two)
      (block (Directive.install Registry.empty).dispatcher [body]) maxForPasses (c.started head) := by
    rintro n c₁ c₂ - hpassing ⟨-, rfl⟩
    exact passes_continue hbody htrailing hname (Context.flags_settled (hpassing.exit hexit))
  obtain ⟨n, c₁, hpassing, hcount, -, -, hends⟩ :=
    (for_passes_fixed hkind hnested hcloser _ hexit).1 "i" zero two (c.started head) hready hcalm
  have hn : n = 2 := by
    refine hcount 2 ⟨hdone, fun k hk => Nat.le_of_not_lt fun hlt => ?_⟩
    exact Bool.false_ne_true (hk.symm.trans (hless k hlt))
  subst hn
  refine ⟨c₁, hpassing, hends (fun hall => ?_) []⟩
  exact Bool.false_ne_true (hdone.symm.trans (hall 2 (by decide)))

/-- The limit is a number, and the start is below it. But its value has asked to leave a loop, and so the
whole loop is left before its first pass. -/
theorem for_passes_pending :
    let c := Context.start false (.empty false) ⟨⟨⟨false, []⟩, []⟩, [], fun _ low _ => low, 0, .one,
      ⟨2024, 1, 2, 3, 4, 5⟩⟩
    let d := (Directive.install Registry.empty).dispatcher
    ∃ (head body closer : Line) (zero eight : Binary64) (c' : Context),
      Program.parse "§for[i;0;§len[§break[]]]\n§log[$i]\n§endfor" "loop" = .ok [head, body, closer] ∧
      Bounds d head c "i" "0" "8" c' ∧ Text.number? "0" = some zero ∧ Text.number? "8" = some eight ∧
      (counter zero 0).less eight ∧ (forLoop d head (block d [body])).runFrom c = (.error .breakLoop, c') ∧
      c'.store = [] := by
  intro c d
  let limit (head : Line) := (d.argument "§len[§break[]]").runFrom (c.started head)
  obtain ⟨head, body, closer, hp, hargs, hlimit, hflags, hstore⟩ : ∃ head body closer : Line,
      Program.parse "§for[i;0;§len[§break[]]]\n§log[$i]\n§endfor" "loop" = .ok [head, body, closer] ∧
        head.args = "i;0;§len[§break[]]" ∧ (limit head).1.toOption = some "8" ∧
        (limit head).2.flags = ⟨none, true, false⟩ ∧ (limit head).2.store = [] :=
    ⟨_, _, _, rfl, rfl, by decide +kernel⟩
  have hbounds : Bounds d head c "i" "0" "8" (limit head).2 :=
    ⟨by decide, "i", "0", "§len[§break[]]", c.started head, by rw [hargs]; decide +kernel, by decide,
      d.runFrom_argument_plain (by decide) _, Exec.runFrom_of_toOption hlimit⟩
  have hpending : (limit head).2.flags.pending? = some .breakLoop := by
    rw [hflags]
    rfl
  exact ⟨head, body, closer, _, _, _, hp, hbounds, rfl, rfl, by decide +kernel,
    hbounds.runFrom_forLoop_pending rfl hpending _, hstore⟩
end SigilScript.Execution
