import SigilScript.Proofs.ClearSteps
import SigilScript.Proofs.FailSoft

/-!
Exits are final. A directive of the language requests an exit and puts it on the trace in one step, and a
later exit of the same line replaces the request. The engine looks for a request before it starts a line,
and takes the request to exit before those to leave a loop. So no step follows an exit, and a run that
succeeds ends with the code of the last exit on the trace, which is 0 if there is none.
-/
namespace SigilScript

def Event.exit? : Event → Option Int
  | .exit code => some code
  | _ => none

/-- The codes of the exits of a run, in order. -/
def Context.exits (c : Context) : List Int := c.events.toList.filterMap Event.exit?

/-- No step follows an exit. -/
def Context.ExitsLast (c : Context) : Prop :=
  c.events.toList.Pairwise fun first later => first.exit?.isSome → later.step? = none

theorem Context.exits_push {c c' : Context} {e : Event} (h : c'.events = c.events.push e) :
    c'.exits = c.exits ++ e.exit?.toList := by
  simp only [Context.exits, h, Array.toList_push, List.filterMap_append]
  cases e <;> rfl

theorem Context.ExitsLast.push {c c' : Context} {e : Event} (h : c.ExitsLast)
    (he : c'.events = c.events.push e) (hs : e.step? = none ∨ c.exits = []) : c'.ExitsLast := by
  rw [ExitsLast, he, Array.toList_push, List.pairwise_append]
  refine ⟨h, List.pairwise_singleton _ _, ?_⟩
  simp only [List.mem_singleton, forall_eq]
  intro first hm hexit
  rcases hs with hs | hs
  · exact hs
  · rw [exits, List.filterMap_eq_nil_iff] at hs
    simp [hs first hm] at hexit

/-- What a run with the directives of the language keeps: the exit that is requested is the last one on the
trace, and nothing was started after it. -/
structure ExitKept (first : Nat) (c : Context) : Prop where
  requested : c.exits.getLast? = c.flags.exit
  last : c.ExitsLast
  recorded : Recorded first c

namespace ExitKept

variable {first : Nat} {c : Context}

theorem start (debug : Bool) (log : StepLog) (world : World) :
    ExitKept log.entries.size (Context.start debug log world) :=
  ⟨rfl, List.Pairwise.nil, 0, rfl, rfl⟩

/-- An exit on the trace is the request, from then on. -/
theorem noted (h : ExitKept first c) {e : Event} (he : e.step? = none) :
    ExitKept first (c.noted e) where
  requested := by
    rw [Context.exits_push (c.noted_events e)]
    cases e with
    | exit code => exact List.getLast?_concat
    | _ => simpa [Event.exit?, Context.noted] using h.requested
  last := h.last.push (c.noted_events e) (.inl he)
  recorded := h.recorded.of_sameLog ((Context.SameLog.refl c).noted he)

theorem invariant (first : Nat) : Invariant (ExitKept first) where
  change _ _ _ _ h := ⟨h.requested, h.last, h.recorded.of_sameLog ⟨rfl, rfl⟩⟩
  emit _ _ he h := h.noted (Event.step?_of_isPlain he)

/-- A line that starts when nothing is requested starts after no exit. -/
theorem started (h : ExitKept first c) (hf : c.flags = .clear) (line : Line) :
    ExitKept first (c.started line) where
  requested := by
    rw [Context.exits_push (e := .step c.log.entries.size c.flags) rfl]
    exact (congrArg List.getLast? (List.append_nil c.exits)).trans h.requested
  last := by
    have hlast : c.exits.getLast? = none := by rw [h.requested, hf]; rfl
    have hnone : c.exits = [] := List.getLast?_eq_none_iff.mp hlast
    exact h.last.push (e := .step c.log.entries.size c.flags) rfl (.inr hnone)
  recorded := h.recorded.started hf line

end ExitKept

/-- Nothing is requested, and no exit is on the trace. -/
def Unrequested (first : Nat) (c : Context) : Prop := ExitKept first c ∧ c.flags = .clear

/-- The signal of an exit has the code that is requested; a loop is left only if no exit is. -/
def Signalled (first : Nat) (e : Interrupt) (c : Context) : Prop :=
  ExitKept first c ∧
    match e with
    | .exitRun code => c.flags.exit = some code
    | .breakLoop | .continueLoop => c.flags.exit = none
    | .fault _ | .failure _ => True

namespace ExitKept

variable {first : Nat} {lines : List Line}

theorem meets_pending : Exec.raisePending.Meets (ExitKept first) (fun _ => Unrequested first)
    (Signalled first) := by
  intro c hc
  rw [runFrom_raisePending]
  cases hexit : c.flags.exit with
  | some code => exact ⟨hc, hexit⟩
  | none =>
    cases hleave : c.flags.leave with
    | true => exact ⟨hc, hexit⟩
    | false =>
      cases hnext : c.flags.next with
      | true => exact ⟨hc, hexit⟩
      | false =>
        have hflags : c.flags = ⟨c.flags.exit, c.flags.leave, c.flags.next⟩ := rfl
        rw [hexit, hleave, hnext] at hflags
        exact ⟨hc, hflags⟩

theorem conduct {r : Registry} (hs : ∀ line ∈ lines, line.Spelled)
    (hr : ∀ line ∈ lines, ∀ name, line.Names name → r.ServesLanguage name) (first : Nat) :
    Conduct lines r.dispatcher (Unrequested first) (ExitKept first) (Unrequested first)
      (Signalled first) where
  spelled := hs
  calls name args hk hd := by
    refine Exec.Meets.weaken (Registry.obeys_lets_keeping hr (invariant first) ?_ _ hk hd)
      (fun _ hc => hc) (fun _ _ hc => hc) ?_
    · exact fun c name args hc => hc.noted (e := .call name args) rfl
    rintro e c ⟨hc, he⟩
    cases e with
    | fault f => exact ⟨hc, trivial⟩
    | failure f => exact ⟨hc, trivial⟩
    | exitRun code => exact he.elim
    | breakLoop => exact he.elim
    | continueLoop => exact he.elim
  depth _ _ _ hc := ⟨hc, trivial⟩
  invariant := invariant first
  reportsReady c d hc := ⟨(invariant first).ignoresReports c d hc.1, hc.2⟩
  reportsWaiting c d hc := ⟨(invariant first).ignoresReports c d hc.1, hc.2⟩
  step _ line hc := ⟨hc.1.started hc.2 line, hc.2⟩
  assign c store hc := ⟨(invariant first).change c store c.flags c.world hc.1, hc.2⟩
  enters _ hc := hc.1
  waits _ hc := hc
  checks := by
    rintro c ⟨hc, hf⟩
    rw [runFrom_checkExit, Tree.unlessExit, hf]
    exact ⟨hc, hf⟩
  pending := meets_pending
  settle c hc := by
    refine ⟨(invariant first).change c c.store .clear c.world hc.1, ?_⟩
    rw [Context.settled, hc.2]
    rfl
  leave c hc := by
    obtain ⟨hkept, hexit⟩ : ExitKept first c ∧ c.flags.exit = none := hc.elim id id
    refine ⟨(invariant first).change c c.store .clear c.world hkept, ?_⟩
    rw [Context.settled, Flags.resetLoop, hexit]
    rfl
  stopped e c hc := by
    refine ⟨(invariant first).change c c.store .clear c.world hc.1, ?_⟩
    cases e <;> exact hc.2

end ExitKept

namespace Session

/-- A run of a source that passes, and asks only for directives of the language, takes no step after an
exit. The entries of the log are the steps; and if the run succeeds, its code is that of the last exit, or 0
if there is none. -/
theorem exits_last {s : Session} {log : StepLog} {world : World} {lines : List Line} {c : Context}
    (hp : s.prepare.runFrom (Context.start s.debug log world) = (.ok (some lines), c))
    (hr : ∀ line ∈ lines, ∀ name, line.Names name → s.registry.ServesLanguage name) :
    ∃ o, s.run log world = .ok o ∧ o.context.ExitsLast ∧ Recorded log.entries.size o.context ∧
      (o.success = true → o.exitCode = o.context.exits.getLast?.getD 0) := by
  obtain ⟨text, hv, hparse⟩ := passes_of_prepare hp
  have R := ExitKept.conduct (Program.parse_spelled hparse) hr log.entries.size
  have hprepared := meets_prepare R.reportsReady s _ ⟨ExitKept.start s.debug log world, rfl⟩
  rw [hp] at hprepared
  have hmeets := R.meets_program (Structural.areBlock fun _ => False) (fun _ _ he _ => he.elim)
    (List.Subset.refl lines) (Validation.tree_of_validated hv hparse)
  have hkept : ExitKept log.entries.size (s.execute lines c).context :=
    execute_context R.invariant.ignoresReports
      (hmeets.context hprepared.1 (fun _ _ hc => hc.1) fun _ _ hc => hc.1.1)
  refine ⟨_, run_of_prepare hp, hkept.last, hkept.recorded, fun hs => ?_⟩
  rw [hkept.requested]
  rcases execute_code (hmeets c hprepared.1) hs with ⟨hcode, -, hclear⟩ | ⟨⟨-, hcode⟩, -⟩
  · rw [hcode, hclear]
    rfl
  · rw [hcode]
    rfl

/-- Two exits in the condition of a loop, of which the second counts; neither the request to leave the
loop nor the lines in it and after it do. -/
theorem exits_last_nested :
    let s : Session := ⟨"§log[begin]\n§while[§exit[3]§exit[4]§break]\n§log[inside]\n§endwhile\n§exit[5]",
      literalName, false, Directive.install .empty, none, "skip"⟩
    let world : World := ⟨⟨⟨false, []⟩, []⟩, [], fun _ low _ => low, 0, .one, ⟨2024, 1, 2, 3, 4, 5⟩⟩
    ∃ lines c, s.prepare.runFrom (Context.start s.debug (.empty false) world) = (.ok (some lines), c) ∧
      (∀ line ∈ lines, ∀ name, line.Names name → s.registry.ServesLanguage name) ∧
      ∃ o, s.run (.empty false) world = .ok o ∧ o.context.exits = [3, 4] ∧ o.context.ExitsLast ∧
        Recorded 0 o.context ∧ o.context.log.entries.size = 2 ∧ o.exitCode = 4 := by
  intro s world
  obtain ⟨lines, hparse, hsuccess, hexits, hsize⟩ :
      ∃ lines, Program.parse s.source s.file = .ok lines ∧
        (s.execute lines (.start s.debug (.empty false) world)).success = true ∧
        (s.execute lines (.start s.debug (.empty false) world)).context.exits = [3, 4] ∧
        (s.execute lines (.start s.debug (.empty false) world)).context.log.entries.size = 2 :=
    ⟨_, rfl, by decide +kernel, by decide +kernel, by decide +kernel⟩
  have hp := prepare_of_unresolved (by decide +kernel) rfl (by decide +kernel) (by decide +kernel) hparse
    (.empty false) world
  have hr : ∀ line ∈ lines, ∀ name, line.Names name → s.registry.ServesLanguage name :=
    fun _ _ name _ => Registry.servesLanguage_install name
  obtain ⟨o, ho, hlast, hrecorded, hcode⟩ := exits_last hp hr
  obtain rfl : s.execute lines (.start s.debug (.empty false) world) = o :=
    Except.ok.inj ((run_of_prepare hp).symm.trans ho)
  refine ⟨lines, _, hp, hr, _, ho, hexits, hlast, hrecorded, hsize, ?_⟩
  rw [hcode hsuccess, hexits]
  rfl

end Session

end SigilScript
