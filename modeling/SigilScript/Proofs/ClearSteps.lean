import SigilScript.Proofs.SessionContract

/-!
Steps are taken at clear flags. Directives leave requests behind as flags: to exit, to leave a loop, to
start its next pass. Whatever directives there are, and whatever requests, signals and failures they make
use of, by the time that the next line starts every request has been taken up or dropped: each entry of
the step log was recorded while all flags were clear. Only the log itself is not a directive's to
write.
-/
namespace SigilScript

/-- The number and the flags of a step. -/
def Event.step? : Event → Option (Nat × Flags)
  | .step index flags => some (index, flags)
  | _ => none

/-- The steps of a run, in order. -/
def Context.steps (c : Context) : List (Nat × Flags) := c.events.toList.filterMap Event.step?

theorem Event.step?_of_isPlain {e : Event} (h : e.isPlain) : e.step? = none := by
  cases e <;> simp_all [Event.isPlain, Event.step?]

theorem Context.steps_push {c c' : Context} {e : Event} (h : c'.events = c.events.push e) :
    c'.steps = c.steps ++ e.step?.toList := by
  simp only [Context.steps, h, Array.toList_push, List.filterMap_append]
  cases e <;> rfl

/-! Directives that leave the log alone -/

/-- No step was taken, and nothing was logged. -/
structure Context.SameLog (before after : Context) : Prop where
  log : after.log = before.log
  steps : after.steps = before.steps

def Exec.KeepsLog {α : Type} (x : Exec α) : Prop := ∀ c : Context, c.SameLog (x.runFrom c).2

/-- A handler that leaves the log to the engine. Otherwise it may do anything: change the flags, and end
with any result or interrupt. -/
def LogKeeping (handler : Handler) : Prop :=
  ∀ (d : Dispatcher) (args : Text), (∀ name args, (d.invoke name args).KeepsLog) →
    (handler d args).KeepsLog

namespace Context.SameLog

theorem refl (c : Context) : c.SameLog c := ⟨rfl, rfl⟩

theorem trans {first second third : Context} (h : first.SameLog second) (hs : second.SameLog third) :
    first.SameLog third := ⟨hs.log.trans h.log, hs.steps.trans h.steps⟩

/-- Neither a plain event nor a call is a step. -/
theorem noted {c c' : Context} (h : c.SameLog c') {e : Event} (he : e.step? = none) :
    c.SameLog (c'.noted e) := by
  refine ⟨(c'.noted_log e).trans h.log, ?_⟩
  rw [Context.steps_push (c'.noted_events e), he, h.steps]
  exact List.append_nil _

end Context.SameLog

theorem Exec.KeepsLog.obeys {α : Type} {x : Exec α} (hx : x.KeepsLog) (c : Context) :
    x.Obeys c.SameLog fun _ => True :=
  Exec.obeys_of_related (fun _ _ _ h hs => h.trans hs) hx c

theorem Invariant.sameLog (c : Context) : Invariant c.SameLog where
  change _ _ _ _ h := h.trans ⟨rfl, rfl⟩
  emit _ _ he h := h.noted (Event.step?_of_isPlain he)

theorem Registry.keepsLog_invoke {r : Registry} (hr : ∀ d ∈ r.directives, LogKeeping d.handler)
    (levels : Nat) (name args : Text) : (r.invoke levels name args).KeepsLog := by
  have hblames : ∀ name, Blames name (fun _ => True) fun _ => True := fun _ _ _ => by split <;> simp
  induction levels generalizing name args with
  | zero =>
    exact Exec.related_of_obeys .refl fun _ => obeys_invoke_zero r args (hblames name) trivial
  | succ levels ih =>
    refine Exec.related_of_obeys .refl fun c => obeys_invoke_succ (hblames name) ?_ (fun _ => trivial) ?_
    · exact fun c' hc => hc.noted (e := .call name args) rfl
    · exact fun d hd => (hr d (mem_of_get? hd) _ args fun name args => ih name args).obeys c

/-- A basic action keeps the log if the directives do. -/
theorem Exec.Basic.keepsLog {α : Type} {d : Dispatcher} {calls : Text → Text → Prop}
    {fails : Failure → Prop} {x : Exec α} (hx : x.Basic d calls fails)
    (hd : ∀ name args, (d.invoke name args).KeepsLog) : x.KeepsLog :=
  Exec.related_of_obeys .refl fun c =>
    hx.obeys (.sameLog c) (fun name args _ => (hd name args).obeys c) fun _ _ => trivial

theorem BasicHandler.logKeeping {fails : Failure → Prop} {handler : Handler}
    (h : BasicHandler fails handler) : LogKeeping handler := by
  intro d args hd
  -- Where the arguments are written does not matter here: a line of their own will do.
  exact (h _ d args (.of_text args)).keepsLog hd

/-! Steps of a run -/

/-- From the `first` entry of the log on, each was recorded by a step at clear flags. -/
def Recorded (first : Nat) (c : Context) : Prop :=
  ∃ count, c.log.entries.size = first + count ∧
    c.steps = (List.range' first count).map fun index => (index, Flags.clear)

theorem Recorded.of_sameLog {first : Nat} {c c' : Context} (h : Recorded first c) (hs : c.SameLog c') :
    Recorded first c' := by
  rw [Recorded, hs.log, hs.steps]
  exact h

theorem Recorded.invariant (first : Nat) : Invariant (Recorded first) where
  change _ _ _ _ h := h.of_sameLog ⟨rfl, rfl⟩
  emit c _ he h := h.of_sameLog ((Context.SameLog.refl c).noted (Event.step?_of_isPlain he))

theorem Recorded.started {first : Nat} {c : Context} (h : Recorded first c) (hf : c.flags = .clear)
    (line : Line) : Recorded first (c.started line) := by
  obtain ⟨count, hsize, hsteps⟩ := h
  refine ⟨count + 1, ?_, ?_⟩
  · change (c.log.entries.push _).size = _
    rw [Array.size_push, hsize, Nat.add_assoc]
  · have hpush : (c.started line).steps = c.steps ++ [(c.log.entries.size, c.flags)] :=
      Context.steps_push (e := .step c.log.entries.size c.flags) rfl
    rw [hpush, hsteps, hsize, hf, List.range'_concat, List.map_append]
    simp

/-- The contract of a run whose directives leave the log alone. -/
theorem Recorded.regime {r : Registry} (hr : ∀ d ∈ r.directives, LogKeeping d.handler)
    {lines : List Line} (hs : ∀ line ∈ lines, line.Spelled) (first : Nat) :
    Regime lines r.dispatcher (· = .clear) (Recorded first) fun _ => True where
  spelled := hs
  invariant := Recorded.invariant first
  calls name args _ _ := Exec.obeys_of_kept fun c hc =>
    hc.of_sameLog (Registry.keepsLog_invoke hr _ name args c)
  depth _ _ := trivial
  clear := rfl
  noExit f hf := by rw [hf]; rfl
  step _ line hc hf := hc.started hf line

/-- Whatever a source is, and whatever its directives request, throw and fail with, a run of it records
a step only when all flags are clear. The steps are those that the log has entries for, in order. -/
theorem Session.steps_at_clear_flags {s : Session}
    (hr : ∀ d ∈ s.registry.directives, LogKeeping d.handler) {log : StepLog} {world : World}
    {o : Outcome} (h : s.run log world = .ok o) : Recorded log.entries.size o.context := by
  have hprepared := meets_prepare (I := Ready (· = .clear) (Recorded log.entries.size))
    (ignoresReports_ready (Recorded.invariant _)) s (Context.start s.debug log world)
    ⟨⟨0, rfl, rfl⟩, rfl⟩
  rcases run_eq_ok h with ⟨c, hp, rfl⟩ | ⟨lines, c, hp, rfl⟩
  · rw [hp] at hprepared
    exact hprepared.1.1
  · rw [hp] at hprepared
    obtain ⟨hready, hpasses⟩ := hprepared
    obtain ⟨text, -, hparse⟩ := hpasses lines rfl
    have R := Recorded.regime hr (Program.parse_spelled hparse) log.entries.size
    have hrun := R.meets_program Structural.any (List.Subset.refl lines) trivial
    exact execute_context R.invariant.ignoresReports
      (hrun.context (hready.waiting R) (fun _ _ hc => hc.1) fun _ _ hc => hc.1)

/-- Requests the next pass of a loop, and its end or an exit as well, and then throws a signal. -/
def unruly : Handler := fun _ args => do
  if args.isEmpty then Exec.requestBreak else Exec.requestExit 1
  Exec.requestContinue
  throw .continueLoop

/-- Both passes of a loop start at clear flags although the first one requests its end, and no step
follows the one in which an exit is requested. -/
theorem Session.steps_at_clear_flags_unruly :
    let s : Session := ⟨"§for[i;0;2]\n§unruly\n§endfor\n§log[§unruly[exit]]\n§log[never]", literalName,
      false, (Registry.empty.add "log" Directive.log "builtin" 0).add "unruly" unruly "plugin" 0, none,
      "skip"⟩
    let world : World := ⟨⟨⟨false, []⟩, []⟩, [], fun _ low _ => low, 0, .one, ⟨2024, 1, 2, 3, 4, 5⟩⟩
    (∀ d ∈ s.registry.directives, LogKeeping d.handler) ∧
      ∃ o, s.run (.empty false) world = .ok o ∧ o.exitCode = 1 ∧ o.context.log.entries.size = 4 ∧
        o.context.steps = [(0, .clear), (1, .clear), (2, .clear), (3, .clear)] := by
  intro s world
  have hr : ∀ d ∈ s.registry.directives, LogKeeping d.handler := by
    simp only [s, Registry.add, Registry.empty, List.nil_append, List.cons_append, List.forall_mem_cons]
    refine ⟨(@Directive.basic_log fun _ => False).logKeeping, ?_, by simp⟩
    intro d args _ c
    cases hargs : args.isEmpty <;> simp [unruly, hargs] <;> exact ⟨rfl, rfl⟩
  obtain ⟨lines, hp, hcode, hsize⟩ : ∃ lines, Program.parse s.source s.file = .ok lines ∧
      (s.execute lines (.start s.debug (.empty false) world)).exitCode = 1 ∧
      (s.execute lines (.start s.debug (.empty false) world)).context.log.entries.size = 4 :=
    ⟨_, rfl, by decide +kernel, by decide +kernel⟩
  have hrun := run_of_prepare (prepare_of_unresolved (by decide +kernel) rfl (by decide +kernel)
    (by decide +kernel) hp (.empty false) world)
  obtain ⟨count, hcount, hsteps⟩ := steps_at_clear_flags hr hrun
  have hempty : (StepLog.empty false).entries.size = 0 := rfl
  obtain rfl : count = 4 := by omega
  exact ⟨hr, _, hrun, hcode, hsize, hsteps⟩

end SigilScript
