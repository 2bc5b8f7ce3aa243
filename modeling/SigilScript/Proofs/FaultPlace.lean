import SigilScript.Proofs.FailSoft

/-!
Where a run stops. The current location is written when a line starts, together with an entry of the log, and it is
read much later: by a directive that raises a fault, where a failure becomes the fault of a directive, and where a run
ends with a failure that no directive is to blame for. In between, conditions, loops and nested calls come and go. If
only the engine moves the place, then whatever ends the run says where the last line started.
-/
namespace SigilScript

/-! Directives that stay where they are -/

/-- Leaves the current location and the log as they are, and raises faults only at the current location. -/
structure Exec.KeepsPlace {α : Type} (x : Exec α) : Prop where
  location : ∀ c, (x.runFrom c).2.location = c.location
  log : ∀ c, (x.runFrom c).2.log = c.log
  fault : ∀ c f, (x.runFrom c).1 = .error (.fault f) → f.location = c.location

/-- A handler that leaves the place to the engine if the directives that it calls do so. Otherwise it may do anything:
it may end with any result, signal or failure, and pass the faults of others on. -/
def PlaceKeeping (handler : Handler) : Prop :=
  ∀ (d : Dispatcher) (args : Text), (∀ name args, (d.invoke name args).KeepsPlace) → (handler d args).KeepsPlace

/-- The current location and the log are as given. -/
def Context.IsAt (location : Option Location) (log : StepLog) (c : Context) : Prop :=
  c.location = location ∧ c.log = log

/-- If it is a fault, then one at the given location. -/
def Interrupt.PointsAt (location : Option Location) : Interrupt → Prop
  | .fault f => f.location = location
  | .failure _ | .exitRun _ | .breakLoop | .continueLoop => True

theorem Exec.keepsPlace_iff {α : Type} {x : Exec α} :
    x.KeepsPlace ↔ ∀ location log, x.Obeys (Context.IsAt location log) (Interrupt.PointsAt location) := by
  constructor
  · rintro hx location log c ⟨rfl, rfl⟩
    have hlocation := hx.location c
    have hlog := hx.log c
    have hfault := hx.fault c
    rcases hr : x.runFrom c with ⟨e | a, c'⟩
    · rw [hr] at hlocation hlog hfault
      refine ⟨⟨hlocation, hlog⟩, ?_⟩
      cases e with
      | fault f => exact hfault f rfl
      | _ => exact trivial
    · rw [hr] at hlocation hlog
      exact ⟨hlocation, hlog⟩
  · intro hx
    have hkept (c : Context) : c.IsAt c.location c.log → (x.runFrom c).2.IsAt c.location c.log := fun hc =>
      Exec.Meets.context (hx _ _) hc (fun _ _ h => h) fun _ _ h => h.1
    refine ⟨fun c => (hkept c ⟨rfl, rfl⟩).1, fun c => (hkept c ⟨rfl, rfl⟩).2, fun c f hf => ?_⟩
    have hobeys := hx c.location c.log c ⟨rfl, rfl⟩
    rcases hr : x.runFrom c with ⟨e | a, c'⟩
    · rw [hr] at hobeys hf
      cases hf
      exact hobeys.2
    · rw [hr] at hf
      cases hf

theorem Registry.blamesIn_isAt (name : Text) (location : Option Location) (log : StepLog) :
    BlamesIn name (fun e c => c.IsAt location log ∧ e.PointsAt location)
      fun e c => c.IsAt location log ∧ e.PointsAt location := by
  rintro e c ⟨hc, he⟩
  cases e with
  | failure f => exact ⟨hc, hc.1⟩
  | _ => exact ⟨hc, he⟩

/-- Calls stay where they are: by induction on how many may still be inside one another. -/
theorem Registry.keepsPlace_invoke {r : Registry} (hr : ∀ d ∈ r.directives, PlaceKeeping d.handler) (levels : Nat)
    (name args : Text) : (r.invoke levels name args).KeepsPlace := by
  induction levels generalizing name args with
  | zero =>
    refine Exec.keepsPlace_iff.mpr fun location log => ?_
    exact meets_invoke_zero r args (blamesIn_isAt name location log) fun _ hc => ⟨hc, trivial⟩
  | succ levels ih =>
    refine Exec.keepsPlace_iff.mpr fun location log => ?_
    refine meets_invoke_succ (blamesIn_isAt name location log) (fun _ hc => hc) (fun _ _ hc => ⟨hc, trivial⟩) ?_
    intro d hd
    exact Exec.keepsPlace_iff.mp (hr d (mem_of_get? hd) _ args ih) location log

/-- The entries are numbered from zero on, in order and without gaps. -/
def StepLog.Numbered (log : StepLog) : Prop :=
  log.entries.toList.map StepEntry.index = List.range log.entries.size

/-- The current location is where the last entry of the log was made, and every entry was made somewhere. -/
structure Context.Placed (c : Context) : Prop where
  location : c.location = c.log.last?.bind StepEntry.location
  located : ∀ entry ∈ c.log.entries, entry.location.isSome
  numbered : c.log.Numbered

namespace Context.Placed

theorem start (debug verbose : Bool) (world : World) : (Context.start debug (.empty verbose) world).Placed where
  location := rfl
  located entry hm := by simp [Context.start, StepLog.empty] at hm
  numbered := rfl

theorem congr {c c' : Context} (h : c.Placed) (hlocation : c'.location = c.location) (hlog : c'.log = c.log) :
    c'.Placed where
  location := by rw [hlocation, hlog, h.location]
  located := by rw [hlog]; exact h.located
  numbered := by rw [hlog]; exact h.numbered

theorem invariant : Invariant Context.Placed where
  change _ _ _ _ h := h.congr rfl rfl
  emit c e _ h := h.congr (by cases e <;> rfl) (c.noted_log e)

/-- A line that starts moves the location and adds an entry at once. -/
theorem started {c : Context} (h : c.Placed) (line : Line) : (c.started line).Placed := by
  obtain ⟨entry, hindex, hlocation, hlog⟩ : ∃ entry : StepEntry, entry.index = c.log.entries.size ∧
      entry.location = some line.location ∧ (c.started line).log.entries = c.log.entries.push entry :=
    ⟨_, rfl, rfl, rfl⟩
  constructor
  · rw [StepLog.last?, hlog, Array.back?_push]
    exact hlocation.symm
  · intro e hm
    rw [hlog, Array.mem_push] at hm
    rcases hm with hm | rfl
    · exact h.located e hm
    · rw [hlocation]
      rfl
  · rw [StepLog.Numbered, hlog, Array.toList_push, List.map_append, h.numbered, Array.size_push, List.range_succ,
      List.map_singleton, hindex]

/-- How a run is interrupted: a fault says where the last line started. -/
def Interrupted (e : Interrupt) (c : Context) : Prop := c.Placed ∧ e.PointsAt c.location

/-- Only the start of a line moves the place, and none of the signals of the engine is a fault. -/
theorem conduct {r : Registry} (hr : ∀ d ∈ r.directives, PlaceKeeping d.handler) {lines : List Line}
    (hs : ∀ line ∈ lines, line.Spelled) :
    Conduct lines r.dispatcher Context.Placed Context.Placed Context.Placed Interrupted where
  spelled := hs
  calls name args _ _ := by
    intro c hc
    have hobeys := Exec.keepsPlace_iff.mp (Registry.keepsPlace_invoke hr maxRecursion name args) c.location c.log c
      ⟨rfl, rfl⟩
    rcases hrun : (r.dispatcher.invoke name args).runFrom c with ⟨e | a, c'⟩
    · obtain ⟨⟨hlocation, hlog⟩, he⟩ : c'.IsAt c.location c.log ∧ e.PointsAt c.location := by
        rw [show (r.invoke maxRecursion name args).runFrom c = (.error e, c') from hrun] at hobeys
        exact hobeys
      rw [← hlocation] at he
      exact ⟨hc.congr hlocation hlog, he⟩
    · obtain ⟨hlocation, hlog⟩ : c'.IsAt c.location c.log := by
        rw [show (r.invoke maxRecursion name args).runFrom c = (.ok a, c') from hrun] at hobeys
        exact hobeys
      exact hc.congr hlocation hlog
  depth _ _ _ hc := ⟨hc, trivial⟩
  invariant := invariant
  reportsReady := invariant.ignoresReports
  reportsWaiting := invariant.ignoresReports
  step _ line hc := hc.started line
  assign _ _ hc := hc.congr rfl rfl
  enters _ hc := hc
  waits _ hc := hc
  checks := by
    intro c hc
    rw [runFrom_checkExit, Tree.unlessExit]
    cases c.flags.exit with
    | none => exact hc
    | some code => exact ⟨hc, trivial⟩
  pending := by
    intro c hc
    rw [runFrom_raisePending]
    cases c.flags.exit with
    | some code => exact ⟨hc, trivial⟩
    | none =>
      cases c.flags.leave with
      | true => exact ⟨hc, trivial⟩
      | false =>
        cases c.flags.next with
        | true => exact ⟨hc, trivial⟩
        | false => exact hc
  settle _ hc := hc.congr rfl rfl
  leave _ hc := (hc.elim And.left And.left).congr rfl rfl
  stopped _ _ hc := ⟨hc.1.congr rfl rfl, hc.2⟩

end Context.Placed

namespace Session

end Session

end SigilScript
