import SigilScript.Proofs.EngineContract

/-!
Confinement: of the calls that an action makes, each is written in the lines of a program. A handler is
confined if, given written arguments and a dispatcher whose written calls are confined, what it does is
confined: it takes what it hands on to the dispatcher from its arguments, and never from a value. To
have grown by written calls only is an invariant, so that basic handlers are confined.
-/
namespace SigilScript

/-- A call whose arguments stand in some line, together with the sigil and its name. -/
def WrittenCall (lines : List Line) (name args : Text) : Prop :=
  ∃ line ∈ lines, args <:+: line.text ∧ sigil :: name <:+: line.text

theorem NestedCall.written {lines : List Line} {name args : Text} (h : NestedCall lines name args) :
    WrittenCall lines name args := by
  obtain ⟨line, hm, hn, ha⟩ := h
  exact ⟨line, hm, ha, (List.infix_append [] (sigil :: name) _).trans hn⟩

theorem Dispatches.written {lines : List Line} (hs : ∀ line ∈ lines, line.Spelled) {name args : Text}
    (h : Dispatches lines name args) : WrittenCall lines name args := by
  obtain ⟨line, hm, ⟨hk, rfl⟩ | hn, ha⟩ := h
  · exact ⟨line, hm, ha, (hs line hm).name (by simp [hk])⟩
  · exact NestedCall.written ⟨line, hm, hn, ha⟩

/-- A later context, whose trace has grown by events of which each call is a written one. -/
def Context.Grows (lines : List Line) (before after : Context) : Prop :=
  ∃ new : List Event, after.events.toList = before.events.toList ++ new ∧
    ∀ name args, .call name args ∈ new → WrittenCall lines name args

namespace Context.Grows

variable {lines : List Line} {first second third : Context}

theorem of_events_eq (h : second.events = first.events) : first.Grows lines second :=
  ⟨[], by rw [h, List.append_nil], by simp⟩

theorem of_push {e : Event} (h : second.events = first.events.push e)
    (hw : ∀ name args, e = .call name args → WrittenCall lines name args) : first.Grows lines second :=
  ⟨[e], by simp [h], fun name args hm => hw name args (List.mem_singleton.mp hm).symm⟩

theorem trans (h : first.Grows lines second) (hs : second.Grows lines third) :
    first.Grows lines third := by
  obtain ⟨new, hn, hw⟩ := h
  obtain ⟨more, hm, hv⟩ := hs
  refine ⟨new ++ more, by rw [hm, hn, List.append_assoc], ?_⟩
  intro name args hc
  rcases List.mem_append.mp hc with hc | hc
  · exact hw name args hc
  · exact hv name args hc

theorem invariant (c : Context) : Invariant (c.Grows lines) where
  change _ _ _ _ h := h.trans (of_events_eq rfl)
  emit c e he h := h.trans (of_push (c.noted_events e) fun _ _ hc => by simp [hc, Event.isPlain] at he)

end Context.Grows

/-- Every call that the action adds to the trace is a written one. -/
def Exec.Confined {α : Type} (lines : List Line) (x : Exec α) : Prop :=
  ∀ c : Context, c.Grows lines (x.runFrom c).2

/-- A dispatcher whose written calls are confined. -/
def Dispatcher.Confined (lines : List Line) (d : Dispatcher) : Prop :=
  ∀ name args, WrittenCall lines name args → (d.invoke name args).Confined lines

/-- A handler that hands on to the dispatcher only what stands in its arguments. -/
def ConfinedHandler (handler : Handler) : Prop :=
  ∀ (lines : List Line) (d : Dispatcher) (args : Text), d.Confined lines → Written lines args →
    (handler d args).Confined lines

section Confined

variable {lines : List Line} {α : Type} {x : Exec α}

/-- A confined action may be run at any time of a run. -/
theorem Exec.Confined.obeys (hx : x.Confined lines) (c : Context) :
    x.Obeys (c.Grows lines) fun _ => True :=
  Exec.obeys_of_related (fun _ _ _ h hs => h.trans hs) hx c

theorem Exec.confined_of_obeys (h : ∀ c : Context, x.Obeys (c.Grows lines) fun _ => True) :
    x.Confined lines := Exec.related_of_obeys (fun _ => .of_events_eq rfl) h

theorem BasicHandler.confined {fails : Failure → Prop} {handler : Handler}
    (h : BasicHandler fails handler) : ConfinedHandler handler := by
  intro lines d args hd hw
  exact Exec.confined_of_obeys fun c => (h lines d args hw).obeys (Context.Grows.invariant c)
    (fun name args hc => (hd name args hc.2.written).obeys c) fun _ _ => trivial

/-- A run of lines of the program makes only calls that are written in the program. -/
theorem confined_program {d : Dispatcher} (hd : d.Confined lines) (hs : ∀ line ∈ lines, line.Spelled)
    {segment : List Line} (h : segment ⊆ lines) : (Execution.program d segment).Confined lines := by
  intro c
  have R : Regime lines d (fun _ => True) (c.Grows lines) (fun _ => True) :=
    { spelled := hs
      invariant := Context.Grows.invariant c
      calls := fun name args _ hc => (hd name args (hc.written hs)).obeys c
      depth := fun _ _ => trivial
      clear := trivial
      noExit := fun _ _ => trivial
      step := fun _ _ hc _ => hc.trans (.of_push rfl (by simp)) }
  exact (R.meets_program Structural.any h trivial).context ⟨.of_events_eq rfl, trivial⟩ (fun _ _ hc => hc.1)
    fun _ _ hc => hc.1

end Confined

end SigilScript
