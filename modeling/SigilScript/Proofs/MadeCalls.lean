import SigilScript.Proofs.BasicAction
import SigilScript.Proofs.WrittenCalls

/-!
Each call that is written in a text is made at most once when the text is resolved, whatever the values and results are.
A directive resolves stretches of its arguments that follow one another, and these are stretches of the text, shorter
than the text, so that the calls which they account for are different ones. For the same reason calls are made no
deeper inside one another than they are written, and the limit on that is never met.
-/
namespace SigilScript

/-! Calls that are made -/

/-- The call that an event is. -/
def Event.call? : Event → Option (Text × Text)
  | .call name args => some (name, args)
  | _ => none

/-- The calls that were made, in order. -/
def Context.calls (c : Context) : List (Text × Text) := c.events.toList.filterMap Event.call?

/-- A call as it is made: its arguments are taken out of quotes. -/
def unquoted (call : Text × Text) : Text × Text := (call.1, Argument.unquote call.2)

theorem Event.call?_of_isPlain {e : Event} (h : e.isPlain) : e.call? = none := by
  cases e with
  | call name args => cases h
  | _ => rfl

theorem Context.calls_of_push {c c' : Context} {e : Event} (h : c'.events = c.events.push e) :
    c'.calls = c.calls ++ e.call?.toList := by
  rw [calls, h, Array.toList_push, List.filterMap_append, List.filterMap_cons]
  cases e.call? <;> rfl

theorem Context.calls_noted (c : Context) {e : Event} (h : e.isPlain) : (c.noted e).calls = c.calls := by
  rw [calls_of_push (c.noted_events e), Event.call?_of_isPlain h]
  exact List.append_nil _

namespace Exec

variable {α β : Type} {x : Exec α} {calls later : List (Text × Text)}

/-- The calls that an action makes are among the given ones, in their order and each of them once. -/
def Makes (calls : List (Text × Text)) (x : Exec α) : Prop :=
  ∀ c : Context, ∃ made, (x.runFrom c).2.calls = c.calls ++ made ∧ made.Sublist (calls.map unquoted)

theorem Makes.mono (hx : x.Makes calls) (h : calls.Sublist later) : x.Makes later := by
  intro c
  obtain ⟨made, hc, hm⟩ := hx c
  exact ⟨made, hc, hm.trans (h.map unquoted)⟩

theorem makes_of_kept (h : ∀ c, (x.runFrom c).2.calls = c.calls) (calls : List (Text × Text)) : x.Makes calls := by
  intro c
  exact ⟨[], by rw [h c, List.append_nil], List.nil_sublist _⟩

theorem makes_of_silent {d : Dispatcher} {fails : Failure → Prop} (hx : x.Basic d (fun _ _ => False) fails)
    (calls : List (Text × Text)) : x.Makes calls := by
  refine makes_of_kept (fun c => ?_) calls
  have hI : Invariant fun c' => c'.calls = c.calls :=
    ⟨fun _ _ _ _ hc => hc, fun c' e he hc => (c'.calls_noted he).trans hc⟩
  have hkeeps : x.Obeys (fun c' => c'.calls = c.calls) fun _ => True :=
    hx.obeys hI (fun _ _ h => h.elim) fun _ _ => trivial
  exact Meets.context hkeeps rfl (fun _ _ h => h) fun _ _ h => h.1

theorem makes_emit (name args : Text) : (emit (.call name (Argument.unquote args))).Makes [(name, args)] := by
  intro c
  have hpush : ((emit (.call name (Argument.unquote args))).runFrom c).2.events =
      c.events.push (.call name (Argument.unquote args)) := rfl
  exact ⟨[unquoted (name, args)], Context.calls_of_push hpush, List.Sublist.refl _⟩

theorem Makes.bind {f : α → Exec β} (hx : x.Makes calls) (hf : ∀ a, (f a).Makes later) :
    (x >>= f).Makes (calls ++ later) := by
  intro c
  obtain ⟨made, hc, hm⟩ := hx c
  rw [List.map_append, runFrom_bind]
  rcases hr : x.runFrom c with ⟨e | a, c'⟩
  · rw [hr] at hc
    exact ⟨made, hc, hm.trans (List.sublist_append_left _ _)⟩
  · rw [hr] at hc
    obtain ⟨more, hc', hm'⟩ := hf a c'
    refine ⟨made ++ more, ?_, hm.append hm'⟩
    rw [← List.append_assoc, ← hc]
    exact hc'

theorem Makes.returns (hx : x.Makes calls) (f : α → β) : (x >>= fun a => pure (f a)).Makes calls := by
  have hpure : ∀ a, (pure (f a) : Exec β).Makes [] := fun a => makes_of_kept (fun _ => rfl) []
  have h := hx.bind hpure
  rwa [List.append_nil] at h

theorem Makes.blame (hx : x.Makes calls) (name : Text) : (Registry.blame name x).Makes calls := by
  intro c
  obtain ⟨made, hc, hm⟩ := hx c
  refine ⟨made, ?_, hm⟩
  rw [Registry.blame, runFrom_tryCatch, ← hc]
  rcases x.runFrom c with ⟨e | a, c'⟩
  · cases e <;> rfl
  · rfl

end Exec

open Exec (makes_of_silent makes_of_kept)

/-- An action that reads a text makes calls of the text, if resolving a stretch of it does. -/
theorem Reads.makes {α : Type} {d d' : Dispatcher} {fails : Failure → Prop} {t : Text} {x x' : Exec α}
    (h : Reads d d' fails t x x') (hd : ∀ s, s <:+: t → (d.resolve s).Makes (writtenCalls s)) :
    x.Makes (writtenCalls t) := by
  induction h with
  | silent h => exact makes_of_silent h _
  | resolve h => exact (hd _ h).mono (writtenCalls_isInfix h)
  | bind h _ _ ihx ihf =>
    have hx := ihx fun s hs => hd s (hs.trans (Text.left_isInfix h))
    have hf := fun a => ihf a fun s hs => hd s (hs.trans (Text.right_isInfix h))
    exact (hx.bind hf).mono ((writtenCalls_append _ _).trans (writtenCalls_isInfix h))

/-! Resolving a text -/

namespace Dispatcher

variable {d d' : Dispatcher}

theorem makes_expandNodes (hd : ∀ name args, (d.invoke name (Argument.unquote args)).Makes
    ((name, args) :: writtenCalls args)) (nodes : List Node) :
    (d.expandNodes substitute nodes).Makes (nodes.flatMap Node.calls) := by
  induction nodes with
  | nil => exact makes_of_kept (fun _ => rfl) _
  | cons node nodes ih =>
    cases node with
    | text value => exact Exec.Makes.bind (makes_of_kept (fun _ => rfl) []) fun _ => ih.returns _
    | call name args children =>
      refine Exec.Makes.bind ?_ fun _ => ih.returns _
      rw [Dispatcher.call]
      split
      · exact @makes_of_silent _ _ d (fun _ => False) ((Exec.Basic.trace _ _).returns _) _
      · exact (hd name args).returns _

theorem makes_resolve (hd : ∀ name args, (d.invoke name (Argument.unquote args)).Makes
    ((name, args) :: writtenCalls args)) (t : Text) : (d.resolve t).Makes (writtenCalls t) := by
  rw [resolve, expandWith]
  split
  · rename_i nodes hnodes
    exact (makes_expandNodes hd nodes).mono (calls_readNodes hnodes)
  · have hliteral : (substitute t).Basic d (fun _ _ => False) (fun _ => False) :=
      .read (fun _ => rfl) fun _ => .result _
    exact makes_of_silent ((Exec.basic_error _ _).bind fun _ => hliteral) _
  · exact makes_of_kept (fun _ => rfl) _

theorem expandNodes_congr (hknows : d.knows = d'.knows) {literal : Text → Exec Text} {nodes : List Node}
    (h : ∀ w ∈ nodes.flatMap Node.calls, d.invoke w.1 (Argument.unquote w.2) = d'.invoke w.1 (Argument.unquote w.2)) :
    d.expandNodes literal nodes = d'.expandNodes literal nodes := by
  induction nodes with
  | nil => rfl
  | cons node nodes ih =>
    rw [List.flatMap_cons, List.forall_mem_append] at h
    cases node with
    | text value => rw [expandNodes, expandNodes, ih h.2]
    | call name args children =>
      have hcall := h.1 (name, args) List.mem_cons_self
      rw [expandNodes, expandNodes, ih h.2, Dispatcher.call, Dispatcher.call, hknows, hcall]

/-- How a text is resolved depends on the calls in it only, and on none where it is nested too deep. -/
theorem resolve_congr (hknows : d.knows = d'.knows) {t : Text}
    (h : ∀ nodes, Fragment.parse t = .ok nodes → ∀ w ∈ writtenCalls t,
      d.invoke w.1 (Argument.unquote w.2) = d'.invoke w.1 (Argument.unquote w.2)) : d.resolve t = d'.resolve t := by
  rw [resolve, resolve, expandWith, expandWith]
  cases hp : Fragment.parse t with
  | ok nodes => exact expandNodes_congr hknows fun w hw => h nodes hp w ((calls_readNodes hp).subset hw)
  | error e => cases e <;> rfl

end Dispatcher

/-! Calls inside one another -/

/-- What a directive is given stands in the text that the call is written in, and is shorter. -/
theorem unquote_isInfix_of_mem {t : Text} {w : Text × Text} (h : w ∈ writtenCalls t) :
    Argument.unquote w.2 <:+: t ∧ (Argument.unquote w.2).length < t.length := by
  have hargs := Argument.unquote_isInfix w.2
  obtain ⟨hstands, hlt⟩ := isInfix_of_mem_writtenCalls h
  exact ⟨hargs.trans hstands, Nat.lt_of_le_of_lt hargs.length_le hlt⟩

namespace Registry

/-- The directives, of which each is given another dispatcher for the calls in its arguments. -/
def serving (r : Registry) (inner : Dispatcher) : Dispatcher where
  knows := r.contains
  invoke name args := do
    Exec.emit (.call name args)
    let reply ← blame name do
      match r.get? name with
      | none => Exec.fail (.unknownDirective name)
      | some d => d.handler inner args
    return reply.toText?

/-- Access to all directives, with at most so many calls inside one another. -/
def within (r : Registry) (levels : Nat) : Dispatcher := ⟨r.contains, r.invoke levels⟩

theorem within_succ (r : Registry) (levels : Nat) : r.within (levels + 1) = r.serving (r.within levels) := rfl

/-- Every directive reads its arguments. -/
def Reading (r : Registry) : Prop := ∀ d ∈ r.directives, ∃ fails, ReadingHandler fails d.handler

theorem reading_install : (Directive.install empty).Reading := by
  intro d hd
  obtain ⟨entry, hentry, -, hhandler⟩ := mem_install hd
  exact ⟨_, hhandler ▸ Directive.reads_of_mem_table entry hentry⟩

variable {r : Registry}

theorem Reading.serving_congr (hr : r.Reading) {d d' : Dispatcher} {args : Text}
    (h : ∀ s, s <:+: args → d.resolve s = d'.resolve s) (name : Text) :
    (r.serving d).invoke name args = (r.serving d').invoke name args := by
  simp only [serving]
  cases hget : r.get? name with
  | none => rfl
  | some directive =>
    obtain ⟨fails, hreads⟩ := hr directive (mem_of_get? hget)
    have hsame := (hreads d d' args).agree h
    dsimp only
    rw [hsame]

/-- Resolving a text comes down to resolving shorter stretches of it. -/
theorem Reading.resolve_serving (hr : r.Reading) {d d' : Dispatcher} {t : Text}
    (h : ∀ s, s <:+: t → s.length < t.length → d.resolve s = d'.resolve s) :
    (r.serving d).resolve t = (r.serving d').resolve t := by
  apply Dispatcher.resolve_congr
  · rfl
  intro _ _ w hw
  apply hr.serving_congr
  intro s hs
  obtain ⟨hstands, hlt⟩ := unquote_isInfix_of_mem hw
  exact h s (hs.trans hstands) (Nat.lt_of_le_of_lt hs.length_le hlt)

/-- Calls are made no deeper inside one another than they are written. The induction is on how deep that is. -/
theorem Reading.resolve_nested (hr : r.Reading) {n : Nat} {t : Text} (ht : NestedUpTo n t) {levels levels' : Nat}
    (h : n ≤ levels) (h' : n ≤ levels') : (r.within levels).resolve t = (r.within levels').resolve t := by
  induction n generalizing t levels levels' with
  | zero =>
    apply Dispatcher.resolve_congr
    · rfl
    intro _ _ w hw
    rw [NestedUpTo] at ht
    rw [ht] at hw
    cases hw
  | succ n ih =>
    obtain ⟨k, rfl⟩ : ∃ k, levels = k + 1 := ⟨levels - 1, by omega⟩
    obtain ⟨k', rfl⟩ : ∃ k', levels' = k' + 1 := ⟨levels' - 1, by omega⟩
    rw [within_succ, within_succ]
    apply Dispatcher.resolve_congr
    · rfl
    intro _ _ w hw
    apply hr.serving_congr
    intro s hs
    have hs := (ht w hw).of_isInfix (hs.trans (Argument.unquote_isInfix w.2))
    exact ih hs (Nat.le_of_succ_le_succ h) (Nat.le_of_succ_le_succ h')

theorem Reading.resolve_within (hr : r.Reading) (t : Text) {levels levels' : Nat} (h : maxNesting ≤ levels)
    (h' : maxNesting ≤ levels') : (r.within levels).resolve t = (r.within levels').resolve t := by
  cases hp : Fragment.parse t with
  | ok nodes => exact hr.resolve_nested (nestedUpTo_of_parse hp) h h'
  | error e =>
    apply Dispatcher.resolve_congr
    · rfl
    intro nodes hnodes
    rw [hp] at hnodes
    cases hnodes

/-- By induction on how many calls may be inside one another. -/
theorem Reading.makes_resolve (hr : r.Reading) (levels : Nat) (t : Text) :
    ((r.within levels).resolve t).Makes (writtenCalls t) := by
  induction levels generalizing t with
  | zero => exact Dispatcher.makes_resolve (fun name args => makes_of_kept (fun _ => rfl) _) t
  | succ levels ih =>
    refine Dispatcher.makes_resolve (fun name args => ?_) t
    refine Exec.Makes.bind (Exec.makes_emit name args) fun _ => Exec.Makes.returns (Exec.Makes.blame ?_ name) _
    cases hget : r.get? name with
    | none => exact makes_of_kept (fun _ => rfl) _
    | some directive =>
      obtain ⟨fails, hreads⟩ := hr directive (mem_of_get? hget)
      have hargs := (hreads (r.within levels) (r.within levels) (Argument.unquote args)).makes fun s _ => ih s
      exact hargs.mono (writtenCalls_isInfix (Argument.unquote_isInfix args))

/-- Resolving a text with the directives of the language: the limit on calls inside one another is never met; a
directive resolves only stretches of what it is given, which is a shorter stretch of the text, so that nothing else
matters; and of the calls that are written in the text, each is made at most once. -/
theorem resolve_calls_once (t : Text) :
    let r := Directive.install empty
    (∀ levels, maxNesting ≤ levels → (r.within levels).resolve t = r.dispatcher.resolve t) ∧
    (∀ levels, r.within (levels + 1) = r.serving (r.within levels)) ∧
    (r.Reading ∧ ∀ w ∈ writtenCalls t, Argument.unquote w.2 <:+: t ∧ (Argument.unquote w.2).length < t.length) ∧
    (∀ inner inner' : Dispatcher,
      (∀ s, s <:+: t → s.length < t.length → inner.resolve s = inner'.resolve s) →
      (r.serving inner).resolve t = (r.serving inner').resolve t) ∧
    ∀ c : Context, ∃ made, ((r.dispatcher.resolve t).runFrom c).2.calls = c.calls ++ made ∧
      made.Sublist ((writtenCalls t).map unquoted) ∧ made.length ≤ (writtenCalls t).length := by
  intro r
  have hr : r.Reading := reading_install
  have hlimit : maxNesting ≤ maxRecursion := by decide
  refine ⟨fun levels h => hr.resolve_within t h hlimit, within_succ r, ⟨hr, fun w hw => unquote_isInfix_of_mem hw⟩,
    fun inner inner' h => hr.resolve_serving h, ?_⟩
  intro c
  obtain ⟨made, hcalls, hmade⟩ := hr.makes_resolve maxRecursion t c
  refine ⟨made, hcalls, hmade, ?_⟩
  calc
    made.length ≤ ((writtenCalls t).map unquoted).length := hmade.length_le
    _ = (writtenCalls t).length := List.length_map unquoted

/-- Of four written calls one is of an unknown directive, and the other three are made. -/
theorem resolve_calls_once_nested :
    let r := Directive.install empty
    let t : Text := "§add[§len[ab];'§len[§x[1]]']"
    let c := Context.start false (.empty false) ⟨⟨⟨false, []⟩, []⟩, [], fun _ low _ => low, 0, .one,
      ⟨2024, 1, 2, 3, 4, 5⟩⟩
    (r.serving (r.within 32)).resolve t = (r.serving (r.within 40)).resolve t ∧
      (r.within 40).resolve t = r.dispatcher.resolve t ∧
      ((r.dispatcher.resolve t).runFrom c).2.calls.length = 3 ∧ (writtenCalls t).length = 4 := by
  intro r t c
  obtain ⟨hlimit, -, -, hserving, -⟩ := resolve_calls_once t
  have hinner : ∀ s, s <:+: t → s.length < t.length → (r.within 32).resolve s = (r.within 40).resolve s :=
    fun s _ _ => reading_install.resolve_within s (by decide) (by decide)
  exact ⟨hserving _ _ hinner, hlimit 40 (by decide), by decide +kernel, by decide +kernel⟩

end Registry

end SigilScript
