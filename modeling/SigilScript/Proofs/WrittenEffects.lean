import SigilScript.Proofs.BasicAction

/-!
Effects need a directive that is written. Of what a directive can leave changed for the ones after it, the variables,
the requests and the files are three aspects, and each of them is changed by a few directives only. All others spare it:
whatever they do themselves leaves it alone, and so they change it only if resolving a stretch of their arguments does.
Since a directive is called only where it is written, resolving a text spares every aspect that no directive of the text
can change.
-/
namespace SigilScript

namespace Aspect

/-- An aspect is in one context as it was in another. -/
def Kept (a : Aspect) (before after : Context) : Prop :=
  match a with
  | .store => after.store = before.store
  | .requests => after.flags = before.flags
  | .files => after.world.files = before.world.files

variable {a : Aspect} {before c : Context}

theorem kept_refl (a : Aspect) (c : Context) : a.Kept c c := by
  cases a <;> rfl

/-- Events, inputs and random numbers belong to no aspect. -/
theorem Kept.unrelated {c' : Context} (h : a.Kept before c) (hstore : c'.store = c.store) (hflags : c'.flags = c.flags)
    (hfiles : c'.world.files = c.world.files) : a.Kept before c' := by
  cases a with
  | store => exact hstore.trans h
  | requests => exact hflags.trans h
  | files => exact hfiles.trans h

theorem Kept.event (h : a.Kept before c) (e : Event) : a.Kept before { c with events := c.events.push e } :=
  h.unrelated rfl rfl rfl

end Aspect

theorem Context.noted_of_not_exit {e : Event} (h : e.isExit = false) (c : Context) :
    c.noted e = { c with events := c.events.push e } := by
  cases e with
  | exit code => cases h
  | _ => rfl

/-! Single actions -/

namespace Exec

variable {α : Type} {a : Aspect} {before : Context}

/-- However it ends, the action leaves an aspect as it was before. -/
abbrev Spares (a : Aspect) (before : Context) (x : Exec α) : Prop := x.Obeys (a.Kept before) fun _ => True

theorem ignoresReports_kept : IgnoresReports (a.Kept before) := fun _ d hc => hc.event (.diagnostic d)

/-- An action spares the aspects that it does not change. -/
theorem Acts.spares {alters : Aspect → Prop} {fails : Failure → Prop} {x : Exec α} (hx : x.Acts alters fails)
    (ha : ¬ alters a) : x.Spares a before := by
  induction hx with
  | result r => exact obeys_pure r
  | read _ _ ih => exact obeys_get.bind ih
  | assign store h =>
    refine obeys_modify fun c hc => ?_
    cases a with
    | store => exact absurd h ha
    | requests => exact hc
    | files => exact hc
  | request flags h =>
    refine obeys_modify fun c hc => ?_
    cases a with
    | store => exact hc
    | requests => exact absurd h ha
    | files => exact hc
  | exit code h =>
    refine obeys_modify fun c hc => ?_
    cases a with
    | store => exact hc
    | requests => exact absurd h ha
    | files => exact hc
  | write tree h =>
    refine obeys_modify fun c hc => ?_
    cases a with
    | store => exact hc
    | requests => exact hc
    | files => exact absurd h ha
  | use world h => exact obeys_modify fun c hc => hc.unrelated rfl rfl (h c.world)
  | event e _ _ hx =>
    refine obeys_modify fun c hc => ?_
    rw [Context.noted_of_not_exit hx]
    exact hc.event e
  | trace rule message => exact obeys_trace ignoresReports_kept rule message
  | failure f => exact obeys_throw trivial
  | bind _ _ ihx ihf => exact ihx.bind ihf

end Exec

/-! Arguments -/

/-- An action that reads a text changes an aspect only itself, or in resolving stretches of the text. -/
theorem Handles.spares {α : Type} {a : Aspect} {before : Context} {alters : Aspect → Prop} {fails : Failure → Prop}
    {d d' : Dispatcher} {t : Text} {x x' : Exec α} (h : Handles alters fails d d' t x x') (ha : ¬ alters a)
    (hd : ∀ s, s <:+: t → (d.resolve s).Spares a before) : x.Spares a before := by
  induction h with
  | act h => exact h.spares ha
  | resolve h => exact hd _ h
  | bind h _ _ ihx ihf =>
    exact (ihx fun s hs => hd s (hs.trans (Text.left_isInfix h))).bind fun r =>
      ihf r fun s hs => hd s (hs.trans (Text.right_isInfix h))

/-! Resolving a text -/

/-- No directive of an aspect is called in a text. -/
def Aspect.Unwritten (a : Aspect) (t : Text) : Prop :=
  ∀ word ∈ a.words, ¬ sigil :: (Text.ofString word ++ [('[' : CodePoint)]) <:+: t

namespace Dispatcher

open Exec (obeys_pure obeys_get obeys_error obeys_trace obeys_throw ignoresReports_kept)

variable {a : Aspect} {before : Context} {d : Dispatcher}

theorem spares_substitute (t : Text) : (substitute t).Spares a before := obeys_get.bind fun _ => obeys_pure _

theorem spares_call {name args : Text} {children : List Node}
    (hd : (d.invoke name (Argument.unquote args)).Spares a before) :
    (d.call (.call name args children) name args).Spares a before := by
  unfold Dispatcher.call
  split
  · exact (obeys_trace ignoresReports_kept _ _).bind fun _ => obeys_pure _
  · exact hd.bind fun _ => obeys_pure _

theorem spares_expandNodes {nodes : List Node}
    (hd : ∀ name args children, .call name args children ∈ nodes →
      (d.invoke name (Argument.unquote args)).Spares a before) :
    (d.expandNodes substitute nodes).Spares a before := by
  induction nodes with
  | nil => exact obeys_pure _
  | cons node nodes ih =>
    have hrest := ih fun name args children hm => hd name args children (List.mem_cons_of_mem _ hm)
    cases node with
    | text value => exact (spares_substitute value).bind fun _ => hrest.bind fun _ => obeys_pure _
    | call name args children =>
      have hcall := hd name args children List.mem_cons_self
      exact (spares_call hcall).bind fun _ => hrest.bind fun _ => obeys_pure _

/-- Resolving a text spares what all calls spare that are written in it. -/
theorem spares_resolve {t : Text}
    (hd : ∀ name args, sigil :: (name ++ [('[' : CodePoint)]) <:+: t → args <:+: t →
      (d.invoke name args).Spares a before) :
    (d.resolve t).Spares a before := by
  rw [resolve, expandWith]
  split
  · rename_i nodes hnodes
    refine spares_expandNodes fun name args children hm => ?_
    have hsource := source_isInfix hnodes hm
    have hname : sigil :: (name ++ [('[' : CodePoint)]) <:+: (Node.call name args children).source :=
      ⟨[], args ++ [(']' : CodePoint)], by simp [Node.source]⟩
    have hargs : args <:+: (Node.call name args children).source :=
      ⟨sigil :: name ++ [('[' : CodePoint)], [(']' : CodePoint)], by simp [Node.source]⟩
    exact hd name _ (hname.trans hsource) (((Argument.unquote_isInfix args).trans hargs).trans hsource)
  · exact (obeys_error ignoresReports_kept _ _).bind fun _ => spares_substitute t
  · exact obeys_throw trivial

end Dispatcher

namespace Registry

variable {a : Aspect} {before : Context}

/-- Calls in a text without directives of an aspect, by induction on how many may be inside one another. -/
theorem spares_invoke (levels : Nat) {t name args : Text} (ht : a.Unwritten t)
    (hname : sigil :: (name ++ [('[' : CodePoint)]) <:+: t) (hargs : args <:+: t) :
    ((Directive.install empty).invoke levels name args).Spares a before := by
  have hblames : ∀ name, Blames name (fun _ => True) fun _ => True := fun _ _ _ => by split <;> simp
  induction levels generalizing name args with
  | zero => exact obeys_invoke_zero _ args (hblames name) trivial
  | succ levels ih =>
    refine obeys_invoke_succ (hblames name) (fun _ hc => hc.event _) (fun _ => trivial) fun d hget => ?_
    obtain ⟨entry, hentry, hword, hhandler⟩ := mem_install (mem_of_get? hget)
    -- the name is written in the text, so it is that of no directive of the aspect
    have hunwritten : entry.1 ∉ a.words := fun hm => ht _ hm (hword ▸ name_of_get? hget ▸ hname)
    rw [hhandler]
    let nested : Dispatcher := ⟨(Directive.install empty).contains, (Directive.install empty).invoke levels⟩
    refine (Directive.handles_of_mem_table entry hentry nested nested args).spares hunwritten fun s hs => ?_
    exact Dispatcher.spares_resolve fun name' args' hname' hargs' =>
      ih (hname'.trans (hs.trans hargs)) (hargs'.trans (hs.trans hargs))

theorem kept_of_unwritten {t : Text} (ht : a.Unwritten t) (c : Context) :
    a.Kept c (((Directive.install empty).dispatcher.resolve t).runFrom c).2 := by
  have hspares : ((Directive.install empty).dispatcher.resolve t).Spares a c :=
    Dispatcher.spares_resolve fun _ _ hname hargs => spares_invoke maxRecursion ht hname hargs
  exact Exec.Meets.context hspares (a.kept_refl c) (fun _ _ h => h) fun _ _ h => h.1

/-- Resolving a text with the directives of the language, however it ends, changes variables only if an assignment is
written in the text, requests only if a directive for one is, and files only if a directive that writes one is. -/
theorem effects_are_written (t : Text) (c : Context) :
    let c' := (((Directive.install empty).dispatcher.resolve t).runFrom c).2
    (¬ ("§var[" : Text) <:+: t → c'.store = c.store) ∧
      (¬ ("§exit[" : Text) <:+: t → ¬ ("§break[" : Text) <:+: t → ¬ ("§continue[" : Text) <:+: t →
        c'.flags = c.flags) ∧
      (¬ ("§createFile[" : Text) <:+: t → ¬ ("§writeFile[" : Text) <:+: t → ¬ ("§jsonWrite[" : Text) <:+: t →
        ¬ ("§jsonSet[" : Text) <:+: t → c'.world.files = c.world.files) := by
  intro c'
  refine ⟨fun hvar => ?_, fun hexit hbreak hcontinue => ?_, fun hcreate hwrite hjsonWrite hjsonSet => ?_⟩
  · refine @kept_of_unwritten .store t ?_ c
    simp only [Aspect.Unwritten, Aspect.words, List.forall_mem_singleton]
    exact hvar
  · refine @kept_of_unwritten .requests t ?_ c
    simp only [Aspect.Unwritten, Aspect.words, List.forall_mem_cons]
    exact ⟨hexit, hbreak, hcontinue, List.forall_mem_nil _⟩
  · refine @kept_of_unwritten .files t ?_ c
    simp only [Aspect.Unwritten, Aspect.words, List.forall_mem_cons]
    exact ⟨hcreate, hwrite, hjsonWrite, hjsonSet, List.forall_mem_nil _⟩

/-- A loop is left, and what is displayed comes from a file; no variable and no file changes, although the value of the
variable is the text of an assignment. -/
theorem effects_are_written_break :
    let world : World := ⟨⟨⟨false, []⟩, [(["f"], .file [0x61])]⟩, [], fun _ low _ => low, 0, .one,
      ⟨2024, 1, 2, 3, 4, 5⟩⟩
    let c : Context := { Context.start false (.empty false) world with store := [("x", "§var[x;1]")] }
    let t : Text := "§log[§readFile[f]$x]§break[]"
    let c' := (((Directive.install empty).dispatcher.resolve t).runFrom c).2
    c'.flags.leave = true ∧ c'.events.size = 4 ∧ c'.store = c.store ∧ c'.world.files = c.world.files := by
  intro world c t c'
  have hrun : c'.flags.leave = true ∧ c'.events.size = 4 ∧ ¬ ("§var[" : Text) <:+: t ∧
      ¬ ("§createFile[" : Text) <:+: t ∧ ¬ ("§writeFile[" : Text) <:+: t ∧ ¬ ("§jsonWrite[" : Text) <:+: t ∧
      ¬ ("§jsonSet[" : Text) <:+: t := by
    decide +kernel
  obtain ⟨hleave, hevents, hvar, hcreate, hwrite, hjsonWrite, hjsonSet⟩ := hrun
  have hwritten := effects_are_written t c
  exact ⟨hleave, hevents, hwritten.1 hvar, hwritten.2.2 hcreate hwrite hjsonWrite hjsonSet⟩

end Registry

end SigilScript
