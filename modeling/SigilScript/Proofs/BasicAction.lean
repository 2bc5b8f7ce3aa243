import SigilScript.Bundled
import SigilScript.Proofs.Contract
import SigilScript.Proofs.Refusal
import SigilScript.Proofs.WrittenText

/-!
What directives can do. A basic action reads what it can see of the context, changes the variables, the
flags and the world, emits events, fails and calls directives; it leaves the step log and what is already
in the trace alone, requests an exit only together with its event, and cannot tell whether the run is
debugged. The directives of the language read their arguments: they resolve stretches of them that follow
one another, and act on what comes of it, each in its own way: it changes few aspects of the context, if
any, and fails only in a few ways. So they are basic, and the calls that they make stand in their
arguments, as they are written. Whatever is kept by the single steps is therefore kept by every directive.
-/
namespace SigilScript

/-- A text that stands in some line. -/
def Written (lines : List Line) (t : Text) : Prop := ∃ line ∈ lines, t <:+: line.text

/-- Every text is written in some line. -/
theorem Written.of_text (t : Text) : Written [⟨⟨[], 0, 0, t⟩, none⟩] t :=
  ⟨_, List.mem_singleton_self _, List.infix_rfl⟩

theorem Written.of_isInfix {lines : List Line} {s t : Text} (h : Written lines t) (hs : s <:+: t) :
    Written lines s := by
  obtain ⟨line, hm, ht⟩ := h
  exact ⟨line, hm, hs.trans ht⟩

/-- A call that stands in some line, and arguments that stand in the same line. -/
def NestedCall (lines : List Line) (name args : Text) : Prop :=
  ∃ line ∈ lines, sigil :: name ++ [('[' : CodePoint)] <:+: line.text ∧ args <:+: line.text

/-- Calls or documents were nested too deep. -/
def Failure.isDepth : Failure → Bool
  | .fragment .recursionLimit | .json .recursionLimit | .recursionLimit => true
  | _ => false

/-- Neither a call nor a step. -/
def Event.isPlain : Event → Bool
  | .call _ _ | .step _ _ => false
  | _ => true

/-- With one more event, and with an exit requested if that is what the event is. -/
def Context.noted (c : Context) (e : Event) : Context :=
  match e with
  | .exit code => { c with flags := { c.flags with exit := some code }, events := c.events.push e }
  | _ => { c with events := c.events.push e }

@[simp] theorem Context.noted_events (c : Context) (e : Event) :
    (c.noted e).events = c.events.push e := by
  cases e <;> rfl

@[simp] theorem Context.noted_log (c : Context) (e : Event) : (c.noted e).log = c.log := by
  cases e <;> rfl

/-- A diagnostic that is made only when debugging. -/
def Event.isDebug : Event → Bool
  | .diagnostic d => d.severity = .debug
  | _ => false

def Event.isExit : Event → Bool
  | .exit _ => true
  | _ => false

/-- What a directive can see: neither whether the run is debugged, nor what it has left behind. -/
def Context.visible (c : Context) : Context :=
  { c with debug := false, log := .empty false, events := #[] }

/-- What directives can leave changed for those after them. -/
inductive Aspect where
  | store
  | requests
  | files

/-- The directives that change an aspect. -/
def Aspect.words : Aspect → List String
  | .store => ["var"]
  | .requests => ["exit", "break", "continue"]
  | .files => ["createFile", "writeFile", "jsonWrite", "jsonSet"]

/-- Kept by changes of variables, world and requests to leave loops, and by plain events. -/
structure Invariant (I : Context → Prop) : Prop where
  change : ∀ (c : Context) (store : Store) (flags : Flags) (world : World), I c →
    I { c with store := store, flags := { flags with exit := c.flags.exit }, world := world }
  emit : ∀ c e, Event.isPlain e → I c → I (c.noted e)

theorem Invariant.ignoresReports {I : Context → Prop} (hI : Invariant I) : Exec.IgnoresReports I :=
  fun c d hc => hI.emit c (.diagnostic d) rfl hc

namespace Exec

/-- An action made of single steps; it makes only the given calls, and fails only in the given ways or
where something is nested too deep. -/
inductive Basic (d : Dispatcher) (calls : Text → Text → Prop) (fails : Failure → Prop) :
    {α : Type} → Exec α → Prop
  | result {α : Type} (a : α) : Basic d calls fails (pure a : Exec α)
  | read {α : Type} {f : Context → Exec α} (hview : ∀ c, f c.visible = f c)
    (hf : ∀ c, Basic d calls fails (f c)) : Basic d calls fails (get >>= f)
  | change (store : Store → Store) (flags : Flags → Flags) (world : World → World) :
    Basic d calls fails (modify fun c =>
      { c with
        store := store c.store
        flags := { flags c.flags with exit := c.flags.exit }
        world := world c.world } : Exec Unit)
  | event (e : Event) (h : e.isPlain) (hd : e.isDebug = false) :
    Basic d calls fails (modify (Context.noted · e) : Exec Unit)
  | trace (rule message : String) : Basic d calls fails (Exec.trace rule message)
  | failure {α : Type} (f : Failure) (h : f.isDepth ∨ fails f) : Basic d calls fails (fail f : Exec α)
  | invoke (name args : Text) (h : calls name args) : Basic d calls fails (d.invoke name args)
  | bind {α β : Type} {x : Exec α} {f : α → Exec β} (hx : Basic d calls fails x)
    (hf : ∀ a, Basic d calls fails (f a)) : Basic d calls fails (x >>= f)

variable {α β : Type} {d : Dispatcher} {calls : Text → Text → Prop} {fails : Failure → Prop}

/-- A basic action keeps every invariant that the calls keep. -/
theorem Basic.meets {I : Context → Prop} {stop : Interrupt → Context → Prop} (hI : Invariant I)
    (hcalls : ∀ name args, calls name args → (d.invoke name args).Meets I (fun _ => I) stop)
    (hfails : ∀ f c, f.isDepth ∨ fails f → I c → stop (.failure f) c) {x : Exec α}
    (hx : x.Basic d calls fails) : x.Meets I (fun _ => I) stop := by
  induction hx with
  | result a => exact meets_pure fun _ hc => hc
  | read _ _ ih =>
    have hget : (get : Exec Context).Meets I (fun _ => I) stop := meets_get fun _ hc => hc
    exact hget.bind ih
  | change store flags world => exact meets_modify fun c hc => hI.change c _ _ _ hc
  | event e h => exact meets_modify fun c hc => hI.emit c e h hc
  | trace rule message => exact (obeys_trace hI.ignoresReports rule message).uninterrupted
  | failure f h => exact meets_throw fun c hc => hfails f c h hc
  | invoke name args h => exact hcalls name args h
  | bind _ _ ihx ihf => exact ihx.bind ihf

theorem Basic.obeys {I : Context → Prop} {E : Interrupt → Prop} (hI : Invariant I)
    (hcalls : ∀ name args, calls name args → (d.invoke name args).Obeys I E)
    (hfails : ∀ f, f.isDepth ∨ fails f → E (.failure f)) {x : Exec α} (hx : x.Basic d calls fails) :
    x.Obeys I E := hx.meets hI hcalls fun f _ hf hc => ⟨hc, hfails f hf⟩

theorem Basic.returns {x : Exec α} (hx : x.Basic d calls fails) (f : α → β) :
    (x >>= fun a => pure (f a)).Basic d calls fails := hx.bind fun _ => .result _

/-- An action that makes no calls does not depend on how calls are made. -/
theorem Basic.of_silent {d' : Dispatcher} {x : Exec α} (hx : x.Basic d (fun _ _ => False) fails) :
    x.Basic d' calls fails := by
  induction hx with
  | result a => exact .result a
  | read hview _ ih => exact .read hview ih
  | change store flags world => exact .change store flags world
  | event e h hd => exact .event e h hd
  | trace rule message => exact .trace rule message
  | failure f h => exact .failure f h
  | invoke name args h => exact h.elim
  | bind _ _ ihx ihf => exact ihx.bind ihf

/-! Actions without calls -/

/-- An action made of single steps without calls; it changes only the given aspects of the context, and
fails only in the given ways or where something is nested too deep. -/
inductive Acts (alters : Aspect → Prop) (fails : Failure → Prop) : {α : Type} → Exec α → Prop
  | result {α : Type} (a : α) : Acts alters fails (pure a : Exec α)
  | read {α : Type} {f : Context → Exec α} (hview : ∀ c, f c.visible = f c)
    (hf : ∀ c, Acts alters fails (f c)) : Acts alters fails (get >>= f)
  | assign (store : Store → Store) (h : alters .store) :
    Acts alters fails (modify fun c => { c with store := store c.store } : Exec Unit)
  | request (flags : Flags → Flags) (h : alters .requests) :
    Acts alters fails (modify fun c =>
      { c with flags := { flags c.flags with exit := c.flags.exit } } : Exec Unit)
  | exit (code : Int) (h : alters .requests) :
    Acts alters fails (modify (Context.noted · (.exit code)) : Exec Unit)
  | write (tree : FileTree) (h : alters .files) : Acts alters fails (setFiles tree)
  | use (world : World → World) (h : ∀ w, (world w).files = w.files) :
    Acts alters fails (modify fun c => { c with world := world c.world } : Exec Unit)
  | event (e : Event) (h : e.isPlain) (hd : e.isDebug = false) (hx : e.isExit = false) :
    Acts alters fails (modify (Context.noted · e) : Exec Unit)
  | trace (rule message : String) : Acts alters fails (Exec.trace rule message)
  | failure {α : Type} (f : Failure) (h : f.isDepth ∨ fails f) : Acts alters fails (fail f : Exec α)
  | bind {α β : Type} {x : Exec α} {f : α → Exec β} (hx : Acts alters fails x)
    (hf : ∀ a, Acts alters fails (f a)) : Acts alters fails (x >>= f)

variable {alters : Aspect → Prop}

theorem Acts.basic {x : Exec α} (hx : x.Acts alters fails) : x.Basic d calls fails := by
  induction hx with
  | result a => exact .result a
  | read hview _ ih => exact .read hview ih
  | assign store => exact .change store id id
  | request flags => exact .change id flags id
  | exit code => exact .event (.exit code) rfl rfl
  | write tree => exact .change id id fun world => { world with files := tree }
  | use world => exact .change id id world
  | event e h hd => exact .event e h hd
  | trace rule message => exact .trace rule message
  | failure f h => exact .failure f h
  | bind _ _ ihx ihf => exact ihx.bind ihf

theorem Acts.returns {x : Exec α} (hx : x.Acts alters fails) (f : α → β) :
    (x >>= fun a => pure (f a)).Acts alters fails := hx.bind fun _ => .result _

/-- One of two actions, with the same continuation. -/
theorem Acts.ite_bind {p : Prop} [Decidable p] {x y : Exec α} {f : α → Exec β}
    (hx : x.Acts alters fails) (hy : y.Acts alters fails) (hf : ∀ a, (f a).Acts alters fails) :
    (if p then x >>= f else y >>= f).Acts alters fails := by
  split
  · exact hx.bind hf
  · exact hy.bind hf

theorem acts_report (rule message : String) {severity : Severity} (h : severity ≠ .debug)
    (location : Option Location) : (report rule message severity location).Acts alters fails :=
  .read (fun _ => rfl) fun _ => (Acts.event (.diagnostic _) rfl (decide_eq_false h) rfl).returns _

theorem acts_error (rule message : String) : (error rule message).Acts alters fails :=
  (acts_report _ _ (by decide) _).returns _

theorem acts_warn (rule message : String) : (warn rule message).Acts alters fails :=
  (acts_report _ _ (by decide) _).returns _

theorem acts_setVariable {name : Text} (h : name.isName) (value : Text) (ha : alters .store) :
    (setVariable name value).Acts alters fails := by
  simp only [setVariable, h]
  exact .assign (Store.assign name value) ha

theorem acts_output (t : Text) : (output t).Acts alters fails := .event (.output t) rfl rfl rfl

theorem acts_readInput (prompt : Text) : (readInput prompt).Acts alters fails :=
  .read (fun _ => rfl) fun c => (Acts.use (fun world =>
    { world with inputs := c.world.inputs.tail }) fun _ => rfl).bind fun _ =>
      (Acts.event (.input prompt _) rfl rfl rfl).returns _

theorem acts_draw (low high : Int) : (draw low high).Acts alters fails :=
  .read (fun _ => rfl) fun _ => (Acts.use (fun world =>
    { world with drawn := world.drawn + 1 }) fun _ => rfl).bind fun _ =>
      (Acts.event (.draw low high) rfl rfl rfl).returns _

theorem acts_files : files.Acts alters fails := .read (fun _ => rfl) fun _ => .result _

theorem basic_error (rule message : String) : (error rule message).Basic d calls fails :=
  (@acts_error fails (fun _ => False) rule message).basic

end Exec

/-! Reading arguments -/

namespace Dispatcher

variable {lines : List Line} {fails : Failure → Prop}

/-- Calls that stand in the lines, of directives that are known. -/
def Calls (d : Dispatcher) (lines : List Line) (name args : Text) : Prop :=
  d.knows name ∧ NestedCall lines name args

/-- The call itself stands in the text, and so do its arguments. -/
theorem basic_call (d : Dispatcher) {name args : Text} {children : List Node}
    (h : Written lines (Node.call name args children).source) :
    (d.call (.call name args children) name args).Basic d (d.Calls lines) fails := by
  unfold Dispatcher.call
  split
  · exact (Exec.Basic.trace _ _).returns _
  · rename_i hk
    obtain ⟨line, hm, hs⟩ := h
    have hargs : args <:+: (Node.call name args children).source :=
      ⟨sigil :: name ++ [('[' : CodePoint)], [(']' : CodePoint)], by simp [Node.source]⟩
    have hname : sigil :: name ++ [('[' : CodePoint)] <:+: (Node.call name args children).source :=
      ⟨[], args ++ [(']' : CodePoint)], by simp [Node.source]⟩
    refine (Exec.Basic.invoke name (Argument.unquote args)
      ⟨by simpa using hk, line, hm, hname.trans hs, ?_⟩).returns _
    exact ((Argument.unquote_isInfix args).trans hargs).trans hs

theorem basic_expandNodes (d : Dispatcher) {literal : Text → Exec Text}
    (hl : ∀ t, (literal t).Basic d (d.Calls lines) fails) {nodes : List Node}
    (h : ∀ node ∈ nodes, Written lines node.source) :
    (d.expandNodes literal nodes).Basic d (d.Calls lines) fails := by
  induction nodes with
  | nil => exact .result _
  | cons node rest ih =>
    rw [List.forall_mem_cons] at h
    cases node with
    | text value => exact (hl value).bind fun _ => (ih h.2).returns _
    | call name args children => exact (d.basic_call h.1).bind fun _ => (ih h.2).returns _

/-- Only the calls in the text itself are made, and none in what takes their place. -/
theorem basic_expandWith (d : Dispatcher) {literal : Text → Exec Text}
    (hl : ∀ t, (literal t).Basic d (d.Calls lines) fails) {t : Text} (h : Written lines t) :
    (d.expandWith literal t).Basic d (d.Calls lines) fails := by
  unfold Dispatcher.expandWith
  split
  · rename_i nodes hp
    exact d.basic_expandNodes hl fun node hm => h.of_isInfix (source_isInfix hp hm)
  · exact (Exec.basic_error _ _).bind fun _ => hl t
  · exact .failure _ (.inl rfl)

theorem basic_resolve (d : Dispatcher) {t : Text} (h : Written lines t) :
    (d.resolve t).Basic d (d.Calls lines) fails :=
  d.basic_expandWith (fun _ => .read (fun _ => rfl) fun _ => .result _) h

theorem basic_argument (d : Dispatcher) {t : Text} (h : Written lines t) :
    (d.argument t).Basic d (d.Calls lines) fails :=
  d.basic_resolve (h.of_isInfix (Argument.unquote_isInfix t))

theorem basic_condition (d : Dispatcher) {t : Text} (h : Written lines t) :
    (d.condition t).Basic d (d.Calls lines) fails := by
  refine (d.basic_resolve h).bind fun resolved => .read (fun _ => rfl) fun c => ?_
  split
  · exact (Exec.Basic.trace _ _).returns _
  · exact (Exec.Basic.trace _ _).returns _

end Dispatcher

/-- An action that reads a text, with one dispatcher and with another: it resolves stretches of the text that follow one
another, and makes no other calls. -/
inductive Reads (d d' : Dispatcher) (fails : Failure → Prop) : {α : Type} → Text → Exec α → Exec α → Prop
  | silent {α : Type} {t : Text} {x : Exec α} (h : x.Basic d (fun _ _ => False) fails) : Reads d d' fails t x x
  | resolve {s t : Text} (h : s <:+: t) : Reads d d' fails t (d.resolve s) (d'.resolve s)
  | bind {α β : Type} {s u t : Text} {x x' : Exec α} {f f' : α → Exec β} (h : s ++ u <:+: t)
    (hx : Reads d d' fails s x x') (hf : ∀ a, Reads d d' fails u (f a) (f' a)) :
    Reads d d' fails t (x >>= f) (x' >>= f')

namespace Reads

variable {α : Type} {d d' : Dispatcher} {fails : Failure → Prop} {t : Text} {x x' : Exec α}

/-- Read with dispatchers that resolve stretches of the text in the same way, the text gives the same. -/
theorem agree (h : Reads d d' fails t x x') (hd : ∀ s, s <:+: t → d.resolve s = d'.resolve s) : x = x' := by
  induction h with
  | silent => rfl
  | resolve h => exact hd _ h
  | bind h _ _ ihx ihf =>
    have hx := ihx fun s hs => hd s (hs.trans (Text.left_isInfix h))
    have hf := fun a => ihf a fun s hs => hd s (hs.trans (Text.right_isInfix h))
    rw [hx, funext hf]

theorem basic {lines : List Line} (h : Reads d d' fails t x x') (ht : Written lines t) :
    x.Basic d (d.Calls lines) fails := by
  induction h with
  | silent h => exact h.of_silent
  | resolve h => exact d.basic_resolve (ht.of_isInfix h)
  | bind h _ _ ihx ihf =>
    exact (ihx (ht.of_isInfix (Text.left_isInfix h))).bind fun a => ihf a (ht.of_isInfix (Text.right_isInfix h))

end Reads

/-- A handler that reads its arguments, and fails only in the given ways. -/
def ReadingHandler (fails : Failure → Prop) (handler : Handler) : Prop :=
  ∀ (d d' : Dispatcher) (args : Text), Reads d d' fails args (handler d args) (handler d' args)

/-- A handler that calls only what stands in its arguments, and fails only in the given ways. -/
def BasicHandler (fails : Failure → Prop) (handler : Handler) : Prop :=
  ∀ (lines : List Line) (d : Dispatcher) (args : Text), Written lines args →
    (handler d args).Basic d (d.Calls lines) fails

theorem ReadingHandler.basic {fails : Failure → Prop} {handler : Handler} (h : ReadingHandler fails handler) :
    BasicHandler fails handler := fun _ d args hw => (h d d args).basic hw

/-- An action that reads a text, and else only acts in the given ways. -/
inductive Handles (alters : Aspect → Prop) (fails : Failure → Prop) (d d' : Dispatcher) :
    {α : Type} → Text → Exec α → Exec α → Prop
  | act {α : Type} {t : Text} {x : Exec α} (h : x.Acts alters fails) : Handles alters fails d d' t x x
  | resolve {s t : Text} (h : s <:+: t) : Handles alters fails d d' t (d.resolve s) (d'.resolve s)
  | bind {α β : Type} {s u t : Text} {x x' : Exec α} {f f' : α → Exec β} (h : s ++ u <:+: t)
    (hx : Handles alters fails d d' s x x') (hf : ∀ a, Handles alters fails d d' u (f a) (f' a)) :
    Handles alters fails d d' t (x >>= f) (x' >>= f')

namespace Handles

variable {α β : Type} {alters : Aspect → Prop} {fails : Failure → Prop} {d d' : Dispatcher} {s t : Text}
  {x x' : Exec α}

theorem reads (h : Handles alters fails d d' t x x') : Reads d d' fails t x x' := by
  induction h with
  | act h => exact .silent h.basic
  | resolve h => exact .resolve h
  | bind h _ _ ihx ihf => exact .bind h ihx ihf

theorem of_isInfix (h : Handles alters fails d d' s x x') (hs : s <:+: t) : Handles alters fails d d' t x x' := by
  cases h with
  | act h => exact .act h
  | resolve h => exact .resolve (h.trans hs)
  | bind h hx hf => exact .bind (h.trans hs) hx hf

/-- Goes on without reading. -/
theorem andThen {f : α → Exec β} (hx : Handles alters fails d d' t x x') (hf : ∀ a, (f a).Acts alters fails) :
    Handles alters fails d d' t (x >>= f) (x' >>= f) := by
  have ht : t ++ [] <:+: t := ⟨[], [], by simp⟩
  exact .bind ht hx fun a => .act (hf a)

/-- Reads the first of the pieces that a text was cut into, and then the others. -/
theorem pieces {first : Text} {others : List Text} {f f' : α → Exec β} (hx : Handles alters fails d d' first x x')
    (hf : ∀ a, Handles alters fails d d' (Text.join ";" others) (f a) (f' a)) :
    Handles alters fails d d' (Text.join ";" (first :: others)) (x >>= f) (x' >>= f') := by
  cases others with
  | nil =>
    have hjoin : first ++ Text.join ";" [] = Text.join ";" [first] := by simp [Text.join, List.intercalate]
    rw [← hjoin]
    exact .bind List.infix_rfl hx hf
  | cons second others =>
    rw [Text.join_cons_cons]
    exact .bind List.infix_rfl hx fun a => (hf a).of_isInfix (List.suffix_append _ _).isInfix

theorem of_split {args : Text} {pieces : List Text} (hs : Argument.split args = pieces)
    (h : Handles alters fails d d' (Text.join ";" pieces) x x') : Handles alters fails d d' args x x' := by
  have hp : pieces <:+: Argument.split args := ⟨[], [], by simp [hs]⟩
  exact h.of_isInfix (Argument.join_isInfix_split hp)

end Handles

section

variable {alters : Aspect → Prop} {fails : Failure → Prop} (d d' : Dispatcher)

theorem handles_argument (t : Text) : Handles alters fails d d' t (d.argument t) (d'.argument t) :=
  .resolve (Argument.unquote_isInfix t)

theorem handles_pieces (pieces : List Text) :
    Handles alters fails d d' (Text.join ";" pieces) (pieces.mapM d.argument) (pieces.mapM d'.argument) := by
  induction pieces with
  | nil => exact .act (.result [])
  | cons first others ih =>
    rw [List.mapM_cons, List.mapM_cons]
    exact (handles_argument d d' first).pieces fun _ => ih.andThen fun _ => .result _

theorem handles_arguments (t : Text) : Handles alters fails d d' t (d.arguments t) (d'.arguments t) :=
  .of_split rfl (handles_pieces d d' (Argument.split t))

end

/-- A handler that reads its arguments, and else changes only the given aspects and fails only in the given ways. -/
def ActingHandler (alters : Aspect → Prop) (fails : Failure → Prop) (handler : Handler) : Prop :=
  ∀ (d d' : Dispatcher) (args : Text), Handles alters fails d d' args (handler d args) (handler d' args)

theorem ActingHandler.reading {alters : Aspect → Prop} {fails : Failure → Prop} {handler : Handler}
    (h : ActingHandler alters fails handler) : ReadingHandler fails handler := fun d d' args => (h d d' args).reads

namespace Text

theorem isJson_error {t : Text} {e : Json.ReadError} (h : t.isJson = .error e) : e = .recursionLimit := by
  unfold isJson at h
  split at h
  · simp at h
  · exact (Except.error.inj h).symm
  · simp at h

theorem type_error {t : Text} {e : Json.ReadError} (h : t.type = .error e) : e = .recursionLimit := by
  unfold type at h
  split at h
  · simp at h
  · split at h
    · simp at h
    · split at h
      · simp at h
      · cases hj : t.isJson with
        | ok b => simp [hj, Except.map] at h
        | error e' =>
          rw [hj] at h
          exact Except.error.inj h ▸ isJson_error hj

end Text

namespace Directive

/-- The failures of a directive of the language that it does not report: a number without an integer, a
path that no tree could have, a text that no file could hold, and an index that is no integer. -/
inductive Escapes : String → Failure → Prop
  | infinite {word : String} (h : word ∈ ["round", "time"]) : Escapes word .infiniteInteger
  | badPath {word : String} {path : Text} {e : FileError}
    (h : word ∈ ["createFile", "readFile", "writeFile", "jsonWrite", "jsonSet"])
    (he : e.isBadPath) (ho : FileTree.openPath path = .error e) : Escapes word (.file path e)
  | unencodable {word : String} {content : Text} {e : Utf8.EncodeError}
    (h : word ∈ ["writeFile", "jsonWrite", "jsonSet"]) (he : Utf8.encode content = .error e) :
    Escapes word (.unencodable e)
  | badIndex {word : String} {e : IntegerError} (h : word ∈ ["jsonGet", "jsonSet"])
    (he : Json.BadIndex e) : Escapes word (.integer e)

/-- A directive of the language changes only the aspects that it is there for. -/
abbrev Alters (word : String) (a : Aspect) : Prop := word ∈ a.words

open Exec (acts_error acts_files)

variable {alters : Aspect → Prop} {fails : Failure → Prop}

/-! Output, variables and control -/

theorem handles_log : ActingHandler alters fails log := fun d d' args =>
  (handles_argument d d' args).andThen fun _ => (Exec.acts_output _).returns _

theorem basic_log : BasicHandler fails log := (@handles_log (fun _ => False) fails).reading.basic

theorem acts_finiteOrZero (rule : String) (x : Binary64) :
    (finiteOrZero rule x).Acts alters fails := by
  unfold finiteOrZero
  split
  · exact .result _
  · exact (acts_error _ _).returns _

theorem acts_arithmetic (t : Text) : (arithmetic t).Acts alters fails := by
  unfold arithmetic
  split
  · exact (acts_error _ _).returns _
  · exact acts_finiteOrZero _ _

theorem handles_assignVariable (ha : alters .store) : ActingHandler alters fails assignVariable := by
  intro d d' args
  unfold assignVariable
  split
  · rename_i first second others hs
    have hp : second :: others <:+: Argument.split args := ⟨[first], [], by simp [hs]⟩
    have hv : (Text.join ";" (second :: others)).strip <:+: args :=
      (Text.strip_isInfix _).trans (Argument.join_isInfix_split hp)
    dsimp only
    split
    · exact .act ((acts_error _ _).returns _)
    · rename_i hn
      refine (Handles.resolve hv).andThen fun value => ?_
      exact Exec.Acts.ite_bind (acts_arithmetic _) (.result _) fun value =>
        (Exec.acts_setVariable (by simpa using hn) _ ha).bind fun _ => (Exec.Acts.trace _ _).returns _
  · exact .act ((acts_error _ _).returns _)

theorem handles_exit (ha : alters .requests) : ActingHandler alters fails exit := by
  intro d d' args
  refine (handles_argument d d' args).andThen fun t => ?_
  dsimp only
  generalize (t.number?.bind Binary64.truncate?).getD 0 = code
  -- the request and its event are one step
  exact (Exec.Acts.exit code ha).returns fun _ => Reply.text (toString code)

theorem handles_breakLoop (ha : alters .requests) : ActingHandler alters fails breakLoop := fun _ _ _ => .act <|
  (Exec.Acts.request (fun flags => { flags with leave := true }) ha).returns _

theorem handles_continueLoop (ha : alters .requests) : ActingHandler alters fails continueLoop := fun _ _ _ => .act <|
  (Exec.Acts.request (fun flags => { flags with next := true }) ha).returns _

theorem handles_require : ActingHandler alters fails require := fun _ _ _ => .act <|
  (Exec.acts_warn _ _).returns _

/-! Numbers -/

theorem handles_operands (d d' : Dispatcher) (name : String) (args : Text) :
    Handles alters fails d d' args (operands d name args) (operands d' name args) := by
  refine (handles_arguments d d' args).andThen fun parts => ?_
  split
  · split
    · exact .result _
    · exact (acts_error _ _).returns _
  · exact (acts_error _ _).returns _

theorem handles_binary (name : String) (f : Binary64 → Binary64 → Binary64) :
    ActingHandler alters fails (binary name f) := by
  intro d d' args
  refine (handles_operands d d' name args).andThen fun parts => ?_
  split
  · exact .result _
  · exact (acts_finiteOrZero _ _).returns _

theorem handles_div : ActingHandler alters fails div := by
  intro d d' args
  refine (handles_operands d d' "div" args).andThen fun parts => ?_
  split
  · exact .result _
  · split
    · exact (acts_error _ _).returns _
    · exact (acts_finiteOrZero _ _).returns _

theorem handles_round : ActingHandler alters (Escapes "round") round := by
  intro d d' args
  refine (handles_argument d d' args).andThen fun t => ?_
  split
  · exact (acts_error _ _).returns _
  · split
    · exact .failure _ (.inr (.infinite (by decide)))
    · exact (acts_finiteOrZero _ _).returns _

theorem handles_random : ActingHandler alters fails random := by
  intro d d' args
  refine (handles_arguments d d' args).andThen fun parts => ?_
  split
  · split
    · split
      · exact (acts_error _ _).returns _
      · split
        · exact (acts_error _ _).returns _
        · exact (Exec.acts_draw _ _).returns _
    · exact (acts_error _ _).returns _
  · exact (acts_error _ _).returns _

/-! Texts -/

theorem handles_onText (f : Text → Text) : ActingHandler alters fails (onText f) := fun d d' args =>
  (handles_argument d d' args).andThen fun _ => .result _

theorem handles_onTwoTexts (f : Text → Text → Bool) : ActingHandler alters fails (onTwoTexts f) := by
  intro d d' args
  refine (handles_arguments d d' args).andThen fun parts => ?_
  split <;> exact .result _

theorem handles_replace : ActingHandler alters fails replace := by
  intro d d' args
  refine (handles_arguments d d' args).andThen fun parts => ?_
  split
  · split <;> exact .result _
  · exact (acts_error _ _).returns _

theorem handles_predicate (p : Text → Bool) : ActingHandler alters fails (predicate p) := fun d d' args =>
  (handles_argument d d' args).andThen fun _ => .result _

theorem handles_isJson : ActingHandler alters fails isJson := by
  intro d d' args
  refine (handles_argument d d' args).andThen fun t => ?_
  split
  · rename_i e he
    exact .failure _ (.inl (Text.isJson_error he ▸ rfl))
  · exact .result _

theorem handles_typeOf : ActingHandler alters fails typeOf := by
  intro d d' args
  refine (handles_argument d d' args).andThen fun t => ?_
  split
  · rename_i e he
    exact .failure _ (.inl (Text.type_error he ▸ rfl))
  · exact .result _

/-! Files -/

theorem handles_isFileExist : ActingHandler alters fails isFileExist := fun d d' args =>
  (handles_argument d d' args).andThen fun _ => acts_files.returns _

theorem acts_refuse {word : String}
    (h : word ∈ ["createFile", "readFile", "writeFile", "jsonWrite", "jsonSet"])
    (rule action : String) {path : Text} {e : FileError}
    (ho : e.isBadPath → FileTree.openPath path = .error e) :
    (refuse rule action path e).Acts alters (Escapes word) := by
  unfold refuse
  split
  · rename_i he
    exact (Exec.Acts.failure _ (.inr (.badPath h he (ho he)))).bind fun _ => acts_error _ _
  · exact acts_error _ _

theorem acts_newFile (ha : alters .files) (path : Text) : (newFile path).Acts alters (Escapes "createFile") := by
  refine acts_files.bind fun tree => ?_
  split
  · exact .result _
  · split
    · exact (Exec.Acts.write _ ha).returns _
    · rename_i hc
      exact (acts_refuse (by decide) _ _ (FileTree.openPath_of_create hc)).returns _

theorem handles_createFile (ha : alters .files) : ActingHandler alters (Escapes "createFile") createFile :=
  fun d d' args => (handles_argument d d' args).andThen fun _ => (acts_newFile ha _).returns _

theorem handles_readFile : ActingHandler alters (Escapes "readFile") readFile := by
  intro d d' args
  refine (handles_argument d d' args).andThen fun path => acts_files.bind fun tree => ?_
  split
  · exact (acts_error _ _).returns _
  · rename_i hr
    exact (acts_refuse (by decide) _ _ (FileTree.openPath_of_read hr)).returns _
  · split
    · exact (acts_error _ _).returns _
    · exact .result _

theorem acts_writeContent (ha : alters .files) {word : String} (h : word ∈ ["writeFile", "jsonWrite", "jsonSet"])
    (rule : String) (path content : Text) :
    (writeContent rule path content).Acts alters (Escapes word) := by
  refine acts_files.bind fun tree => ?_
  split
  · rename_i hw
    have hword : word ∈ ["createFile", "readFile", "writeFile", "jsonWrite", "jsonSet"] :=
      List.mem_cons_of_mem _ (List.mem_cons_of_mem _ h)
    exact (acts_refuse hword _ _ (FileTree.openPath_of_write hw)).returns _
  · rename_i hw
    refine (Exec.Acts.write _ ha).bind fun _ => ?_
    split
    · exact .failure _ (.inr (.unencodable h (FileTree.encode_of_write hw)))
    · exact .result _

theorem handles_writeFile (ha : alters .files) : ActingHandler alters (Escapes "writeFile") writeFile := by
  intro d d' args
  unfold writeFile
  split
  · exact .act ((acts_error _ _).returns _)
  · rename_i first others hs
    exact .of_split hs <| (handles_argument d d' first).pieces fun _ =>
      (handles_argument d d' (Text.join ";" others)).andThen fun _ => (acts_writeContent ha (by decide) _ _ _).returns _

theorem acts_readJson (rule : String) (path : Text) :
    (readJson rule path).Acts alters fails := by
  refine acts_files.bind fun tree => ?_
  split
  · exact (acts_error _ _).returns _
  · split
    · exact (acts_error _ _).returns _
    · exact (acts_error _ _).returns _
  · split
    · exact (acts_error _ _).returns _
    · split
      · exact .failure _ (.inl rfl)
      · exact (acts_error _ _).returns _
      · exact .result _

theorem acts_writeJson (ha : alters .files) {word : String} (h : word ∈ ["writeFile", "jsonWrite", "jsonSet"])
    (rule : String) (path : Text) (document : Json) :
    (writeJson rule path document).Acts alters (Escapes word) := by
  unfold writeJson
  split
  · exact acts_writeContent ha h _ _ _
  · refine (acts_writeContent ha h _ _ _).bind fun result => ?_
    split
    · exact (Exec.Acts.failure _ (.inl rfl)).returns _
    · exact .result _

theorem handles_jsonRead : ActingHandler alters fails jsonRead := by
  intro d d' args
  refine (handles_argument d d' args).andThen fun path => (acts_readJson _ _).bind fun document => ?_
  split <;> exact .result _

theorem acts_writeDocument (ha : alters .files) (path t : Text) :
    (writeDocument path t).Acts alters (Escapes "jsonWrite") := by
  unfold writeDocument
  split
  · exact .failure _ (.inl rfl)
  · exact (acts_error _ _).returns _
  · exact acts_writeJson ha (by decide) _ _ _

theorem handles_jsonWrite (ha : alters .files) : ActingHandler alters (Escapes "jsonWrite") jsonWrite := by
  intro d d' args
  unfold jsonWrite
  split
  · rename_i first second others hs
    exact .of_split hs <| (handles_argument d d' first).pieces fun _ =>
      (handles_argument d d' (Text.join ";" (second :: others))).andThen fun _ => (acts_writeDocument ha _ _).returns _
  · exact .act ((acts_error _ _).returns _)

theorem acts_getValue (path key : Text) : (getValue path key).Acts alters (Escapes "jsonGet") := by
  refine (acts_readJson _ _).bind fun document => ?_
  split
  · exact .result _
  · split
    · exact .result _
    · split
      · rename_i hg
        exact .failure _ (.inr (.badIndex (by decide) (Json.badIndex_of_get? hg)))
      · exact (Exec.Acts.trace _ _).returns _
      · exact (Exec.Acts.trace _ _).returns _
      · exact .result _

theorem handles_jsonGet : ActingHandler alters (Escapes "jsonGet") jsonGet := by
  intro d d' args
  refine (handles_arguments d d' args).andThen fun parts => ?_
  split
  · exact (acts_error _ _).returns _
  · exact (acts_getValue _ _).returns _

theorem acts_valueOf (t : Text) : (valueOf t).Acts alters fails := by
  unfold valueOf
  split
  · exact .result _
  · exact .failure _ (.inl rfl)
  · exact .result _

theorem acts_documentOrNew (path : Text) : (documentOrNew path).Acts alters (Escapes "jsonSet") := by
  refine acts_files.bind fun tree => ?_
  split
  · exact acts_readJson _ _
  · exact .result _

theorem acts_setValue (ha : alters .files) (path key t : Text) :
    (setValue path key t).Acts alters (Escapes "jsonSet") := by
  refine (acts_documentOrNew path).bind fun document => ?_
  cases document with
  | none => exact .result _
  | some document =>
    refine (acts_valueOf _).bind fun value => ?_
    split
    · rename_i hs
      exact .failure _ (.inr (.badIndex (by decide) (Json.badIndex_of_setPath (congrArg Prod.snd hs))))
    · exact (acts_error _ _).returns _
    · exact acts_writeJson ha (by decide) _ _ _

theorem handles_jsonSet (ha : alters .files) : ActingHandler alters (Escapes "jsonSet") jsonSet := by
  intro d d' args
  unfold jsonSet
  split
  · rename_i first second third others hs
    exact .of_split hs <| (handles_argument d d' first).pieces fun _ => (handles_argument d d' second).pieces fun _ =>
      (handles_argument d d' (Text.join ";" (third :: others))).andThen fun _ => (acts_setValue ha _ _ _).returns _
  · exact .act ((acts_error _ _).returns _)

theorem handles_getPath : ActingHandler alters fails getPath := fun d d' args =>
  (handles_argument d d' args).andThen fun _ => acts_files.returns _

/-! Time and the terminal -/

theorem handles_time : ActingHandler alters (Escapes "time") time := by
  intro d d' args
  refine .act (.read (fun _ => rfl) fun c => ?_)
  split
  · exact .failure _ (.inr (.infinite (by decide)))
  · exact .result _

theorem handles_date : ActingHandler alters fails date := fun d d' args =>
  (handles_argument d d' args).andThen fun _ => .read (fun _ => rfl) fun _ => .result _

theorem handles_sleep : ActingHandler alters fails sleep := by
  intro d d' args
  refine (handles_argument d d' args).andThen fun t => ?_
  dsimp only
  split
  · exact (acts_error _ _).returns _
  · exact (Exec.Acts.event (.sleep _) rfl rfl rfl).returns _

theorem handles_input : ActingHandler alters fails input := fun d d' args =>
  (handles_argument d d' args).andThen fun _ => (Exec.acts_readInput _).returns _

theorem handles_clear : ActingHandler alters fails clear := fun _ _ _ => .act <|
  (Exec.Acts.event .clear rfl rfl rfl).returns _

theorem handles_of_mem_table : ∀ entry ∈ table, ActingHandler (Alters entry.1) (Escapes entry.1) entry.2 := by
  simp only [table, List.forall_mem_cons]
  exact ⟨handles_log, handles_assignVariable (by decide), handles_exit (by decide), handles_breakLoop (by decide),
    handles_continueLoop (by decide), handles_require, handles_binary _ _, handles_binary _ _, handles_binary _ _,
    handles_div, handles_round, handles_random, handles_onText _, handles_onText _, handles_onText _,
    handles_onText _, handles_onTwoTexts _, handles_replace, handles_onTwoTexts _, handles_predicate _,
    handles_predicate _, handles_predicate _, handles_predicate _, handles_predicate _, handles_isJson,
    handles_predicate _, handles_predicate _, handles_predicate _, handles_predicate _, handles_typeOf,
    handles_isFileExist, handles_createFile (by decide), handles_readFile, handles_writeFile (by decide),
    handles_jsonRead, handles_jsonWrite (by decide), handles_jsonGet, handles_jsonSet (by decide),
    handles_getPath, handles_time, handles_date, handles_sleep, handles_input, handles_clear, by simp⟩

theorem reads_of_mem_table : ∀ entry ∈ table, ReadingHandler (Escapes entry.1) entry.2 :=
  fun entry hm => (handles_of_mem_table entry hm).reading

theorem basic_of_mem_table : ∀ entry ∈ table, BasicHandler (Escapes entry.1) entry.2 :=
  fun entry hm => (reads_of_mem_table entry hm).basic

end Directive

namespace Bundled

variable {fails : Failure → Prop}

theorem reads_greet : ReadingHandler fails greet :=
  @ActingHandler.reading (fun _ => False) _ _ fun d d' args => (handles_argument d d' args).andThen fun _ => .result _

theorem reads_countProperties : ReadingHandler fails countProperties := by
  refine @ActingHandler.reading (fun _ => False) _ _ fun d d' args => (handles_argument d d' args).andThen fun t => ?_
  split
  · exact .failure _ (.inl rfl)
  · exact (Exec.acts_error _ _).returns _
  · exact .result _
  · exact .result _

theorem reads_styled (code : Text) : ReadingHandler fails (styled code) :=
  @ActingHandler.reading (fun _ => False) _ _ fun d d' args => (handles_argument d d' args).andThen fun _ => .result _

end Bundled

/-! Calling directives -/

namespace Registry

variable {r : Registry} {I : Context → Prop} {E E' : Interrupt → Prop} {stop stop' : Interrupt → Context → Prop}

theorem foldl_prefer_mem (ds : List Directive) {best : Option Directive} {d : Directive}
    (h : ds.foldl prefer best = some d) : d ∈ ds ∨ best = some d := by
  induction ds generalizing best with
  | nil => exact .inr h
  | cons first ds ih =>
    rcases ih h with hm | hb
    · exact .inl (List.mem_cons_of_mem _ hm)
    · unfold prefer at hb
      split at hb
      · simp_all
      · split at hb <;> simp_all

theorem mem_of_get? {name : Text} {d : Directive} (h : r.get? name = some d) : d ∈ r.directives := by
  rcases foldl_prefer_mem _ h with hm | hn
  · exact (List.mem_filter.mp hm).1
  · simp at hn

theorem name_of_get? {name : Text} {d : Directive} (h : r.get? name = some d) : d.name = name := by
  rcases foldl_prefer_mem _ h with hm | hn
  · simpa using (List.mem_filter.mp hm).2
  · simp at hn

theorem foldl_prefer_isSome (ds : List Directive) (best : Directive) :
    (ds.foldl prefer (some best)).isSome := by
  induction ds generalizing best with
  | nil => rfl
  | cons d ds ih =>
    rw [List.foldl_cons, prefer]
    split
    · exact ih d
    · exact ih best

/-- A name that is known is served. -/
theorem get?_of_contains {name : Text} (h : r.contains name) : ∃ d, r.get? name = some d := by
  obtain ⟨d, hm, hn⟩ := List.any_eq_true.mp h
  have hf : d ∈ r.directives.filter (·.name = name) := List.mem_filter.mpr ⟨hm, hn⟩
  rw [← Option.isSome_iff_exists, get?]
  cases hds : r.directives.filter (·.name = name) with
  | nil => simp [hds] at hf
  | cons first ds => exact foldl_prefer_isSome ds first

/-- What is registered one after the other comes from the entries, or was there before. -/
theorem mem_foldl_add {α : Type} (toName : α → Text) {origin : Text} {priority : Int}
    {entries : List (α × Handler)} {r : Registry} {d : Directive}
    (h : d ∈ (entries.foldl (fun r e => r.add (toName e.1) e.2 origin priority) r).directives) :
    (∃ e ∈ entries, d.name = toName e.1 ∧ d.handler = e.2) ∨ d ∈ r.directives := by
  induction entries generalizing r with
  | nil => exact .inr h
  | cons e entries ih =>
    rcases ih h with ⟨e', hm, he⟩ | hm
    · exact .inl ⟨e', List.mem_cons_of_mem _ hm, he⟩
    · simp only [Registry.add, List.mem_append, List.mem_singleton] at hm
      rcases hm with hm | rfl
      · exact .inr hm
      · exact .inl ⟨e, List.mem_cons_self, rfl, rfl⟩

theorem mem_install {d : Directive} (h : d ∈ (Directive.install Registry.empty).directives) :
    ∃ entry ∈ Directive.table, d.name = entry.1 ∧ d.handler = entry.2 := by
  rcases mem_foldl_add (fun name : String => (name : Text)) h with he | hm
  · exact he
  · simp [Registry.empty] at hm

/-- The fault that a failure inside a directive becomes. -/
def blamed (name : Text) (f : Failure) (location : Option Location) : Fault :=
  ⟨s!"Internal interpreter error in §{name}: {f.message}", location, some name.upper.toString⟩

/-- What interrupts a directive, with the context that it leaves, and what it is outside of the directive. -/
def BlamesIn (name : Text) (stop' stop : Interrupt → Context → Prop) : Prop :=
  ∀ e c, stop' e c →
    match e with
    | .failure f => stop (.fault (blamed name f c.location)) c
    | e => stop e c

theorem meets_blame {α : Type} {pre : Context → Prop} {post : α → Context → Prop} {name : Text} {x : Exec α}
    (hx : x.Meets pre post stop') (h : BlamesIn name stop' stop) : (blame name x).Meets pre post stop := by
  refine hx.tryCatch fun e => ?_
  split
  · rename_i f
    exact fun c hc => h (.failure f) c hc
  · rename_i hf
    refine Exec.meets_throw fun c hc => ?_
    have hstop := h e c hc
    cases e with
    | failure f => exact absurd rfl (hf f)
    | exitRun code => exact hstop
    | breakLoop => exact hstop
    | continueLoop => exact hstop
    | fault fault => exact hstop

theorem meets_invoke_zero (r : Registry) {name : Text} (args : Text) (hblames : BlamesIn name stop' stop)
    (h : ∀ c, I c → stop' (.failure .recursionLimit) c) : (r.invoke 0 name args).Meets I (fun _ => I) stop :=
  meets_blame (Exec.meets_throw h) hblames

/-- A call meets what the directive that serves the name does. -/
theorem meets_invoke_succ {levels : Nat} {name args : Text} (hblames : BlamesIn name stop' stop)
    (hcall : ∀ c, I c → I { c with events := c.events.push (.call name args) })
    (hnone : r.get? name = none → ∀ c, I c → stop' (.failure (.unknownDirective name)) c)
    (hsome : ∀ d, r.get? name = some d →
      (d.handler ⟨r.contains, r.invoke levels⟩ args).Meets I (fun _ => I) stop') :
    (r.invoke (levels + 1) name args).Meets I (fun _ => I) stop := by
  have hemit : (Exec.emit (.call name args)).Meets I (fun _ => I) stop := Exec.meets_modify hcall
  have hreply {x : Exec Reply} (hx : x.Meets I (fun _ => I) stop') :
      (do return (← blame name x).toText? : Exec (Option Text)).Meets I (fun _ => I) stop :=
    (meets_blame hx hblames).bind fun _ => Exec.meets_pure fun _ hc => hc
  refine hemit.bind fun _ => hreply ?_
  split
  · rename_i h
    exact Exec.meets_throw (hnone h)
  · rename_i d h
    exact hsome d h

/-- What interrupts a directive, and what it is outside of the directive, wherever that is. -/
def Blames (name : Text) (E' E : Interrupt → Prop) : Prop :=
  ∀ e, E' e →
    match e with
    | .failure f => ∀ location, E (.fault (blamed name f location))
    | e => E e

theorem Blames.keeping {name : Text} (h : Blames name E' E) (I : Context → Prop) :
    BlamesIn name (fun e c => I c ∧ E' e) fun e c => I c ∧ E e := by
  rintro e c ⟨hc, he⟩
  have hE := h e he
  cases e with
  | failure f => exact ⟨hc, hE c.location⟩
  | exitRun code => exact ⟨hc, hE⟩
  | breakLoop => exact ⟨hc, hE⟩
  | continueLoop => exact ⟨hc, hE⟩
  | fault fault => exact ⟨hc, hE⟩

theorem obeys_invoke_zero (r : Registry) {name : Text} (args : Text) (hE : Blames name E' E)
    (h : E' (.failure .recursionLimit)) : (r.invoke 0 name args).Obeys I E :=
  meets_invoke_zero r args (hE.keeping I) fun _ hc => ⟨hc, h⟩

theorem obeys_invoke_succ {levels : Nat} {name args : Text} (hE : Blames name E' E)
    (hcall : ∀ c, I c → I { c with events := c.events.push (.call name args) })
    (hnone : r.get? name = none → E' (.failure (.unknownDirective name)))
    (hsome : ∀ d, r.get? name = some d →
      (d.handler ⟨r.contains, r.invoke levels⟩ args).Obeys I E') :
    (r.invoke (levels + 1) name args).Obeys I E :=
  meets_invoke_succ (hE.keeping I) hcall (fun h _ hc => ⟨hc, hnone h⟩) hsome

end Registry

end SigilScript
