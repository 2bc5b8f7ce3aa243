import Mathlib.Data.List.Induction
import SigilScript.Proofs.BasicAction
import SigilScript.Proofs.PluginModule

/-!
Which directive serves a name. Registrations are attempted one after the other, and some are refused. Of the accepted
ones for a name, the last one of those with the highest priority serves it. So the order of registrations matters only
between those with the same name and the same priority, and a plugin wins over the language and over the plugins listed
before it. The functions of a plugin have passed the checks of the registry when the plugin was made, so that none of
them is refused.
-/
namespace SigilScript

/-- An attempt to register a directive, right or wrong. -/
structure Registration where
  name : Scalar
  handler : Option Handler
  origin : Text
  priority : Int

/-- A registration that was accepted. -/
structure Accepted where
  name : Text
  handler : Handler
  origin : Text
  priority : Int

/-- Accepted is what has a name that is one and a handler. -/
def Registration.accepted? (call : Registration) : Option Accepted :=
  match call.name, call.handler with
  | .text name, some handler => if name.isName then some ⟨name, handler, call.origin, call.priority⟩ else none
  | _, _ => none

/-- The directive of the `n`-th accepted registration. -/
def Accepted.directive (e : Accepted) (n : Nat) : Directive := ⟨e.name, e.handler, e.origin, e.priority, n⟩

/-- Of the registrations of a name, the last one of those with the highest priority; it is the `n`-th one of all. -/
def Serves (entries : List Accepted) (name : Text) (e : Accepted) (n : Nat) : Prop :=
  ∃ before later, entries = before ++ e :: later ∧ n = before.length + 1 ∧ e.name = name ∧
    (∀ b ∈ before, b.name = name → b.priority ≤ e.priority) ∧ ∀ a ∈ later, a.name = name → a.priority < e.priority

/-- The registrations with a name and a priority, in order. -/
def keyed (name : Text) (priority : Int) (entries : List Accepted) : List Accepted :=
  entries.filter fun e => e.name = name ∧ e.priority = priority

theorem mem_keyed_self {e : Accepted} {entries : List Accepted} :
    e ∈ keyed e.name e.priority entries ↔ e ∈ entries := by
  rw [keyed, List.mem_filter]
  simp

namespace Registry

def attempt (r : Registry) (call : Registration) : Except Refusal Registry :=
  r.registerAs call.name call.handler call.origin call.priority

/-- The registry after an attempt, which is the same if it was refused. -/
def after (r : Registry) (call : Registration) : Registry :=
  match r.attempt call with
  | .ok changed => changed
  | .error _ => r

def history (calls : List Registration) : Registry := calls.foldl after empty

def accept (r : Registry) (e : Accepted) : Registry := r.add e.name e.handler e.origin e.priority

def ofAccepted (entries : List Accepted) : Registry := entries.foldl accept empty

/-- The handler that serves a name, and where it comes from. -/
def served (r : Registry) (name : Text) : Option (Handler × Text) := (r.get? name).map fun d => (d.handler, d.origin)

/-! Attempts -/

theorem attempt_of_accepted {call : Registration} {e : Accepted} (h : call.accepted? = some e) (r : Registry) :
    r.attempt call = .ok (r.accept e) := by
  obtain ⟨name, handler, origin, priority⟩ := call
  cases name with
  | text t =>
    cases handler with
    | none => cases h
    | some handler =>
      rw [Registration.accepted?] at h
      dsimp only at h
      split at h
      · rename_i hn
        cases h
        simp only [attempt, registerAs, register, hn]
        rfl
      · cases h
  | _ => cases h

theorem attempt_of_refused {call : Registration} (h : call.accepted? = none) (r : Registry) :
    ∃ refusal, r.attempt call = .error refusal := by
  obtain ⟨name, handler, origin, priority⟩ := call
  cases name with
  | text t =>
    by_cases hn : t.isName
    · cases handler with
      | none => exact ⟨.notCallable t, by simp only [attempt, registerAs, register, hn]; rfl⟩
      | some handler =>
        rw [Registration.accepted?] at h
        dsimp only at h
        rw [if_pos hn] at h
        cases h
    · rw [Bool.not_eq_true] at hn
      exact ⟨.invalidName t.quoted, by simp only [attempt, registerAs, register, hn]; rfl⟩
  | _ => exact ⟨_, rfl⟩

theorem attempt_refused_iff {call : Registration} {r : Registry} :
    (∃ refusal, r.attempt call = .error refusal) ↔ call.accepted? = none := by
  constructor
  · rintro ⟨refusal, h⟩
    cases hcall : call.accepted? with
    | none => rfl
    | some e => rw [attempt_of_accepted hcall] at h; cases h
  · intro h
    exact attempt_of_refused h r

theorem after_of_accepted {call : Registration} {e : Accepted} (h : call.accepted? = some e) (r : Registry) :
    r.after call = r.accept e := by
  rw [after, attempt_of_accepted h]

theorem after_of_refused {call : Registration} (h : call.accepted? = none) (r : Registry) : r.after call = r := by
  obtain ⟨refusal, hr⟩ := attempt_of_refused h r
  rw [after, hr]

/-- Nothing is left of the refused attempts. -/
theorem history_eq (calls : List Registration) : history calls = ofAccepted (calls.filterMap Registration.accepted?) := by
  have hfold : ∀ r : Registry, calls.foldl after r = (calls.filterMap Registration.accepted?).foldl accept r := by
    induction calls with
    | nil => exact fun _ => rfl
    | cons call calls ih =>
      intro r
      cases h : call.accepted? with
      | none => rw [List.foldl_cons, after_of_refused h, List.filterMap_cons_none h, ih]
      | some e => rw [List.foldl_cons, after_of_accepted h, List.filterMap_cons_some h, List.foldl_cons, ih]
  exact hfold empty

/-! One more registration -/

theorem get?_add (r : Registry) (name : Text) (handler : Handler) (origin : Text) (priority : Int) (other : Text) :
    (r.add name handler origin priority).get? other =
      if name = other then prefer (r.get? other) ⟨name, handler, origin, priority, r.directives.length + 1⟩
      else r.get? other := by
  rw [get?, add, List.filter_append, List.foldl_append, get?]
  by_cases h : name = other
  · rw [if_pos h, List.filter_cons_of_pos (by simpa using h)]
    rfl
  · rw [if_neg h, List.filter_cons_of_neg (by simpa using h)]
    rfl

theorem ofAccepted_concat (entries : List Accepted) (e : Accepted) :
    ofAccepted (entries ++ [e]) = (ofAccepted entries).accept e := by
  rw [ofAccepted, List.foldl_append]
  rfl

theorem length_ofAccepted (entries : List Accepted) : (ofAccepted entries).directives.length = entries.length := by
  induction entries using List.reverseRecOn with
  | nil => rfl
  | append_singleton entries e ih =>
    rw [ofAccepted_concat, accept, add, List.length_append, ih, List.length_append]
    rfl

theorem get?_concat (entries : List Accepted) (e : Accepted) (name : Text) :
    (ofAccepted (entries ++ [e])).get? name =
      if e.name = name then prefer ((ofAccepted entries).get? name) (e.directive (entries.length + 1))
      else (ofAccepted entries).get? name := by
  rw [ofAccepted_concat, accept, get?_add, length_ofAccepted]
  rfl

end Registry

/-! All registrations -/

namespace Serves

variable {entries : List Accepted} {name : Text} {e e' : Accepted} {n n' : Nat}

theorem mem (h : Serves entries name e n) : e ∈ entries := by
  obtain ⟨before, later, rfl, -⟩ := h
  exact List.mem_append_right _ List.mem_cons_self

theorem name_eq (h : Serves entries name e n) : e.name = name := by
  obtain ⟨_, _, -, -, hn, -⟩ := h
  exact hn

theorem priority_le (h : Serves entries name e n) {b : Accepted} (hb : b ∈ entries) (hn : b.name = name) :
    b.priority ≤ e.priority := by
  obtain ⟨before, later, rfl, -, -, hbefore, hlater⟩ := h
  rcases List.mem_append.mp hb with hb | hb
  · exact hbefore b hb hn
  · rcases List.mem_cons.mp hb with rfl | hb
    · exact Int.le_refl _
    · exact Int.le_of_lt (hlater b hb hn)

theorem getElem?_eq (h : Serves entries name e n) : entries[n - 1]? = some e := by
  obtain ⟨before, later, rfl, rfl, -⟩ := h
  rw [Nat.add_sub_cancel, List.getElem?_append_right (Nat.le_refl _), Nat.sub_self]
  rfl

/-- A registration that serves a name comes no later than any other that does: it would be above the other one. -/
theorem number_le (h : Serves entries name e n) (h' : Serves entries name e' n') : n' ≤ n := by
  obtain ⟨before, later, hentries, rfl, hn, -, hlater⟩ := h
  obtain ⟨before', later', hentries', rfl, hn', hbefore', -⟩ := h'
  rw [hentries] at hentries'
  rcases List.append_eq_append_iff.mp hentries' with ⟨middle, rfl, hcons⟩ | ⟨middle, rfl, -⟩
  · cases middle with
    | nil => simp
    | cons first middle =>
      obtain ⟨rfl, rfl⟩ := List.cons.inj hcons
      have hlt := hlater e' (List.mem_append_right _ List.mem_cons_self) hn'
      have hle := hbefore' e (List.mem_append_right _ List.mem_cons_self) hn
      omega
  · rw [List.length_append]
    omega

theorem unique (h : Serves entries name e n) (h' : Serves entries name e' n') : e = e' ∧ n = n' := by
  have hn : n = n' := Nat.le_antisymm (h'.number_le h) (h.number_le h')
  subst hn
  exact ⟨Option.some.inj (h.getElem?_eq.symm.trans h'.getElem?_eq), rfl⟩

/-- A later registration leaves a name to the one that serves it, if it is of another name or has a lower priority. -/
theorem concat (h : Serves entries name e n) {x : Accepted} (hx : x.name = name → x.priority < e.priority) :
    Serves (entries ++ [x]) name e n := by
  obtain ⟨before, later, rfl, hlength, hn, hbefore, hlater⟩ := h
  refine ⟨before, later ++ [x], by simp, hlength, hn, hbefore, fun a ha hname => ?_⟩
  rcases List.mem_append.mp ha with ha | ha
  · exact hlater a ha hname
  · obtain rfl : a = x := List.mem_singleton.mp ha
    exact hx hname

/-- A registration that no other one of its name is above serves the name when it comes. -/
theorem last {x : Accepted} (h : ∀ b ∈ entries, b.name = x.name → b.priority ≤ x.priority) :
    Serves (entries ++ [x]) x.name x (entries.length + 1) :=
  ⟨entries, [], rfl, rfl, rfl, h, nofun⟩

theorem getLast?_keyed (h : Serves entries name e n) : (keyed name e.priority entries).getLast? = some e := by
  obtain ⟨before, later, rfl, -, hn, -, hlater⟩ := h
  have hnone : keyed name e.priority later = [] := by
    rw [keyed, List.filter_eq_nil_iff]
    intro a ha hkey
    obtain ⟨hname, hpriority⟩ : a.name = name ∧ a.priority = e.priority := by simpa using hkey
    have hlt := hlater a ha hname
    omega
  have hself : keyed name e.priority (e :: later) = [e] := by
    rw [keyed, List.filter_cons_of_pos (by simp [hn])]
    exact congrArg (List.cons e) hnone
  rw [keyed, List.filter_append]
  change (_ ++ keyed name e.priority (e :: later)).getLast? = some e
  rw [hself, List.getLast?_concat]

end Serves

namespace Registry

/-- A name that was registered is served, by the last registration of those with the highest priority. The induction
is on the last registration. -/
theorem get?_ofAccepted (entries : List Accepted) (name : Text) :
    (ofAccepted entries).get? name = none ∧ (∀ e ∈ entries, e.name ≠ name) ∨
      ∃ e n, (ofAccepted entries).get? name = some (e.directive n) ∧ Serves entries name e n := by
  induction entries using List.reverseRecOn with
  | nil => exact .inl ⟨rfl, nofun⟩
  | append_singleton entries x ih =>
    rw [get?_concat]
    by_cases hx : x.name = name
    · subst hx
      rw [if_pos rfl]
      right
      rcases ih with ⟨hget, hnone⟩ | ⟨e, n, hget, hserves⟩
      · exact ⟨x, _, by rw [hget]; rfl, Serves.last fun b hb hn => absurd hn (hnone b hb)⟩
      · rw [hget]
        by_cases hle : e.priority ≤ x.priority
        · refine ⟨x, _, if_pos hle, Serves.last fun b hb hn => ?_⟩
          exact Int.le_trans (hserves.priority_le hb hn) hle
        · exact ⟨e, n, if_neg hle, hserves.concat fun _ => Int.not_le.mp hle⟩
    · rw [if_neg hx]
      rcases ih with ⟨hget, hnone⟩ | ⟨e, n, hget, hserves⟩
      · refine .inl ⟨hget, fun e he => ?_⟩
        rcases List.mem_append.mp he with he | he
        · exact hnone e he
        · rwa [List.mem_singleton.mp he]
      · exact .inr ⟨e, n, hget, hserves.concat fun hn => absurd hn hx⟩

theorem get?_ofAccepted_iff {entries : List Accepted} {name : Text} {d : Directive} :
    (ofAccepted entries).get? name = some d ↔ ∃ e n, Serves entries name e n ∧ e.directive n = d := by
  rcases get?_ofAccepted entries name with ⟨hget, hnone⟩ | ⟨e, n, hget, hserves⟩
  · rw [hget]
    constructor
    · intro h
      cases h
    · rintro ⟨e, n, hserves, -⟩
      exact absurd hserves.name_eq (hnone e hserves.mem)
  · rw [hget]
    constructor
    · intro h
      exact ⟨e, n, hserves, Option.some.inj h⟩
    · rintro ⟨e', n', hserves', rfl⟩
      obtain ⟨rfl, rfl⟩ := hserves.unique hserves'
      rfl

/-- Registrations in another order serve every name in the same way, if those with the same name and the same
priority are in the same order. -/
theorem served_of_keyed {entries entries' : List Accepted}
    (h : ∀ name priority, keyed name priority entries = keyed name priority entries') (name : Text) :
    (ofAccepted entries).served name = (ofAccepted entries').served name := by
  have hmem : ∀ e : Accepted, e ∈ entries ↔ e ∈ entries' := by
    intro e
    rw [← mem_keyed_self, h, mem_keyed_self]
  rcases get?_ofAccepted entries name with ⟨hget, hnone⟩ | ⟨e, n, hget, hserves⟩
  · rcases get?_ofAccepted entries' name with ⟨hget', -⟩ | ⟨e', n', -, hserves'⟩
    · rw [served, served, hget, hget']
    · exact absurd hserves'.name_eq (hnone e' ((hmem e').mpr hserves'.mem))
  · rcases get?_ofAccepted entries' name with ⟨-, hnone'⟩ | ⟨e', n', hget', hserves'⟩
    · exact absurd hserves.name_eq (hnone' e ((hmem e).mp hserves.mem))
    · have hle := hserves'.priority_le ((hmem e).mp hserves.mem) hserves.name_eq
      have hle' := hserves.priority_le ((hmem e').mpr hserves'.mem) hserves'.name_eq
      have hlast := hserves.getLast?_keyed
      rw [h, Int.le_antisymm hle hle', hserves'.getLast?_keyed] at hlast
      rw [served, served, hget, hget', Option.some.inj hlast]
      rfl

/-! Tables of directives -/

/-- Registers the entries of a table one after the other, each of which may be refused. -/
def registerAll (r : Registry) (origin : Text) (priority : Int) (entries : List (Text × Handler)) :
    Except Refusal Registry :=
  entries.foldlM (fun r e => r.register e.1 (some e.2) origin priority) r

def addAll (r : Registry) (origin : Text) (priority : Int) (entries : List (Text × Handler)) : Registry :=
  entries.foldl (fun r e => r.add e.1 e.2 origin priority) r

/-- No directive has a higher priority. -/
def UpTo (r : Registry) (priority : Int) : Prop := ∀ d ∈ r.directives, d.priority ≤ priority

theorem registerAll_of_isName {entries : List (Text × Handler)} (h : ∀ e ∈ entries, e.1.isName) (r : Registry)
    (origin : Text) (priority : Int) : r.registerAll origin priority entries = .ok (r.addAll origin priority entries) := by
  induction entries generalizing r with
  | nil => rfl
  | cons e entries ih =>
    rw [List.forall_mem_cons] at h
    have hfirst : r.register e.1 (some e.2) origin priority = .ok (r.add e.1 e.2 origin priority) := by
      simp only [register, h.1]
      rfl
    rw [registerAll, List.foldlM_cons, hfirst]
    exact ih h.2 (r.add e.1 e.2 origin priority)

theorem upTo_empty (priority : Int) : empty.UpTo priority := by
  intro d hd
  cases hd

theorem UpTo.add {r : Registry} {priority : Int} (hr : r.UpTo priority) (name : Text) (handler : Handler)
    (origin : Text) : (r.add name handler origin priority).UpTo priority := by
  intro d hd
  rcases List.mem_append.mp hd with hd | hd
  · exact hr d hd
  · obtain rfl := List.mem_singleton.mp hd
    exact Int.le_refl priority

theorem UpTo.addAll {r : Registry} {priority : Int} (hr : r.UpTo priority) (origin : Text)
    (entries : List (Text × Handler)) : (r.addAll origin priority entries).UpTo priority := by
  induction entries generalizing r with
  | nil => exact hr
  | cons e entries ih => exact ih (hr.add e.1 e.2 origin)

/-- A directive that no other one is above serves its name. -/
theorem served_add {r : Registry} {priority : Int} (hr : r.UpTo priority) (name : Text) (handler : Handler)
    (origin other : Text) : (r.add name handler origin priority).served other =
      if name = other then some (handler, origin) else r.served other := by
  rw [served, get?_add]
  split
  · cases hget : r.get? other with
    | none => rfl
    | some d =>
      have hle := hr d (mem_of_get? hget)
      rw [prefer, if_pos hle]
      rfl
  · rfl

/-- The entries of a table, with no name twice, serve their names if no directive was above them. -/
theorem served_addAll {r : Registry} {priority : Int} (hr : r.UpTo priority) {entries : List (Text × Handler)}
    (hnames : (entries.map Prod.fst).Nodup) (origin name : Text) : (r.addAll origin priority entries).served name =
      ((entries.lookup name).map fun handler => (handler, origin)).or (r.served name) := by
  induction entries generalizing r with
  | nil => rfl
  | cons e entries ih =>
    rw [List.map_cons, List.nodup_cons] at hnames
    have hfirst : (r.addAll origin priority (e :: entries)).served name =
        ((r.add e.1 e.2 origin priority).addAll origin priority entries).served name := rfl
    rw [hfirst, ih (hr.add e.1 e.2 origin) hnames.2, served_add hr, List.lookup_cons]
    by_cases hn : e.1 = name
    · subst hn
      have hnone : entries.lookup e.1 = none := by
        rw [List.lookup_eq_none_iff]
        intro p hp
        have hne : e.1 ≠ p.1 := fun heq => hnames.1 (heq ▸ List.mem_map_of_mem hp)
        simpa using hne
      rw [hnone, if_pos rfl, beq_self_eq_true]
      rfl
    · rw [if_neg hn, beq_false_of_ne (Ne.symm hn)]

/-! The language and plugins -/

/-- The directives of the language by their names. -/
def languageEntries : List (Text × Handler) := Directive.table.map fun e => (Text.ofString e.1, e.2)

/-- Registers the directives of the language and then those of the plugins, each of which may be refused. -/
def registerPlugins (plugins : List Plugin) : Except Refusal Registry := do
  let language ← empty.registerAll Directive.builtinOrigin Directive.builtinPriority languageEntries
  plugins.foldlM (fun r p => r.registerAll p.name pluginPriority p.functions) language

theorem install_empty : Directive.install empty =
    empty.addAll Directive.builtinOrigin Directive.builtinPriority languageEntries := by
  rw [addAll, languageEntries, List.foldl_map]
  rfl

theorem upTo_install : (Directive.install empty).UpTo pluginPriority := by
  rw [install_empty]
  have hbuiltin : (empty.addAll Directive.builtinOrigin Directive.builtinPriority languageEntries).UpTo
      Directive.builtinPriority := (upTo_empty _).addAll _ _
  exact fun d hd => Int.le_trans (hbuiltin d hd) (by decide)

theorem served_install (name : Text) : (Directive.install empty).served name =
    (languageEntries.lookup name).map fun handler => (handler, Directive.builtinOrigin) := by
  have hnames : (languageEntries.map Prod.fst).Nodup := by decide +kernel
  rw [install_empty, served_addAll (upTo_empty _) hnames]
  exact Option.or_none

theorem registerPlugins_of_wellNamed {plugins : List Plugin} (h : ∀ p ∈ plugins, p.WellNamed) :
    registerPlugins plugins = .ok (ofPlugins plugins) := by
  have hlanguage : ∀ e ∈ languageEntries, e.1.isName := by decide +kernel
  have hplugins : ∀ r : Registry, plugins.foldlM (fun r p => r.registerAll p.name pluginPriority p.functions) r =
      (.ok (plugins.foldl addPlugin r) : Except Refusal Registry) := by
    induction plugins with
    | nil => exact fun _ => rfl
    | cons p plugins ih =>
      intro r
      rw [List.forall_mem_cons] at h
      rw [List.foldlM_cons, registerAll_of_isName h.1.isName]
      exact ih h.2 (r.addPlugin p)
  rw [registerPlugins, registerAll_of_isName hlanguage, ← install_empty]
  exact hplugins (Directive.install empty)

/-- The function of a plugin with a name, and the name of the plugin. -/
def pluginFunction (name : Text) (p : Plugin) : Option (Handler × Text) :=
  (p.functions.lookup name).map fun handler => (handler, p.name)

/-- The directive of the language with a name. -/
def languageDirective (name : Text) : Option (Handler × Text) :=
  (languageEntries.lookup name).map fun handler => (handler, Directive.builtinOrigin)

/-- The last plugin that has a name serves it. -/
theorem served_plugins {r : Registry} (hr : r.UpTo pluginPriority) {plugins : List Plugin}
    (h : ∀ p ∈ plugins, p.WellNamed) (name : Text) : (plugins.foldl addPlugin r).served name =
      (plugins.reverse.findSome? (pluginFunction name)).or (r.served name) := by
  induction plugins generalizing r with
  | nil => rfl
  | cons p plugins ih =>
    rw [List.forall_mem_cons] at h
    have hupTo : (r.addPlugin p).UpTo pluginPriority := hr.addAll p.name p.functions
    have hp : (r.addPlugin p).served name = (pluginFunction name p).or (r.served name) :=
      served_addAll hr h.1.nodup p.name name
    have hlast : [p].findSome? (pluginFunction name) = pluginFunction name p := by
      rw [List.findSome?_cons]
      cases pluginFunction name p <;> rfl
    rw [List.foldl_cons, ih hupTo h.2, hp, List.reverse_cons, List.findSome?_append, hlast, Option.or_assoc]

theorem served_ofPlugins {plugins : List Plugin} (h : ∀ p ∈ plugins, p.WellNamed) (name : Text) :
    (ofPlugins plugins).served name =
      (plugins.reverse.findSome? (pluginFunction name)).or (languageDirective name) := by
  rw [ofPlugins, served_plugins upTo_install h, served_install, languageDirective]

/-- A refused registration leaves nothing behind; a name is served by the last of its accepted registrations with the
highest priority; registrations may change places unless they have the same name and priority; and plugins that were
made from modules are never refused, the last one that has a name serving it and the language serving the others. -/
theorem served_by_precedence (calls : List Registration) :
    (∀ call, (∃ refusal, (history calls).attempt call = .error refusal) ↔ call.accepted? = none) ∧
    (∀ call later, (∃ refusal, (history calls).attempt call = .error refusal) →
      history (calls ++ call :: later) = history (calls ++ later)) ∧
    (∀ name d, (history calls).get? name = some d ↔
      ∃ e n, Serves (calls.filterMap Registration.accepted?) name e n ∧ e.directive n = d) ∧
    (∀ reordered : List Registration,
      (∀ name priority, keyed name priority (reordered.filterMap Registration.accepted?) =
        keyed name priority (calls.filterMap Registration.accepted?)) →
      ∀ name, (history reordered).served name = (history calls).served name) ∧
    ∀ plugins, (∀ p ∈ plugins, ∃ directory m path, Plugin.ofModule directory m path = .ok p) →
      registerPlugins plugins = .ok (ofPlugins plugins) ∧
      ∀ name, (ofPlugins plugins).served name =
        (plugins.reverse.findSome? (pluginFunction name)).or (languageDirective name) := by
  refine ⟨fun call => attempt_refused_iff, fun call later hrefused => ?_, fun name d => ?_,
    fun reordered hkeyed name => ?_, fun plugins hmade => ?_⟩
  · rw [history_eq, history_eq, List.filterMap_append, List.filterMap_append,
      List.filterMap_cons_none (attempt_refused_iff.mp hrefused)]
  · rw [history_eq]
    exact get?_ofAccepted_iff
  · rw [history_eq, history_eq]
    exact served_of_keyed hkeyed name
  · have hnamed : ∀ p ∈ plugins, p.WellNamed := by
      intro p hp
      obtain ⟨directory, m, path, h⟩ := hmade p hp
      exact Plugin.wellNamed_ofModule h
    exact ⟨registerPlugins_of_wellNamed hnamed, served_ofPlugins hnamed⟩

/-- The higher priority wins in either order, and of two plugins that have `add` the second one. -/
theorem served_by_precedence_twice :
    let one : Handler := fun _ _ => pure (.integer 1)
    let two : Handler := fun _ _ => pure (.integer 2)
    let high : Registration := ⟨.text "add", some one, "high", 5⟩
    let low : Registration := ⟨.text "add", some two, "low", 0⟩
    let declared (name : Text) : Module :=
      ⟨some (.text name), none, none, none, none, .given [("add", some one), ("add", some two)], .missing⟩
    let made (name : Text) : Plugin := ⟨name, "1.0.0", [], "Unknown", .integer 1, none, [("add", two)]⟩
    (history [low, high]).served "add" = (history [high, low]).served "add" ∧
      Plugin.ofModule ⟨false, []⟩ (declared "first") none = .ok (made "first") ∧
      Plugin.ofModule ⟨false, []⟩ (declared "second") none = .ok (made "second") ∧
      (ofPlugins [made "first", made "second"]).served "add" = some (two, Text.ofString "second") := by
  intro one two high low declared made
  have hfirst : Plugin.ofModule ⟨false, []⟩ (declared "first") none = .ok (made "first") := rfl
  have hsecond : Plugin.ofModule ⟨false, []⟩ (declared "second") none = .ok (made "second") := rfl
  have hall := served_by_precedence [high, low]
  have hkeyed : ∀ name priority, keyed name priority ([low, high].filterMap Registration.accepted?) =
      keyed name priority ([high, low].filterMap Registration.accepted?) := by
    intro name priority
    change keyed name priority [⟨"add", two, "low", 0⟩, ⟨"add", one, "high", 5⟩] =
      keyed name priority [⟨"add", one, "high", 5⟩, ⟨"add", two, "low", 0⟩]
    simp only [keyed, List.filter_cons, List.filter_nil]
    split <;> split <;> grind
  refine ⟨hall.2.2.2.1 [low, high] hkeyed "add", hfirst, hsecond, ?_⟩
  have hserved := (hall.2.2.2.2 [made "first", made "second"] ?_).2 "add"
  · rw [hserved]
    rfl
  · intro p hp
    rcases List.mem_cons.mp hp with rfl | hp
    · exact ⟨_, _, _, hfirst⟩
    · rw [List.mem_singleton.mp hp]
      exact ⟨_, _, _, hsecond⟩

end Registry

end SigilScript
