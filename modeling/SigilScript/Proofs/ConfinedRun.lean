import SigilScript.Proofs.Confinement
import SigilScript.Proofs.PluginModule

/-!
Runs are confined. In a registry of confined handlers every written call is confined, however deep
calls are nested, and a run of a program starts only from what its lines say. So no value can
bring a call about: what variables, files, inputs or results hold is never read as a directive.
-/
namespace SigilScript

/-! Standard registries -/

/-- Holds only directives of the language and of the bundled modules. -/
def Registry.Standard (r : Registry) : Prop :=
  ∀ d ∈ r.directives, d.handler ∈ Directive.table.map Prod.snd ++ Bundled.greeting.handlers ++
    Bundled.color.handlers

theorem confined_of_mem_table : ∀ handler ∈ Directive.table.map Prod.snd, ConfinedHandler handler := by
  rw [List.forall_mem_map]
  exact fun entry hm => (Directive.basic_of_mem_table entry hm).confined

theorem Registry.Standard.confinedHandler {r : Registry} (h : r.Standard) :
    ∀ d ∈ r.directives, ConfinedHandler d.handler := by
  intro d hd
  have hm := h d hd
  rw [List.mem_append, List.mem_append] at hm
  rcases hm with (hm | hm) | hm
  · exact confined_of_mem_table _ hm
  · simp only [Module.handlers, Bundled.greeting, Part.entries, List.append_nil, List.filterMap_cons,
      List.filterMap_nil, List.mem_cons, List.not_mem_nil, or_false] at hm
    rcases hm with hm | hm
    · rw [hm]
      exact (@Bundled.reads_greet fun _ => False).basic.confined
    · rw [hm]
      exact (@Bundled.reads_countProperties fun _ => False).basic.confined
  · simp only [Module.handlers, Bundled.color, Part.entries, List.nil_append, List.filterMap_cons,
      List.filterMap_nil, List.mem_cons, List.not_mem_nil, or_false] at hm
    rcases hm with hm | hm | hm <;> rw [hm] <;> exact (@Bundled.reads_styled (fun _ => False) _).basic.confined

/-! Registries of bundled plugins -/

theorem Bundled.catalog_eq_some {path : AbsolutePath} {file : ModuleFile}
    (h : catalog path = some file) : file = .module greeting ∨ file = .module color := by
  unfold catalog at h
  dsimp only at h
  split at h
  · exact .inl (Option.some.inj h).symm
  · split at h
    · exact .inr (Option.some.inj h).symm
    · simp at h

theorem Plugin.load_bundled {tree : FileTree} {path : Text} {p : Plugin}
    (h : Plugin.load tree Bundled.catalog path = .ok p) :
    ∀ f ∈ p.functions, f.2 ∈ Bundled.greeting.handlers ++ Bundled.color.handlers := by
  intro f hf
  unfold Plugin.load at h
  split at h
  · simp at h
  · split at h
    · simp at h
    · simp at h
    · simp at h
    · rename_i m hm
      rw [List.mem_append]
      rcases Bundled.catalog_eq_some hm with he | he
      · cases he
        exact .inl (mem_ofModule h hf)
      · cases he
        exact .inr (mem_ofModule h hf)

theorem Plugin.loadAll_bundled {tree : FileTree} {paths : List Text} {plugins : List Plugin}
    (h : Plugin.loadAll tree Bundled.catalog paths = .ok plugins) :
    ∀ p ∈ plugins, ∀ f ∈ p.functions, f.2 ∈ Bundled.greeting.handlers ++ Bundled.color.handlers := by
  unfold Plugin.loadAll at h
  induction paths generalizing plugins with
  | nil =>
    simp only [List.mapM_nil, pure, Except.pure, Except.ok.injEq] at h
    subst h
    simp
  | cons path paths ih =>
    simp only [List.mapM_cons, bind, Except.bind, pure, Except.pure] at h
    split at h
    · simp at h
    · rename_i first hf
      split at h
      · simp at h
      · rename_i others ho
        simp only [Except.ok.injEq] at h
        subst h
        rw [List.forall_mem_cons]
        exact ⟨load_bundled hf, ih ho⟩

theorem Registry.standard_install : (Directive.install Registry.empty).Standard := by
  intro d hd
  obtain ⟨entry, hm, -, he⟩ := mem_install hd
  rw [he, List.append_assoc]
  exact List.mem_append_left _ (List.mem_map_of_mem hm)

theorem Registry.Standard.addPlugin {r : Registry} (hr : r.Standard) {p : Plugin}
    (hp : ∀ f ∈ p.functions, f.2 ∈ Bundled.greeting.handlers ++ Bundled.color.handlers) :
    (r.addPlugin p).Standard := by
  intro d hd
  rcases mem_foldl_add id hd with ⟨f, hf, -, he⟩ | hm
  · rw [he, List.append_assoc]
    exact List.mem_append_right _ (hp f hf)
  · exact hr d hm

/-- The registry of the language and of bundled plugins is a standard one. -/
theorem Registry.standard_ofPlugins {tree : FileTree} {paths : List Text} {plugins : List Plugin}
    (h : Plugin.loadAll tree Bundled.catalog paths = .ok plugins) :
    (Registry.ofPlugins plugins).Standard := by
  have hp := Plugin.loadAll_bundled h
  have add : ∀ r : Registry, r.Standard → (plugins.foldl Registry.addPlugin r).Standard := by
    clear h
    induction plugins with
    | nil => exact fun r hr => hr
    | cons p plugins ih =>
      intro r hr
      rw [List.forall_mem_cons] at hp
      exact ih hp.2 _ (hr.addPlugin hp.1)
  exact add _ standard_install

/-! Calling directives -/

namespace Registry

variable {lines : List Line} {r : Registry}

/-- Written calls are confined, with any number of calls inside one another: by induction on how many
are still allowed. -/
theorem confined_invoke (hr : ∀ d ∈ r.directives, ConfinedHandler d.handler) (levels : Nat) :
    Dispatcher.Confined lines ⟨r.contains, r.invoke levels⟩ := by
  have hblames : ∀ name, Blames name (fun _ => True) fun _ => True := fun _ _ _ => by split <;> simp
  induction levels with
  | zero =>
    exact fun name args _ => Exec.confined_of_obeys fun _ => obeys_invoke_zero r args (hblames name) trivial
  | succ levels ih =>
    intro name args hw
    refine Exec.confined_of_obeys fun c => obeys_invoke_succ (hblames name) ?_ (fun _ => trivial) ?_
    · exact fun c' hc => hc.trans (.of_push rfl fun _ _ he => by cases he; exact hw)
    · intro d hd
      obtain ⟨line, hm, ha, -⟩ := hw
      exact (hr d (mem_of_get? hd) lines _ args ih ⟨line, hm, ha⟩).obeys c

end Registry

/-- No injection: whatever the variables, files, inputs and random numbers are, and however many calls
may be inside one another, a run of a program with the standard directives calls a directive only where
the program says so. The arguments of each call stand in a line of the program, and so does the
sigil with its name. -/
theorem calls_are_written {source file : Text} {lines : List Line}
    (hp : Program.parse source file = .ok lines) {r : Registry} (hr : r.Standard) (levels : Nat)
    (c : Context) :
    ∃ new : List Event,
      ((Execution.program ⟨r.contains, r.invoke levels⟩ lines).runFrom c).2.events.toList =
        c.events.toList ++ new ∧
      ∀ name args, Event.call name args ∈ new →
        ∃ line ∈ lines, args <:+: line.text ∧ sigil :: name <:+: line.text :=
  confined_program (Registry.confined_invoke hr.confinedHandler levels) (Program.parse_spelled hp)
    (List.Subset.refl lines) c

/-- Whatever a file holds, greeting with its content never calls for an exit. -/
theorem calls_are_written_greeting :
    ∃ (plugins : List Plugin) (lines : List Line),
      Plugin.loadAll ⟨⟨false, []⟩, [(["greeting.py"], .file [])]⟩ Bundled.catalog ["greeting.py"] =
        .ok plugins ∧
      Program.parse "§log[§greet[§readFile[notes]]]" "letter" = .ok lines ∧
      ∀ c : Context, ∃ new : List Event,
        ((Execution.program (Registry.ofPlugins plugins).dispatcher lines).runFrom c).2.events.toList =
          c.events.toList ++ new ∧
        ∀ args, Event.call "exit" args ∉ new := by
  have hok : (Plugin.loadAll ⟨⟨false, []⟩, [(["greeting.py"], .file [])]⟩ Bundled.catalog
      ["greeting.py"]).isOk = true := by decide +kernel
  obtain ⟨plugins, hl⟩ : ∃ plugins, Plugin.loadAll ⟨⟨false, []⟩, [(["greeting.py"], .file [])]⟩
      Bundled.catalog ["greeting.py"] = .ok plugins := by
    revert hok
    cases Plugin.loadAll _ Bundled.catalog ["greeting.py"] with
    | error e => exact fun hok => absurd hok (by simp [Except.isOk, Except.toBool])
    | ok plugins => exact fun _ => ⟨plugins, rfl⟩
  obtain ⟨lines, hp, hexit⟩ : ∃ lines,
      Program.parse "§log[§greet[§readFile[notes]]]" "letter" = .ok lines ∧
      ∀ line ∈ lines, ¬ sigil :: ("exit" : Text) <:+: line.text := ⟨_, rfl, by decide +kernel⟩
  refine ⟨plugins, lines, hl, hp, fun c => ?_⟩
  obtain ⟨new, hn, hw⟩ := calls_are_written hp (Registry.standard_ofPlugins hl) maxRecursion c
  refine ⟨new, hn, fun args hc => ?_⟩
  obtain ⟨line, hm, -, he⟩ := hw _ _ hc
  exact hexit line hm he

end SigilScript
