import SigilScript.Plugin
import SigilScript.Proofs.Refusal

/-!
What the plugin of a module holds. Its functions are those that the module declares, in both of its parts; each has a
name that is one, and no two of them have the same.
-/
namespace SigilScript

def Part.entries : Part (List (Text × Option Handler)) → List (Text × Option Handler)
  | .given entries => entries
  | .missing | .wrong => []

/-- The handlers that a module declares. -/
def Module.handlers (m : Module) : List Handler :=
  (m.functions.entries ++ m.registrations.entries).filterMap Prod.snd

namespace Plugin

theorem mem_setFunction {name : Text} {handler : Handler} {functions : List (Text × Handler)}
    {f : Text × Handler} (h : f ∈ setFunction name handler functions) :
    f.2 = handler ∨ f ∈ functions := by
  induction functions with
  | nil => simp_all [setFunction]
  | cons first rest ih =>
    unfold setFunction at h
    split at h
    · rcases List.mem_cons.mp h with rfl | h
      · exact .inl rfl
      · exact .inr (List.mem_cons_of_mem _ h)
    · rcases List.mem_cons.mp h with rfl | h
      · exact .inr List.mem_cons_self
      · exact (ih h).imp_right (List.mem_cons_of_mem _)

theorem mem_addFunctions {p q : Plugin} {entries : List (Text × Option Handler)}
    (h : p.addFunctions entries = .ok q) {f : Text × Handler} (hf : f ∈ q.functions) :
    f.2 ∈ entries.filterMap Prod.snd ∨ f ∈ p.functions := by
  induction entries generalizing p with
  | nil =>
    simp only [addFunctions, Except.ok.injEq] at h
    subst h
    exact .inr hf
  | cons entry entries ih =>
    obtain ⟨name, handler⟩ := entry
    unfold addFunctions addFunction at h
    cases hn : name.isName with
    | false => simp [hn] at h
    | true =>
      cases handler with
      | none => simp [hn] at h
      | some handler =>
        simp only [hn, Bool.not_true, Bool.false_eq_true, if_false] at h
        simp only [List.filterMap_cons, List.mem_cons]
        rcases ih h with hm | hm
        · exact .inl (.inr hm)
        · rcases mem_setFunction hm with hm | hm
          · exact .inl (.inl hm)
          · exact .inr hm

theorem mem_addPart {p q : Plugin} {error : PluginError}
    {part : Part (List (Text × Option Handler))} (h : p.addPart error part = .ok q)
    {f : Text × Handler} (hf : f ∈ q.functions) :
    f.2 ∈ part.entries.filterMap Prod.snd ∨ f ∈ p.functions := by
  cases part with
  | missing =>
    simp only [addPart, Except.ok.injEq] at h
    subst h
    exact .inr hf
  | wrong => simp [addPart] at h
  | given entries => exact mem_addFunctions h hf

/-- The plugin of a module has gone through both parts of the module, one after the other. -/
theorem addPart_of_ofModule {directory : AbsolutePath} {m : Module} {path : Option Text} {p : Plugin}
    (h : ofModule directory m path = .ok p) : ∃ (start middle : Plugin) (e e' : PluginError),
      start.functions = [] ∧ start.addPart e m.functions = .ok middle ∧ middle.addPart e' m.registrations = .ok p := by
  rw [ofModule] at h
  split at h
  · split at h
    · obtain ⟨_, hthrow, -⟩ := bind_eq_ok h
      cases hthrow
    · obtain ⟨name, -, h⟩ := bind_eq_ok h
      dsimp only at h
      split at h
      · obtain ⟨_, hthrow, -⟩ := bind_eq_ok h
        cases hthrow
      · split at h
        · cases h
        · obtain ⟨middle, hmiddle, h⟩ := bind_eq_ok h
          exact ⟨_, middle, _, _, rfl, hmiddle, h⟩
  · obtain ⟨_, hthrow, -⟩ := bind_eq_ok h
    cases hthrow

/-- The functions of a plugin are those that its module declares. -/
theorem mem_ofModule {directory : AbsolutePath} {m : Module} {path : Option Text} {p : Plugin}
    (h : ofModule directory m path = .ok p) {f : Text × Handler} (hf : f ∈ p.functions) : f.2 ∈ m.handlers := by
  obtain ⟨start, middle, _, _, hstart, hmiddle, hp⟩ := addPart_of_ofModule h
  rw [Module.handlers, List.filterMap_append, List.mem_append]
  rcases mem_addPart hp hf with hm | hm
  · exact .inr hm
  · rcases mem_addPart hmiddle hm with hm | hm
    · exact .inl hm
    · rw [hstart] at hm
      cases hm

/-! Names of functions -/

/-- Every function has a name, and no two have the same. -/
structure WellNamed (p : Plugin) : Prop where
  isName : ∀ f ∈ p.functions, f.1.isName
  nodup : (p.functions.map Prod.fst).Nodup

theorem map_fst_setFunction {name : Text} {handler : Handler} {functions : List (Text × Handler)} :
    (setFunction name handler functions).map Prod.fst =
      if name ∈ functions.map Prod.fst then functions.map Prod.fst else functions.map Prod.fst ++ [name] := by
  induction functions with
  | nil => rfl
  | cons first rest ih =>
    obtain ⟨n, h⟩ := first
    rw [setFunction]
    by_cases hn : n = name
    · rw [if_pos hn, if_pos (hn ▸ List.mem_cons_self)]
      rfl
    · rw [if_neg hn, List.map_cons, ih, List.map_cons]
      by_cases hm : name ∈ rest.map Prod.fst
      · rw [if_pos hm, if_pos (List.mem_cons_of_mem _ hm)]
      · rw [if_neg hm, if_neg (List.not_mem_cons_of_ne_of_not_mem (Ne.symm hn) hm)]
        rfl

theorem wellNamed_iff {p : Plugin} :
    p.WellNamed ↔ (∀ n ∈ p.functions.map Prod.fst, n.isName) ∧ (p.functions.map Prod.fst).Nodup := by
  rw [List.forall_mem_map]
  exact ⟨fun h => ⟨h.isName, h.nodup⟩, fun h => ⟨h.1, h.2⟩⟩

theorem WellNamed.addFunction {p q : Plugin} (hp : p.WellNamed) {name : Text} {handler : Option Handler}
    (h : p.addFunction name handler = .ok q) : q.WellNamed := by
  unfold Plugin.addFunction at h
  by_cases hn : name.isName
  · rw [hn] at h
    cases handler with
    | none => cases h
    | some handler =>
      cases h
      rw [wellNamed_iff] at hp ⊢
      rw [map_fst_setFunction]
      split
      · exact hp
      · rename_i hm
        constructor
        · intro n hmem
          rcases List.mem_append.mp hmem with hmem | hmem
          · exact hp.1 n hmem
          · exact List.mem_singleton.mp hmem ▸ hn
        · rw [List.nodup_append]
          refine ⟨hp.2, List.pairwise_singleton _ _, fun a ha b hb hab => hm ?_⟩
          rwa [← List.mem_singleton.mp hb, ← hab]
  · rw [Bool.not_eq_true] at hn
    rw [hn] at h
    cases h

theorem WellNamed.addFunctions {p q : Plugin} (hp : p.WellNamed) {entries : List (Text × Option Handler)}
    (h : p.addFunctions entries = .ok q) : q.WellNamed := by
  induction entries generalizing p with
  | nil =>
    cases h
    exact hp
  | cons entry entries ih =>
    obtain ⟨name, handler⟩ := entry
    rw [Plugin.addFunctions] at h
    split at h
    · cases h
    · rename_i p' hp'
      exact ih (hp.addFunction hp') h

theorem WellNamed.addPart {p q : Plugin} (hp : p.WellNamed) {e : PluginError}
    {part : Part (List (Text × Option Handler))} (h : p.addPart e part = .ok q) : q.WellNamed := by
  cases part with
  | missing =>
    cases h
    exact hp
  | wrong => cases h
  | given entries => exact hp.addFunctions h

theorem wellNamed_ofModule {directory : AbsolutePath} {m : Module} {path : Option Text} {p : Plugin}
    (h : ofModule directory m path = .ok p) : p.WellNamed := by
  obtain ⟨start, middle, _, _, hstart, hmiddle, hp⟩ := addPart_of_ofModule h
  have hempty : start.WellNamed := by
    rw [wellNamed_iff, hstart]
    exact ⟨nofun, List.nodup_nil⟩
  exact (hempty.addPart hmiddle).addPart hp

end Plugin

end SigilScript
