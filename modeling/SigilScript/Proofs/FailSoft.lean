import SigilScript.Proofs.SessionContract
import SigilScript.Proofs.ValidatedRun

/-!
Failing soft. A directive of the language reports what is wrong with its operands, and goes on with a
default. So a run with these directives succeeds, whatever its operands, files, inputs and random numbers
are, but for the few failures that a directive lets through, and for nesting beyond the limits. What such a
run stops with is a fault that names the directive and one of these failures.
-/
namespace SigilScript

/-- The directive that serves a name, if there is one, is that of the language. -/
def Registry.ServesLanguage (r : Registry) (name : Text) : Prop :=
  ∀ d, r.get? name = some d → ∃ entry ∈ Directive.table, name = entry.1 ∧ d.handler = entry.2

theorem Registry.servesLanguage_install (name : Text) :
    (Directive.install Registry.empty).ServesLanguage name := by
  intro d hd
  obtain ⟨entry, hm, hn, hh⟩ := mem_install (mem_of_get? hd)
  exact ⟨entry, hm, (name_of_get? hd).symm.trans hn, hh⟩

/-- A directive of the language that the lines name let a failure through. -/
def Fault.Escaped (lines : List Line) (fault : Fault) : Prop :=
  ∃ (word : String) (f : Failure) (location : Option Location),
    (∃ line ∈ lines, line.Names word) ∧ Directive.Escapes word f ∧
    fault = Registry.blamed word f location

/-- Something was nested too deep, inside a directive or in the head of a block. -/
def Fault.TooDeep (fault : Fault) : Prop :=
  ∃ (f : Failure) (location : Option Location), f.isDepth ∧
    ((∃ name, fault = Registry.blamed name f location) ∨
      fault = ⟨s!"Internal interpreter error: {f.message}", location, some "internal"⟩)

/-- What interrupts a run of the lines with the directives of the language. -/
def Lets (lines : List Line) : Interrupt → Prop
  | .fault fault => fault.Escaped lines ∨ fault.TooDeep
  | .failure f => f.isDepth
  | .exitRun _ | .breakLoop | .continueLoop => False

/-- What interrupts a directive of the language, before it is blamed for its failures. -/
def LetsIn (lines : List Line) (word : String) (e : Interrupt) : Prop :=
  Lets lines e ∨ ∃ f, e = .failure f ∧ Directive.Escapes word f

theorem blames_lets (lines : List Line) (name : Text) :
    Registry.Blames name (Lets lines) (Lets lines) := by
  intro e he
  cases e with
  | failure f => exact fun location => .inr ⟨f, location, he, .inl ⟨name, rfl⟩⟩
  | fault fault => exact he
  | exitRun code => exact he
  | breakLoop => exact he
  | continueLoop => exact he

theorem blames_letsIn {lines : List Line} {word : String} (h : ∃ line ∈ lines, line.Names word) :
    Registry.Blames word (LetsIn lines word) (Lets lines) := by
  rintro e (he | ⟨f, rfl, hf⟩)
  · exact blames_lets lines word e he
  · exact fun location => .inl ⟨word, f, location, h, hf, rfl⟩

/-- Calls that the lines ask for, if only directives of the language serve them, under an invariant: by
induction on how many calls may still be inside one another. -/
theorem Registry.obeys_lets_keeping {r : Registry} {lines : List Line} {I : Context → Prop}
    (hr : ∀ line ∈ lines, ∀ name, line.Names name → r.ServesLanguage name) (hI : Invariant I)
    (hcall : ∀ c name args, I c → I { c with events := c.events.push (.call name args) }) (levels : Nat)
    {name args : Text} (hk : r.contains name) (hd : Dispatches lines name args) :
    (r.invoke levels name args).Obeys I (Lets lines) := by
  induction levels generalizing name args with
  | zero => exact obeys_invoke_zero r args (blames_lets lines name) rfl
  | succ levels ih =>
    obtain ⟨line, hm, hn, ha⟩ := hd
    obtain ⟨d, hget⟩ := get?_of_contains hk
    obtain ⟨entry, hentry, rfl, hh⟩ := hr line hm name hn d hget
    have hblames := blames_letsIn ⟨line, hm, hn⟩
    refine obeys_invoke_succ hblames (fun c hc => hcall c _ _ hc) (fun h => ?_) fun d' hget' => ?_
    · simp [h] at hget
    · rw [hget, Option.some.injEq] at hget'
      subst hget'
      rw [hh]
      have hbasic := Directive.basic_of_mem_table entry hentry lines ⟨r.contains, r.invoke levels⟩ args
        ⟨line, hm, ha⟩
      refine hbasic.obeys hI (fun name args hc => ?_) ?_
      · exact (ih hc.1 hc.2.dispatches).weaken fun _ he => .inl he
      · rintro f (hf | hf)
        · exact .inl hf
        · exact .inr ⟨f, rfl, hf⟩

theorem Registry.obeys_lets {r : Registry} {lines : List Line}
    (hr : ∀ line ∈ lines, ∀ name, line.Names name → r.ServesLanguage name) (levels : Nat)
    {name args : Text} (hk : r.contains name) (hd : Dispatches lines name args) :
    (r.invoke levels name args).Obeys (fun _ => True) (Lets lines) :=
  obeys_lets_keeping hr ⟨fun _ _ _ _ hc => hc, fun _ _ _ hc => hc⟩ (fun _ _ _ hc => hc) levels hk hd

/-- The block structure of the lines of a tree interrupts nothing. -/
theorem Structural.areBlock (E : Interrupt → Prop) : Structural Tree.AreBlock E where
  hereditary := Tree.hereditary_areBlock
  read h hr := by
    obtain ⟨f, after, rfl, rfl⟩ := h.form
    simp [Tree.read_form] at hr
  unended h ho hs := by
    obtain ⟨f, after, rfl, rfl⟩ := h.form
    have hclosed := Tree.splitBlock_form f after.lines
    simp [ho, hs] at hclosed

namespace Session

/-- A run of a source that passes, and asks only for directives of the language, has an outcome for all
files, inputs, random numbers and times. It is a success, unless a directive lets one of its failures
through or something is nested too deep. -/
theorem run_fails_soft {s : Session} {log : StepLog} {world : World} {lines : List Line} {c : Context}
    (hp : s.prepare.runFrom (Context.start s.debug log world) = (.ok (some lines), c))
    (hr : ∀ line ∈ lines, ∀ name, line.Names name → s.registry.ServesLanguage name) :
    ∃ o, s.run log world = .ok o ∧ (o.success = true ∨
      ∃ stop, o.stop = some stop ∧ (stop.fault.Escaped lines ∨ stop.fault.TooDeep)) := by
  obtain ⟨text, hv, hparse⟩ := passes_of_prepare hp
  have R : Regime lines s.registry.dispatcher (fun _ => True) (fun _ => True) (Lets lines) :=
    { spelled := Program.parse_spelled hparse
      invariant := ⟨fun _ _ _ _ hc => hc, fun _ _ _ hc => hc⟩
      calls := fun _ _ hk hd => Registry.obeys_lets hr _ hk hd
      depth := fun _ hf => hf
      clear := trivial
      noExit := fun _ _ => trivial
      step := fun _ _ _ _ => trivial }
  have hrun := R.meets_program (Structural.areBlock (Lets lines)) (List.Subset.refl lines)
    (Validation.tree_of_validated hv hparse) c ⟨trivial, trivial⟩
  refine ⟨_, run_of_prepare hp, (execute_success hrun).imp_right ?_⟩
  rintro ⟨e, c', he, ho⟩
  refine ⟨⟨faultOf c'.log e, _⟩, by rw [ho]; rfl, ?_⟩
  cases e with
  | fault f => exact he
  | failure f => exact .inr ⟨f, _, he, .inr rfl⟩
  | exitRun code => exact he.elim
  | breakLoop => exact he.elim
  | continueLoop => exact he.elim

/-- A division by zero, a missing file, a malformed document, a range without numbers and an endless sleep
are reported, and the run goes on. -/
theorem run_fails_soft_operands :
    let s : Session := ⟨"§log[§div[1;0]]\n§if[§readFile[gone]]\n§log[§jsonGet[bad;key]]\n§endif\n" ++
      "§log[§random[9;x]]\n§sleep[1e999]", literalName, false, Directive.install .empty, none, "skip"⟩
    let world : World := ⟨⟨⟨false, []⟩, [(["bad"], .file [0x7b])]⟩, [], fun _ low _ => low, 0, .one,
      ⟨2024, 1, 2, 3, 4, 5⟩⟩
    ∃ lines c, s.prepare.runFrom (Context.start s.debug (.empty false) world) = (.ok (some lines), c) ∧
      (∀ line ∈ lines, ∀ name, line.Names name → s.registry.ServesLanguage name) ∧
      ∃ o, s.run (.empty false) world = .ok o ∧ (o.success = true ∨
        ∃ stop, o.stop = some stop ∧ (stop.fault.Escaped lines ∨ stop.fault.TooDeep)) := by
  intro s world
  obtain ⟨lines, hparse⟩ : ∃ lines, Program.parse s.source s.file = .ok lines := ⟨_, rfl⟩
  have hp := prepare_of_unresolved (by decide +kernel) rfl (by decide +kernel) (by decide +kernel) hparse
    (.empty false) world
  have hr : ∀ line ∈ lines, ∀ name, line.Names name → s.registry.ServesLanguage name :=
    fun _ _ name _ => Registry.servesLanguage_install name
  exact ⟨lines, _, hp, hr, run_fails_soft hp hr⟩

/-- A number that overflows has no integer next to it, which is not reported: the run stops. -/
theorem run_stops_at_round :
    let s : Session := ⟨"§round[1e999]", literalName, false, Directive.install .empty, none, "skip"⟩
    let world : World := ⟨⟨⟨false, []⟩, []⟩, [], fun _ low _ => low, 0, .one, ⟨2024, 1, 2, 3, 4, 5⟩⟩
    ∃ o, s.run (.empty false) world = .ok o ∧ o.success = false ∧
      o.stop.map (·.fault.message) =
        some "Internal interpreter error in §round: cannot convert float infinity to integer" := by
  intro s world
  obtain ⟨lines, hp, hs⟩ : ∃ lines, Program.parse s.source s.file = .ok lines ∧
      (s.execute lines (.start s.debug (.empty false) world)).success = false ∧
      (s.execute lines (.start s.debug (.empty false) world)).stop.map (·.fault.message) =
        some "Internal interpreter error in §round: cannot convert float infinity to integer" :=
    ⟨_, rfl, by decide +kernel⟩
  exact ⟨_, run_of_prepare (prepare_of_unresolved (by decide +kernel) rfl (by decide +kernel)
    (by decide +kernel) hp (.empty false) world), hs⟩

end Session

end SigilScript
