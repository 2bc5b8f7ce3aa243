import SigilScript.Proofs.ProgramCounter
import SigilScript.Proofs.ValidatedProgram

/-!
Runs of validated programs. A source without problems has one block tree, and a run of its lines, by
positions or construct by construct, is the meaning of that tree. Such a run makes no call that could
fail for the structure of the program: every scan finds the end that it looks for, and no step starts
at a line that only divides or closes a block.
-/
namespace SigilScript

namespace Tree

theorem AreBlock.form {line : Line} {rest : List Line} (h : AreBlock (line :: rest)) :
    ∃ (f : Form) (after : Block), f.head = line ∧ f.tail ++ after.lines = rest := by
  obtain ⟨b, hb⟩ := h
  cases b with
  | nil => simp [Block.lines] at hb
  | cons f after =>
    simp only [Block.lines, List.cons.injEq] at hb
    exact ⟨f, after, hb.1, hb.2⟩

theorem Branches.areBlock_of_mem : (bs : Branches) → ∀ b ∈ bs.list, AreBlock b.body
  | .none => by simp [Branches.list]
  | .otherwise head body => by simp [Branches.list, AreBlock]
  | .elseIf head body others => by
    rw [Branches.list, List.forall_mem_cons]
    exact ⟨⟨body, rfl⟩, others.areBlock_of_mem⟩

theorem Form.areBlock_of_mem_bodies (f : Form) : ∀ body ∈ f.construct.bodies, AreBlock body := by
  cases f with
  | plain line hp => simp [Form.construct, Construct.bodies]
  | conditional head body others closer =>
    simp only [Form.construct, Construct.bodies, List.map_cons, List.forall_mem_cons,
      List.forall_mem_map]
    exact ⟨⟨body, rfl⟩, others.areBlock_of_mem⟩
  | whileLoop head body closer => simp [Form.construct, Construct.bodies, AreBlock]
  | forLoop head body closer => simp [Form.construct, Construct.bodies, AreBlock]

theorem hereditary_areBlock : Counter.Hereditary AreBlock := by
  intro line rest c after h hr
  obtain ⟨f, last, rfl, rfl⟩ := h.form
  rw [read_form] at hr
  simp only [Except.ok.injEq, Prod.mk.injEq] at hr
  obtain ⟨rfl, rfl⟩ := hr
  exact ⟨f.areBlock_of_mem_bodies, ⟨last, rfl⟩⟩

end Tree

namespace Counter

/-- The line at `last` is the one that ends the form at `pc`, and lies below `stop`. -/
structure Ends (lines : List Line) (pc stop last : Nat) : Prop where
  below : last < stop
  form : ∃ f : Tree.Form, slice lines pc (last + 1) = f.lines
  kinds : ∃ opener closer : Line, lines[pc]? = some opener ∧ lines[last]? = some closer ∧
    closer.kind.opener? = some opener.kind

/-- A call that the structure of the program cannot make fail: a step starts at a line that is plain or
opens a block, and a scan finds the end of the form at which it starts. -/
def Sound (lines : List Line) : Call → Nat → Nat → Prop
  | .step, pc, stop => pc < stop ∧ ∃ line, lines[pc]? = some line ∧
      line.kind ∉ [.elseIf, .elseHead, .endIf, .endWhile, .endFor]
  | .terminator, pc, stop => ∃ last, terminator? lines pc stop = some last ∧ Ends lines pc stop last
  | .branches, pc, stop => ∃ opener ss last, lines[pc]? = some opener ∧
      spans lines opener pc stop = .ok (ss, last) ∧ Ends lines pc stop last

/-- The end of a form that opens a block, in a range that starts with the form. -/
theorem ends_form {lines : List Line} {pc stop : Nat} {f : Tree.Form} {after : List Line}
    (hpc : pc < stop) (hl : lines[pc]? = some f.head) (ho : f.head.isOpener = true)
    (h : slice lines (pc + 1) stop = f.tail ++ after) :
    ∃ last, terminator? lines pc stop = some last ∧ Ends lines pc stop last := by
  obtain ⟨inner, closer, ht, hn, hc, hk⟩ := f.tail_of_isOpener ho
  rw [ht, List.append_assoc, List.singleton_append] at h
  obtain ⟨hlt, hinner, hcl, -⟩ := slice_split h
  refine ⟨pc + 1 + inner.length, ?_, hlt, ⟨f, ?_⟩, ⟨f.head, closer, hl, hcl, hk⟩⟩
  · rw [terminator?_eq hpc hl ho, h, splitBlock_nested hn, splitBlock_closer hc]
    simp [prepend]
  · rw [slice_of_some (by omega) hl, slice_succ (by omega) hcl, hinner, Tree.Form.lines, ht]

/-- In a range that holds the lines of a block, every call is sound. -/
theorem sound_of_areBlock {lines : List Line} {pc stop : Nat} {line : Line} (hpc : pc < stop)
    (hl : lines[pc]? = some line) (h : Tree.AreBlock (slice lines pc stop)) {call : Call}
    (hat : call.At line) : Sound lines call pc stop := by
  rw [slice_of_some hpc hl] at h
  obtain ⟨f, after, rfl, hr⟩ := h.form
  cases call with
  | step =>
    refine ⟨hpc, f.head, hl, ?_⟩
    cases f with
    | plain line hp => rcases hp with hp | hp <;> simp [Tree.Form.head, hp]
    | conditional head => simp [Tree.Form.head, head.property]
    | whileLoop head => simp [Tree.Form.head, head.property]
    | forLoop head => simp [Tree.Form.head, head.property]
  | terminator => exact ends_form hpc hl hat hr.symm
  | branches =>
    have ho : f.head.isOpener = true := isOpener_of_kind hat
    obtain ⟨last, ht, he⟩ := ends_form hpc hl ho hr.symm
    have hread := Tree.read_form f after.lines
    simp only [Construct.read, hr, show f.head.kind = .ifHead from hat] at hread
    obtain ⟨c, hs, -⟩ := map_eq_ok hread
    obtain ⟨ss, last', hok, -⟩ := spans_of_scanBranches hs
    rw [terminator?_of_spans hpc hl ho hok, Option.some.injEq] at ht
    subst ht
    exact ⟨f.head, ss, last', hl, hok, he⟩

/-- Sees nothing. -/
def silent : Watch := fun _ _ _ => pure ()

/-- A run by positions is a run of the lines, whatever they are. -/
theorem program_silent (d : Dispatcher) (lines : List Line) :
    program silent d lines 0 = Execution.program d lines :=
  program_eq (P := fun _ => True) (fun _ _ _ _ _ _ => ⟨fun _ _ => trivial, trivial⟩)
    (fun _ _ _ _ _ _ _ _ => rfl) d 0 trivial

end Counter

namespace Validation

/-- A validated source has one block tree. A run of its lines, by positions or construct by construct,
ends as the meaning of the tree says: with the same result, context and log. -/
theorem run_validated {source : Text} (h : validate source = []) (file : Text) :
    ∃ tree : Tree.Block, Program.parse source file = .ok tree.lines ∧
      (∀ other : Tree.Block, other.lines = tree.lines → other = tree) ∧
      ∀ (d : Dispatcher) (c : Context),
        (Execution.program d tree.lines).runFrom c = tree.evalProgram d c ∧
        (Counter.program Counter.silent d tree.lines 0).runFrom c = tree.evalProgram d c := by
  obtain ⟨lines, hp, -⟩ := parse_validated h file
  obtain ⟨tree, rfl⟩ := tree_of_validated h hp
  refine ⟨tree, hp, fun other ho => Tree.Block.eq_of_lines other tree ho, fun d c => ?_⟩
  rw [Counter.program_silent]
  exact ⟨tree.runFrom_program d c, tree.runFrom_program d c⟩

/-- A loop that is left from inside a conditional. -/
theorem run_validated_break :
    validate "§while[1]\n§if[1]\n§break\n§else\n§print[a]\n§endif\n§endwhile" = [] ∧
      ∃ tree : Tree.Block,
        Program.parse "§while[1]\n§if[1]\n§break\n§else\n§print[a]\n§endif\n§endwhile" "loop" =
          .ok tree.lines ∧
        ∀ (d : Dispatcher) (c : Context),
          (Execution.program d tree.lines).runFrom c = tree.evalProgram d c := by
  have h : validate "§while[1]\n§if[1]\n§break\n§else\n§print[a]\n§endif\n§endwhile" = [] := by
    decide +kernel
  obtain ⟨tree, hp, -, hr⟩ := run_validated h "loop"
  exact ⟨h, tree, hp, fun d c => (hr d c).1⟩

/-- A validated source is a program, and its lines have the kinds that validation gave them. No run of
it makes an unsound call: a watch could end the run there, or do anything else, and the run is
still the same. -/
theorem calls_sound_of_validated {source : Text} (h : validate source = []) (file : Text) :
    ∃ lines, Program.parse source file = .ok lines ∧
      lines.map (fun line => (line.number, line.kind)) = classified 1 (source.splitOn '\n') ∧
      ∀ (watch : Counter.Watch) (d : Dispatcher),
        (∀ call pc stop, Counter.Sound lines call pc stop → watch call pc stop = pure ()) →
        Counter.program watch d lines 0 = Execution.program d lines := by
  obtain ⟨lines, hp, hk⟩ := parse_validated h file
  refine ⟨lines, hp, hk, fun watch d hw => ?_⟩
  have hsilent : watch.SilentOn lines Tree.AreBlock := fun pc stop line hpc hl hb call hat =>
    hw call pc stop (Counter.sound_of_areBlock hpc hl hb hat)
  exact Counter.program_eq Tree.hereditary_areBlock hsilent d 0 (tree_of_validated h hp)

/-- A run of a conditional never takes a step at the line that divides it. -/
theorem calls_sound_of_else :
    validate "§if[1]\n§print[a]\n§else\n§print[b]\n§endif" = [] ∧
      ∃ lines, Program.parse "§if[1]\n§print[a]\n§else\n§print[b]\n§endif" "p" = .ok lines ∧
        ∀ d : Dispatcher,
          Counter.program (fun call pc _ => if call = .step ∧ pc = 2 then throw (.exitRun 7) else
            pure ()) d lines 0 = Execution.program d lines := by
  have h : validate "§if[1]\n§print[a]\n§else\n§print[b]\n§endif" = [] := by decide +kernel
  obtain ⟨lines, hp, hk, hr⟩ := calls_sound_of_validated h "p"
  refine ⟨h, lines, hp, fun d => hr _ d fun call pc stop hs => if_neg ?_⟩
  rintro ⟨rfl, rfl⟩
  obtain ⟨-, line, hl, hn⟩ := hs
  have hc : (classified 1 (Text.splitOn '\n' "§if[1]\n§print[a]\n§else\n§print[b]\n§endif"))[2]? =
      some (3, .elseHead) := by decide +kernel
  rw [← hk, List.getElem?_map, hl] at hc
  simp_all

end Validation

end SigilScript
