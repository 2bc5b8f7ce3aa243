import Mathlib.Data.List.Chain
import SigilScript.Proofs.LoopPasses
import SigilScript.Proofs.ValidatedRun

/-!
Ranges of branches. Two scans look for the end of a conditional: one counts open blocks from the line that opens it,
whatever their kinds, and the other starts inside and looks at the lines that divide it. In a validated program both
find the same line, from every end of range beyond it, and the ranges of the branches tile what lies in between. So a
run goes on at the same line whether the conditional ends or is left by a misplaced request.
-/
namespace SigilScript

namespace Counter

variable {lines : List Line} {opener head : Line} {start depth index last stop pc : Nat} {ss : List Span}

/-- A line that starts another branch stands where a body ends, and the body of that branch starts right after it. -/
def Span.Precedes (lines : List Line) (s t : Span) : Prop :=
  lines[s.stop]? = some t.head ∧ (t.head.kind = .elseIf ∨ t.head.kind = .elseHead) ∧ t.start = s.stop + 1

/-- The ranges of branches, of which `head` starts the first: they follow one another, from `start` up to the line at
`last`, which ends a conditional. -/
structure Chained (lines : List Line) (head : Line) (start last : Nat) (ss : List Span) : Prop where
  first : ∃ stop rest, ss = ⟨head, start, stop⟩ :: rest
  next : ss.IsChain (Span.Precedes lines)
  final : ∃ s, ss.getLast? = some s ∧ s.stop = last
  closer : ∃ line, lines[last]? = some line ∧ line.kind = .endIf
  ordered : ∀ s ∈ ss, s.start ≤ s.stop

theorem chained_singleton {line : Line} (hle : start ≤ last) (hl : lines[last]? = some line)
    (hk : line.kind = .endIf) : Chained lines head start last [⟨head, start, last⟩] where
  first := ⟨last, [], rfl⟩
  next := .singleton _
  final := ⟨_, rfl, rfl⟩
  closer := ⟨line, hl, hk⟩
  ordered := List.forall_mem_singleton.mpr hle

theorem Chained.cons {line : Line} (h : Chained lines line (index + 1) last ss) (hle : start ≤ index)
    (hl : lines[index]? = some line) (hk : line.kind = .elseIf ∨ line.kind = .elseHead) :
    Chained lines head start last (⟨head, start, index⟩ :: ss) := by
  obtain ⟨stop, rest, rfl⟩ := h.first
  exact {
    first := ⟨index, _, rfl⟩
    next := .cons_cons ⟨hl, hk, rfl⟩ h.next
    final := by
      rw [List.getLast?_cons_cons]
      exact h.final
    closer := h.closer
    ordered := List.forall_mem_cons.mpr ⟨hle, h.ordered⟩ }

/-- Whatever the lines are, the ranges that a scan finds follow one another: by induction on the scan, which starts a
range at each line that divides the conditional. -/
theorem chained_of_spansFrom (hs : start ≤ index)
    (h : spansFrom lines stop opener head start depth index = .ok (ss, last)) : Chained lines head start last ss := by
  fun_induction spansFrom lines stop opener head start depth index generalizing ss last with
  | case1 => cases h
  | case2 head start depth index hi line hl ho ih => exact ih (Nat.le_succ_of_le hs) h
  | case3 head start depth index hi line hl ho hd ih => exact ih (Nat.le_succ_of_le hs) h
  | case4 head start depth index hi line hl ho hd hk ih =>
    obtain ⟨⟨others, last⟩, hothers, he⟩ := map_eq_ok h
    cases he
    exact (ih (Nat.le_refl _) hothers).cons hs hl hk
  | case5 head start depth index hi line hl ho hd hk he =>
    cases h
    exact chained_singleton hs hl he
  | case6 => cases h
  | case7 head start depth index hi line hl ho hd hk he hc ih => exact ih (Nat.le_succ_of_le hs) h
  | case8 => cases h

/-- A scan that finds the end of a conditional does not look beyond it. -/
theorem spansFrom_of_le {stop' : Nat} {found : List Span × Nat} (hle : stop ≤ stop')
    (h : spansFrom lines stop opener head start depth index = .ok found) :
    spansFrom lines stop' opener head start depth index = .ok found := by
  fun_induction spansFrom lines stop opener head start depth index generalizing found with
  | case1 => cases h
  | case2 head start depth index hi line hl ho ih =>
    rw [spansFrom, if_pos (Nat.lt_of_lt_of_le hi hle), hl]
    exact (if_pos ho).trans (ih h)
  | case3 head start depth index hi line hl ho hd ih =>
    rw [spansFrom, if_pos (Nat.lt_of_lt_of_le hi hle), hl]
    exact (if_neg ho).trans ((if_pos hd).trans (ih h))
  | case4 head start depth index hi line hl ho hd hk ih =>
    obtain ⟨others, hothers, rfl⟩ := map_eq_ok h
    rw [spansFrom, if_pos (Nat.lt_of_lt_of_le hi hle), hl]
    refine (if_neg ho).trans ((if_neg hd).trans ((if_pos hk).trans ?_))
    rw [ih hothers]
    rfl
  | case5 head start depth index hi line hl ho hd hk he =>
    rw [spansFrom, if_pos (Nat.lt_of_lt_of_le hi hle), hl]
    exact (if_neg ho).trans ((if_neg hd).trans ((if_neg hk).trans ((if_pos he).trans h)))
  | case6 => cases h
  | case7 head start depth index hi line hl ho hd hk he hc ih =>
    rw [spansFrom, if_pos (Nat.lt_of_lt_of_le hi hle), hl]
    exact (if_neg ho).trans ((if_neg hd).trans ((if_neg hk).trans ((if_neg he).trans ((if_neg hc).trans (ih h)))))
  | case8 => cases h

/-- The branches that are read from the lines are those that the scan finds, and what is left is what comes after. -/
theorem read_of_spans (hk : opener.kind = .ifHead) (h : spans lines opener pc stop = .ok (ss, last)) :
    Construct.read opener (slice lines (pc + 1) stop) =
      .ok (.conditional (ss.map (Span.branch lines)), slice lines (last + 1) stop) := by
  have hscan := spansFrom_eq lines stop opener opener 0 (Nat.le_refl (pc + 1))
  rw [show spansFrom lines stop opener opener (pc + 1) 0 (pc + 1) = .ok (ss, last) from h,
    slice_of_le lines (Nat.le_refl _)] at hscan
  obtain ⟨c, hc, hfound⟩ := map_eq_ok hscan.symm
  simp only [found, List.nil_append, Prod.mk.injEq] at hfound
  simp only [Construct.read, hk, hc, Except.map, hfound]

/-- The ranges of the branches of a well-formed conditional: only the last branch may be one without a condition, and
the lines of each body form a block. -/
structure Tiles (lines : List Line) (opener : Line) (pc last : Nat) (ss : List Span) : Prop
    extends Chained lines opener (pc + 1) last ss where
  otherwise : ∀ s ∈ ss.dropLast, s.head.kind ≠ .elseHead
  body : ∀ s ∈ ss, Tree.AreBlock (slice lines s.start s.stop)

end Counter

namespace Tree

theorem Branches.kind_of_mem_dropLast : (bs : Branches) → (first : Branch) → first.head.kind ≠ .elseHead →
    ∀ b ∈ (first :: bs.list).dropLast, b.head.kind ≠ .elseHead
  | .none, _, _ => List.forall_mem_nil _
  | .otherwise _ _, _, hfirst => List.forall_mem_singleton.mpr hfirst
  | .elseIf head body others, first, hfirst => by
    have hhead : head.val.kind ≠ .elseHead := by
      rw [head.property]
      decide
    rw [Branches.list, List.dropLast_cons_cons]
    exact List.forall_mem_cons.mpr ⟨hfirst, others.kind_of_mem_dropLast ⟨head.val, body.lines⟩ hhead⟩

/-- Only the last branch of a conditional may be one without a condition. -/
theorem Form.kind_of_mem_dropLast {f : Form} {branches : List Branch} (h : f.construct = .conditional branches) :
    ∀ b ∈ branches.dropLast, b.head.kind ≠ .elseHead := by
  cases f with
  | plain => cases h
  | whileLoop => cases h
  | forLoop => cases h
  | conditional head body others closer =>
    cases h
    refine others.kind_of_mem_dropLast _ ?_
    rw [head.property]
    decide

end Tree

namespace Counter

variable {lines after : List Line} {pc stop : Nat} {f : Tree.Form}

theorem slice_tail (h : lines.drop (pc + 1) = f.tail ++ after) :
    slice lines (pc + 1) (pc + 1 + f.tail.length) = f.tail := by
  rw [slice, List.drop_take, h, Nat.add_sub_cancel_left, List.take_left]

/-- At a conditional of a tree, the scan for branches finds ranges that tile it, up to the last line of the form; and
it finds them for every range that the form lies in. -/
theorem tiles_of_form (hl : lines[pc]? = some f.head) (hk : f.head.kind = .ifHead)
    (hrest : lines.drop (pc + 1) = f.tail ++ after) :
    ∃ ss last, Tiles lines f.head pc last ss ∧ slice lines pc (last + 1) = f.lines ∧
      ∀ stop, last < stop → spans lines f.head pc stop = .ok (ss, last) := by
  have hslice := slice_tail hrest
  have hform := Tree.read_form f []
  rw [List.append_nil] at hform
  obtain ⟨ss, last, hspans⟩ : ∃ ss last, spans lines f.head pc (pc + 1 + f.tail.length) = .ok (ss, last) := by
    simp only [Construct.read, hk] at hform
    obtain ⟨c, hc, -⟩ := map_eq_ok hform
    rw [← hslice] at hc
    obtain ⟨ss, last, hspans, -⟩ := spans_of_scanBranches hc
    exact ⟨ss, last, hspans⟩
  have hread := read_of_spans hk hspans
  rw [hslice, hform] at hread
  obtain ⟨hconstruct, hafter⟩ := Prod.mk.inj (Except.ok.inj hread)
  obtain ⟨hle, hlt, -⟩ := spansFrom_bounds (Nat.le_refl _) hspans
  have hlast : last + 1 = pc + 1 + f.tail.length := by
    have hlines := congrArg List.length hrest
    have hnone := congrArg List.length hafter
    simp only [slice, List.length_drop, List.length_take, List.length_append, List.length_nil] at hlines hnone
    omega
  refine ⟨ss, last, ⟨chained_of_spansFrom (Nat.le_refl _) hspans, ?_, ?_⟩, ?_, ?_⟩
  · intro s hs
    refine Tree.Form.kind_of_mem_dropLast hconstruct (s.branch lines) ?_
    rw [← List.map_dropLast]
    exact List.mem_map_of_mem hs
  · intro s hs
    refine f.areBlock_of_mem_bodies _ ?_
    rw [hconstruct, Construct.bodies, List.map_map]
    exact List.mem_map_of_mem hs
  · rw [hlast, slice_of_some (by omega) hl, hslice, Tree.Form.lines]
  · intro stop hstop
    exact spansFrom_of_le (by omega) hspans

/-- The block of a line, cut where the scan finds its end. -/
theorem splitBlock_of_terminator? {opener : Line} {last : Nat} (hpc : pc < stop) (hl : lines[pc]? = some opener)
    (ho : opener.isOpener) (h : terminator? lines pc stop = some last) :
    splitBlock 0 (slice lines (pc + 1) stop) =
      some (slice lines (pc + 1) last, slice lines (last + 1) stop) := by
  cases hs : splitBlock 0 (slice lines (pc + 1) stop) with
  | none =>
    rw [terminator?_eq hpc hl ho, hs] at h
    cases h
  | some parts =>
    obtain ⟨last', ht, hbody, hafter⟩ := terminator?_of_splitBlock hpc hl ho hs
    rw [h] at ht
    cases ht
    rw [hbody, hafter]

/-- A run by positions from `pc` on is a run of the lines from there on. -/
theorem program_silent_from (d : Dispatcher) (lines : List Line) (pc : Nat) :
    program silent d lines pc = Execution.program d (lines.drop pc) :=
  program_eq (P := fun _ => True) (fun _ _ _ _ _ _ => ⟨fun _ _ => trivial, trivial⟩)
    (fun _ _ _ _ _ _ _ _ => rfl) d pc trivial

/-- Where both scans find the same end of a conditional, a run goes on right after it, however the conditional is
left. -/
theorem program_conditional {opener : Line} {ss : List Span} {last : Nat} (d : Dispatcher)
    (hl : lines[pc]? = some opener) (hk : opener.kind = .ifHead)
    (hspans : spans lines opener pc lines.length = .ok (ss, last))
    (hend : terminator? lines pc lines.length = some last) :
    program silent d lines pc = (do
      Exec.checkExit
      Execution.unlooped (Execution.conditional d (ss.map fun s => (s.head, block silent d lines s.start s.stop)))
      program silent d lines (last + 1)) := by
  have hwatch : silent .step pc lines.length = pure () := rfl
  have hfind : findBranches silent lines opener pc lines.length = pure ⟨(ss, last), spans_bounds hspans⟩ :=
    findBranches_eq rfl hspans
  have hstep : step silent d lines opener pc lines.length (fun start finish _ _ => block silent d lines start finish) =
      (do
        Execution.conditional d (ss.map fun s => (s.head, block silent d lines s.start s.stop))
        return ⟨last + 1, Nat.lt_succ_of_le (terminatorFrom_bounds hend).1⟩) := by
    simp only [step, hk, hfind, hwatch, pure_bind]
    congr 2
    exact List.attach_map_val (f := fun s : Span => (s.head, block silent d lines s.start s.stop))
  rw [program_of_some hl, resumption_eq (fun _ _ => rfl) (isOpener_of_kind hk) hend]
  simp only [pure_bind, hstep, tryCatch_passOver, bind_assoc]

end Counter

namespace Validation

open Counter

/-- In a validated program, both scans at a line that opens a conditional find the same line, which ends the form that
starts there, wherever beyond it the range ends. The branches tile the lines between, and they are the branches that a
run of the lines takes. So a run by positions, which is a run of the lines, goes on right after that line: where the
conditional ends, as well as where it is left by a misplaced request. -/
theorem conditional_tiled {source file : Text} {lines : List Line} {opener : Line} {pc : Nat}
    (h : validate source = []) (hp : Program.parse source file = .ok lines) (hl : lines[pc]? = some opener)
    (hk : opener.kind = .ifHead) :
    ∃ (ss : List Span) (last : Nat), Tiles lines opener pc last ss ∧
      (∃ f : Tree.Form, slice lines pc (last + 1) = f.lines) ∧
      (∀ stop, last < stop →
        spans lines opener pc stop = .ok (ss, last) ∧ terminator? lines pc stop = some last ∧
        Construct.read opener (slice lines (pc + 1) stop) =
          .ok (.conditional (ss.map (Span.branch lines)), slice lines (last + 1) stop) ∧
        splitBlock 0 (slice lines (pc + 1) stop) =
          some (slice lines (pc + 1) last, slice lines (last + 1) stop)) ∧
      ∀ d : Dispatcher,
        program silent d lines pc = Execution.program d (lines.drop pc) ∧
        program silent d lines pc = (do
          Exec.checkExit
          Execution.unlooped (Execution.conditional d (ss.map fun s =>
            (s.head, block silent d lines s.start s.stop)))
          program silent d lines (last + 1)) := by
  obtain ⟨tree, rfl⟩ := tree_of_validated h hp
  obtain ⟨hlt, rfl⟩ := List.getElem?_eq_some_iff.mp hl
  have ho : tree.lines[pc].isOpener := isOpener_of_kind hk
  have hsplit : tree.lines = tree.lines.take pc ++ tree.lines[pc] :: tree.lines.drop (pc + 1) := by
    rw [← List.drop_eq_getElem_cons hlt, List.take_append_drop]
  obtain ⟨f, after, hf, hrest⟩ := tree.opensForms _ _ _ hsplit ho
  rw [← hf] at hl hk ho ⊢
  obtain ⟨ss, last, htiles, hform, hspans⟩ := tiles_of_form hl hk hrest
  have hend : ∀ stop, last < stop → terminator? tree.lines pc stop = some last := by
    intro stop hstop
    have hpc := (spans_bounds (hspans stop hstop)).1
    exact terminator?_of_spans (Nat.lt_trans hpc hstop) hl ho (hspans stop hstop)
  refine ⟨ss, last, htiles, ⟨f, hform⟩, fun stop hstop => ?_, fun d => ?_⟩
  · have hpc := Nat.lt_trans (spans_bounds (hspans stop hstop)).1 hstop
    exact ⟨hspans stop hstop, hend stop hstop, read_of_spans hk (hspans stop hstop),
      splitBlock_of_terminator? hpc hl ho (hend stop hstop)⟩
  · obtain ⟨line, hline, -⟩ := htiles.closer
    have hlast := (List.getElem?_eq_some_iff.mp hline).1
    exact ⟨program_silent_from d _ pc, program_conditional d hl hk (hspans _ hlast) (hend _ hlast)⟩

/-- A loop in the first branch and a conditional in the last: neither scan stops at the ends of these. -/
theorem conditional_tiled_nested :
    validate "§if[1]\n§while[0]\n§endwhile\n§elseif[2]\n§else\n§if[3]\n§endif\n§endif" = [] ∧
      ∃ (lines : List Line) (opener : Line),
        Program.parse "§if[1]\n§while[0]\n§endwhile\n§elseif[2]\n§else\n§if[3]\n§endif\n§endif" "p" = .ok lines ∧
        lines[0]? = some opener ∧ opener.kind = .ifHead ∧
        ∃ ss, Tiles lines opener 0 7 ss ∧ spans lines opener 0 8 = .ok (ss, 7) ∧ terminator? lines 0 8 = some 7 := by
  have h : validate "§if[1]\n§while[0]\n§endwhile\n§elseif[2]\n§else\n§if[3]\n§endif\n§endif" = [] := by
    decide +kernel
  have hseen :
      (Program.parse "§if[1]\n§while[0]\n§endwhile\n§elseif[2]\n§else\n§if[3]\n§endif\n§endif" "p").toOption.map
      (fun lines => (lines.length, lines[0]?.map Line.kind, terminator? lines 0 8)) =
        some (8, some .ifHead, some 7) := by
    decide +kernel
  obtain ⟨lines, hp, -⟩ := parse_validated h "p"
  rw [hp] at hseen
  obtain ⟨hlength, hopener, hend⟩ : lines.length = 8 ∧ lines[0]?.map Line.kind = some .ifHead ∧
      terminator? lines 0 8 = some 7 := by
    simpa [Except.toOption] using hseen
  obtain ⟨opener, hl, hk⟩ := Option.map_eq_some_iff.mp hopener
  obtain ⟨ss, last, htiles, -, hscans, -⟩ := conditional_tiled h hp hl hk
  obtain ⟨line, hline, -⟩ := htiles.closer
  have hlast : last < 8 := by
    rw [← hlength]
    exact (List.getElem?_eq_some_iff.mp hline).1
  obtain ⟨hspans, hterminator, -⟩ := hscans 8 hlast
  have hseven : last = 7 := Option.some.inj (hterminator.symm.trans hend)
  rw [hseven] at htiles hspans hterminator
  exact ⟨h, lines, opener, hp, hl, hk, ss, htiles, hspans, hterminator⟩

end Validation

end SigilScript
