import SigilScript.Argument
import SigilScript.Fragment
import SigilScript.Statement
import SigilScript.Text.Search

/-!
Stretches of written text. Taking blanks or quotes off a text, cutting it into arguments, joining the
last of these again and reading calls from it: each of these gives a part of the text that stands in
it as a whole.
-/
namespace SigilScript

namespace Text

theorem left_isInfix {s u t : Text} (h : s ++ u <:+: t) : s <:+: t := (List.prefix_append s u).isInfix.trans h

theorem right_isInfix {s u t : Text} (h : s ++ u <:+: t) : u <:+: t := (List.suffix_append s u).isInfix.trans h

theorem strip_isInfix (t : Text) : t.strip <:+: t := by
  have hend : t.stripStart.stripEnd <+: t.stripStart := by
    rw [stripEnd, ← List.reverse_suffix, List.reverse_reverse]
    exact List.dropWhile_suffix _
  exact hend.isInfix.trans (List.dropWhile_suffix _).isInfix

theorem isBlank_of_mem_takeWhile {t : Text} : ∀ c ∈ t.takeWhile CodePoint.isBlank, c.isBlank :=
  List.all_eq_true.mp List.all_takeWhile

/-- A text without the blanks around it, and the blanks. -/
theorem eq_blanks_append_strip (t : Text) :
    ∃ trailing, t = t.takeWhile CodePoint.isBlank ++ (t.strip ++ trailing) ∧
      ∀ c ∈ trailing, c.isBlank := by
  refine ⟨(t.stripStart.reverse.takeWhile CodePoint.isBlank).reverse, ?_, fun c hc =>
    isBlank_of_mem_takeWhile c (List.mem_reverse.mp hc)⟩
  rw [strip, stripEnd, ← List.reverse_append, List.takeWhile_append_dropWhile, List.reverse_reverse,
    stripStart, List.takeWhile_append_dropWhile]

theorem join_cons_cons (sep first second : Text) (others : List Text) :
    join sep (first :: second :: others) = first ++ (sep ++ join sep (second :: others)) := by
  simp [join, List.intercalate, List.intersperse]

end Text

namespace Argument

theorem unquote_isInfix (t : Text) : unquote t <:+: t := by
  unfold unquote
  have hs := t.strip_isInfix
  split
  · exact List.nil_infix
  · rename_i first rest h
    rw [h] at hs
    split
    · exact (( List.dropLast_prefix rest).isInfix.trans (List.suffix_cons first rest).isInfix).trans hs
    · exact hs

/-- The first arguments, joined again, start the text that they were cut from. -/
theorem join_prefix_splitFrom {s : Nesting} {current t : Text} {pieces : List Text}
    (h : pieces <+: splitFrom s current t) : Text.join ";" pieces <+: current.reverse ++ t := by
  induction t generalizing s current pieces with
  | nil =>
    unfold splitFrom at h
    split at h
    · rw [List.prefix_nil] at h
      subst h
      exact List.nil_prefix
    · rcases List.prefix_cons_iff.mp h with rfl | ⟨others, rfl, ho⟩
      · exact List.nil_prefix
      · rw [List.prefix_nil] at ho
        subst ho
        simp [Text.join, List.intercalate]
  | cons c rest ih =>
    unfold splitFrom at h
    split at h
    · rename_i hc
      have hc : c = ';' := by
        simp only [separates, Bool.and_eq_true, decide_eq_true_eq] at hc
        exact hc.1
      rcases List.prefix_cons_iff.mp h with rfl | ⟨others, rfl, ho⟩
      · exact List.nil_prefix
      · have hr := ih ho
        cases others with
        | nil => simp [Text.join, List.intercalate]
        | cons second others =>
          rw [Text.join_cons_cons, hc, List.prefix_append_right_inj]
          exact (List.prefix_cons_inj _).mpr hr
    · simpa using ih h

/-- Consecutive arguments, joined again, are a stretch of the text that they were cut from. -/
theorem join_isInfix_splitFrom {s : Nesting} {current t : Text} {pieces : List Text}
    (h : pieces <:+: splitFrom s current t) : Text.join ";" pieces <:+: current.reverse ++ t := by
  induction t generalizing s current with
  | nil =>
    obtain ⟨before, after, ha⟩ := h
    cases before with
    | nil => exact (join_prefix_splitFrom ⟨after, ha⟩).isInfix
    | cons first before =>
      have hnil : pieces = [] := by
        unfold splitFrom at ha
        split at ha <;> simp_all
      subst hnil
      exact List.nil_infix
  | cons c rest ih =>
    by_cases hc : separates s c
    · rw [splitFrom, if_pos hc] at h
      rcases List.infix_cons_iff.mp h with hp | hi
      · have hs : pieces <+: splitFrom s current (c :: rest) := by rwa [splitFrom, if_pos hc]
        exact (join_prefix_splitFrom hs).isInfix
      · exact ((ih hi).trans (List.suffix_cons c rest).isInfix).trans
          (List.suffix_append current.reverse (c :: rest)).isInfix
    · rw [splitFrom, if_neg hc] at h
      simpa using ih h

theorem join_isInfix_split {args : Text} {pieces : List Text} (h : pieces <:+: split args) :
    Text.join ";" pieces <:+: args := join_isInfix_splitFrom h

theorem isInfix_of_mem_split {args piece : Text} (h : piece ∈ split args) : piece <:+: args := by
  have hs : [piece] <:+: split args := by
    obtain ⟨before, after, hba⟩ := List.append_of_mem h
    exact ⟨before, after, by simp [hba]⟩
  simpa [Text.join, List.intercalate] using join_isInfix_split hs

end Argument

/-! Calls in a text -/

theorem closingFrom_eq {depth : Int} {t : Text} {n : Nat} (h : closingFrom depth t = some n) :
    t = t.take n ++ ((']' : CodePoint) :: t.drop (n + 1)) := by
  induction t generalizing depth n with
  | nil => simp [closingFrom] at h
  | cons c rest ih =>
    have later : ∀ {d : Int}, (closingFrom d rest).map (· + 1) = some n →
        c :: rest = (c :: rest).take n ++ ((']' : CodePoint) :: (c :: rest).drop (n + 1)) := by
      intro d hd
      obtain ⟨m, hm, rfl⟩ := Option.map_eq_some_iff.mp hd
      simpa using ih hm
    simp only [closingFrom] at h
    split at h
    · exact later h
    · split at h
      · rename_i hc
        split at h
        · simp only [Option.some.injEq] at h
          subst h
          simp [hc]
        · exact later h
      · exact later h

/-- A call is followed by the text after it. -/
theorem takeCall_eq {t name args rest : Text} (h : takeCall t = some (name, args, rest)) :
    t = name ++ (('[' : CodePoint) :: (args ++ ((']' : CodePoint) :: rest))) := by
  have ht := Text.takeIdentifier_append t
  unfold takeCall at h
  split at h
  · simp at h
  · simp at h
  · rename_i name' c after _ he
    rw [he] at ht
    split at h
    · rename_i hc
      obtain ⟨n, hn, hp⟩ := Option.map_eq_some_iff.mp h
      simp only [Prod.mk.injEq] at hp
      obtain ⟨rfl, rfl, rfl⟩ := hp
      rw [← closingFrom_eq hn, ← hc]
      exact ht.symm
    · simp at h

theorem source_literal (run : Text) : (literal run).flatMap Node.source = run.reverse := by
  unfold literal
  split
  · simp_all
  · simp [Node.source]

/-- What holds of the nodes of a text, by the places of the text: its end, a place at which no call starts, and one at
which a call starts, whose arguments are read as a text of their own. -/
theorem readNodes_induction {P : Text → Text → List Node → Prop} (hend : ∀ run, P run [] (literal run))
    (hplace : ∀ run c rest nodes, (c = sigil → takeCall rest = none) → P (c :: run) rest nodes → P run (c :: rest) nodes)
    (hcall : ∀ run rest name args after children nodes, takeCall rest = some (name, args, after) →
      (∃ levels, readNodes levels [] args = .ok children) → 1 + Node.maxDepth children ≤ maxNesting →
      P [] args children → P [] after nodes → P run (sigil :: rest) (literal run ++ .call name args children :: nodes))
    {levels : Nat} {run t : Text} {nodes : List Node} (h : readNodes levels run t = .ok nodes) : P run t nodes := by
  fun_induction readNodes levels run t generalizing nodes with
  | case1 levels run =>
    cases h
    exact hend run
  | case2 levels run rest ht ih => exact hplace run sigil rest nodes (fun _ => ht) (ih h)
  | case3 => cases h
  | case4 => cases h
  | case5 => cases h
  | case6 levels run rest name args after ht hlt hl children hr hd ihr ih =>
    obtain ⟨nodes', hn, rfl⟩ : ∃ nodes', readNodes levels [] after = .ok nodes' ∧
        literal run ++ .call name args children :: nodes' = nodes := by
      cases hn : readNodes levels [] after with
      | error e => simp [hn, Except.map] at h
      | ok nodes' => exact ⟨nodes', rfl, by simpa [hn, Except.map] using h⟩
    exact hcall run rest name args after children nodes' ht ⟨_, hr⟩ (Nat.not_lt.mp hd) (ihr hr) (ih hn)
  | case7 levels run c rest hc ih => exact hplace run c rest nodes (fun h => absurd h hc) (ih h)

/-- The nodes of a text, written one after the other, are the text. -/
theorem readNodes_source {levels : Nat} {run t : Text} {nodes : List Node}
    (h : readNodes levels run t = .ok nodes) : nodes.flatMap Node.source = run.reverse ++ t := by
  refine readNodes_induction (P := fun run t nodes => nodes.flatMap Node.source = run.reverse ++ t) ?_ ?_ ?_ h
  · intro run
    rw [source_literal, List.append_nil]
  · intro run c rest nodes _ ih
    simpa using ih
  · intro run rest name args after children nodes ht _ _ _ ih
    rw [List.flatMap_append, List.flatMap_cons, source_literal, ih, takeCall_eq ht]
    simp [Node.source]

/-- Every node of a text stands in it as it is written. -/
theorem source_isInfix {t : Text} {nodes : List Node} (h : Fragment.parse t = .ok nodes) {node : Node}
    (hm : node ∈ nodes) : node.source <:+: t := by
  obtain ⟨before, after, rfl⟩ := List.append_of_mem hm
  have hs := readNodes_source h
  rw [List.flatMap_append, List.flatMap_cons] at hs
  exact ⟨_, _, by simpa using hs⟩

/-! Lines -/

/-- A line whose parts stand in its text: its arguments, and the sigil with the name of the directive
that it starts with. -/
structure Line.Spelled (line : Line) : Prop where
  args : line.args <:+: line.text
  name : line.kind ≠ .text → sigil :: line.name <:+: line.text

theorem Statement.parse_spelled {t : Text} {s : Statement} (h : Statement.parse t = .ok (some s)) :
    s.args.getD [] <:+: t ∧ sigil :: s.name <:+: t := by
  unfold Statement.parse at h
  split at h
  · simp at h
  · rename_i c rest
    have ht := Text.takeIdentifier_append rest
    split at h
    · rename_i hc
      subst hc
      split at h
      · simp at h
      · rename_i name hn he
        simp only [Except.ok.injEq, Option.some.injEq] at h
        subst h
        rw [he, List.append_nil] at ht
        subst ht
        exact ⟨List.nil_infix, List.infix_rfl⟩
      · rename_i name d after hn he
        rw [he] at ht
        have hname : sigil :: name <:+: sigil :: rest :=
          ⟨[], d :: after, by rw [← ht, List.nil_append, List.cons_append]⟩
        split at h
        · split at h
          · simp at h
          · rename_i n _
            simp only [Except.ok.injEq, Option.some.injEq] at h
            subst h
            have hafter : after <:+: sigil :: rest := ⟨sigil :: (name ++ [d]), [], by simp [← ht]⟩
            exact ⟨( List.take_prefix n after).isInfix.trans hafter, hname⟩
        · simp only [Except.ok.injEq, Option.some.injEq] at h
          subst h
          exact ⟨List.nil_infix, hname⟩
    · simp at h

theorem Line.ofRaw?_spelled {file raw : Text} {number : Nat} {line : Line}
    (h : Line.ofRaw? file number raw = .ok (some line)) : line.Spelled := by
  unfold Line.ofRaw? at h
  simp only at h
  split at h
  · simp at h
  · cases hp : Statement.parse raw.strip with
    | error e => simp [hp, Except.map] at h
    | ok statement =>
      simp only [hp, Except.map, Except.ok.injEq, Option.some.injEq] at h
      subst h
      cases statement with
      | none => exact ⟨List.nil_infix, fun hk => absurd rfl hk⟩
      | some s =>
        obtain ⟨hargs, hname⟩ := Statement.parse_spelled hp
        exact ⟨hargs, fun _ => hname⟩

theorem Program.linesFrom_spelled {file : Text} {number : Nat} {raws : List Text} {lines : List Line}
    (h : Program.linesFrom file number raws = .ok lines) : ∀ line ∈ lines, line.Spelled := by
  induction raws generalizing number lines with
  | nil =>
    simp only [Program.linesFrom, Except.ok.injEq] at h
    subst h
    simp
  | cons raw rest ih =>
    simp only [Program.linesFrom] at h
    split at h
    · simp at h
    · rename_i first hf
      cases hr : Program.linesFrom file (number + 1) rest with
      | error e => simp [hr, Except.map] at h
      | ok others =>
        simp only [hr, Except.map, Except.ok.injEq] at h
        subst h
        intro line hm
        rcases List.mem_append.mp hm with hm | hm
        · rw [Option.mem_toList] at hm
          subst hm
          exact Line.ofRaw?_spelled hf
        · exact ih hr line hm

/-- In every line of a program the parts stand as they were read. -/
theorem Program.parse_spelled {source file : Text} {lines : List Line}
    (h : Program.parse source file = .ok lines) : ∀ line ∈ lines, line.Spelled :=
  Program.linesFrom_spelled h

end SigilScript
