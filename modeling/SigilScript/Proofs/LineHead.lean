import SigilScript.Proofs.SeparatedCalls

/-!
The start of a line, read twice. As a statement a line is a name, perhaps arguments and the text behind them; as a
fragment it is a list of nodes. Both look for a call at the sigil, but a statement is refused when the brackets never
close, and a fragment then takes the sigil as literal text. So a statement has arguments exactly when the first node is
a call, and what follows the call is the same text on both sides.
-/
namespace SigilScript

/-! Statements -/

section Call

variable {rest name args after : Text}

/-- A line that starts with a call is a statement with arguments. -/
theorem Statement.parse_call (h : takeCall rest = some (name, args, after)) :
    Statement.parse (sigil :: rest) = .ok (some ⟨name, some args, after.strip⟩) := by
  rw [takeCall] at h
  rw [Statement.parse, if_pos rfl]
  generalize rest.takeIdentifier = found at h ⊢
  obtain ⟨identifier, behind⟩ := found
  cases identifier with
  | nil => cases h
  | cons =>
    cases behind with
    | nil => cases h
    | cons d behind =>
      dsimp only at h ⊢
      by_cases hopen : d = '['
      · rw [if_pos hopen] at h ⊢
        obtain ⟨n, hclosing, hparts⟩ := Option.map_eq_some_iff.mp h
        cases hparts
        simp only [hclosing]
      · rw [if_neg hopen] at h
        cases h

/-- Without a call at its start a line has no arguments, whether it is a statement or not. -/
theorem Statement.args_eq_none (h : takeCall rest = none) {s : Statement}
    (hs : Statement.parse (sigil :: rest) = .ok (some s)) : s.args = none := by
  rw [takeCall] at h
  rw [Statement.parse, if_pos rfl] at hs
  generalize rest.takeIdentifier = found at h hs
  obtain ⟨identifier, behind⟩ := found
  cases identifier with
  | nil => cases hs
  | cons =>
    cases behind with
    | nil =>
      cases hs
      rfl
    | cons d behind =>
      dsimp only at h hs
      by_cases hopen : d = '['
      · rw [if_pos hopen] at h hs
        simp only [Option.map_eq_none_iff.mp h] at hs
        cases hs
      · rw [if_neg hopen] at hs
        cases hs
        rfl

end Call

/-! Nodes -/

/-- A literal run that has begun is in the first node. -/
theorem text_of_readNodes {levels : Nat} {run t : Text} {nodes : List Node} (h : readNodes levels run t = .ok nodes)
    (hrun : run ≠ []) : ∃ value others, nodes = .text value :: others := by
  have hliteral {run : Text} (hrun : run ≠ []) : literal run = [.text run.reverse] :=
    if_neg (by rwa [List.isEmpty_iff])
  refine readNodes_induction (P := fun run _ nodes => run ≠ [] → ∃ value others, nodes = .text value :: others)
    ?_ ?_ ?_ h hrun
  · intro run hrun
    exact ⟨_, _, hliteral hrun⟩
  · intro run c rest nodes _ ih _
    exact ih (List.cons_ne_nil c run)
  · intro run rest name args after children nodes _ _ _ _ _ hrun
    rw [hliteral hrun]
    exact ⟨_, _, rfl⟩

/-- A line that starts with a sigil is read alike as a statement and as a fragment. A statement with arguments is the
call that comes first, followed by the text of the other nodes. Otherwise the line starts with literal text: there is no
name, or no bracket behind it, or none that closes that one. -/
theorem Statement.parse_head {line : Text} {nodes : List Node} (hline : line.head? = some sigil)
    (hnodes : Fragment.parse line = .ok nodes) :
    (∀ s args, Statement.parse line = .ok (some s) → s.args = some args →
      ∃ children others, nodes = .call s.name args children :: others ∧
        Text.strip (others.flatMap Node.source) = s.trailing) ∧
    ((Statement.parse line = .ok none ∨ (∃ s, Statement.parse line = .ok (some s) ∧ s.args = none) ∨
      ∃ e, Statement.parse line = .error e) → ∃ value others, nodes = .text value :: others) := by
  obtain ⟨rest, rfl⟩ := List.head?_eq_some_iff.mp hline
  cases hcall : takeCall rest with
  | none =>
    constructor
    · intro s args hs hargs
      rw [Statement.args_eq_none hcall hs] at hargs
      cases hargs
    · intro _
      have hread : readNodes maxRecursion [sigil] rest = .ok nodes := by
        rw [← readNodes_place fun _ => hcall]
        exact hnodes
      exact text_of_readNodes hread (List.cons_ne_nil _ _)
  | some parts =>
    obtain ⟨name, args, after⟩ := parts
    have hparse := Statement.parse_call hcall
    constructor
    · intro s args' hs hargs
      rw [hparse] at hs
      cases hs
      cases hargs
      obtain ⟨children, others, hothers, hafter, -⟩ := readNodes_same_call hcall hnodes
      exact ⟨children, others, hothers, congrArg Text.strip (readNodes_source hafter)⟩
    · rintro (hs | ⟨s, hs, hargs⟩ | ⟨e, hs⟩)
      · rw [hparse] at hs
        cases hs
      · rw [hparse] at hs
        cases hs
        cases hargs
      · rw [hparse] at hs
        cases hs

/-- A call with another one right behind it; and a bracket that is never closed, with a call inside. -/
theorem Statement.parse_head_adjacent :
    let line : Text := "§log[§len[a]]§x[1] y "
    let unclosed : Text := "§log[§len[a]"
    Statement.parse line = .ok (some ⟨"log", some "§len[a]", "§x[1] y"⟩) ∧
      (∃ children others, Fragment.parse line = .ok (.call "log" "§len[a]" children :: others) ∧
        Text.strip (others.flatMap Node.source) = "§x[1] y") ∧
      Statement.parse unclosed = .error ⟨"log"⟩ ∧
      ∃ value others, Fragment.parse unclosed = .ok (.text value :: others) := by
  intro line unclosed
  have hread {t : Text} (hok : (Fragment.parse t).isOk = true) : ∃ nodes, Fragment.parse t = .ok nodes := by
    cases h : Fragment.parse t with
    | error e =>
      rw [h] at hok
      cases hok
    | ok nodes => exact ⟨nodes, rfl⟩
  obtain ⟨nodes, hnodes⟩ := hread (t := line) (by decide +kernel)
  obtain ⟨others, hothers⟩ := hread (t := unclosed) (by decide +kernel)
  have hstatement : Statement.parse line = .ok (some ⟨"log", some "§len[a]", "§x[1] y"⟩) := by decide
  have hrefused : Statement.parse unclosed = .error ⟨"log"⟩ := by decide
  refine ⟨hstatement, ?_, hrefused, ?_⟩
  · obtain ⟨children, others, rfl, htrailing⟩ := (Statement.parse_head rfl hnodes).1 _ _ hstatement rfl
    exact ⟨children, others, hnodes, htrailing⟩
  · obtain ⟨value, others, rfl⟩ := (Statement.parse_head rfl hothers).2 (.inr (.inr ⟨_, hrefused⟩))
    exact ⟨value, others, hothers⟩

end SigilScript
