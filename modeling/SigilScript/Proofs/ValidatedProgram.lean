import SigilScript.Proofs.BlockTree

/-!
A source that passes validation is a program: every bracket that a statement opens is closed, the
lines have the kinds that validation saw, and they form a block tree.
-/
namespace SigilScript

theorem imbalanceFrom_append {start : Text}
    (h : ∀ c ∈ start, c ≠ ('[' : CodePoint) ∧ c ≠ (']' : CodePoint)) (depth column : Nat) (t : Text) :
    imbalanceFrom depth column (start ++ t) = imbalanceFrom depth (column + start.length) t := by
  induction start generalizing column with
  | nil => rfl
  | cons c start ih =>
    rw [List.forall_mem_cons] at h
    simp only [List.cons_append, imbalanceFrom, if_neg h.1.1, if_neg h.1.2]
    rw [ih h.2, List.length_cons, Nat.add_assoc, Nat.add_comm 1]

/-- Where the brackets are balanced, counting down from fewer than all open ones gets to zero. -/
theorem closingFrom_isSome {depth column count : Nat} {t : Text}
    (h : imbalanceFrom depth column t = none) (hp : 0 < count) (hle : count ≤ depth) :
    (closingFrom count t).isSome = true := by
  induction t generalizing depth column count with
  | nil =>
    simp only [imbalanceFrom] at h
    split at h
    · omega
    · simp at h
  | cons c rest ih =>
    simp only [imbalanceFrom] at h
    simp only [closingFrom]
    split at h
    · rename_i hc
      have hcast : (count : Int) + 1 = ((count + 1 : Nat) : Int) := by omega
      rw [if_pos hc, Option.isSome_map, hcast]
      exact ih h (by omega) (by omega)
    · rename_i hc
      rw [if_neg hc]
      split at h
      · rename_i hc
        rw [if_pos hc]
        split at h
        · simp at h
        · by_cases h₁ : (count : Int) = 1
          · simp [h₁]
          · have hcast : (count : Int) - 1 = ((count - 1 : Nat) : Int) := by omega
            rw [if_neg h₁, Option.isSome_map, hcast]
            exact ih h (by omega) (by omega)
      · rename_i hc
        rw [if_neg hc, Option.isSome_map]
        exact ih h hp hle

theorem not_bracket_of_isIdentifierPart {c : CodePoint} (h : c.isIdentifierPart = true) :
    c ≠ ('[' : CodePoint) ∧ c ≠ (']' : CodePoint) := by
  constructor
  · rintro rfl
    exact absurd h (by decide)
  · rintro rfl
    exact absurd h (by decide)

theorem isIdentifierPart_of_isName {name : Text} (h : name.isName = true) :
    ∀ c ∈ name, c.isIdentifierPart = true := by
  cases name with
  | nil => simp
  | cons c rest =>
    obtain ⟨hc, hr⟩ := (Text.isName_cons c rest).mp h
    rw [List.forall_mem_cons]
    exact ⟨by simp [CodePoint.isIdentifierPart, hc], hr⟩

namespace Validation

/-- The brackets after the name of a directive close somewhere. -/
theorem closingFrom_of_balanced {line name rest : Text}
    (h : StartsWith line name (('[' : CodePoint) :: rest)) (hb : line.Balanced) :
    (closingFrom 1 rest).isSome = true := by
  have hi := (imbalance_eq_none_iff line).mpr hb
  have hs : sigil ≠ ('[' : CodePoint) ∧ sigil ≠ (']' : CodePoint) := by decide
  rw [h.line_eq, imbalance] at hi
  simp only [imbalanceFrom, if_neg hs.1, if_neg hs.2] at hi
  rw [imbalanceFrom_append fun c hc =>
    not_bracket_of_isIdentifierPart (isIdentifierPart_of_isName h.isName c hc)] at hi
  simp only [imbalanceFrom, if_true] at hi
  have hcount : ((1 : Nat) : Int) = 1 := rfl
  exact hcount ▸ closingFrom_isSome hi (by decide) (by decide)

theorem takeIdentifier_of_startsWith {line name after : Text} (h : StartsWith line name after) :
    Text.takeIdentifier (name ++ after) = (name, after) := by
  have hn : name ≠ [] := by
    rintro rfl
    simpa [Text.isName] using h.isName
  exact (Text.takeIdentifier_eq_iff hn _ _).mpr ⟨rfl, h.isName, h.longest⟩

theorem parse_of_startsWith {line name after : Text} (h : StartsWith line name after)
    (hb : line.Balanced) :
    ∃ s : Statement, Statement.parse line = .ok (some s) ∧
      s.kind = .ofDirective name (after.head? = some ('[' : CodePoint)) := by
  have ht := takeIdentifier_of_startsWith h
  cases name with
  | nil => simpa [Text.isName] using h.isName
  | cons c name =>
    cases after with
    | nil =>
      refine ⟨⟨c :: name, none, []⟩, ?_, rfl⟩
      rw [h.line_eq]
      simp only [Statement.parse, if_true, ht]
    | cons d rest =>
      by_cases hd : d = ('[' : CodePoint)
      · subst hd
        obtain ⟨n, hn⟩ := Option.isSome_iff_exists.mp (closingFrom_of_balanced h hb)
        refine ⟨⟨c :: name, some (rest.take n), Text.strip (rest.drop (n + 1))⟩, ?_, ?_⟩
        · rw [h.line_eq]
          simp only [Statement.parse, if_true, ht, hn]
        · simp [Statement.kind]
      · refine ⟨⟨c :: name, none, Text.strip (d :: rest)⟩, ?_, ?_⟩
        · rw [h.line_eq]
          simp only [Statement.parse, if_true, ht, if_neg hd]
        · simp [Statement.kind, hd]

theorem parse_of_head?_eq_none {line : Text} (h : head? line = none) :
    Statement.parse line = .ok none := by
  cases line with
  | nil => rfl
  | cons c rest =>
    simp only [head?] at h
    simp only [Statement.parse]
    split at h
    · rename_i hc
      rw [if_pos hc]
      split at h
      · rename_i after ht
        rw [ht]
      · simp at h
    · rename_i hc
      rw [if_neg hc]

/-- The kind of a raw line; a line without a directive is text. -/
def lineKind (raw : Text) : LineKind := (directiveKind? raw).getD .text

theorem parse_kind {raw : Text} (h : WellBracketed raw) :
    ∃ s : Option Statement, Statement.parse raw.strip = .ok s ∧
      s.elim .text Statement.kind = lineKind raw := by
  unfold lineKind directiveKind?
  cases hd : head? raw.strip with
  | none => exact ⟨none, parse_of_head?_eq_none hd, rfl⟩
  | some directive =>
    obtain ⟨name, bracketed⟩ := directive
    obtain ⟨after, hs, rfl⟩ := (head?_eq_some_iff _ _ _).mp hd
    obtain ⟨s, hp, hk⟩ := parse_of_startsWith hs (h _ hd).1
    exact ⟨some s, hp, hk⟩

/-- Blank lines and comments. -/
def IsSkipped (raw : Text) : Prop := raw.strip = [] ∨ raw.strip.head? = some commentMark

instance (raw : Text) : Decidable (IsSkipped raw) := inferInstanceAs (Decidable (_ ∨ _))

theorem directiveKind?_of_isSkipped {raw : Text} (h : IsSkipped raw) : directiveKind? raw = none := by
  unfold directiveKind?
  rcases h with h | h
  · rw [h]
    rfl
  · cases hs : raw.strip with
    | nil => rfl
    | cons c rest =>
      rw [hs, List.head?_cons, Option.some.injEq] at h
      subst h
      rfl

theorem ofRaw?_of_isSkipped {raw : Text} (h : IsSkipped raw) (file : Text) (number : Nat) :
    Line.ofRaw? file number raw = .ok none := by
  unfold Line.ofRaw?
  rw [if_pos (by simpa [IsSkipped] using h)]

theorem ofRaw?_kind {raw : Text} (h : WellBracketed raw) (hs : ¬ IsSkipped raw) (file : Text)
    (number : Nat) :
    ∃ line : Line, Line.ofRaw? file number raw = .ok (some line) ∧ line.number = number ∧
      line.kind = lineKind raw := by
  obtain ⟨s, hp, hk⟩ := parse_kind h
  unfold Line.ofRaw?
  rw [if_neg (by simpa [IsSkipped] using hs), hp]
  exact ⟨_, rfl, rfl, hk⟩

/-- The numbered lines of a source that are neither blank nor comments, with the kinds that
validation gives them. -/
def classified (number : Nat) (raws : List Text) : List (Nat × LineKind) :=
  (raws.zipIdx number).filterMap fun (raw, n) =>
    if IsSkipped raw then none else some (n, lineKind raw)

theorem linesFrom_classified (file : Text) {raws : List Text}
    (h : ∀ raw ∈ raws, WellBracketed raw) (number : Nat) :
    ∃ lines, Program.linesFrom file number raws = .ok lines ∧
      lines.map (fun line => (line.number, line.kind)) = classified number raws := by
  induction raws generalizing number with
  | nil => exact ⟨[], rfl, rfl⟩
  | cons raw rest ih =>
    rw [List.forall_mem_cons] at h
    obtain ⟨lines, hl, hk⟩ := ih h.2 (number + 1)
    by_cases hs : IsSkipped raw
    · refine ⟨lines, ?_, ?_⟩
      · simp [Program.linesFrom, ofRaw?_of_isSkipped hs, hl, Except.map]
      · rw [hk]
        simp [classified, hs]
    · obtain ⟨line, hr, hn, hc⟩ := ofRaw?_kind h.1 hs file number
      refine ⟨line :: lines, ?_, ?_⟩
      · simp [Program.linesFrom, hr, hl, Except.map]
      · rw [List.map_cons, hk, hn, hc]
        simp [classified, hs]

theorem directiveKind?_eq (raw : Text) :
    (if lineKind raw = .text then none else some (lineKind raw)) = directiveKind? raw := by
  unfold lineKind directiveKind?
  cases head? raw.strip with
  | none => rfl
  | some directive =>
    simp [ofDirective_ne_text directive.1 directive.2]

theorem classified_directiveKinds (number : Nat) (raws : List Text) :
    (classified number raws).filterMap (fun line => if line.2 = .text then none else some line.2) =
      raws.filterMap directiveKind? := by
  induction raws generalizing number with
  | nil => rfl
  | cons raw rest ih =>
    have ih := ih (number + 1)
    unfold classified at ih ⊢
    by_cases hs : IsSkipped raw
    · simpa [hs, directiveKind?_of_isSkipped hs] using ih
    · simp only [List.zipIdx_cons, List.filterMap_cons, hs, if_false, directiveKind?_eq, ih]

/-- A validated source is a program, with the kinds that validation saw. -/
theorem parse_validated {source : Text} (h : validate source = []) (file : Text) :
    ∃ lines, Program.parse source file = .ok lines ∧
      lines.map (fun line => (line.number, line.kind)) = classified 1 (source.splitOn '\n') :=
  linesFrom_classified file ((validate_eq_nil_iff source).mp h).1 1

/-- The lines of a validated source form a tree. -/
theorem tree_of_validated {source file : Text} {lines : List Line} (h : validate source = [])
    (hp : Program.parse source file = .ok lines) : ∃ tree : Tree.Block, tree.lines = lines := by
  obtain ⟨lines', hp', hk⟩ := parse_validated h file
  rw [hp, Except.ok.injEq] at hp'
  subst hp'
  apply Tree.areBlock_of_derives ((validate_eq_nil_iff source).mp h).2
  rw [directiveKinds, ← classified_directiveKinds 1, ← hk, List.filterMap_map]
  rfl

end Validation

end SigilScript
