import SigilScript.Proofs.CallPlaces
import SigilScript.Proofs.TokenGrammar

/-!
Tokens and calls. The tokens of a text are listed in one pass, and its calls are read level by level, each up to the
bracket that closes it. In a balanced text without comments and strings both see the same calls: every sigil is where
a token starts, and every bracket after a name is closed, so a call is read wherever a function token and a bracket
stand side by side.
-/
namespace SigilScript

/-! Names of calls -/

namespace Node

mutual

/-- The names of the calls of a node, each before those in its arguments. -/
def names : Node → List Text
  | .text _ => []
  | .call name _ children => name :: namesAll children

def namesAll : List Node → List Text
  | [] => []
  | node :: nodes => node.names ++ namesAll nodes

end

theorem namesAll_literal_append (run : Text) (nodes : List Node) :
    namesAll (literal run ++ nodes) = namesAll nodes := by
  unfold literal
  split
  · rfl
  · rw [List.singleton_append, namesAll, names, List.nil_append]

end Node

/-- The calls of the nodes of a text come in the order of their places in it. -/
theorem namesAll_readNodes {levels : Nat} {run t : Text} {nodes : List Node} (h : readNodes levels run t = .ok nodes) :
    ∀ k, Node.namesAll nodes = (occurrencesFrom k t).map Occurrence.name := by
  refine readNodes_induction
    (P := fun _ t nodes => ∀ k, Node.namesAll nodes = (occurrencesFrom k t).map Occurrence.name) ?_ ?_ ?_ h
  · intro run k
    have hliteral := Node.namesAll_literal_append run []
    rw [List.append_nil] at hliteral
    exact hliteral
  · intro run c rest nodes hplace ih k
    rw [occurrencesFrom_cons_none (callAt_eq_none hplace)]
    exact ih (k + 1)
  · intro run rest name args after children nodes hcall _ _ hargs hafter k
    rw [Node.namesAll_literal_append, Node.namesAll, Node.names, occurrencesFrom_of_takeCall hcall, List.map_cons,
      List.map_append, List.cons_append, ← hargs, ← hafter]

/-! Calls in a balanced text -/

theorem exists_imbalanceFrom {depth column : Nat} {before t : Text} (h : imbalanceFrom depth column (before ++ t) = none) :
    ∃ depth column, imbalanceFrom depth column t = none := by
  induction before generalizing depth column with
  | nil => exact ⟨depth, column, h⟩
  | cons c before ih =>
    rw [List.cons_append, imbalanceFrom] at h
    split at h
    · exact ih h
    · split at h
      · split at h
        · cases h
        · exact ih h
      · exact ih h

section Name

variable {before name after rest : Text}

theorem takeIdentifier_name (hname : name.isName) (hends : Token.Ends CodePoint.isIdentifierPart after) :
    Text.takeIdentifier (name ++ after) = (name, after) := by
  have hne : name ≠ [] := by
    rintro rfl
    cases hname
  exact (Text.takeIdentifier_eq_iff hne _ _).mpr ⟨rfl, hname, hends⟩

/-- After a name, a bracket of a balanced text starts the arguments of a call. -/
theorem callAt_bracket (hb : Text.Balanced (before ++ sigil :: (name ++ ('[' : CodePoint) :: rest)))
    (hname : name.isName) : ∃ args, callAt (sigil :: (name ++ ('[' : CodePoint) :: rest)) = some (name, args) := by
  have hplain : ∀ c ∈ sigil :: name, c ≠ ('[' : CodePoint) ∧ c ≠ (']' : CodePoint) := by
    rw [List.forall_mem_cons]
    exact ⟨by decide, fun c hc => not_bracket_of_isIdentifierPart (isIdentifierPart_of_isName hname c hc)⟩
  obtain ⟨depth, column, hbrackets⟩ := exists_imbalanceFrom ((imbalance_eq_none_iff _).mpr hb)
  rw [← List.cons_append, imbalanceFrom_append hplain, imbalanceFrom, if_pos rfl] at hbrackets
  obtain ⟨n, hclosing⟩ := Option.isSome_iff_exists.mp
    (closingFrom_isSome hbrackets Nat.one_pos (Nat.le_add_left 1 depth))
  have hclosing : closingFrom 1 rest = some n := hclosing
  have hends : Token.Ends CodePoint.isIdentifierPart (('[' : CodePoint) :: rest) := by
    rintro c hc
    cases hc
    rfl
  cases name with
  | nil => cases hname
  | cons c name =>
    refine ⟨rest.take n, ?_⟩
    simp only [callAt, if_pos, takeCall, takeIdentifier_name hname hends, hclosing, Option.map_some]

/-- A name without a bracket after it is not called. -/
theorem callAt_no_bracket (hname : name.isName) (hends : Token.Ends CodePoint.isIdentifierPart after)
    (hopen : after.head? ≠ some ('[' : CodePoint)) : callAt (sigil :: (name ++ after)) = none := by
  cases name with
  | nil => cases hname
  | cons c name =>
    cases after with
    | nil => simp only [callAt, if_pos, takeCall, takeIdentifier_name hname hends, Option.map_none]
    | cons d rest =>
      have hd : d ≠ ('[' : CodePoint) := fun hd => hopen (congrArg some hd)
      simp only [callAt, if_pos, takeCall, takeIdentifier_name hname hends, if_neg hd, Option.map_none]

/-- A sigil before something that is not a name does not start a call. -/
theorem callAt_lone (hends : Token.Ends CodePoint.isIdentifierStart after) : callAt (sigil :: after) = none := by
  refine callAt_eq_none fun _ => ?_
  cases after with
  | nil => rfl
  | cons d rest => rw [takeCall, Text.takeIdentifier, if_neg (Bool.eq_false_iff.mp (hends d rfl))]

/-- The calls from a sigil and a name on: the one that starts here, if a bracket comes next, and those further on. -/
theorem names_reference {k : Nat} (hb : Text.Balanced (before ++ sigil :: (name ++ after))) (hname : name.isName)
    (hends : Token.Ends CodePoint.isIdentifierPart after) :
    (occurrencesFrom k (sigil :: (name ++ after))).map Occurrence.name =
      (if after.head? = some ('[' : CodePoint) then [name] else []) ++
        (occurrencesFrom (k + 1 + name.length) after).map Occurrence.name := by
  rw [← occurrencesFrom_of_not_sigil (not_sigil_of_isName hname)]
  by_cases hopen : after.head? = some ('[' : CodePoint)
  · obtain ⟨rest, rfl⟩ := List.head?_eq_some_iff.mp hopen
    obtain ⟨args, hcall⟩ := callAt_bracket hb hname
    rw [if_pos hopen, occurrencesFrom, hcall]
    rfl
  · rw [if_neg hopen, occurrencesFrom_cons_none (callAt_no_bracket hname hends hopen), List.nil_append]

end Name

/-! Tokens side by side -/

namespace Position

/-- The place after some text is another one. -/
theorem after_ne (p : Position) {t : Text} (h : t ≠ []) : p.after t ≠ p := by
  have hbeyond : p.line < (p.after t).line ∨ (p.after t).line = p.line ∧ p.column < (p.after t).column := by
    induction t generalizing p with
    | nil => exact absurd rfl h
    | cons c t ih =>
      have hnext : p.line < (p.next c).line ∨ (p.next c).line = p.line ∧ p.column < (p.next c).column := by
        rw [next]
        split <;> simp
      rw [after_cons]
      cases t with
      | nil => exact hnext
      | cons d t =>
        have hlater := ih (p.next c) (List.cons_ne_nil d t)
        omega
  intro hsame
  rw [hsame] at hbeyond
  omega

theorem after_of_not_newline (p : Position) {t : Text} (h : ∀ c ∈ t, c ≠ ('\n' : CodePoint)) :
    p.after t = ⟨p.line, p.column + t.length⟩ := by
  induction t generalizing p with
  | nil => rfl
  | cons c t ih =>
    rw [List.forall_mem_cons] at h
    rw [after_cons, ih _ h.2, next, if_neg h.1, List.length_cons]
    simp only [Position.mk.injEq, true_and]
    omega

end Position

namespace Token

/-- A token that is written with a mark before its value is directly followed by another one. -/
def Adjoins (first second : Token) : Prop :=
  second.position.line = first.position.line ∧
    second.position.column = first.position.column + 1 + first.value.length

instance (first second : Token) : Decidable (first.Adjoins second) := inferInstanceAs (Decidable (_ ∧ _))

/-- The values of the function tokens that a bracket directly follows. -/
def calledNames : List Token → List Text
  | first :: second :: rest =>
    if first.kind = .function ∧ second.kind = .leftBracket ∧ first.Adjoins second then
      first.value :: calledNames (second :: rest)
    else calledNames (second :: rest)
  | _ => []

theorem calledNames_cons {first : Token} (h : first.kind ≠ .function) (tokens : List Token) :
    calledNames (first :: tokens) = calledNames tokens := by
  cases tokens with
  | nil => rfl
  | cons second rest => rw [calledNames, if_neg fun hcalled => h hcalled.1]

theorem wordKind_ne (word : Text) : wordKind word ≠ .leftBracket ∧ wordKind word ≠ .function := by
  unfold wordKind
  split
  · decide
  · split <;> decide

namespace Spells

variable {kind : TokenKind} {value stretch after : Text}

/-- Only a bracket token is written with an opening bracket first. -/
theorem leftBracket_iff (h : Spells kind value stretch after) :
    kind = .leftBracket ↔ (stretch ++ after).head? = some ('[' : CodePoint) := by
  cases h with
  | reference hmark _ _ =>
    rcases mem_references.mp hmark with ⟨rfl, rfl⟩ | ⟨rfl, rfl⟩ <;>
      simp only [List.cons_append, List.head?_cons] <;> decide
  | loneMark hmark _ =>
    rcases mem_references.mp hmark with ⟨rfl, rfl⟩ | ⟨rfl, rfl⟩ <;>
      simp only [List.cons_append, List.head?_cons] <;> decide
  | symbol hsymbol after =>
    rcases mem_symbols.mp hsymbol with ⟨rfl, rfl⟩ | ⟨rfl, rfl⟩ | ⟨rfl, rfl⟩ <;>
      simp only [List.cons_append, List.head?_cons] <;> decide
  | closedString hquote _ _ | openString hquote _ | openEscape hquote _ =>
    refine ⟨nofun, fun hhead => ?_⟩
    cases hhead
    exact absurd hquote (by decide)
  | number hfirst _ _ =>
    refine ⟨nofun, fun hhead => ?_⟩
    cases hhead
    exact absurd hfirst (by decide)
  | word _ hword _ =>
    refine ⟨fun hkind => absurd hkind (wordKind_ne _).1, fun hhead => ?_⟩
    cases hhead
    exact absurd (hword _ List.mem_cons_self) (by decide)
  | other _ _ _ hsymbol _ _ _ _ =>
    refine ⟨nofun, fun hhead => ?_⟩
    cases hhead
    exact absurd rfl (hsymbol (.leftBracket, '[') (by decide))

/-- Outside of strings, a sigil is the first code point of a function token or a token of its own. -/
theorem sigil_cases (h : Spells kind value stretch after) (hplain : ∀ c ∈ stretch, Argument.isQuote c = false) :
    (kind = .function ∧ stretch = sigil :: value ∧ value.isName ∧ Ends CodePoint.isIdentifierPart after) ∨
      (kind ≠ .function ∧ stretch = [sigil] ∧ Ends CodePoint.isIdentifierStart after) ∨
      (kind ≠ .function ∧ ∀ c ∈ stretch, c ≠ sigil) := by
  cases h with
  | reference hmark hname hends =>
    rcases mem_references.mp hmark with ⟨rfl, rfl⟩ | ⟨rfl, rfl⟩
    · exact .inl ⟨rfl, rfl, hname, hends⟩
    · exact .inr (.inr ⟨by decide, List.forall_mem_cons.mpr ⟨by decide, not_sigil_of_isName hname⟩⟩)
  | loneMark hmark hends =>
    rcases mem_references.mp hmark with ⟨-, rfl⟩ | ⟨-, rfl⟩
    · exact .inr (.inl ⟨by decide, rfl, hends⟩)
    · exact .inr (.inr ⟨by decide, by decide⟩)
  | symbol hsymbol after =>
    rcases mem_symbols.mp hsymbol with ⟨rfl, rfl⟩ | ⟨rfl, rfl⟩ | ⟨rfl, rfl⟩ <;>
      exact .inr (.inr ⟨by decide, by decide⟩)
  | closedString hquote _ _ | openString hquote _ | openEscape hquote _ =>
    rw [hplain _ List.mem_cons_self] at hquote
    cases hquote
  | number hfirst hmore _ =>
    refine .inr (.inr ⟨by decide, List.forall_mem_cons.mpr ⟨?_, ?_⟩⟩)
    · rintro rfl
      exact absurd hfirst (by decide)
    · rintro c hc rfl
      exact absurd (hmore _ hc) (by decide)
  | word _ hword _ =>
    refine .inr (.inr ⟨(wordKind_ne _).2, ?_⟩)
    rintro c hc rfl
    exact absurd (hword _ hc) (by decide)
  | other _ _ hmark _ _ _ _ _ =>
    exact .inr (.inr ⟨by decide, by simpa using hmark (.function, sigil) (by decide)⟩)

end Spells

/-- The first token of a text starts after some of it, and is a bracket at its start exactly if the text starts with
one. -/
theorem exists_first (p : Position) (t : Text) :
    ∃ first rest s, scanFrom p t = first :: rest ∧ first.position = p.after s ∧
      (first.kind = .leftBracket ∧ s = [] ↔ t.head? = some ('[' : CodePoint)) := by
  refine scanFrom_induction (P := fun p t tokens => ∃ first rest s, tokens = first :: rest ∧ first.position = p.after s ∧
      (first.kind = .leftBracket ∧ s = [] ↔ t.head? = some ('[' : CodePoint))) ?_ ?_ ?_ ?_ p t
  · intro p
    exact ⟨_, [], [], rfl, rfl, by simp⟩
  · rintro p c after hgap ⟨first, rest, s, htokens, hposition, -⟩
    refine ⟨first, rest, c :: s, htokens, hposition, by simp, fun hhead => ?_⟩
    cases hhead
    exact absurd hgap (by decide)
  · rintro p body after - - ⟨first, rest, s, htokens, hposition, -⟩
    refine ⟨first, rest, (commentMark :: body) ++ s, htokens, ?_, by simp, fun hhead => ?_⟩
    · rw [Position.after_append, hposition]
    · exact absurd (Option.some.inj hhead) (by decide)
  · intro p kind value stretch after hspells _
    exact ⟨_, _, [], rfl, rfl, by simp [hspells.leftBracket_iff]⟩

section Function

variable {value : Text} (hname : value.isName) (p : Position)

include hname

theorem adjoins_iff (second : Token) :
    Adjoins ⟨.function, value, p⟩ second ↔ second.position = p.after (sigil :: value) := by
  have hline : ∀ c ∈ sigil :: value, c ≠ ('\n' : CodePoint) := by
    refine List.forall_mem_cons.mpr ⟨by decide, ?_⟩
    rintro c hc rfl
    exact absurd (isIdentifierPart_of_isName hname _ hc) (by decide)
  obtain ⟨_, _, line, column⟩ := second
  rw [p.after_of_not_newline hline, Position.mk.injEq, List.length_cons, Nat.add_comm value.length 1, ← Nat.add_assoc]
  rfl

/-- A function token counts exactly if a bracket comes next in the text. -/
theorem calledNames_function (after : Text) :
    calledNames (⟨.function, value, p⟩ :: scanFrom (p.after (sigil :: value)) after) =
      (if after.head? = some ('[' : CodePoint) then [value] else []) ++
        calledNames (scanFrom (p.after (sigil :: value)) after) := by
  obtain ⟨first, rest, s, htokens, hposition, hbracket⟩ := exists_first (p.after (sigil :: value)) after
  have hadjoins : Adjoins ⟨.function, value, p⟩ first ↔ s = [] := by
    rw [adjoins_iff hname, hposition]
    exact ⟨not_imp_not.mp fun hs => Position.after_ne _ hs, fun hs => by rw [hs, Position.after_nil]⟩
  rw [htokens, calledNames]
  by_cases hopen : after.head? = some ('[' : CodePoint)
  · obtain ⟨hkind, hs⟩ := hbracket.mpr hopen
    rw [if_pos hopen, if_pos ⟨rfl, hkind, hadjoins.mpr hs⟩, List.singleton_append]
  · rw [if_neg hopen, if_neg fun h => hopen (hbracket.mp ⟨h.2.1, hadjoins.mp h.2.2⟩), List.nil_append]

end Function

/-- The tokens of a stretch of a balanced text without comments and strings show the calls that start in it. -/
theorem calledNames_scanFrom (p : Position) (t : Text) (before : Text) (hb : Text.Balanced (before ++ t))
    (hplain : ∀ c ∈ t, c ≠ commentMark ∧ Argument.isQuote c = false) (k : Nat) :
    calledNames (scanFrom p t) = (occurrencesFrom k t).map Occurrence.name := by
  refine scanFrom_induction (P := fun _ t tokens => ∀ before k, Text.Balanced (before ++ t) →
    (∀ c ∈ t, c ≠ commentMark ∧ Argument.isQuote c = false) →
      calledNames tokens = (occurrencesFrom k t).map Occurrence.name) ?_ ?_ ?_ ?_ p t before k hb hplain
  · intro p before k _ _
    rfl
  · intro p c after hgap ih before k hb hplain
    have hc : c ≠ sigil := by
      rintro rfl
      exact absurd hgap (by decide)
    rw [occurrencesFrom_cons_none (callAt_of_ne hc after)]
    rw [List.append_cons] at hb
    exact ih _ _ hb (List.forall_mem_cons.mp hplain).2
  · intro p body after _ _ _ before k _ hplain
    exact absurd rfl (hplain commentMark List.mem_cons_self).1
  · intro p kind value stretch after hspells ih before k hb hplain
    rw [List.forall_mem_append] at hplain
    have hafter := fun k => ih (before ++ stretch) k (by rwa [List.append_assoc]) hplain.2
    obtain ⟨rfl, rfl, hname, hends⟩ | ⟨hkind, rfl, hends⟩ | ⟨hkind, hnone⟩ :=
      hspells.sigil_cases fun c hc => (hplain.1 c hc).2
    · rw [calledNames_function hname, List.cons_append, names_reference hb hname hends, hafter]
    · rw [calledNames_cons hkind, List.singleton_append, occurrencesFrom_cons_none (callAt_lone hends), hafter]
    · rw [calledNames_cons hkind, occurrencesFrom_of_not_sigil hnone, hafter]

/-- In a balanced text without comments and strings, the calls that are read are the function tokens that a bracket
directly follows, in the order of both. -/
theorem namesAll_of_parse {t : Text} {nodes : List Node} (hb : t.Balanced)
    (hplain : ∀ c ∈ t, c ≠ commentMark ∧ Argument.isQuote c = false) (h : Fragment.parse t = .ok nodes) :
    Node.namesAll nodes = calledNames (scan t) := by
  rw [namesAll_readNodes h 0, scan, calledNames_scanFrom _ t [] hb hplain 0]

/-- Calls in arguments, a name that is not called, and one with a blank before its bracket. -/
theorem namesAll_of_parse_nested :
    let t : Text := "x§a[1;§b[§c d]]§e [§b[]]"
    ∃ nodes, t.Balanced ∧ (∀ c ∈ t, c ≠ commentMark ∧ Argument.isQuote c = false) ∧ Fragment.parse t = .ok nodes ∧
      Node.namesAll nodes = calledNames (scan t) ∧
      calledNames (scan t) = [Text.ofString "a", Text.ofString "b", Text.ofString "b"] := by
  intro t
  have hb : t.Balanced := (imbalance_eq_none_iff t).mp (by decide)
  have hplain : ∀ c ∈ t, c ≠ commentMark ∧ Argument.isQuote c = false := by decide
  have hok : (Fragment.parse t).isOk := by decide +kernel
  cases hparse : Fragment.parse t with
  | error e =>
    rw [hparse] at hok
    cases hok
  | ok nodes => exact ⟨nodes, hb, hplain, rfl, namesAll_of_parse hb hplain hparse, by decide +kernel⟩

end Token

end SigilScript
