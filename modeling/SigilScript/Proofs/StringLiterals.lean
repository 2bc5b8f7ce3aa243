import Mathlib.Data.List.Basic
import SigilScript.Proofs.NumeralToken
import SigilScript.Proofs.TokenGrammar

/-!
String literals. A text is written between quotes with a backslash before each backslash and each quote in it. The
scanner of scripts and that of expressions each have their own way through such a string, and differ where it is not
closed. Where it is, both take what stands before the first quote that is not escaped, and find the same content.
-/
namespace SigilScript

namespace Text

/-- A text as it stands between quotes. -/
def escape (quote : CodePoint) (t : Text) : Text :=
  t.flatMap fun c : CodePoint => if c = '\\' ∨ c = quote then [('\\' : CodePoint), c] else [c]

/-- A text as it is written as a string. -/
def literal (quote : CodePoint) (t : Text) : Text := quote :: (t.escape quote ++ [quote])

theorem escape_cons (quote c : CodePoint) (t : Text) :
    escape quote (c :: t) = (if c = '\\' ∨ c = quote then [('\\' : CodePoint), c] else [c]) ++ escape quote t :=
  List.flatMap_cons

end Text

theorem Token.unescapes_escape (quote : CodePoint) (t : Text) : Unescapes quote (t.escape quote) t := by
  induction t with
  | nil => exact .done
  | cons c t ih =>
    rw [Text.escape_cons]
    by_cases hc : c = '\\' ∨ c = quote
    · rw [if_pos hc]
      exact .escaped c ih
    · rw [if_neg hc]
      obtain ⟨hescape, hquote⟩ := not_or.mp hc
      exact .plain hescape hquote ih

variable {quote : CodePoint} {body value after rest : Text}

theorem Argument.isQuote_iff : isQuote quote ↔ quote = '"' ∨ quote = '\'' := by
  simp [isQuote]

theorem ne_backslash_of_isQuote (h : Argument.isQuote quote) : quote ≠ '\\' := by
  rcases Argument.isQuote_iff.mp h with rfl | rfl <;> decide

theorem not_isBlank_of_isQuote (h : Argument.isQuote quote) : quote.isBlank = false := by
  rcases Argument.isQuote_iff.mp h with rfl | rfl <;> rfl

/-! Expressions -/

namespace ExprToken

open Token (Unescapes)

theorem stringContent?_cons {c : CodePoint} (hescape : c ≠ '\\') (rest : Text) :
    stringContent? quote (c :: rest) =
      if c = quote then some ([], 1) else (stringContent? quote rest).map fun found => (c :: found.1, found.2 + 1) := by
  rw [stringContent?.eq_def]
  exact if_neg hescape

theorem stringContent?_escaped (c : CodePoint) (rest : Text) :
    stringContent? quote (('\\' : CodePoint) :: c :: rest) =
      (stringContent? quote rest).map fun found => (c :: found.1, found.2 + 2) := by
  rw [stringContent?.eq_def]
  exact if_pos rfl

theorem stringContent?_append (hquote : quote ≠ '\\') (h : Unescapes quote body value) (after : Text) :
    stringContent? quote (body ++ quote :: after) = some (value, body.length + 1) := by
  induction h with
  | done => rw [List.nil_append, stringContent?_cons hquote, if_pos rfl, List.length_nil]
  | plain hescape hplain _ ih =>
    rw [List.cons_append, stringContent?_cons hescape, if_neg hplain, ih, List.length_cons]
    rfl
  | escaped c _ ih =>
    rw [List.cons_append, List.cons_append, stringContent?_escaped, ih, List.length_cons, List.length_cons]
    rfl

/-- A content is found only where a quote closes the string. -/
theorem unescapes_of_stringContent? {n : Nat} (h : stringContent? quote rest = some (value, n)) :
    ∃ body after, rest = body ++ quote :: after ∧ Unescapes quote body value := by
  fun_induction stringContent? quote rest generalizing value n with
  | case1 => cases h
  | case2 => cases h
  | case3 c rest ih =>
    obtain ⟨⟨value, n⟩, hread, he⟩ := Option.map_eq_some_iff.mp h
    cases he
    obtain ⟨body, after, rfl, hbody⟩ := ih hread
    exact ⟨('\\' : CodePoint) :: c :: body, after, rfl, .escaped c hbody⟩
  | case4 rest hquote =>
    cases h
    exact ⟨[], rest, rfl, .done⟩
  | case5 c rest hescape hplain ih =>
    obtain ⟨⟨value, n⟩, hread, he⟩ := Option.map_eq_some_iff.mp h
    cases he
    obtain ⟨body, after, rfl, hbody⟩ := ih hread
    exact ⟨c :: body, after, rfl, .plain hescape hplain hbody⟩

theorem lexemeAt_quote (hquote : Argument.isQuote quote) (position : Nat) (rest : Text) :
    lexemeAt position quote rest = (stringContent? quote rest).elim (.error (.unterminatedString position))
      fun found => .ok (.string found.1, found.2) := by
  have hnumber : startsNumber quote rest = false := by
    rcases Argument.isQuote_iff.mp hquote with rfl | rfl <;> rfl
  rw [lexemeAt, hnumber, if_neg Bool.false_ne_true, if_pos (Argument.isQuote_iff.mp hquote)]
  cases stringContent? quote rest <;> rfl

/-- A string that is closed is one token, and scanning goes on after its quote. -/
theorem scanFrom_string (hquote : Argument.isQuote quote) (h : Unescapes quote body value) (position : Nat)
    (after : Text) :
    scanFrom position (quote :: (body ++ quote :: after)) =
      (scanFrom (position + 1 + (body.length + 1)) after).map (⟨.string value, position⟩ :: ·) := by
  have hlexeme : lexemeAt position quote (body ++ quote :: after) = .ok (.string value, body.length + 1) := by
    rw [lexemeAt_quote hquote, stringContent?_append (ne_backslash_of_isQuote hquote) h, Option.elim_some]
  rw [scanFrom_lexeme (not_isBlank_of_isQuote hquote) hlexeme, ← List.drop_drop, List.drop_left]
  rfl

/-- Where an expression that starts with a quote has tokens, the quote is closed. -/
theorem closed_of_scanFrom (hquote : Argument.isQuote quote) {position : Nat} {tokens : List ExprToken}
    (h : scanFrom position (quote :: rest) = .ok tokens) :
    ∃ body value after, rest = body ++ quote :: after ∧ Unescapes quote body value := by
  rw [scanFrom, not_isBlank_of_isQuote hquote, if_neg Bool.false_ne_true, lexemeAt_quote hquote] at h
  cases hread : stringContent? quote rest with
  | none =>
    rw [hread] at h
    cases h
  | some found =>
    obtain ⟨body, after, hrest, hbody⟩ := unescapes_of_stringContent? hread
    exact ⟨body, found.1, after, hrest, hbody⟩

end ExprToken

/-! Scripts -/

namespace Token

theorem stringContent_cons {c : CodePoint} (hescape : c ≠ '\\') (rest : Text) :
    stringContent quote (c :: rest) =
      if c = quote then ([], 1) else (c :: (stringContent quote rest).1, (stringContent quote rest).2 + 1) := by
  rw [stringContent.eq_def]
  exact if_neg hescape

theorem stringContent_escaped (c : CodePoint) (rest : Text) :
    stringContent quote (('\\' : CodePoint) :: c :: rest) =
      (c :: (stringContent quote rest).1, (stringContent quote rest).2 + 2) := by
  rw [stringContent.eq_def]
  exact if_pos rfl

/-- Where the scanner of expressions finds a content, that of scripts finds it too, and takes as much text. -/
theorem stringContent_eq {t : Text} {found : Text × Nat} (h : ExprToken.stringContent? quote t = some found) :
    stringContent quote t = found := by
  fun_induction ExprToken.stringContent? quote t generalizing found with
  | case1 => cases h
  | case2 => cases h
  | case3 c rest ih =>
    obtain ⟨later, hread, rfl⟩ := Option.map_eq_some_iff.mp h
    rw [stringContent_escaped, ih hread]
  | case4 rest hquote =>
    cases h
    rw [stringContent_cons hquote, if_pos rfl]
  | case5 c rest hescape hplain ih =>
    obtain ⟨later, hread, rfl⟩ := Option.map_eq_some_iff.mp h
    rw [stringContent_cons hescape, if_neg hplain, ih hread]

theorem lexeme_quote (hquote : Argument.isQuote quote) (rest : Text) :
    lexeme quote rest = ⟨some .string, (stringContent quote rest).1, (stringContent quote rest).2⟩ := by
  rcases Argument.isQuote_iff.mp hquote with rfl | rfl <;> rfl

/-- A string that is closed is one token here as well. -/
theorem scanFrom_string (hquote : Argument.isQuote quote) (h : Unescapes quote body value) (p : Position)
    (after : Text) :
    scanFrom p (quote :: (body ++ quote :: after)) =
      ⟨.string, value, p⟩ :: scanFrom (p.after (quote :: (body ++ [quote]))) after := by
  have hclosed : body ++ quote :: after = (body ++ [quote]) ++ after := List.append_cons body quote after
  have hlength : body.length + 1 = (body ++ [quote]).length := by
    rw [List.length_append, List.length_singleton]
  have hcontent := stringContent_eq (ExprToken.stringContent?_append (ne_backslash_of_isQuote hquote) h after)
  rw [scanFrom, lexeme_quote hquote, hcontent]
  simp only [hclosed, hlength, List.take_left, List.drop_left]

end Token

/-- Every text can be written as a string with either quote: both scanners read the literal as one string token with
that text as its value, and then the end. And a text that starts with a quote and has tokens as an expression starts
with a string that is closed, which both scanners take for the same value. -/
theorem string_read_alike (hquote : Argument.isQuote quote) :
    (∀ t : Text,
      Token.scan (t.literal quote) =
        [⟨.string, t, .start⟩, ⟨.endOfInput, [], Position.start.after (t.literal quote)⟩] ∧
      ExprToken.scan (t.literal quote) =
        .ok [⟨.string t, 0⟩, ⟨.endOfInput, (t.literal quote).length⟩]) ∧
    ∀ (rest : Text) (tokens : List ExprToken), ExprToken.scan (quote :: rest) = .ok tokens →
      ∃ body value after, rest = body ++ quote :: after ∧ Token.Unescapes quote body value ∧
        tokens.head? = some ⟨.string value, 0⟩ ∧
        (Token.scan (quote :: rest)).head? = some ⟨.string, value, .start⟩ := by
  refine ⟨fun t => ⟨?_, ?_⟩, fun rest tokens h => ?_⟩
  · rw [Token.scan, Text.literal, Token.scanFrom_string hquote (Token.unescapes_escape quote t), Token.scanFrom]
  · rw [ExprToken.scan, Text.literal, ExprToken.scanFrom_string hquote (Token.unescapes_escape quote t),
      ExprToken.scanFrom, List.length_cons, List.length_append, List.length_singleton, Nat.zero_add, Nat.add_comm 1]
    rfl
  · obtain ⟨body, value, after, rfl, hbody⟩ := ExprToken.closed_of_scanFrom hquote h
    refine ⟨body, value, after, rfl, hbody, ?_, ?_⟩
    · rw [ExprToken.scan, ExprToken.scanFrom_string hquote hbody] at h
      cases hothers : ExprToken.scanFrom (0 + 1 + (body.length + 1)) after with
      | error e =>
        rw [hothers] at h
        cases h
      | ok others =>
        rw [hothers] at h
        cases h
        rfl
    · rw [Token.scan, Token.scanFrom_string hquote hbody]
      rfl

/-- A backslash and a quote at the end of a string, and a string that does not end its expression. -/
theorem string_read_alike_backslashes :
    Argument.isQuote '"' ∧
      Token.scan "\"a\\\\\\\"\"" = [⟨.string, "a\\\"", .start⟩, ⟨.endOfInput, [], ⟨1, 8⟩⟩] ∧
      ExprToken.scan "\"a\\\\\\\"\"" = .ok [⟨.string "a\\\"", 0⟩, ⟨.endOfInput, 7⟩] ∧
      ∃ tokens, ExprToken.scan "\"\\\\\" == \"b\"" = .ok tokens ∧
        ∃ value, tokens.head? = some ⟨.string value, 0⟩ ∧
          (Token.scan "\"\\\\\" == \"b\"").head? = some ⟨.string, value, .start⟩ := by
  obtain ⟨hliteral, hfirst⟩ := @string_read_alike '"' rfl
  obtain ⟨hscript, hexpr⟩ := hliteral "a\\\""
  obtain ⟨tokens, htokens⟩ : ∃ tokens, ExprToken.scan "\"\\\\\" == \"b\"" = .ok tokens := ⟨_, by cbv⟩
  obtain ⟨body, value, after, -, -, hhead, hsame⟩ := hfirst _ tokens htokens
  exact ⟨rfl, hscript, hexpr, tokens, htokens, value, hhead, hsame⟩

end SigilScript
