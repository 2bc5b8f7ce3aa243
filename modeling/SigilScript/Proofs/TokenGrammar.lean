import SigilScript.Argument
import SigilScript.Proofs.BlockGrammar
import SigilScript.Token.Scan

/-!
The grammar of tokens: for each class, which stretches of text spell a token of it, what its value is then, and what
may come after it. A name, a number or a word goes on as far as it can, and a string that is not closed goes on to
the end. Scanning takes one stretch after the other: a blank, a comment or a token.
-/
namespace SigilScript.Token

/-- A blank between tokens. -/
def IsGap (c : CodePoint) : Prop := c = ' ' ∨ c = '\t' ∨ c = '\r' ∨ c = '\n'

instance (c : CodePoint) : Decidable (IsGap c) := inferInstanceAs (Decidable (_ ∨ _))

/-- A text does not go on with a code point of a class. -/
def Ends (p : CodePoint → Bool) (after : Text) : Prop := ∀ c, after.head? = some c → p c = false

/-- The marks before names. -/
def references : List (TokenKind × CodePoint) := [(.function, sigil), (.variableName, variableMark)]

def symbols : List (TokenKind × CodePoint) := [(.leftBracket, '['), (.rightBracket, ']'), (.semicolon, ';')]

theorem mem_references {kind : TokenKind} {c : CodePoint} :
    (kind, c) ∈ references ↔ kind = .function ∧ c = sigil ∨ kind = .variableName ∧ c = variableMark := by
  simp [references]

theorem mem_symbols {kind : TokenKind} {c : CodePoint} : (kind, c) ∈ symbols ↔
    kind = .leftBracket ∧ c = '[' ∨ kind = .rightBracket ∧ c = ']' ∨ kind = .semicolon ∧ c = ';' := by
  simp [symbols]

def isNumberPart (c : CodePoint) : Bool := c.isDigit || c = '.'

/-- The text between the quotes of a string, and the content that it stands for. -/
inductive Unescapes (quote : CodePoint) : Text → Text → Prop
  | done : Unescapes quote [] []
  | plain {c : CodePoint} {body value : Text} (hescape : c ≠ '\\') (hquote : c ≠ quote)
      (h : Unescapes quote body value) : Unescapes quote (c :: body) (c :: value)
  | escaped (c : CodePoint) {body value : Text} (h : Unescapes quote body value) :
      Unescapes quote (('\\' : CodePoint) :: c :: body) (c :: value)

/-- A token of a class and with a value is written as a stretch of text, if something comes after it. -/
inductive Spells : TokenKind → Text → Text → Text → Prop
  | reference {kind : TokenKind} {mark : CodePoint} {name after : Text} (hmark : (kind, mark) ∈ references)
      (hname : name.isName) (hends : Ends CodePoint.isIdentifierPart after) :
      Spells kind name (mark :: name) after
  | loneMark {kind : TokenKind} {mark : CodePoint} {after : Text} (hmark : (kind, mark) ∈ references)
      (hends : Ends CodePoint.isIdentifierStart after) : Spells .other [mark] [mark] after
  | symbol {kind : TokenKind} {c : CodePoint} (hsymbol : (kind, c) ∈ symbols) (after : Text) :
      Spells kind [c] [c] after
  | closedString {quote : CodePoint} {body value : Text} (hquote : Argument.isQuote quote)
      (h : Unescapes quote body value) (after : Text) : Spells .string value (quote :: (body ++ [quote])) after
  | openString {quote : CodePoint} {body value : Text} (hquote : Argument.isQuote quote)
      (h : Unescapes quote body value) : Spells .string value (quote :: body) []
  | openEscape {quote : CodePoint} {body value : Text} (hquote : Argument.isQuote quote)
      (h : Unescapes quote body value) : Spells .string value (quote :: (body ++ [('\\' : CodePoint)])) []
  | number {c : CodePoint} {more after : Text} (hfirst : c.isDigit) (hmore : ∀ d ∈ more, isNumberPart d)
      (hends : Ends isNumberPart after) : Spells .number (c :: more) (c :: more) after
  | word {c : CodePoint} {more after : Text} (hdigit : c.isDigit = false)
      (hword : ∀ d ∈ c :: more, d.isBarewordPart) (hends : Ends CodePoint.isBarewordPart after) :
      Spells (wordKind (c :: more)) (c :: more) (c :: more) after
  | other {c : CodePoint} (hgap : ¬ IsGap c) (hcomment : c ≠ commentMark) (hmark : ∀ p ∈ references, c ≠ p.2)
      (hsymbol : ∀ p ∈ symbols, c ≠ p.2) (hquote : Argument.isQuote c = false) (hdigit : c.isDigit = false)
      (hword : c.isBarewordPart = false) (after : Text) : Spells .other [c] [c] after

theorem exists_run (p : CodePoint → Bool) (t : Text) :
    ∃ run after, t = run ++ after ∧ t.takeWhile p = run ∧ (∀ c ∈ run, p c) ∧ Ends p after := by
  refine ⟨_, t.dropWhile p, List.takeWhile_append_dropWhile.symm, rfl, fun c hc => List.mem_takeWhile_imp hc, ?_⟩
  intro c hc
  have hnot := List.head?_dropWhile_not p t
  rw [hc] at hnot
  exact hnot

/-- What a lexeme takes: a blank, a comment up to the end of its line, or the stretch of a token. -/
inductive Takes (c : CodePoint) (rest : Text) : Lexeme → Prop
  | gap (h : IsGap c) : Takes c rest ⟨none, [], 0⟩
  | comment {body after : Text} (h : c = commentMark) (hrest : rest = body ++ after)
      (hline : ∀ d ∈ body, d ≠ ('\n' : CodePoint)) (hends : Ends (fun d : CodePoint => d ≠ '\n') after) :
      Takes c rest ⟨none, [], body.length⟩
  | token {kind : TokenKind} {value more after : Text} (hrest : rest = more ++ after)
      (h : Spells kind value (c :: more) after) : Takes c rest ⟨some kind, value, more.length⟩

theorem Takes.single {c : CodePoint} {rest value : Text} {kind : TokenKind} (h : Spells kind value [c] rest) :
    Takes c rest ⟨some kind, value, 0⟩ := .token (List.nil_append rest).symm h

theorem takes_reference {kind : TokenKind} {mark : CodePoint} (hmark : (kind, mark) ∈ references) (rest : Text) :
    Takes mark rest (reference kind mark rest) := by
  rcases hfound : rest.takeIdentifier with ⟨name, after⟩
  rw [reference, hfound]
  cases name with
  | nil =>
    refine .single (.loneMark hmark fun c hc => ?_)
    cases rest with
    | nil => cases hc
    | cons d rest =>
      cases hc
      by_contra hstart
      rw [Text.takeIdentifier, if_pos (by simpa using hstart)] at hfound
      cases hfound
  | cons c name =>
    obtain ⟨hrest, hname, hends⟩ := (Text.takeIdentifier_eq_iff (List.cons_ne_nil c name) rest after).mp hfound
    exact .token hrest (.reference hmark hname hends)

/-- The content of a string is read up to its closing quote, or to the end of the text. -/
theorem exists_stringContent (quote : CodePoint) (t : Text) :
    ∃ body more after, t = more ++ after ∧ (stringContent quote t).2 = more.length ∧
      Unescapes quote body (stringContent quote t).1 ∧
      (more = body ++ [quote] ∨ after = [] ∧ (more = body ∨ more = body ++ [('\\' : CodePoint)])) := by
  fun_induction stringContent quote t with
  | case1 => exact ⟨[], [], [], rfl, rfl, .done, .inr ⟨rfl, .inl rfl⟩⟩
  | case2 => exact ⟨[], [('\\' : CodePoint)], [], rfl, rfl, .done, .inr ⟨rfl, .inr rfl⟩⟩
  | case3 c rest value length hread ih =>
    rw [hread] at ih
    obtain ⟨body, more, after, rfl, hlength, hbody, hends⟩ := ih
    refine ⟨('\\' : CodePoint) :: c :: body, ('\\' : CodePoint) :: c :: more, after, rfl, ?_, .escaped c hbody, ?_⟩
    · simpa using hlength
    · simpa using hends
  | case4 rest hquote => exact ⟨[], [quote], rest, rfl, rfl, .done, .inl rfl⟩
  | case5 c rest hescape hquote value length hread ih =>
    rw [hread] at ih
    obtain ⟨body, more, after, rfl, hlength, hbody, hends⟩ := ih
    refine ⟨c :: body, c :: more, after, rfl, ?_, .plain hescape hquote hbody, ?_⟩
    · simpa using hlength
    · simpa using hends

theorem takes_string {quote : CodePoint} (hquote : Argument.isQuote quote) (rest : Text) :
    Takes quote rest ⟨some .string, (stringContent quote rest).1, (stringContent quote rest).2⟩ := by
  obtain ⟨body, more, after, hrest, hlength, hbody, hends⟩ := exists_stringContent quote rest
  rw [hlength]
  refine .token hrest ?_
  rcases hends with rfl | ⟨rfl, rfl | rfl⟩
  · exact .closedString hquote hbody after
  · exact .openString hquote hbody
  · exact .openEscape hquote hbody

/-- Whatever a text starts with, the lexeme that is found there is one that the grammar has. -/
theorem takes_lexeme (c : CodePoint) (rest : Text) : Takes c rest (lexeme c rest) := by
  rw [lexeme]
  by_cases hgap : c = ' ' ∨ c = '\t' ∨ c = '\r' ∨ c = '\n'
  · rw [if_pos hgap]
    exact .gap hgap
  rw [if_neg hgap]
  by_cases hcomment : c = commentMark
  · obtain ⟨body, after, hrest, hbody, hline, hends⟩ := exists_run (fun d : CodePoint => d ≠ '\n') rest
    rw [if_pos hcomment, hbody]
    exact .comment hcomment hrest (fun d hd => by simpa using hline d hd) hends
  rw [if_neg hcomment]
  by_cases hsigil : c = sigil
  · rw [if_pos hsigil]
    exact takes_reference (mem_references.mpr (.inl ⟨rfl, hsigil⟩)) rest
  rw [if_neg hsigil]
  by_cases hvariable : c = variableMark
  · rw [if_pos hvariable]
    exact takes_reference (mem_references.mpr (.inr ⟨rfl, hvariable⟩)) rest
  rw [if_neg hvariable]
  by_cases hleft : c = '['
  · rw [if_pos hleft]
    exact .single (.symbol (mem_symbols.mpr (.inl ⟨rfl, hleft⟩)) rest)
  rw [if_neg hleft]
  by_cases hright : c = ']'
  · rw [if_pos hright]
    exact .single (.symbol (mem_symbols.mpr (.inr (.inl ⟨rfl, hright⟩))) rest)
  rw [if_neg hright]
  by_cases hsemicolon : c = ';'
  · rw [if_pos hsemicolon]
    exact .single (.symbol (mem_symbols.mpr (.inr (.inr ⟨rfl, hsemicolon⟩))) rest)
  rw [if_neg hsemicolon]
  by_cases hquote : c = '"' ∨ c = '\''
  · rw [if_pos hquote]
    exact takes_string (by simpa [Argument.isQuote] using hquote) rest
  rw [if_neg hquote]
  by_cases hdigit : c.isDigit
  · obtain ⟨more, after, hrest, hmore, hparts, hends⟩ := exists_run isNumberPart rest
    have hmore : rest.takeWhile (fun d : CodePoint => d.isDigit || d = '.') = more := hmore
    rw [if_pos hdigit, hmore]
    exact .token hrest (.number hdigit hparts hends)
  rw [if_neg hdigit]
  have hdigit := Bool.eq_false_iff.mpr hdigit
  by_cases hword : c.isBarewordPart
  · obtain ⟨more, after, hrest, hmore, hparts, hends⟩ := exists_run CodePoint.isBarewordPart rest
    rw [if_pos hword, hmore]
    exact .token hrest (.word hdigit (List.forall_mem_cons.mpr ⟨hword, hparts⟩) hends)
  rw [if_neg hword]
  refine .single (.other hgap hcomment ?_ ?_ ?_ hdigit (Bool.eq_false_iff.mpr hword) rest)
  · simp [references, hsigil, hvariable]
  · simp [symbols, hleft, hright, hsemicolon]
  · simpa [Argument.isQuote] using hquote

/-- What holds of the tokens of a text, by the stretches of the text: its end, a blank, a comment, and a token, which
has the position at which it starts. -/
theorem scanFrom_induction {P : Position → Text → List Token → Prop}
    (hend : ∀ p, P p [] [⟨.endOfInput, [], p⟩])
    (hgap : ∀ p c after, IsGap c → P (p.next c) after (scanFrom (p.next c) after) →
      P p (c :: after) (scanFrom (p.next c) after))
    (hcomment : ∀ p body after, (∀ d ∈ body, d ≠ ('\n' : CodePoint)) → Ends (fun d : CodePoint => d ≠ '\n') after →
      P (p.after (commentMark :: body)) after (scanFrom (p.after (commentMark :: body)) after) →
      P p (commentMark :: (body ++ after)) (scanFrom (p.after (commentMark :: body)) after))
    (htoken : ∀ p kind value stretch after, Spells kind value stretch after →
      P (p.after stretch) after (scanFrom (p.after stretch) after) →
      P p (stretch ++ after) (⟨kind, value, p⟩ :: scanFrom (p.after stretch) after))
    (p : Position) (t : Text) : P p t (scanFrom p t) := by
  have hshorter : ∀ (c : CodePoint) (more after : Text), after.length < (c :: (more ++ after)).length := by
    intro c more after
    rw [List.length_cons, List.length_append]
    omega
  induction hlength : t.length using Nat.strong_induction_on generalizing p t with
  | _ n ih =>
    subst hlength
    cases t with
    | nil =>
      rw [scanFrom]
      exact hend p
    | cons c rest =>
      have htakes := takes_lexeme c rest
      rw [scanFrom]
      generalize lexeme c rest = l at htakes
      cases htakes with
      | gap h => exact hgap p c rest h (ih _ (hshorter c [] rest) _ _ rfl)
      | comment h hrest hline hends =>
        subst h hrest
        simp only [List.take_left, List.drop_left]
        exact hcomment p _ _ hline hends (ih _ (hshorter _ _ _) _ _ rfl)
      | token hrest h =>
        subst hrest
        simp only [List.take_left, List.drop_left]
        exact htoken p _ _ _ _ h (ih _ (hshorter _ _ _) _ _ rfl)

end SigilScript.Token
