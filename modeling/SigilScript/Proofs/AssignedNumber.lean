import SigilScript.Proofs.ArithmeticText
import SigilScript.Proofs.StoredContent
import SigilScript.Proofs.ValidatedProgram

/-!
Numbers that are assigned. A value with a sign in it is taken for arithmetic, and then everything but ASCII
digits, points and operators is dropped from it. So a number is kept if there is nothing to drop, or no sign;
but the plain notation of a number has a sign before its exponent, and whenever it has an exponent, the
variable gets another number.
-/
namespace SigilScript

/-! Texts that are taken as they are -/

theorem Substitution.substitute_of_not_mem (store : Store) {t : Text} (h : variableMark ∉ t) :
    substitute store t = t := by
  rw [substitute, substituteKeeping, if_neg h]

theorem CodePoint.not_isBlank_of_isIdentifierPart {c : CodePoint} (h : c.isIdentifierPart) : c.isBlank = false := by
  refine Bool.eq_false_iff.mpr fun hblank => ?_
  obtain ⟨r, hr, hlow, hhigh⟩ := exists_of_inRanges hblank
  have hapart : ∀ r ∈ blankRanges, r.2 < 48 ∨ 122 < r.1 := by decide
  have houtside : r.2 < 48 ∨ 122 < r.1 := hapart r hr
  simp only [isIdentifierPart, isIdentifierStart, isAsciiDigit, Bool.or_eq_true, Bool.and_eq_true,
    decide_eq_true_eq] at h
  omega

theorem Text.strip_of_isName {name : Text} (h : name.isName) : name.strip = name :=
  strip_of_not_blank fun c hc => CodePoint.not_isBlank_of_isIdentifierPart (isIdentifierPart_of_isName h c hc)

/-- The code points that mean something in arguments. -/
def Argument.marks : List CodePoint := ['"', '\'', '[', ']', ';', sigil]

theorem Argument.isPlain_of_marks {t : Text} (h : ∀ mark ∈ marks, mark ∉ t) : IsPlain t := by
  intro c hc
  have hne : ∀ mark ∈ marks, c ≠ mark := fun mark hmark heq => h mark hmark (heq ▸ hc)
  refine ⟨fun hq => ?_, hne _ (by decide), hne _ (by decide), hne _ (by decide), hne _ (by decide)⟩
  simp only [isQuote, Bool.or_eq_true, decide_eq_true_eq] at hq
  exact hq.elim (hne _ (by decide)) (hne _ (by decide))

theorem Argument.isPlain_of_isName {name : Text} (h : name.isName) : IsPlain name := by
  have hapart : ∀ mark ∈ marks, mark.isIdentifierPart = false := by decide
  refine isPlain_of_marks fun mark hmark hm => ?_
  have hpart := isIdentifierPart_of_isName h mark hm
  rw [hapart mark hmark] at hpart
  cases hpart

theorem Argument.split_of_plain {t : Text} (h : IsPlain t) (hne : t ≠ []) : split t = [t] :=
  splitFrom_last (fun hm => (h _ hm).2.2.2.1 rfl) hne

theorem Text.strip_strip (t : Text) : t.strip.strip = t.strip := by
  obtain ⟨trailing, ht, htrailing⟩ := t.eq_blanks_append_strip
  symm
  calc t.strip = strip (t.takeWhile CodePoint.isBlank ++ (t.strip ++ trailing)) := congrArg strip ht
    _ = strip (t.strip ++ trailing) := strip_blanks_append isBlank_of_mem_takeWhile
    _ = t.strip.strip := strip_append_blanks htrailing

theorem Text.number?_strip (t : Text) : t.strip.number? = t.number? := by
  rw [number?, number?, strip_strip]

/-- A number, with blanks around it or not, has no code point that means anything in an argument. -/
theorem not_mem_number {t : Text} {x : Binary64} (h : t.number? = some x) {c : CodePoint}
    (hblank : c.isBlank = false) (hnumeric : c.isNumeric = false) : c ∉ t := by
  intro hc
  obtain ⟨n, hn, -⟩ := Option.map_eq_some_iff.mp h
  obtain ⟨trailing, ht, htrailing⟩ := t.eq_blanks_append_strip
  rw [ht, List.mem_append, List.mem_append] at hc
  rcases hc with hc | hc | hc
  · exact absurd (Text.isBlank_of_mem_takeWhile c hc) (by rw [hblank]; exact Bool.false_ne_true)
  · exact absurd (Numeral.isNumeric_of_ofText? hn c hc) (by rw [hnumeric]; exact Bool.false_ne_true)
  · exact absurd (htrailing c hc) (by rw [hblank]; exact Bool.false_ne_true)

theorem isPlain_number {t : Text} {x : Binary64} (h : t.number? = some x) : Argument.IsPlain t := by
  have hapart : ∀ mark ∈ Argument.marks, mark.isBlank = false ∧ mark.isNumeric = false := by decide
  exact Argument.isPlain_of_marks fun mark hmark => not_mem_number h (hapart mark hmark).1 (hapart mark hmark).2

/-- A numeral that is written out stands for itself. -/
theorem Dispatcher.runFrom_argument_numeral (d : Dispatcher) {t : Text} {n : Numeral} (h : Numeral.ofText? t = some n)
    (c : Context) : (d.argument t).runFrom c = (.ok t, c) := by
  have hnumber := Text.number?_of_numeral h
  have hmark : variableMark ∉ t := not_mem_number hnumber (by decide) (by decide)
  rw [d.runFrom_argument_plain (isPlain_number hnumber), Text.strip_of_numeral h,
    Substitution.substitute_of_not_mem _ hmark]

/-! Errors -/

/-- The errors that were reported. -/
def Context.errors (c : Context) : List Diagnostic := c.diagnostics.filter (·.severity = .error)

theorem Context.errors_push (c : Context) (d : Diagnostic) :
    Context.errors { c with events := c.events.push (.diagnostic d) } =
      c.errors ++ if d.severity = .error then [d] else [] := by
  simp [Context.errors, Context.diagnostics, List.filter_cons]

theorem Exec.runFrom_trace (rule message : String) (c : Context) :
    ∃ c', (Exec.trace rule message).runFrom c = (.ok (), c') ∧ c'.store = c.store ∧ c'.errors = c.errors := by
  rw [Exec.trace, Exec.runFrom_bind, Exec.runFrom_get, Ending.andThen_ok]
  split
  · exact ⟨_, rfl, rfl, (c.errors_push _).trans (List.append_nil _)⟩
  · exact ⟨c, rfl, rfl, rfl⟩

theorem Exec.runFrom_error (rule message : String) (c : Context) :
    ∃ c' d, (Exec.error rule message).runFrom c = (.ok (), c') ∧ c'.errors = c.errors ++ [d] :=
  ⟨_, _, rfl, c.errors_push _⟩

namespace Directive

/-! The run of an assignment -/

/-- The text that is assigned in place of a plain one. -/
def evaluated (t : Text) : Exec Text := if Arithmetic.looksArithmetic t then arithmetic t else pure t

theorem runFrom_assignVariable (d : Dispatcher) {name t : Text} (hname : name.isName) (ht : Argument.IsPlain t)
    (hmark : variableMark ∉ t) {c c₁ : Context} {v : Text} (hrun : (evaluated t.strip).runFrom c = (.ok v, c₁)) :
    ∃ c', (assignVariable d (name ++ (Text.ofString "; " ++ t))).runFrom c = (.ok .nothing, c') ∧
      c'.store.lookup name = some (Argument.unquote v) ∧ c'.errors = c₁.errors := by
  have hspace : Argument.IsPlain ((' ' : CodePoint) :: t) := List.forall_mem_cons.mpr ⟨by decide, ht⟩
  have hsplit : Argument.split (name ++ (Text.ofString "; " ++ t)) = [name, (' ' : CodePoint) :: t] :=
    (Argument.split_plain_append (Argument.isPlain_of_isName hname) _).trans
      (congrArg (name :: ·) (Argument.split_of_plain hspace (List.cons_ne_nil _ _)))
  have hstrip : Text.strip ((' ' : CodePoint) :: t) = t.strip :=
    @Text.strip_blanks_append t [(' ' : CodePoint)] (by decide)
  have hjoin : Text.join ";" [(' ' : CodePoint) :: t] = (' ' : CodePoint) :: t := by
    simp [Text.join, List.intercalate]
  have hresolve := d.runFrom_resolve_of_not_mem (t := t.strip)
    (fun hm => (ht _ (t.strip_isInfix.subset hm)).2.2.2.2 rfl) c
  rw [Substitution.substitute_of_not_mem c.store fun hm => hmark (t.strip_isInfix.subset hm)] at hresolve
  let c₂ : Context := { c₁ with store := Store.assign name (Argument.unquote v) c₁.store }
  have hset : (Exec.setVariable name (Argument.unquote v)).runFrom c₁ = (.ok (), c₂) := by
    rw [Exec.setVariable, hname]
    rfl
  obtain ⟨c', htrace, hstore, herrors⟩ := Exec.runFrom_trace "VAR" s!"{name} = {Argument.unquote v}" c₂
  refine ⟨c', ?_, ?_, herrors⟩
  · have hfinish : (do
        Exec.setVariable name (Argument.unquote v)
        Exec.trace "VAR" s!"{name} = {Argument.unquote v}"
        return Reply.nothing : Exec Reply).runFrom c₁ = (.ok .nothing, c') := by
      rw [Exec.runFrom_bind, hset, Ending.andThen_ok, Exec.runFrom_bind, htrace]
      rfl
    rw [assignVariable, hsplit]
    dsimp only
    rw [Text.strip_of_isName hname, hname, Bool.not_true, if_neg Bool.false_ne_true, hjoin, hstrip,
      Exec.runFrom_bind, hresolve, Ending.andThen_ok]
    rw [evaluated] at hrun
    split at hrun
    · rename_i harithmetic
      rw [if_pos harithmetic, Exec.runFrom_bind, hrun]
      exact hfinish
    · rename_i harithmetic
      rw [if_neg harithmetic, Exec.runFrom_bind, hrun]
      exact hfinish
  · rw [hstore]
    exact Store.lookup_assign_self _ _ _

/-- Arithmetic has a finite value, which is written, or an error is reported. -/
theorem runFrom_arithmetic_cases (t : Text) (c : Context) :
    (∃ y, Arithmetic.eval t = .ok y ∧ y.isFinite ∧
      (arithmetic t).runFrom c = (.ok (Text.ofString y.format), c)) ∨
    (∀ y, Arithmetic.eval t = .ok y → ¬y.isFinite) ∧
      ∃ c' d, (arithmetic t).runFrom c = (.ok (Text.ofString "0"), c') ∧ c'.errors = c.errors ++ [d] := by
  cases heval : Arithmetic.eval t with
  | error e =>
    obtain ⟨c', d, herror, herrors⟩ := Exec.runFrom_error "MATH" s!"Cannot evaluate '{t}': {e.message}" c
    refine .inr ⟨fun y hy => (by cases hy), c', d, ?_, herrors⟩
    rw [arithmetic, heval]
    dsimp only
    rw [Exec.runFrom_bind, herror]
    rfl
  | ok y =>
    by_cases hfinite : y.isFinite
    · refine .inl ⟨y, rfl, hfinite, ?_⟩
      rw [arithmetic, heval]
      dsimp only
      rw [finiteOrZero, if_pos hfinite]
      rfl
    · obtain ⟨c', d, herror, herrors⟩ :=
        Exec.runFrom_error "MATH" s!"Result is not a finite number ({y.format})" c
      refine .inr ⟨fun z hz => ?_, c', d, ?_, herrors⟩
      · cases hz
        exact hfinite
      · rw [arithmetic, heval]
        dsimp only
        rw [finiteOrZero, if_neg hfinite, Exec.runFrom_bind, herror]
        rfl

/-! Numbers that are assigned -/

/-- After the assignment of a text, the variable has a value that is read as the number, and no error was
reported. -/
def Assigns (d : Dispatcher) (name t : Text) (x : Binary64) (c : Context) : Prop :=
  ∃ c' v y, (assignVariable d (name ++ (Text.ofString "; " ++ t))).runFrom c = (.ok .nothing, c') ∧
    c'.store.lookup name = some v ∧ v.number? = some y ∧ y.equals x ∧ c'.errors = c.errors

theorem Assigns.congr {d : Dispatcher} {name t : Text} {x y : Binary64} {c : Context} (h : Assigns d name t x c)
    (hxy : x.equals y) : Assigns d name t y c := by
  obtain ⟨c', v, z, hrun, hlookup, hv, hz, herrors⟩ := h
  exact ⟨c', v, z, hrun, hlookup, hv, Binary64.equals_trans hz hxy, herrors⟩

theorem number?_unquote {t : Text} {x : Binary64} (h : t.number? = some x) :
    (Argument.unquote t).number? = some x := by
  rw [Argument.unquote_plain (isPlain_number h), Text.number?_strip, h]

section Assigning

variable (d : Dispatcher) {name t : Text} (hname : name.isName) {x : Binary64} (ht : t.number? = some x)
  (c : Context)

include hname ht

theorem assigns_of_not_arithmetic (hfinite : x.isFinite) (h : Arithmetic.looksArithmetic t.strip = false) :
    Assigns d name t x c := by
  have hrun : (evaluated t.strip).runFrom c = (.ok t.strip, c) := by
    rw [evaluated, h, if_neg Bool.false_ne_true, Exec.runFrom_pure]
  have hmark : variableMark ∉ t := not_mem_number ht (by decide) (by decide)
  obtain ⟨c', hrun, hlookup, herrors⟩ := runFrom_assignVariable d hname (isPlain_number ht) hmark hrun
  exact ⟨c', _, x, hrun, hlookup, number?_unquote (t.number?_strip.trans ht), Binary64.equals_self hfinite, herrors⟩

/-- A number that is taken for arithmetic gives the value that it has as arithmetic. -/
theorem assigns_iff_of_arithmetic (h : Arithmetic.looksArithmetic t.strip) (z : Binary64) :
    Assigns d name t z c ↔ ∃ y, Arithmetic.eval t.strip = .ok y ∧ y.isFinite ∧ y.equals z := by
  have hevaluated : evaluated t.strip = arithmetic t.strip := if_pos h
  have hmark : variableMark ∉ t := not_mem_number ht (by decide) (by decide)
  have hassign {v : Text} {c₁ : Context} (hrun : (arithmetic t.strip).runFrom c = (.ok v, c₁)) :=
    runFrom_assignVariable d hname (isPlain_number ht) hmark (hevaluated ▸ hrun)
  rcases runFrom_arithmetic_cases t.strip c with ⟨y, heval, hfinite, hrun⟩ | ⟨hnone, c₁, e, hrun, hadded⟩
  · obtain ⟨c', hrun, hlookup, herrors⟩ := hassign hrun
    obtain ⟨y', hread, hy'⟩ := Binary64.number?_format hfinite
    have hvalue := number?_unquote hread
    constructor
    · rintro ⟨c'', v, w, hrun', hlookup', hv, hw, -⟩
      obtain rfl : c' = c'' := congrArg Prod.snd (hrun.symm.trans hrun')
      obtain rfl : Argument.unquote (Text.ofString y.format) = v := Option.some.inj (hlookup.symm.trans hlookup')
      obtain rfl : y' = w := Option.some.inj (hvalue.symm.trans hv)
      exact ⟨y, heval, hfinite, Binary64.equals_trans (Binary64.equals_symm hy') hw⟩
    · rintro ⟨y₂, heval₂, -, hz⟩
      obtain rfl : y = y₂ := Except.ok.inj (heval.symm.trans heval₂)
      exact ⟨c', _, y', hrun, hlookup, hvalue, Binary64.equals_trans hy' hz, herrors⟩
  · obtain ⟨c', hrun, -, herrors⟩ := hassign hrun
    constructor
    · rintro ⟨c'', -, -, hrun', -, -, -, hsame⟩
      obtain rfl : c' = c'' := congrArg Prod.snd (hrun.symm.trans hrun')
      rw [herrors, hadded] at hsame
      exact absurd hsame (by simp)
    · rintro ⟨y, heval, hfinite, -⟩
      exact absurd hfinite (hnone y heval)

end Assigning

/-- The code points of a number that are not dropped. -/
def IsKept (c : CodePoint) : Prop := c.isAsciiDigit ∨ c = '.' ∨ c = '+' ∨ c = '-'

theorem sign_of_looksArithmetic {t : Text} {x : Binary64} (ht : t.number? = some x)
    (h : Arithmetic.looksArithmetic t.strip) : ∃ c ∈ t, c = '+' ∨ c = '-' := by
  rw [Arithmetic.looksArithmetic, Bool.and_eq_true, List.any_eq_true] at h
  obtain ⟨-, c, hc, htrigger⟩ := h
  have hmem : c ∈ t := t.strip_isInfix.subset hc
  simp only [Arithmetic.isTrigger, Bool.or_eq_true, decide_eq_true_eq] at htrigger
  obtain ((((hplus | hminus) | rfl) | rfl) | rfl) | rfl := htrigger
  · exact ⟨c, hmem, .inl hplus⟩
  · exact ⟨c, hmem, .inr hminus⟩
  all_goals exact absurd hmem (not_mem_number ht (by decide) (by decide))

theorem sanitize_of_isKept {t : Text} (h : ∀ c ∈ t, IsKept c) : Arithmetic.sanitize t = t := by
  refine Arithmetic.sanitize_eq_self fun c hc => ?_
  rcases h c hc with hdigit | rfl | rfl | rfl
  · rw [hdigit, Bool.true_or, Bool.true_or]
  all_goals decide

/-- A number with a sign is kept if no code point is dropped, and one without a sign always. -/
theorem assigns_number (d : Dispatcher) {name t : Text} (hname : name.isName) {x : Binary64} (c : Context)
    (ht : t.number? = some x) (hfinite : x.isFinite)
    (hkept : (∃ p ∈ t, p = '+' ∨ p = '-') → ∀ p ∈ t.strip, IsKept p) : Assigns d name t x c := by
  cases h : Arithmetic.looksArithmetic t.strip with
  | false => exact assigns_of_not_arithmetic d hname ht c hfinite h
  | true =>
    have hsame := sanitize_of_isKept (hkept (sign_of_looksArithmetic ht h))
    refine (assigns_iff_of_arithmetic d hname ht c h x).mpr ⟨x, ?_, hfinite, Binary64.equals_self hfinite⟩
    exact Arithmetic.eval_number (t.number?_strip.trans ht) hsame

/-! The plain notation -/

theorem isKept_of_mem_digitText {digits : List Nat} (h : ∀ d ∈ digits, d < 10) : ∀ c ∈ digitText digits, IsKept c :=
  fun c hc => .inl (isAsciiDigit_of_mem h c hc)

theorem isKept_of_positional {x : Binary64} {t : Text} (h : x.Positional t) : ∀ c ∈ t, IsKept c := by
  obtain ⟨negative, s, hs, hexponent, rfl, -⟩ := h
  rw [Spelling.text, hexponent]
  refine List.forall_mem_append.mpr ⟨?_, List.forall_mem_append.mpr ⟨isKept_of_mem_digitText hs.whole,
    List.forall_mem_append.mpr ⟨?_, List.forall_mem_nil _⟩⟩⟩
  · intro c hc
    cases negative with
    | false => cases hc
    | true => exact .inr (.inr (.inr (List.mem_singleton.mp hc)))
  · rw [Spelling.fractionText]
    split
    · exact List.forall_mem_nil _
    · exact List.forall_mem_cons.mpr ⟨.inr (.inl rfl), isKept_of_mem_digitText hs.fraction⟩

theorem not_isKept_letter : ¬IsKept 'e' := by
  rw [IsKept]
  decide

/-- Positional notation has no letter in it, and is kept. -/
theorem assigns_of_positional (d : Dispatcher) {name : Text} (hname : name.isName) {x : Binary64} {t : Text}
    (h : x.Positional t) (hfinite : x.isFinite) (c : Context) : Assigns d name t x c := by
  have hkept := isKept_of_positional h
  obtain ⟨negative, s, hs, hexponent, htext, hvalue⟩ := h
  have ht : t.number? = some (s.numeral negative).value := by
    rw [htext]
    exact Text.number?_of_numeral (s.ofText?_text hs negative)
  have hfound : (s.numeral negative).value.isFinite := Binary64.isFinite_of_equals hvalue hfinite
  exact (assigns_number d hname c ht hfound fun _ c hc => hkept c (t.strip_isInfix.subset hc)).congr hvalue

theorem mem_scientific (negative : Bool) (n : Decimal) {c : CodePoint}
    (h : c = 'e' ∨ c = Arithmetic.signPoint (n.magnitude < 0)) :
    c ∈ signText negative ++ n.scientificSpelling.text := by
  refine List.mem_append_right _ (List.mem_append_right _ (List.mem_append_right _ ?_))
  rcases h with rfl | rfl
  · exact List.mem_cons_self
  · exact List.mem_cons_of_mem _ List.mem_cons_self

/-- Scientific notation is taken for arithmetic: what is assigned is the value without the letter. -/
theorem assigns_iff_of_scientific (d : Dispatcher) {name : Text} (hname : name.isName) {x : Binary64} {t : Text}
    {negative : Bool} {n : Decimal} (h : x.Scientific t negative n) (c : Context) (z : Binary64) :
    Assigns d name t z c ↔ (n.withoutLetter negative).isFinite ∧ (n.withoutLetter negative).equals z := by
  have hnumeral := Spelling.ofText?_text (Decimal.regular_scientificSpelling h.digits).readable negative
  rw [← h.text] at hnumeral
  have ht := Text.number?_of_numeral hnumeral
  have hstrip := Text.strip_of_numeral hnumeral
  have hlooks : Arithmetic.looksArithmetic t := by
    have hsigil : sigil ∉ t := not_mem_number ht (by decide) (by decide)
    have hmem : Arithmetic.signPoint (n.magnitude < 0) ∈ t := h.text ▸ mem_scientific negative n (.inr rfl)
    have hsign : Arithmetic.isTrigger (Arithmetic.signPoint (n.magnitude < 0)) := by
      cases decide (n.magnitude < 0) <;> rfl
    rw [Arithmetic.looksArithmetic, Bool.and_eq_true, Bool.not_eq_true', List.any_eq_false, List.any_eq_true]
    exact ⟨fun c hc heq => hsigil (of_decide_eq_true heq ▸ hc), _, hmem, hsign⟩
  have heval : Arithmetic.eval t = .ok (n.withoutLetter negative) := by
    rw [h.text, Arithmetic.eval_scientific h.digits]
  rw [assigns_iff_of_arithmetic d hname ht c (hstrip.symm ▸ hlooks), hstrip, heval]
  constructor
  · rintro ⟨y, hy, hequals⟩
    cases hy
    exact hequals
  · exact fun hequals => ⟨_, rfl, hequals⟩

/-- Which numbers an assignment keeps. Every number without a sign is kept, and with a sign those of ASCII digits,
points and signs only. The text that a number is written as always assigns a finite number without any error, but
this is the number itself exactly if the text has no exponent. -/
theorem assignVariable_number (d : Dispatcher) {name : Text} (hname : name.isName) (c : Context) :
    (∀ (t : Text) (x : Binary64), t.number? = some x → x.isFinite →
      ((∃ p ∈ t, p = '+' ∨ p = '-') → ∀ p ∈ t.strip, IsKept p) → Assigns d name t x c) ∧
    ∀ x : Binary64, x.isFinite →
      (Assigns d name (Text.ofString x.format) x c ↔ ('e' : CodePoint) ∉ Text.ofString x.format) ∧
      ∃ y, y.isFinite ∧ Assigns d name (Text.ofString x.format) y c := by
  refine ⟨fun t x ht hfinite hkept => assigns_number d hname c ht hfinite hkept, fun x hfinite => ?_⟩
  rcases x.format_cases hfinite with hpositional | ⟨negative, n, hscientific⟩
  · have hassigns := assigns_of_positional d hname hpositional hfinite c
    refine ⟨iff_of_true hassigns fun hletter => ?_, x, hfinite, hassigns⟩
    exact not_isKept_letter (isKept_of_positional hpositional _ hletter)
  · obtain ⟨units, hfits, hne, rfl⟩ := hscientific.nonzero
    obtain ⟨hleft, hother⟩ := Decimal.withoutLetter_not_equals hne hscientific.read hscientific.magnitude
    have hiff := assigns_iff_of_scientific d hname hscientific c
    have hletter : ('e' : CodePoint) ∈ Text.ofString (Binary64.finite negative units hfits).format := by
      rw [hscientific.text]
      exact mem_scientific negative n (.inl rfl)
    refine ⟨iff_of_false (fun h => hother ((hiff _).mp h).2) (not_not.mpr hletter), _, hleft, ?_⟩
    exact (hiff _).mpr ⟨hleft, Binary64.equals_self hleft⟩

/-- A negative number without digits before the point is kept, and the plain notation of a small one is not. -/
theorem assignVariable_number_signed :
    let d := (install .empty).dispatcher
    let c := Context.start true (.empty false) ⟨⟨⟨false, []⟩, []⟩, [], fun _ low _ => low, 0, .one,
      ⟨2024, 1, 2, 3, 4, 5⟩⟩
    let x := Numeral.value ⟨true, [], [5], 0⟩
    let y := Numeral.value ⟨false, [1], [], -5⟩
    Assigns d "x" " -.5" x c ∧ y.format = "1e-05" ∧ ¬Assigns d "x" (Text.ofString y.format) y c := by
  intro d c x y
  obtain ⟨hkept, hplain⟩ := @assignVariable_number d "x" (by decide) c
  have hnumber : Text.number? " -.5" = some x := by
    have hnumeral : Numeral.ofText? (Text.strip " -.5") = some ⟨true, [], [5], 0⟩ := by decide +kernel
    rw [Text.number?, hnumeral]
    rfl
  have hformat : y.format = "1e-05" := by decide +kernel
  refine ⟨hkept " -.5" x hnumber (by decide +kernel) fun _ => ?_, hformat, ?_⟩
  · unfold IsKept
    decide +kernel
  · rw [(hplain y (by decide +kernel)).1, hformat]
    decide

/-- The letter of an exponent is dropped without an error. -/
theorem assignVariable_without_letter :
    let d := (install .empty).dispatcher
    let c := Context.start false (.empty false) ⟨⟨⟨false, []⟩, []⟩, [], fun _ low _ => low, 0, .one,
      ⟨2024, 1, 2, 3, 4, 5⟩⟩
    let left := ((assignVariable d "x; 1e-05").runFrom c).2
    Numeral.ofText? "1e-05" = some ⟨false, [1], [], -5⟩ ∧ left.store.lookup ("x" : Text) = some ("-4" : Text) ∧
      left.diagnostics = [] := by
  decide +kernel

end Directive

end SigilScript
