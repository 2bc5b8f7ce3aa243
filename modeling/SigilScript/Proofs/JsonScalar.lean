import SigilScript.Json.Reader
import SigilScript.Json.Writer
import SigilScript.Proofs.NumberText
import SigilScript.Proofs.TextRun

/-!
Numbers and strings in JSON. The reader takes a number as long as it goes on, so what follows a number has
to be something else; what stands after a value in a document always is. A string ends at the first quote
that is not escaped, and the writer escapes the quotes in it.
-/
namespace SigilScript.Json

/-! Numbers -/

/-- Nothing follows, or what can stand after a value. -/
def Stops (rest : Text) : Prop :=
  ∀ c, rest.head? = some c → c = ',' ∨ c = ']' ∨ c = '}' ∨ c = '\n'

theorem Stops.ends {rest : Text} (h : Stops rest) {c : CodePoint} (hc : rest.head? = some c) :
    c.isAsciiDigit = false ∧ c ≠ '.' ∧ c ≠ 'e' ∧ c ≠ 'E' := by
  rcases h c hc with rfl | rfl | rfl | rfl <;> decide

theorem digitValues_digitText {digits : List Nat} (h : ∀ d ∈ digits, d < 10) :
    digitValues (digitText digits) = digits := by
  rw [digitValues, digitText, List.map_map]
  refine (List.map_congr_left fun d hd => ?_).trans (List.map_id' digits)
  rw [Function.comp_apply, val_digit (h d hd)]
  omega

section Digits

variable {digits : List Nat} {rest : Text} (h : ∀ d ∈ digits, d < 10)
  (hrest : ∀ c, rest.head? = some c → c.isAsciiDigit = false)

include h hrest

theorem takeWhile_digitText : (digitText digits ++ rest).takeWhile CodePoint.isAsciiDigit = digitText digits :=
  takeWhile_run (isAsciiDigit_of_mem h) hrest

theorem dropWhile_digitText : (digitText digits ++ rest).dropWhile CodePoint.isAsciiDigit = rest :=
  dropWhile_run (isAsciiDigit_of_mem h) hrest

theorem takeWhole?_digitText (hfirst : digits = [0] ∨ ∃ d ds, digits = d :: ds ∧ d ≠ 0) :
    takeWhole? (digitText digits ++ rest) = some (digits, rest) := by
  rcases hfirst with rfl | ⟨d, ds, rfl, hd⟩
  · rfl
  · have hten : d < 10 := h d List.mem_cons_self
    have hne : CodePoint.ofNat (48 + d) ≠ '0' := by
      intro hzero
      have hval := congrArg CodePoint.val hzero
      rw [val_digit hten] at hval
      exact hd (Nat.add_left_cancel hval)
    have hdigit : (CodePoint.ofNat (48 + d)).isAsciiDigit := isAsciiDigit_of_mem h _ List.mem_cons_self
    have htake := takeWhile_digitText h hrest
    have hdrop := dropWhile_digitText h hrest
    rw [digitText, List.map_cons, List.cons_append] at htake hdrop ⊢
    rw [takeWhole?, if_neg hne, if_pos hdigit, htake, hdrop]
    exact congrArg (fun values => some (values, rest)) (digitValues_digitText h)

theorem takeFraction?_digitText (hne : digits ≠ []) :
    takeFraction? ('.' :: (digitText digits ++ rest)) = some (digits, rest) := by
  have hdigits : digitText digits ≠ [] := fun hnil => hne (List.map_eq_nil_iff.mp hnil)
  simp only [takeFraction?, takeWhile_digitText h hrest, dropWhile_digitText h hrest,
    digitValues_digitText h]
  exact if_pos ⟨trivial, hdigits⟩

theorem takeExponent?_digitText (hne : digits ≠ []) (negative : Bool) :
    takeExponent? ('e' :: (if negative then ('-' : CodePoint) else ('+' : CodePoint)) :: (digitText digits ++ rest)) =
      some (if negative then -(ofDigits digits : Int) else ofDigits digits, rest) := by
  have hdigits : digitText digits ≠ [] := fun hnil => hne (List.map_eq_nil_iff.mp hnil)
  have hsign : takeSign ((if negative then ('-' : CodePoint) else ('+' : CodePoint)) :: (digitText digits ++ rest)) =
      (negative, digitText digits ++ rest) := by
    cases negative <;> rfl
  simp only [takeExponent?, hsign, takeWhile_digitText h hrest, dropWhile_digitText h hrest,
    digitValues_digitText h]
  exact if_pos ⟨.inl trivial, hdigits⟩

end Digits

theorem takeFraction?_none {rest : Text} (h : ∀ c, rest.head? = some c → c ≠ '.') : takeFraction? rest = none := by
  cases rest with
  | nil => rfl
  | cons c rest => exact if_neg fun hc => h c rfl hc.1

theorem takeExponent?_none {rest : Text} (h : ∀ c, rest.head? = some c → c ≠ 'e' ∧ c ≠ 'E') :
    takeExponent? rest = none := by
  cases rest with
  | nil => rfl
  | cons c rest => exact if_neg fun hc => hc.1.elim (h c rfl).1 (h c rfl).2

theorem ne_minus_of_takeWhole? {c : CodePoint} {t rest : Text} {whole : List Nat}
    (h : takeWhole? (c :: t) = some (whole, rest)) : c ≠ '-' := by
  rintro rfl
  cases h

/-- What a number is read as, by its parts. -/
theorem readNumber_of_parts (negative : Bool) (fraction : Option (List Nat)) (exponent : Option Int)
    {t rest rest' rest'' : Text} {whole : List Nat} (hwhole : takeWhole? t = some (whole, rest))
    (hfraction : takeFraction? rest = fraction.map (·, rest')) (hrest' : fraction = none → rest' = rest)
    (hexponent : takeExponent? rest' = exponent.map (·, rest'')) (hrest'' : exponent = none → rest'' = rest') :
    readNumber (signText negative ++ t) =
      if fraction = none ∧ exponent = none then
        if IntegerNumeral.maxDigits < whole.length then .error (.tooManyDigits whole.length)
        else .ok (.integer (IntegerNumeral.value ⟨negative, whole⟩), rest'')
      else .ok (.number (Numeral.value ⟨negative, whole, fraction.getD [], exponent.getD 0⟩), rest'') := by
  have hafter : (takeFraction? rest).elim rest Prod.snd = rest' := by
    rw [hfraction]
    cases fraction with
    | none => exact (hrest' rfl).symm
    | some digits => rfl
  have hlast : (takeExponent? rest').elim rest' Prod.snd = rest'' := by
    rw [hexponent]
    cases exponent with
    | none => exact (hrest'' rfl).symm
    | some n => rfl
  have hparts : (takeFraction? rest).isNone ∧ (takeExponent? rest').isNone ↔ fraction = none ∧ exponent = none := by
    rw [hfraction, hexponent, Option.isNone_map, Option.isNone_map, Option.isNone_iff_eq_none,
      Option.isNone_iff_eq_none]
  have hdigits : (takeFraction? rest).elim [] Prod.fst = fraction.getD [] := by
    rw [hfraction]
    cases fraction <;> rfl
  have hpower : (takeExponent? rest').elim 0 Prod.fst = exponent.getD 0 := by
    rw [hexponent]
    cases exponent <;> rfl
  cases t with
  | nil => cases hwhole
  | cons c t =>
    have hne : c ≠ '-' := ne_minus_of_takeWhole? hwhole
    cases negative with
    | false =>
      simp only [signText, Bool.false_eq_true, if_false, List.nil_append, readNumber, hne, hwhole, hafter, hlast,
        hparts, hdigits, hpower]
    | true =>
      simp only [signText, if_true, List.cons_append, List.nil_append, readNumber, hwhole, hafter, hlast, hparts,
        hdigits, hpower]

theorem readNumber_digits (negative : Bool) {digits : List Nat} {rest : Text} (h : ∀ d ∈ digits, d < 10)
    (hfirst : digits = [0] ∨ ∃ d ds, digits = d :: ds ∧ d ≠ 0)
    (hlength : digits.length ≤ IntegerNumeral.maxDigits) (hrest : Stops rest) :
    readNumber (signText negative ++ (digitText digits ++ rest)) =
      .ok (.integer (IntegerNumeral.value ⟨negative, digits⟩), rest) := by
  have hwhole := takeWhole?_digitText h (fun c hc => (hrest.ends hc).1) hfirst
  have hfraction : takeFraction? rest = none := takeFraction?_none fun c hc => (hrest.ends hc).2.1
  have hexponent : takeExponent? rest = none := takeExponent?_none fun c hc => (hrest.ends hc).2.2
  rw [readNumber_of_parts negative none none hwhole hfraction (fun _ => rfl) hexponent (fun _ => rfl),
    if_pos ⟨rfl, rfl⟩, if_neg (by omega)]

/-- What a text can end with after the whole digits of a number. -/
theorem exponentText_ends (exponent : Option (Bool × List Nat)) {rest : Text} (hrest : Stops rest) {c : CodePoint}
    (hc : (Spelling.exponentText exponent ++ rest).head? = some c) : c.isAsciiDigit = false ∧ c ≠ '.' := by
  cases exponent with
  | none => exact ⟨(hrest.ends hc).1, (hrest.ends hc).2.1⟩
  | some p =>
    obtain rfl : (('e' : Char) : CodePoint) = c := Option.some.inj hc
    decide

theorem fractionText_ends (fraction : List Nat) (exponent : Option (Bool × List Nat)) {rest : Text}
    (hrest : Stops rest) {c : CodePoint}
    (hc : (Spelling.fractionText fraction ++ (Spelling.exponentText exponent ++ rest)).head? = some c) :
    c.isAsciiDigit = false := by
  rw [Spelling.fractionText] at hc
  split at hc
  · exact (exponentText_ends exponent hrest hc).1
  · obtain rfl : (('.' : Char) : CodePoint) = c := Option.some.inj hc
    decide

theorem takeExponent?_exponentText {s : Spelling} (hs : s.Regular) {rest : Text} (hrest : Stops rest) :
    takeExponent? (Spelling.exponentText s.exponent ++ rest) = s.exponent.map fun _ => (s.exponentValue, rest) := by
  rw [Spelling.exponentValue]
  cases hexponent : s.exponent with
  | none => exact takeExponent?_none fun c hc => (hrest.ends hc).2.2
  | some p =>
    obtain ⟨negative, digits⟩ := p
    obtain ⟨hne, hdigits⟩ := hs.exponent negative digits hexponent
    exact takeExponent?_digitText hdigits (fun c hc => (hrest.ends hc).1) hne negative

/-- A number with a fraction or an exponent is read as the number that it spells. -/
theorem readNumber_text (negative : Bool) {s : Spelling} (hs : s.Regular)
    (hparts : s.fraction ≠ [] ∨ s.exponent ≠ none) {rest : Text} (hrest : Stops rest) :
    readNumber (signText negative ++ (s.text ++ rest)) = .ok (.number (s.numeral negative).value, rest) := by
  let exponent := s.exponent.map fun _ => s.exponentValue
  have hwhole : takeWhole? (s.text ++ rest) =
      some (s.whole, Spelling.fractionText s.fraction ++ (Spelling.exponentText s.exponent ++ rest)) := by
    rw [Spelling.text, List.append_assoc, List.append_assoc]
    exact takeWhole?_digitText hs.whole (fun c hc => fractionText_ends _ _ hrest hc) hs.first
  have hexponent : takeExponent? (Spelling.exponentText s.exponent ++ rest) = exponent.map (·, rest) := by
    rw [takeExponent?_exponentText hs hrest, Option.map_map]
    rfl
  have hnone : exponent = none → s.exponent = none := Option.map_eq_none_iff.mp
  have hempty : exponent = none → rest = Spelling.exponentText s.exponent ++ rest := fun h => by
    rw [hnone h]
    rfl
  have hvalue : exponent.getD 0 = s.exponentValue := by
    simp only [exponent, Spelling.exponentValue]
    cases s.exponent <;> rfl
  by_cases hfraction : s.fraction = []
  · have htake : takeFraction? (Spelling.fractionText s.fraction ++ (Spelling.exponentText s.exponent ++ rest)) =
        none := by
      rw [hfraction]
      exact takeFraction?_none fun c hc => (exponentText_ends _ hrest hc).2
    have hafter : Spelling.exponentText s.exponent ++ rest =
        Spelling.fractionText s.fraction ++ (Spelling.exponentText s.exponent ++ rest) := by
      rw [hfraction]
      rfl
    have hshown : ¬(none = (none : Option (List Nat)) ∧ exponent = none) := fun h =>
      hparts.elim (· hfraction) (· (hnone h.2))
    rw [readNumber_of_parts negative none exponent hwhole htake (fun _ => hafter) hexponent hempty,
      if_neg hshown, hvalue, Option.getD_none, ← hfraction]
    rfl
  · have htake : takeFraction? (Spelling.fractionText s.fraction ++ (Spelling.exponentText s.exponent ++ rest)) =
        some (s.fraction, Spelling.exponentText s.exponent ++ rest) := by
      rw [Spelling.fractionText, if_neg hfraction]
      exact takeFraction?_digitText hs.fraction (fun c hc => (exponentText_ends _ hrest hc).1) hfraction
    have hsome : some s.fraction ≠ none := Option.some_ne_none _
    rw [readNumber_of_parts negative (some s.fraction) exponent hwhole htake (absurd · hsome) hexponent hempty,
      if_neg fun h => hsome h.1, hvalue]
    rfl

/-! Strings -/

section Escapes

variable (start : Nat) (more : Text)

theorem readString_plain {c : CodePoint} (hquote : c ≠ '"') (hescape : c ≠ '\\') (hcontrol : ¬c.val < 0x20) :
    readString start (c :: more) = (readString start more).map fun p => (c :: p.1, p.2) := by
  rw [readString.eq_def]
  dsimp only
  rw [if_neg hquote, if_neg hescape, if_neg hcontrol]

theorem readString_simple {e point : CodePoint} (he : e ≠ 'u') (hpoint : simpleEscape? e = some point) :
    readString start ('\\' :: e :: more) = (readString start more).map fun p => (point :: p.1, p.2) := by
  rw [readString, if_neg (by decide), if_pos rfl]
  dsimp only
  rw [if_neg he, hpoint]

theorem readString_unicode {digits : Text} {n : Nat} (hlength : digits.length = 4)
    (hquad : hexQuad? (digits ++ more) = some n) (hhigh : n < 0xd800) :
    readString start ('\\' :: 'u' :: (digits ++ more)) =
      (readString start more).map fun p => (CodePoint.ofNat n :: p.1, p.2) := by
  have hsurrogate : (decide (0xd800 ≤ n) && decide (n ≤ 0xdbff)) = false := by
    rw [decide_eq_false (by omega), Bool.false_and]
  have hdrop : (digits ++ more).drop 4 = more := by rw [← hlength, List.drop_left]
  rw [readString, if_neg (by decide), if_pos rfl]
  dsimp only
  rw [if_pos rfl, hquad]
  dsimp only
  rw [hsurrogate, hdrop]
  rfl

end Escapes

theorem hexValue?_hexDigit {k : Nat} (h : k < 16) : hexValue? (hexDigit k) = some k := by
  have hall : ∀ k < 16, hexValue? (hexDigit k) = some k := by decide
  exact hall k h

theorem hexQuad?_hexDigits {n : Nat} (h : n < 65536) (c : CodePoint) (more : Text) :
    hexQuad? ((hexDigits 4 n).map CodePoint.ofChar ++ c :: more) = some n := by
  have hquad : ((n / 16 / 16 / 16 % 16 * 16 + n / 16 / 16 % 16) * 16 + n / 16 % 16) * 16 + n % 16 = n := by omega
  simp only [hexDigits, List.nil_append, List.cons_append, List.map_cons, List.map_nil, hexQuad?,
    hexValue?_hexDigit (Nat.mod_lt _ (by omega : 0 < 16))]
  exact congrArg some hquad

/-- The ways in which a code point is written, code points outside ASCII as themselves. -/
inductive Escaped (c : CodePoint) : Text → Prop
  | simple {e : CodePoint} (he : e ≠ 'u') (h : simpleEscape? e = some c) : Escaped c [('\\' : CodePoint), e]
  | unicode (h : c.val < 0x20) : Escaped c (unicodeEscape c.val)
  | plain (hquote : c ≠ '"') (hescape : c ≠ '\\') (hcontrol : ¬c.val < 0x20) : Escaped c [c]

/-- A letter that stands for a control character, a quote or a backslash. -/
theorem escaped_letter {c : CodePoint} {e point : Char} (hc : c = point) (he : (e : CodePoint) ≠ 'u')
    (h : simpleEscape? e = some (point : CodePoint)) : Escaped c (Text.ofString (String.ofList ['\\', e])) := by
  rw [hc, Text.ofString, String.toList_ofList]
  exact .simple he h

theorem escaped_escapePoint {style : Style} (hstyle : style.asciiOnly = false) (c : CodePoint) :
    Escaped c (escapePoint style c) := by
  unfold escapePoint
  by_cases hquote : c = '"'
  · rw [if_pos hquote]
    exact escaped_letter (e := '"') hquote (by decide) rfl
  rw [if_neg hquote]
  by_cases hescape : c = '\\'
  · rw [if_pos hescape]
    exact escaped_letter (e := '\\') hescape (by decide) rfl
  rw [if_neg hescape]
  by_cases hline : c = '\n'
  · rw [if_pos hline]
    exact escaped_letter (e := 'n') hline (by decide) rfl
  rw [if_neg hline]
  by_cases hreturn : c = '\r'
  · rw [if_pos hreturn]
    exact escaped_letter (e := 'r') hreturn (by decide) rfl
  rw [if_neg hreturn]
  by_cases htab : c = '\t'
  · rw [if_pos htab]
    exact escaped_letter (e := 't') htab (by decide) rfl
  rw [if_neg htab]
  by_cases hfeed : c = '\x0c'
  · rw [if_pos hfeed]
    exact escaped_letter (e := 'f') hfeed (by decide) rfl
  rw [if_neg hfeed]
  by_cases hback : c = '\x08'
  · rw [if_pos hback]
    exact escaped_letter (e := 'b') hback (by decide) rfl
  rw [if_neg hback]
  by_cases hcontrol : c.val < 0x20
  · rw [if_pos hcontrol]
    exact .unicode hcontrol
  · rw [if_neg hcontrol, if_neg (by rw [hstyle]; nofun)]
    exact .plain hquote hescape hcontrol

/-- What a code point is written as is read as the code point, if something follows it. -/
theorem Escaped.readString {c : CodePoint} {t : Text} (h : Escaped c t) (start : Nat) (d : CodePoint) (more : Text) :
    Json.readString start (t ++ d :: more) =
      (Json.readString start (d :: more)).map fun p => (c :: p.1, p.2) := by
  cases h with
  | simple he h => exact readString_simple start _ he h
  | unicode h =>
    have hquad := hexQuad?_hexDigits (n := c.val) (by omega) d more
    have hpoint : CodePoint.ofNat c.val = c := dif_pos c.val_lt
    have hread := readString_unicode start (d :: more) (by simp [hexDigits]) hquad (by omega)
    rw [hpoint] at hread
    rw [unicodeEscape, Text.ofString, String.toList_ofList]
    exact hread
  | plain hquote hescape hcontrol => exact readString_plain start _ hquote hescape hcontrol

theorem readString_written (start : Nat) {style : Style} (hstyle : style.asciiOnly = false) (t rest : Text) :
    readString start (t.flatMap (escapePoint style) ++ ('"' : CodePoint) :: rest) = .ok (t, rest) := by
  induction t with
  | nil =>
    rw [List.flatMap_nil, List.nil_append, readString.eq_def]
    exact if_pos rfl
  | cons c t ih =>
    -- some code point follows, at least the closing quote
    obtain ⟨d, more, hmore⟩ : ∃ d more, t.flatMap (escapePoint style) ++ ('"' : CodePoint) :: rest = d :: more :=
      List.exists_cons_of_ne_nil (by simp)
    rw [List.flatMap_cons, List.append_assoc, hmore, (escaped_escapePoint hstyle c).readString, ← hmore, ih]
    rfl

end SigilScript.Json
