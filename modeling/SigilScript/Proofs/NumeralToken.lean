import SigilScript.Proofs.TextRun
import SigilScript.Proofs.WrittenText
import SigilScript.Expr.Eval

/-!
Numerals as tokens. A text is a number or not by the rules of `Numeral.ofText?`; the scanner of expressions
has rules of its own, in which the digits may be of more kinds and a sign is no part of a number. Still the
tokens of every numeral are its sign, if it has one, and one number with all the rest of it, whatever blanks
stand around: the scanner takes for a part of the number exactly what the numeral has.
-/
namespace SigilScript

open ExprToken

/-! The parts of a numeral -/

/-- Nothing, or a point and the digits after it. -/
inductive Fractional : Text → Prop
  | none : Fractional []
  | point {digits : Text} (h : ∀ c ∈ digits, c.isDecimal) : Fractional ('.' :: digits)

inductive Signed : Text → Bool → Prop
  | none : Signed [] false
  | plus : Signed [('+' : CodePoint)] false
  | minus : Signed [('-' : CodePoint)] true

/-- Nothing, or an exponent with at least one digit. -/
inductive Exponential : Text → Prop
  | none : Exponential []
  | digits {e : CodePoint} {sign digits : Text} {negative : Bool} (he : e = 'e' ∨ e = 'E')
      (hs : Signed sign negative) (hne : digits ≠ []) (h : ∀ c ∈ digits, c.isDecimal) :
      Exponential (e :: (sign ++ digits))

/-- A numeral without a sign: it starts with a digit, or with a point and a digit. -/
structure Unsigned (t whole fraction exponent : Text) : Prop where
  eq : t = whole ++ (fraction ++ exponent)
  whole_decimal : ∀ c ∈ whole, c.isDecimal
  fractional : Fractional fraction
  exponential : Exponential exponent
  starts : whole ≠ [] ∨ 1 < fraction.length

theorem takeDecimals_eq (t : Text) :
    ∃ run, t = run ++ (takeDecimals t).2 ∧ (∀ c ∈ run, c.isDecimal) ∧
      (takeDecimals t).1.length = run.length := by
  induction t with
  | nil => exact ⟨[], rfl, by simp, rfl⟩
  | cons c t ih =>
    rw [takeDecimals]
    split
    · exact ⟨[], rfl, by simp, rfl⟩
    · rename_i d hd
      obtain ⟨run, heq, hrun, hlength⟩ := ih
      refine ⟨c :: run, congrArg (c :: ·) heq, ?_, congrArg (· + 1) hlength⟩
      simpa [CodePoint.isDecimal, hd] using hrun

theorem takeSign_eq (t : Text) : ∃ sign, t = sign ++ (takeSign t).2 ∧ Signed sign (takeSign t).1 := by
  cases t with
  | nil => exact ⟨[], rfl, .none⟩
  | cons c t =>
    rw [takeSign]
    split
    · rename_i hc
      exact ⟨[c], rfl, hc ▸ .minus⟩
    · split
      · rename_i hc
        exact ⟨[c], rfl, hc ▸ .plus⟩
      · exact ⟨[], rfl, .none⟩

namespace Numeral

theorem takeFraction_eq (t : Text) :
    ∃ fraction, t = fraction ++ (takeFraction t).2 ∧ Fractional fraction ∧
      ((takeFraction t).1.getD [] ≠ [] → 1 < fraction.length) := by
  cases t with
  | nil => exact ⟨[], rfl, .none, by simp [takeFraction]⟩
  | cons c t =>
    rw [takeFraction]
    split
    · rename_i hc
      obtain ⟨run, heq, hrun, hlength⟩ := takeDecimals_eq t
      refine ⟨'.' :: run, by rw [hc]; exact congrArg (_ :: ·) heq, .point hrun, fun hne => ?_⟩
      have hpos : 0 < (takeDecimals t).1.length := List.length_pos_iff.mpr hne
      simp only [List.length_cons]
      omega
    · exact ⟨[], rfl, .none, by simp⟩

theorem exponential_of_exponent? {t : Text} {n : Int} (h : exponent? t = some n) : Exponential t := by
  cases t with
  | nil => exact .none
  | cons c t =>
    rw [exponent?] at h
    split at h
    · rename_i hc
      dsimp only at h
      split at h
      · rename_i d ds hds
        obtain ⟨sign, hsplit, hsign⟩ := takeSign_eq t
        obtain ⟨run, heq, hrun, hlength⟩ := takeDecimals_eq (takeSign t).2
        rw [hds, List.append_nil] at heq
        rw [hds] at hlength
        have hne : run ≠ [] := List.length_pos_iff.mp (hlength ▸ Nat.succ_pos ds.length)
        rw [hsplit, heq]
        exact .digits hc hsign hne hrun
      · cases h
    · cases h

/-- The numeral that a text is, if it has no sign. -/
def magnitude? (t : Text) : Option Numeral := do
  let (whole, rest) := takeDecimals t
  let (fraction, rest) := takeFraction rest
  if whole.isEmpty && (fraction.getD []).isEmpty then none
  let exponent ← exponent? rest
  return ⟨false, whole, fraction.getD [], exponent⟩

theorem ofText?_eq (t : Text) :
    ofText? t = (magnitude? (takeSign t).2).map fun n => ⟨(takeSign t).1, n.whole, n.fraction, n.exponent⟩ := by
  simp only [ofText?, magnitude?]
  split
  · rfl
  · simp only [Option.bind_eq_bind, Option.pure_def]
    cases exponent? (takeFraction (takeDecimals (takeSign t).2).2).2 <;> rfl

theorem unsigned_of_magnitude? {t : Text} {n : Numeral} (h : magnitude? t = some n) :
    ∃ whole fraction exponent, Unsigned t whole fraction exponent := by
  simp only [magnitude?] at h
  obtain ⟨whole, hwhole, hdecimal, hlength⟩ := takeDecimals_eq t
  obtain ⟨fraction, hfraction, hfractional, hlong⟩ := takeFraction_eq (takeDecimals t).2
  split at h
  · cases h
  · rename_i hstarts
    obtain ⟨e, he, -⟩ := Option.bind_eq_some_iff.mp h
    refine ⟨whole, fraction, _, by rw [← hfraction, ← hwhole], hdecimal, hfractional,
      exponential_of_exponent? he, ?_⟩
    simp only [Bool.and_eq_true, List.isEmpty_iff, Classical.not_and_iff_not_or_not] at hstarts
    refine hstarts.imp (fun hne => ?_) hlong
    exact List.length_pos_iff.mp (hlength ▸ List.length_pos_iff.mpr hne)

end Numeral

/-! What the scanner takes of them -/

/-- Nothing follows, or no digit and no part of a number that may come after digits. -/
def NumberEnds (rest : Text) : Prop :=
  ∀ c, rest.head? = some c → c.isDigit = false ∧ c ≠ '.' ∧ c ≠ 'e' ∧ c ≠ 'E'

theorem numberEnds_of_blanks {blanks : Text} (h : ∀ c ∈ blanks, c.isBlank) : NumberEnds blanks := by
  intro c hc
  have hblank : c.isBlank := h c (List.mem_of_head? hc)
  refine ⟨CodePoint.not_isDigit_of_isBlank hblank, ?_, ?_, ?_⟩ <;>
    · rintro rfl
      exact absurd hblank (by decide)

theorem Exponential.ends {exponent rest : Text} (h : Exponential exponent) (hrest : NumberEnds rest)
    {c : CodePoint} (hc : (exponent ++ rest).head? = some c) : c.isDigit = false ∧ c ≠ '.' := by
  cases h with
  | none => exact ⟨(hrest c hc).1, (hrest c hc).2.1⟩
  | @digits e sign digits negative he hs hne h =>
    obtain rfl : e = c := Option.some.inj hc
    obtain rfl | rfl := he <;> decide

theorem Fractional.ends {fraction exponent rest : Text} (h : Fractional fraction) (hx : Exponential exponent)
    (hrest : NumberEnds rest) {c : CodePoint} (hc : (fraction ++ (exponent ++ rest)).head? = some c) :
    c.isDigit = false := by
  cases h with
  | none => exact (hx.ends hrest hc).1
  | point h =>
    obtain rfl : (('.' : Char) : CodePoint) = c := Option.some.inj hc
    decide

theorem takeWhile_isDigit {run rest : Text} (hrun : ∀ c ∈ run, c.isDecimal)
    (hrest : ∀ c, rest.head? = some c → c.isDigit = false) : (run ++ rest).takeWhile CodePoint.isDigit = run :=
  takeWhile_run (fun c hc => CodePoint.isDigit_of_isDecimal (hrun c hc)) hrest

theorem fractionLength_append {fraction exponent rest : Text} (h : Fractional fraction)
    (hx : Exponential exponent) (hrest : NumberEnds rest) :
    fractionLength (fraction ++ (exponent ++ rest)) = fraction.length := by
  cases h with
  | none =>
    cases hnext : exponent ++ rest with
    | nil => rfl
    | cons c more =>
      have hc : c ≠ '.' := (hx.ends hrest (hnext ▸ rfl)).2
      rw [List.nil_append, fractionLength, if_neg hc, List.length_nil]
  | @point digits h =>
    rw [List.cons_append, fractionLength, if_pos rfl,
      takeWhile_isDigit h fun c hc => (hx.ends hrest hc).1, List.length_cons, Nat.add_comm]

/-- The sign of an exponent, found by its first code point. -/
theorem Signed.length_eq {sign digits : Text} {negative : Bool} (hs : Signed sign negative)
    (hdigits : ∀ c, digits.head? = some c → c.isDecimal) :
    (if (sign ++ digits).head? = some ('+' : CodePoint) ∨ (sign ++ digits).head? = some ('-' : CodePoint)
      then 1 else 0) = sign.length := by
  cases hs with
  | none =>
    refine if_neg ?_
    rintro (h | h) <;> exact absurd (hdigits _ h) (by decide)
  | plus => rfl
  | minus => rfl

theorem exponentLength_append {exponent rest : Text} (h : Exponential exponent) (hrest : NumberEnds rest) :
    exponentLength (exponent ++ rest) = exponent.length := by
  cases h with
  | none =>
    cases rest with
    | nil => rfl
    | cons c rest =>
      obtain ⟨-, -, he, hE⟩ := hrest c rfl
      simp [exponentLength, he, hE]
  | @digits e sign digits negative he hs hne h =>
    have hpos : 0 < digits.length := List.length_pos_iff.mpr hne
    have hhead : ∀ c, (digits ++ rest).head? = some c → c.isDecimal := by
      intro c hc
      obtain ⟨d, ds, rfl⟩ := List.exists_cons_of_ne_nil hne
      obtain rfl : d = c := Option.some.inj hc
      exact h d List.mem_cons_self
    have hrun := takeWhile_isDigit h fun c hc => (hrest c hc).1
    simp only [List.cons_append, List.append_assoc, exponentLength, hs.length_eq hhead, List.drop_left, hrun]
    rw [if_pos ⟨he, hpos⟩, List.length_cons, List.length_append]
    omega

/-- The scanner takes a number to end where the numeral does. -/
theorem numberLength_append {t whole fraction exponent rest : Text} (h : Unsigned t whole fraction exponent)
    (hrest : NumberEnds rest) : numberLength (t ++ rest) = t.length := by
  have hwhole : (t ++ rest).takeWhile CodePoint.isDigit = whole := by
    rw [h.eq, List.append_assoc, List.append_assoc]
    exact takeWhile_isDigit h.whole_decimal fun c hc => h.fractional.ends h.exponential hrest hc
  have hafter : (t ++ rest).drop whole.length = fraction ++ (exponent ++ rest) := by
    rw [h.eq, List.append_assoc, List.append_assoc, List.drop_left]
  simp only [numberLength, hwhole, hafter, fractionLength_append h.fractional h.exponential hrest,
    ← List.drop_drop, List.drop_left, exponentLength_append h.exponential hrest]
  rw [h.eq, List.length_append, List.length_append]
  omega

/-- The first code point of a number without a sign. -/
theorem Unsigned.first {t whole fraction exponent : Text} (h : Unsigned t whole fraction exponent) :
    ∃ c more, t = c :: more ∧ (c.isDecimal ∨ c = '.' ∧ ∃ d, more.head? = some d ∧ d.isDecimal) := by
  obtain ⟨rfl, hwhole, hfraction, -, hstarts⟩ := h
  cases whole with
  | cons c whole => exact ⟨c, _, rfl, .inl (hwhole c List.mem_cons_self)⟩
  | nil =>
    have hlong : 1 < fraction.length := hstarts.resolve_left fun hne => hne rfl
    cases hfraction with
    | none => cases hlong
    | @point digits hdigits =>
      cases digits with
      | nil => exact absurd hlong (by decide)
      | cons d digits => exact ⟨'.', _, rfl, .inr ⟨rfl, d, rfl, hdigits d List.mem_cons_self⟩⟩

namespace ExprToken

theorem scanFrom_blanks {blanks : Text} (h : ∀ c ∈ blanks, c.isBlank) (position : Nat) (t : Text) :
    scanFrom position (blanks ++ t) = scanFrom (position + blanks.length) t := by
  induction blanks generalizing position with
  | nil => rfl
  | cons c blanks ih =>
    rw [List.cons_append, scanFrom, if_pos (h c List.mem_cons_self),
      ih (fun c hc => h c (List.mem_cons_of_mem _ hc)), List.length_cons]
    congr 1
    omega

theorem scanFrom_lexeme {position extra : Nat} {c : CodePoint} {rest : Text} {lexeme : ExprLexeme}
    (hblank : c.isBlank = false) (h : lexemeAt position c rest = .ok (lexeme, extra)) :
    scanFrom position (c :: rest) =
      (scanFrom (position + 1 + extra) (rest.drop extra)).map (⟨lexeme, position⟩ :: ·) := by
  rw [scanFrom, if_neg (by rw [hblank]; exact Bool.false_ne_true), h]

/-- A number without a sign is one token. -/
theorem scanFrom_number {t whole fraction exponent rest : Text} (h : Unsigned t whole fraction exponent)
    (hrest : NumberEnds rest) (position : Nat) :
    scanFrom position (t ++ rest) =
      (scanFrom (position + t.length) rest).map (⟨.number t, position⟩ :: ·) := by
  have hlength := numberLength_append h hrest
  obtain ⟨c, more, rfl, hfirst⟩ := h.first
  have hstarts : startsNumber c (more ++ rest) := by
    obtain hc | ⟨rfl, d, hd, hdecimal⟩ := hfirst
    · simp [startsNumber, CodePoint.isDigit_of_isDecimal hc]
    · simp [startsNumber, hd, CodePoint.isDigit_of_isDecimal hdecimal]
  have hblank : c.isBlank = false := by
    obtain hc | ⟨rfl, -⟩ := hfirst
    · exact CodePoint.not_isBlank_of_isDigit (CodePoint.isDigit_of_isDecimal hc)
    · decide
  have hlexeme : lexemeAt position c (more ++ rest) = .ok (.number (c :: more), more.length) := by
    rw [lexemeAt, if_pos hstarts]
    dsimp only
    rw [← List.cons_append, hlength, List.take_left]
    rfl
  rw [List.cons_append, scanFrom_lexeme hblank hlexeme, List.drop_left, List.length_cons, Nat.add_assoc,
    Nat.add_comm 1]

theorem scanFrom_end {blanks : Text} (h : ∀ c ∈ blanks, c.isBlank) (position : Nat) :
    scanFrom position blanks = .ok [⟨.endOfInput, position + blanks.length⟩] := by
  have hend := scanFrom_blanks h position []
  rwa [List.append_nil, scanFrom] at hend

theorem lexemeAt_plus (position : Nat) (rest : Text) :
    lexemeAt position '+' rest = .ok (.operator .plus, 0) := by
  rfl

theorem lexemeAt_minus (position : Nat) (rest : Text) :
    lexemeAt position '-' rest = .ok (.operator .minus, 0) := by
  rfl

end ExprToken

/-! Whole numerals -/

theorem Binary64.ofUnits_neg (units : Nat) : (Binary64.ofUnits false units).neg = .ofUnits true units := by
  unfold Binary64.ofUnits
  split <;> rfl

theorem Decimal.toBinary64_neg (d : Decimal) : (d.toBinary64 false).neg = d.toBinary64 true := by
  unfold Decimal.toBinary64
  split
  · rfl
  · split
    · rfl
    · split
      · rfl
      · exact Binary64.ofUnits_neg d.units

theorem Unsigned.takeSign_eq {t whole fraction exponent : Text} (h : Unsigned t whole fraction exponent) :
    takeSign t = (false, t) := by
  obtain ⟨c, more, rfl, hfirst⟩ := h.first
  have hsign : c ≠ '-' ∧ c ≠ '+' := by
    obtain hc | ⟨rfl, -⟩ := hfirst
    · constructor <;>
      · rintro rfl
        exact absurd hc (by decide)
    · decide
  rw [takeSign, if_neg hsign.1, if_neg hsign.2]

namespace Expr

/-- The tokens of a number: the number without a sign, and a sign before it if there is one. -/
inductive Spells (x : Binary64) : List ExprToken → Expr → Prop
  | unsigned {t : ExprToken} {text : Text} {n : Numeral} (ht : t.lexeme = .number text)
      (hn : Numeral.ofText? text = some n) (hx : n.value = x) : Spells x [t] (.literal (.number n.value))
  | signed {s t : ExprToken} {text : Text} {n : Numeral} {op : Operator} {sign : UnaryOp}
      (hs : s.lexeme = .operator op) (hop : signOp? op = some sign) (ht : t.lexeme = .number text)
      (hn : Numeral.ofText? text = some n) (hx : unaryValue sign (.number n.value) = .number x) :
      Spells x [s, t] (.unary sign (.literal (.number n.value)))

/-- A number with its sign, if it has one, before something that ends it. -/
theorem scanFrom_signed {sign m rest : Text} {negative : Bool} {n : Numeral} (hs : Signed sign negative)
    (hm : Numeral.magnitude? m = some n) (hrest : NumberEnds rest) (position : Nat) :
    ∃ lexed tree, ExprToken.scanFrom position (sign ++ (m ++ rest)) =
        (ExprToken.scanFrom (position + sign.length + m.length) rest).map (lexed ++ ·) ∧
      Spells (Numeral.value ⟨negative, n.whole, n.fraction, n.exponent⟩) lexed tree := by
  obtain ⟨whole, fraction, exponent, hunsigned⟩ := Numeral.unsigned_of_magnitude? hm
  have hread : Numeral.ofText? m = some ⟨false, n.whole, n.fraction, n.exponent⟩ := by
    rw [Numeral.ofText?_eq, hunsigned.takeSign_eq, hm]
    rfl
  have hsecond := ExprToken.scanFrom_number hunsigned hrest (position + 1)
  cases hs with
  | none =>
    refine ⟨[⟨.number m, position⟩], _, ?_, .unsigned rfl hread rfl⟩
    exact ExprToken.scanFrom_number hunsigned hrest position
  | plus =>
    refine ⟨[⟨.operator .plus, position⟩, ⟨.number m, position + 1⟩], .unary .plus _, ?_,
      .signed rfl rfl rfl hread rfl⟩
    have hsign := ExprToken.scanFrom_lexeme (by decide) (ExprToken.lexemeAt_plus position (m ++ rest))
    rw [List.drop_zero, Nat.add_zero, hsecond] at hsign
    refine hsign.trans ?_
    cases ExprToken.scanFrom (position + 1 + m.length) rest <;> rfl
  | minus =>
    refine ⟨[⟨.operator .minus, position⟩, ⟨.number m, position + 1⟩], .unary .minus _, ?_,
      .signed rfl rfl rfl hread (congrArg Value.number (Decimal.toBinary64_neg _))⟩
    have hsign := ExprToken.scanFrom_lexeme (by decide) (ExprToken.lexemeAt_minus position (m ++ rest))
    rw [List.drop_zero, Nat.add_zero, hsecond] at hsign
    refine hsign.trans ?_
    cases ExprToken.scanFrom (position + 1 + m.length) rest <;> rfl

/-- Every text that is a number is scanned to the tokens of this number. -/
theorem scan_number {t : Text} {x : Binary64} (h : t.number? = some x) :
    ∃ lexed tree last, ExprToken.scan t = .ok (lexed ++ [⟨.endOfInput, last⟩]) ∧ Spells x lexed tree := by
  obtain ⟨trailing, ht, htrailing⟩ := t.eq_blanks_append_strip
  obtain ⟨n, hn, rfl⟩ := Option.map_eq_some_iff.mp h
  rw [Numeral.ofText?_eq] at hn
  obtain ⟨m, hm, rfl⟩ := Option.map_eq_some_iff.mp hn
  obtain ⟨sign, hsplit, hsign⟩ := takeSign_eq t.strip
  obtain ⟨lexed, tree, hscan, hspells⟩ :=
    scanFrom_signed hsign hm (numberEnds_of_blanks htrailing) (0 + (t.takeWhile CodePoint.isBlank).length)
  obtain ⟨last, hend⟩ : ∃ last, ExprToken.scanFrom (0 + (t.takeWhile CodePoint.isBlank).length + sign.length +
      (takeSign t.strip).2.length) trailing = .ok [⟨.endOfInput, last⟩] := ⟨_, ExprToken.scanFrom_end htrailing _⟩
  rw [hend] at hscan
  refine ⟨lexed, tree, last, ?_, hspells⟩
  calc ExprToken.scan t
      = ExprToken.scanFrom 0 (t.takeWhile CodePoint.isBlank ++ (t.strip ++ trailing)) :=
        congrArg (ExprToken.scanFrom 0) ht
    _ = ExprToken.scanFrom (0 + (t.takeWhile CodePoint.isBlank).length) (t.strip ++ trailing) :=
        ExprToken.scanFrom_blanks Text.isBlank_of_mem_takeWhile 0 _
    _ = .ok (lexed ++ [⟨.endOfInput, last⟩]) := by
        rw [← List.append_assoc, ← hsplit] at hscan
        exact hscan

end Expr

end SigilScript
