import SigilScript.Directive.Table
import SigilScript.Proofs.BasicAction
import SigilScript.Proofs.LongestName
import SigilScript.Proofs.StoredContent

/-!
What the directives on types say about a text. Each of them has a test of its own: two readers of numbers, the
remainder of a number and the reader of documents. The answers fit together all the same, because every integer text
is a numeral and no truth value is one.
-/
namespace SigilScript

namespace Text

/-- An integer text is a numeral without a fraction and an exponent. -/
theorem numeral_of_integer {t : Text} {m : IntegerNumeral} (h : IntegerNumeral.ofText? t = some m) :
    Numeral.ofText? t.strip = some ⟨m.negative, m.digits, [], 0⟩ := by
  rw [IntegerNumeral.ofText?] at h
  dsimp only at h
  split at h
  · rename_i d ds hdigits
    obtain rfl := Option.some.inj h
    simp [Numeral.ofText?, hdigits, Numeral.takeFraction, Numeral.exponent?]
  · cases h

theorem isNumeric_of_isInteger {t : Text} (h : t.isInteger = true) : t.isNumeric = true := by
  obtain ⟨m, hm⟩ := Option.isSome_iff_exists.mp h
  rw [isNumeric, number?, numeral_of_integer hm]
  rfl

theorem not_isNumeric_of_isBool {t : Text} (h : t.isBool = true) : t.isNumeric = false := by
  rw [isBool, Bool.or_eq_true, decide_eq_true_eq, decide_eq_true_eq] at h
  obtain rfl | rfl := h <;> rfl

theorem isNumeric_of_parity? {t : Text} {n : Int} (h : t.parity? = some n) : t.isNumeric = true := by
  rw [parity?] at h
  split at h
  · cases h
  · rename_i x hx
    rw [isNumeric, hx]
    rfl

/-- A number has one remainder at most. -/
theorem not_isEven_and_isOdd (t : Text) : ¬(t.isEven = true ∧ t.isOdd = true) := by
  rw [isEven, isOdd, decide_eq_true_eq, decide_eq_true_eq]
  rintro ⟨heven, hodd⟩
  rw [heven] at hodd
  cases hodd

theorem isNumeric_of_isEven_or_isOdd {t : Text} (h : t.isEven = true ∨ t.isOdd = true) : t.isNumeric = true := by
  rw [isEven, isOdd, decide_eq_true_eq, decide_eq_true_eq] at h
  obtain h | h := h <;> exact isNumeric_of_parity? h

/-- What the tests find, in the order in which the type is looked for, and the type that follows. -/
inductive Looks (t : Text) : Prop
  | bool (hbool : t.isBool = true) (hinteger : t.isInteger = false) (hnumeric : t.isNumeric = false)
      (htype : t.type = .ok .bool)
  | int (hbool : t.isBool = false) (hinteger : t.isInteger = true) (hnumeric : t.isNumeric = true)
      (htype : t.type = .ok .int)
  | float (hbool : t.isBool = false) (hinteger : t.isInteger = false) (hnumeric : t.isNumeric = true)
      (htype : t.type = .ok .float)
  | json (hbool : t.isBool = false) (hinteger : t.isInteger = false) (hnumeric : t.isNumeric = false)
      (hjson : t.isJson = .ok true) (htype : t.type = .ok .json)
  | string (hbool : t.isBool = false) (hinteger : t.isInteger = false) (hnumeric : t.isNumeric = false)
      (hjson : t.isJson = .ok false) (htype : t.type = .ok .string)
  | deep (hbool : t.isBool = false) (hinteger : t.isInteger = false) (hnumeric : t.isNumeric = false)
      (hjson : t.isJson = .error .recursionLimit) (htype : t.type = .error .recursionLimit)

theorem looks (t : Text) : t.Looks := by
  have htype : t.type = if t.isBool then .ok .bool else if t.isInteger then .ok .int
      else if t.isNumeric then .ok .float else t.isJson.map fun json => if json then .json else .string := rfl
  cases hbool : t.isBool with
  | true =>
    have hnumeric := not_isNumeric_of_isBool hbool
    cases hinteger : t.isInteger with
    | true =>
      rw [isNumeric_of_isInteger hinteger] at hnumeric
      cases hnumeric
    | false => exact .bool hbool hinteger hnumeric (by rw [htype, hbool]; rfl)
  | false =>
    cases hinteger : t.isInteger with
    | true => exact .int hbool hinteger (isNumeric_of_isInteger hinteger) (by rw [htype, hbool, hinteger]; rfl)
    | false =>
      cases hnumeric : t.isNumeric with
      | true => exact .float hbool hinteger hnumeric (by rw [htype, hbool, hinteger, hnumeric]; rfl)
      | false =>
        -- only now the text is read as a document
        rw [hbool, hinteger, hnumeric] at htype
        cases hjson : t.isJson with
        | error e =>
          obtain rfl : e = .recursionLimit := isJson_error hjson
          exact .deep hbool hinteger hnumeric hjson (by rw [htype, hjson]; rfl)
        | ok json =>
          rw [hjson] at htype
          cases json with
          | true => exact .json hbool hinteger hnumeric hjson htype
          | false => exact .string hbool hinteger hnumeric hjson htype

theorem isNumeric_iff (t : Text) : t.isNumeric = true ↔ t.isInteger = true ∨ t.isFloat = true := by
  cases t.looks <;> simp [isFloat, *]

/-- The type of a text, test by test. -/
theorem type_iff (t : Text) :
    (t.type = .ok .bool ↔ t.isBool = true) ∧ (t.type = .ok .int ↔ t.isInteger = true) ∧
    (t.type = .ok .float ↔ t.isFloat = true) ∧
    (t.type = .ok .json ↔ t.isJson = .ok true ∧ ¬(t.isBool = true ∨ t.isInteger = true ∨ t.isFloat = true)) ∧
    (t.isJson ≠ .error .recursionLimit → (t.type = .ok .string ↔
      ¬(t.isBool = true ∨ t.isInteger = true ∨ t.isFloat = true ∨ t.isJson = .ok true))) := by
  cases t.looks <;> simp [isFloat, *]

end Text

namespace Directive

/-- A call with one argument, and the value that the argument has. -/
structure Question (t : Text) where
  dispatcher : Dispatcher
  args : Text
  before : Context
  after : Context
  value : (dispatcher.argument args).runFrom before = (.ok t, after)

namespace Question

/-- The directive of a name, called like this, gives a text and does nothing but resolve its argument. -/
def Answer {t : Text} (q : Question t) (name : String) (answer : Text) : Prop :=
  ∃ handler, table.lookup name = some handler ∧
    (handler q.dispatcher q.args).runFrom q.before = (.ok (.text answer), q.after)

/-- The answer to a test is yes. -/
def Holds {t : Text} (q : Question t) (name : String) : Prop := q.Answer name "true"

/-- Every text can be asked about: it can be the value of a variable. -/
theorem nonempty (t : Text) : Nonempty (Question t) := by
  let world : World := ⟨⟨⟨false, []⟩, []⟩, [], fun _ low _ => low, 0, .one, ⟨2024, 1, 2, 3, 4, 5⟩⟩
  let c : Context := { Context.start false (.empty false) world with store := [("t", t)] }
  let d : Dispatcher := ⟨fun _ => false, fun _ _ => Exec.fail .recursionLimit⟩
  have hstrip : (Text.ofString "$t").strip = variableMark :: Text.ofString "t" := by decide
  refine ⟨⟨d, "$t", c, c, ?_⟩⟩
  rw [d.runFrom_argument_plain (by decide), hstrip, Substitution.substitute_variable rfl]

variable {t : Text} (q : Question t) {name : String} {answer : Text}

theorem answer_iff_run {handler : Handler} (hhandler : table.lookup name = some handler) :
    q.Answer name answer ↔ (handler q.dispatcher q.args).runFrom q.before = (.ok (.text answer), q.after) := by
  constructor
  · rintro ⟨handler', hhandler', hrun⟩
    cases hhandler.symm.trans hhandler'
    exact hrun
  · intro hrun
    exact ⟨handler, hhandler, hrun⟩

theorem reply_eq_iff {given : Text} {c : Context} :
    ((.ok (.text given), c) : Ending Reply) = (.ok (.text answer), c) ↔ given = answer := by
  simp only [Prod.mk.injEq, Except.ok.injEq, Reply.text.injEq, and_true]

theorem ofString_boolString {b : Bool} : Text.ofString (boolString b) = "true" ↔ b = true := by
  cases b <;> decide

theorem holds_predicate {p : Text → Bool} (hhandler : table.lookup name = some (predicate p)) :
    q.Holds name ↔ p t = true := by
  rw [Holds, q.answer_iff_run hhandler, predicate, Exec.runFrom_bind, q.value]
  exact reply_eq_iff.trans ofString_boolString

theorem holds_isJson : q.Holds "isJson" ↔ t.isJson = .ok true := by
  have hhandler : table.lookup "isJson" = some isJson := rfl
  rw [Holds, q.answer_iff_run hhandler, isJson, Exec.runFrom_bind, q.value, Ending.andThen_ok]
  cases t.isJson with
  | error e => refine iff_of_false ?_ ?_ <;> intro h <;> cases h
  | ok b =>
    rw [Except.ok.injEq]
    exact reply_eq_iff.trans ofString_boolString

theorem ofString_label {a b : TextType} : Text.ofString a.label = b.label ↔ a = b := by
  cases a <;> cases b <;> decide

theorem answer_typeOf (type : TextType) : q.Answer "typeOf" type.label ↔ t.type = .ok type := by
  have hhandler : table.lookup "typeOf" = some typeOf := rfl
  rw [q.answer_iff_run hhandler, typeOf, Exec.runFrom_bind, q.value, Ending.andThen_ok]
  cases t.type with
  | error e => refine iff_of_false ?_ ?_ <;> intro h <;> cases h
  | ok given =>
    rw [Except.ok.injEq]
    exact reply_eq_iff.trans ofString_label

end Question

/-- However a text is asked about, its type and the tests of it fit together: it is an integer, another number or no
number, and its type is the first in the order of truth values, integers, numbers and documents that the tests find,
or else plain text. -/
theorem typeOf_coherent (t : Text) : Nonempty (Question t) ∧ ∀ q : Question t,
    ((q.Holds "isInt" ∨ q.Holds "isFloat" ∨ q.Holds "isNaN") ∧ ¬(q.Holds "isInt" ∧ q.Holds "isFloat") ∧
      ¬(q.Holds "isInt" ∧ q.Holds "isNaN") ∧ ¬(q.Holds "isFloat" ∧ q.Holds "isNaN")) ∧
    (q.Holds "isNumeric" ↔ q.Holds "isInt" ∨ q.Holds "isFloat") ∧
    (q.Holds "isText" ↔ t ≠ [] ∧ q.Holds "isNaN") ∧
    (¬(q.Holds "isEven" ∧ q.Holds "isOdd") ∧ (q.Holds "isEven" ∨ q.Holds "isOdd" → q.Holds "isNumeric")) ∧
    (q.Answer "typeOf" "bool" ↔ q.Holds "isBool") ∧
    (q.Answer "typeOf" "int" ↔ q.Holds "isInt") ∧
    (q.Answer "typeOf" "float" ↔ q.Holds "isFloat") ∧
    (q.Answer "typeOf" "json" ↔ q.Holds "isJson" ∧ ¬(q.Holds "isBool" ∨ q.Holds "isInt" ∨ q.Holds "isFloat")) ∧
    (t.isJson ≠ .error .recursionLimit → (q.Answer "typeOf" "string" ↔
      ¬(q.Holds "isBool" ∨ q.Holds "isInt" ∨ q.Holds "isFloat" ∨ q.Holds "isJson"))) := by
  refine ⟨Question.nonempty t, fun q => ?_⟩
  have hinteger : q.Holds "isInt" ↔ t.isInteger = true := q.holds_predicate rfl
  have hfloat : q.Holds "isFloat" ↔ t.isFloat = true := q.holds_predicate rfl
  have hnan : q.Holds "isNaN" ↔ (!t.isNumeric) = true := q.holds_predicate (p := fun t => !t.isNumeric) rfl
  have hnumeric : q.Holds "isNumeric" ↔ t.isNumeric = true := q.holds_predicate rfl
  have htext : q.Holds "isText" ↔ t.isText = true := q.holds_predicate rfl
  have hbool : q.Holds "isBool" ↔ t.isBool = true := q.holds_predicate rfl
  have heven : q.Holds "isEven" ↔ t.isEven = true := q.holds_predicate rfl
  have hodd : q.Holds "isOdd" ↔ t.isOdd = true := q.holds_predicate rfl
  obtain ⟨htrue, hwhole, hpoint, hdocument, hplain⟩ := t.type_iff
  refine ⟨?_, ?_, ?_, ?_, (q.answer_typeOf .bool).trans (htrue.trans hbool.symm),
    (q.answer_typeOf .int).trans (hwhole.trans hinteger.symm),
    (q.answer_typeOf .float).trans (hpoint.trans hfloat.symm), ?_, ?_⟩
  · rw [hinteger, hfloat, hnan]
    cases t.looks <;> simp [Text.isFloat, *]
  · rw [hinteger, hfloat, hnumeric, t.isNumeric_iff]
  · rw [htext, hnan, Text.isText]
    simp
  · rw [heven, hodd, hnumeric]
    exact ⟨t.not_isEven_and_isOdd, Text.isNumeric_of_isEven_or_isOdd⟩
  · rw [hbool, hinteger, hfloat, q.holds_isJson]
    exact (q.answer_typeOf .json).trans hdocument
  · intro hjson
    rw [hbool, hinteger, hfloat, q.holds_isJson]
    exact (q.answer_typeOf .string).trans (hplain hjson)

/-- A digit of another script makes an integer, but no document. -/
theorem typeOf_coherent_script :
    (∃ q : Question "١", q.Answer "typeOf" "int" ∧ q.Holds "isNumeric") ∧
      (Text.ofString "[١]").isJson ≠ .error .recursionLimit ∧ ∃ q : Question "[١]", q.Answer "typeOf" "string" := by
  have htests : (Text.ofString "١").isInteger = true ∧ (Text.ofString "[١]").isBool = false ∧
      (Text.ofString "[١]").isInteger = false ∧ (Text.ofString "[١]").isFloat = false ∧
      (Text.ofString "[١]").isJson = .ok false := by
    decide +kernel
  obtain ⟨hdigit, hbool, hinteger, hfloat, hjson⟩ := htests
  have hread : (Text.ofString "[١]").isJson ≠ .error .recursionLimit := by
    rw [hjson]
    intro h
    cases h
  refine ⟨?_, hread, ?_⟩
  · obtain ⟨⟨q⟩, hq⟩ := typeOf_coherent "١"
    obtain ⟨-, hnumeric, -, -, -, htype, -⟩ := hq q
    have hholds : q.Holds "isInt" := (q.holds_predicate rfl).mpr hdigit
    exact ⟨q, htype.mpr hholds, hnumeric.mpr (.inl hholds)⟩
  · obtain ⟨⟨q⟩, hq⟩ := typeOf_coherent "[١]"
    obtain ⟨-, -, -, -, -, -, -, -, htype⟩ := hq q
    have hno {name : String} {p : Text → Bool} (hhandler : table.lookup name = some (predicate p))
        (hp : p "[١]" = false) : ¬q.Holds name := by
      rw [q.holds_predicate hhandler, hp]
      exact Bool.false_ne_true
    refine ⟨q, (htype hread).mpr ?_⟩
    rw [q.holds_isJson, hjson]
    rintro (h | h | h | h)
    · exact hno rfl hbool h
    · exact hno rfl hinteger h
    · exact hno rfl hfloat h
    · cases h

end Directive

end SigilScript
