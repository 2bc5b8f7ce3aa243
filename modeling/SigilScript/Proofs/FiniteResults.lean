import SigilScript.Proofs.AssignedNumber
import SigilScript.Proofs.BlockSemantics
import SigilScript.Proofs.RoundingError

/-!
The directives that compute with numbers answer with numbers. Whatever their arguments are, the answer is
a finite number that every other such directive takes as an argument. It is the exact result, rounded and
written in the plain notation, or zero after one error; and there is an error exactly where the arguments
have no result that is finite.
-/
namespace SigilScript

/-! Operands -/

/-- A text that is a finite number, and that stands for itself as an argument: alone, or before others. -/
structure Operand (t : Text) : Prop where
  finite : ∃ x, t.number? = some x ∧ x.isFinite
  alone : ∀ (d : Dispatcher) (c : Context), (d.arguments t).runFrom c = (.ok [t], c)
  first : ∀ (d : Dispatcher) (c c' : Context) (rest : Text) (parts : List Text),
    (d.arguments rest).runFrom c = (.ok parts, c') →
      (d.arguments (t ++ (';' : CodePoint) :: rest)).runFrom c = (.ok (t :: parts), c')

theorem operand_of_numeral {t : Text} {n : Numeral} (h : Numeral.ofText? t = some n) (hfinite : n.value.isFinite) :
    Operand t := by
  have hnumber := Text.number?_of_numeral h
  have hplain := isPlain_number hnumber
  have hne : t ≠ [] := by
    rintro rfl
    cases h
  refine ⟨⟨_, hnumber, hfinite⟩, fun d c => ?_, fun d c c' rest parts hrest => ?_⟩
  · rw [Dispatcher.arguments, Argument.split_of_plain hplain hne, List.mapM_cons, List.mapM_nil,
      Exec.runFrom_bind, d.runFrom_argument_numeral h, Ending.andThen_ok]
    rfl
  · rw [Dispatcher.arguments] at hrest
    rw [Dispatcher.arguments, Argument.split_plain_append hplain, List.mapM_cons, Exec.runFrom_bind,
      d.runFrom_argument_numeral h, Ending.andThen_ok, Exec.runFrom_bind, hrest, Ending.andThen_ok]
    rfl

theorem operand_format {x : Binary64} (h : x.isFinite) : Operand x.format := by
  obtain ⟨n, hn, hvalue⟩ := Binary64.numeral_format h
  exact operand_of_numeral hn (Binary64.isFinite_of_equals hvalue h)

theorem operand_toString {n : Int} (h : n.natAbs ≤ 2 ^ 63) : Operand (toString n) := by
  obtain ⟨m, hm, hvalue⟩ := Binary64.numeral_toString n
  refine operand_of_numeral hm ?_
  rw [hvalue, Decimal.toBinary64_integer _ (fits_roundUnits_whole (by omega) h)]
  rfl

theorem operand_zero : Operand "0" := operand_toString (n := 0) (by decide)

/-! The directives -/

/-- The generator keeps to its bounds. -/
def World.DrawsWithin (w : World) : Prop :=
  ∀ low high, low ≤ high → low ≤ w.random w.drawn low high ∧ w.random w.drawn low high ≤ high

/-- The context after a number has been drawn. -/
def Context.drew (low high : Int) (c : Context) : Context :=
  { c with world := { c.world with drawn := c.world.drawn + 1 }, events := c.events.push (.draw low high) }

theorem Context.diagnostics_drew (low high : Int) (c : Context) : (c.drew low high).diagnostics = c.diagnostics := by
  simp [diagnostics, drew]

namespace Directive

/-- The first two arguments are numbers; any others do not count. -/
def Numbers (parts : List Text) (x y : Binary64) : Prop :=
  ∃ a b others, parts = a :: b :: others ∧ a.number? = some x ∧ b.number? = some y

/-- A directive that computes with two numbers. -/
inductive Operation
  | add | sub | mul | div | random

namespace Operation

def handler : Operation → Handler
  | add => Directive.add
  | sub => Directive.sub
  | mul => Directive.mul
  | div => Directive.div
  | random => Directive.random

def rule : Operation → String
  | add => "ADD"
  | sub => "SUB"
  | mul => "MUL"
  | div => "DIV"
  | random => "RANDOM"

def function? : Operation → Option (Binary64 → Binary64 → Binary64)
  | add => some .add
  | sub => some .sub
  | mul => some .mul
  | div => some .div
  | random => none

/-- The result that arguments have, and what becomes of the context: nothing, or one number is drawn. -/
inductive Result (parts : List Text) (c : Context) : Operation → Text → Context → Prop
  | computed {op : Operation} {f : Binary64 → Binary64 → Binary64} {x y : Binary64} (hop : op.function? = some f)
      (hnumbers : Numbers parts x y) (hfinite : (f x y).isFinite) : Result parts c op (f x y).format c
  | drawn {x y : Binary64} {low high : Int} (hnumbers : Numbers parts x y) (hlow : x.truncate? = some low)
      (hhigh : y.truncate? = some high) (hle : low ≤ high) (hmin : minBound ≤ low) (hmax : high ≤ maxBound) :
      Result parts c random (toString (c.world.random c.world.drawn low high)) (c.drew low high)

/-- A directive gives the result, or zero after one error where there is none. -/
def Answers (op : Operation) (d : Dispatcher) (args : Text) (c : Context) (parts : List Text) (c' : Context) : Prop :=
  (∃ r c₂, Result parts c' op r c₂ ∧ (op.handler d args).runFrom c = (.ok (.text r), c₂)) ∨
    ((∀ r c₂, ¬Result parts c' op r c₂) ∧
      ∃ message, (op.handler d args).runFrom c = (.ok (.text "0"), c'.reported op.rule message none))

end Operation

section Answers

variable {d : Dispatcher} {args : Text} {c c' : Context} {parts : List Text}

@[simp] theorem numbers_cons_cons {a b : Text} {others : List Text} {x y : Binary64} :
    Numbers (a :: b :: others) x y ↔ a.number? = some x ∧ b.number? = some y := by
  simp [Numbers]

@[simp] theorem not_numbers_nil {x y : Binary64} : ¬Numbers [] x y := by simp [Numbers]

@[simp] theorem not_numbers_single {a : Text} {x y : Binary64} : ¬Numbers [a] x y := by simp [Numbers]

theorem Numbers.unique {x y x' y' : Binary64} (h : Numbers parts x y) (h' : Numbers parts x' y') :
    x = x' ∧ y = y' := by
  obtain ⟨a, b, others, rfl, ha, hb⟩ := h
  rw [numbers_cons_cons, ha, hb] at h'
  exact ⟨Option.some.inj h'.1, Option.some.inj h'.2⟩

theorem runFrom_operands (h : (d.arguments args).runFrom c = (.ok parts, c')) (name : String) :
    (∃ x y, Numbers parts x y ∧ (operands d name args).runFrom c = (.ok (some (x, y)), c')) ∨
      ((∀ x y, ¬Numbers parts x y) ∧
        ∃ message, (operands d name args).runFrom c = (.ok none, c'.reported name.toUpper message none)) := by
  rw [operands, Exec.runFrom_bind, h, Ending.andThen_ok]
  match parts with
  | [] => exact .inr ⟨by simp, _, rfl⟩
  | [a] => exact .inr ⟨by simp, _, rfl⟩
  | a :: b :: others =>
    dsimp only
    cases ha : a.number? with
    | none => exact .inr ⟨by simp [ha], _, rfl⟩
    | some x =>
      cases hb : b.number? with
      | none => exact .inr ⟨by simp [hb], _, rfl⟩
      | some y => exact .inl ⟨x, y, by simp [ha, hb], rfl⟩

/-- Ends with a number in the plain notation if it is finite, and with zero after one error if it is not. -/
def Settles (ending : Ending Reply) (rule : String) (x : Binary64) (c : Context) : Prop :=
  (x.isFinite = true ∧ ending = (.ok (.text x.format), c)) ∨
    (x.isFinite = false ∧ ∃ message, ending = (.ok (.text "0"), c.reported rule message none))

theorem settles_finiteOrZero (rule : String) (x : Binary64) (c : Context) :
    Settles ((do return .text (← finiteOrZero rule x) : Exec Reply).runFrom c) rule x c := by
  cases h : x.isFinite with
  | true =>
    refine .inl ⟨h, ?_⟩
    rw [finiteOrZero, h]
    rfl
  | false =>
    refine .inr ⟨h, ?_⟩
    rw [finiteOrZero, h]
    exact ⟨_, rfl⟩

theorem Operation.not_result_of_not_numbers {op : Operation} (h : ∀ x y, ¬Numbers parts x y) (r : Text)
    (c₂ : Context) : ¬Result parts c op r c₂ := by
  intro hresult
  cases hresult with
  | computed _ hnumbers => exact h _ _ hnumbers
  | drawn hnumbers => exact h _ _ hnumbers

theorem Operation.not_result_of_function {op : Operation} {f : Binary64 → Binary64 → Binary64}
    (hop : op.function? = some f) (h : ∀ x y, Numbers parts x y → (f x y).isFinite = false) (r : Text) (c₂ : Context) :
    ¬Result parts c op r c₂ := by
  intro hresult
  cases hresult with
  | computed hop' hnumbers hfinite =>
    rw [hop, Option.some.injEq] at hop'
    subst hop'
    rw [h _ _ hnumbers] at hfinite
    cases hfinite
  | drawn => cases hop

/-- A directive that gives zero without two numbers, and settles for what is computed from them. -/
theorem answers_of_operands {op : Operation} {name : String} {f : Binary64 → Binary64 → Binary64}
    (hop : op.function? = some f) (hrule : op.rule = name.toUpper) (h : (d.arguments args).runFrom c = (.ok parts, c'))
    (hnone : ∀ c₂, (operands d name args).runFrom c = (.ok none, c₂) →
      (op.handler d args).runFrom c = (.ok (.text "0"), c₂))
    (hsome : ∀ x y c₂, (operands d name args).runFrom c = (.ok (some (x, y)), c₂) →
      Settles ((op.handler d args).runFrom c) op.rule (f x y) c₂) : op.Answers d args c parts c' := by
  rcases runFrom_operands h name with ⟨x, y, hnumbers, hrun⟩ | ⟨hnumbers, message, hrun⟩
  · rcases hsome x y c' hrun with ⟨hfinite, hend⟩ | ⟨hother, hend⟩
    · exact .inl ⟨_, _, .computed hop hnumbers hfinite, hend⟩
    · -- the arguments are no other numbers, so no other result is left
      refine .inr ⟨Operation.not_result_of_function hop fun x' y' hnumbers' => ?_, hend⟩
      obtain ⟨rfl, rfl⟩ := hnumbers.unique hnumbers'
      exact hother
  · rw [← hrule] at hrun
    exact .inr ⟨Operation.not_result_of_not_numbers hnumbers, message, hnone _ hrun⟩

theorem answers_of_binary {op : Operation} {name : String} {f : Binary64 → Binary64 → Binary64}
    (hop : op.function? = some f) (hrule : op.rule = name.toUpper) (hhandler : op.handler = binary name f)
    (h : (d.arguments args).runFrom c = (.ok parts, c')) : op.Answers d args c parts c' := by
  refine answers_of_operands hop hrule h (fun c₂ hrun => ?_) (fun x y c₂ hrun => ?_)
  · rw [hhandler, binary, Exec.runFrom_bind, hrun]
    rfl
  · rw [hhandler, binary, Exec.runFrom_bind, hrun, Ending.andThen_ok, hrule]
    exact settles_finiteOrZero _ _ _

theorem isFinite_div_of_isZero {y : Binary64} (h : y.isZero) (x : Binary64) : (x.div y).isFinite = false := by
  cases y with
  | nan => cases h
  | infinite => cases h
  | finite negative units hfits =>
    obtain rfl : units = 0 := of_decide_eq_true h
    cases x with
    | nan => rfl
    | infinite => rfl
    | finite negative' units' hfits' =>
      rw [Binary64.div, if_pos rfl]
      split <;> rfl

theorem answers_div (h : (d.arguments args).runFrom c = (.ok parts, c')) : Operation.div.Answers d args c parts c' := by
  have hrule : Operation.div.rule = "div".toUpper := by decide +kernel
  refine answers_of_operands rfl hrule h (fun c₂ hrun => ?_) (fun x y c₂ hrun => ?_)
  · rw [Operation.handler, div, Exec.runFrom_bind, hrun]
    rfl
  · rw [Operation.handler, div, Exec.runFrom_bind, hrun, Ending.andThen_ok]
    dsimp only
    cases hzero : y.isZero with
    | true =>
      -- the report of its own stands for that of a quotient that is not finite
      exact .inr ⟨isFinite_div_of_isZero hzero x, _, rfl⟩
    | false => exact settles_finiteOrZero _ _ _

/-- There is no result without bounds that are whole numbers, in order and of 64 bits. -/
theorem Operation.not_result_random {a b : Text} {others : List Text}
    (h : ∀ low high, a.number?.bind Binary64.truncate? = some low → b.number?.bind Binary64.truncate? = some high →
      high < low ∨ low < minBound ∨ maxBound < high) (r : Text) (c₂ : Context) :
    ¬Result (a :: b :: others) c random r c₂ := by
  intro hresult
  cases hresult with
  | computed hop => cases hop
  | @drawn x y low high hnumbers hlow hhigh hle hmin hmax =>
    obtain ⟨ha, hb⟩ := numbers_cons_cons.mp hnumbers
    have := h low high (by rw [ha]; exact hlow) (by rw [hb]; exact hhigh)
    omega

theorem answers_random (h : (d.arguments args).runFrom c = (.ok parts, c')) :
    Operation.random.Answers d args c parts c' := by
  rw [Operation.Answers, Operation.handler, random, Exec.runFrom_bind, h, Ending.andThen_ok]
  match parts with
  | [] => exact .inr ⟨Operation.not_result_of_not_numbers (by simp), _, rfl⟩
  | [a] => exact .inr ⟨Operation.not_result_of_not_numbers (by simp), _, rfl⟩
  | a :: b :: others =>
    dsimp only
    cases hlow : a.number?.bind Binary64.truncate? with
    | none => exact .inr ⟨Operation.not_result_random (by simp [hlow]), _, rfl⟩
    | some low =>
      cases hhigh : b.number?.bind Binary64.truncate? with
      | none => exact .inr ⟨Operation.not_result_random (by simp [hhigh]), _, rfl⟩
      | some high =>
        dsimp only
        by_cases hlt : high < low
        · rw [if_pos hlt]
          exact .inr ⟨Operation.not_result_random (by simp [hlow, hhigh, hlt]), _, rfl⟩
        · rw [if_neg hlt]
          by_cases hbounds : low < minBound ∨ maxBound < high
          · rw [if_pos hbounds]
            exact .inr ⟨Operation.not_result_random (by simp [hlow, hhigh, hbounds]), _, rfl⟩
          · rw [if_neg hbounds]
            obtain ⟨x, hx, hlow⟩ := Option.bind_eq_some_iff.mp hlow
            obtain ⟨y, hy, hhigh⟩ := Option.bind_eq_some_iff.mp hhigh
            refine .inl ⟨_, _, .drawn (numbers_cons_cons.mpr ⟨hx, hy⟩) hlow hhigh ?_ ?_ ?_, rfl⟩
            all_goals omega

/-- Each directive, by its definition. -/
theorem Operation.answers (op : Operation) (h : (d.arguments args).runFrom c = (.ok parts, c')) :
    op.Answers d args c parts c' := by
  cases op with
  | add => exact answers_of_binary rfl (by decide +kernel) rfl h
  | sub => exact answers_of_binary rfl (by decide +kernel) rfl h
  | mul => exact answers_of_binary rfl (by decide +kernel) rfl h
  | div => exact answers_div h
  | random => exact answers_random h

end Answers

/-- Results are operands again, and nothing is reported with them. -/
theorem Operation.Result.operand {op : Operation} {parts : List Text} {c c₂ : Context} {r : Text}
    (h : Result parts c op r c₂) (hdraws : op = random → c.world.DrawsWithin) :
    Operand r ∧ c₂.diagnostics = c.diagnostics := by
  cases h with
  | computed _ _ hfinite => exact ⟨operand_format hfinite, rfl⟩
  | @drawn x y low high _ _ _ hle hmin hmax =>
    obtain ⟨hlow, hhigh⟩ := hdraws rfl low high hle
    refine ⟨operand_toString ?_, c.diagnostics_drew low high⟩
    have hbounds : minBound = -2 ^ 63 ∧ maxBound = 2 ^ 63 - 1 := by decide
    omega

/-- Whatever the arguments are, a directive that computes with numbers answers with an operand for the next
one. Either that is the result, and nothing is reported beyond what the arguments have reported; or there
is no finite result, and the answer is zero after one error. -/
theorem Operation.answer_is_operand {d : Dispatcher} {args : Text} {c c' : Context} {parts : List Text}
    (h : (d.arguments args).runFrom c = (.ok parts, c')) (op : Operation)
    (hdraws : op = random → c'.world.DrawsWithin) :
    ∃ r c₂, (op.handler d args).runFrom c = (.ok (.text r), c₂) ∧ Operand r ∧
      ((Result parts c' op r c₂ ∧ c₂.diagnostics = c'.diagnostics) ∨
        ((∀ r' c₃, ¬Result parts c' op r' c₃) ∧ r = "0" ∧ ∃ message, c₂ = c'.reported op.rule message none)) := by
  rcases op.answers h with ⟨r, c₂, hresult, hrun⟩ | ⟨hnone, message, hrun⟩
  · obtain ⟨hoperand, hquiet⟩ := hresult.operand hdraws
    exact ⟨r, c₂, hrun, hoperand, .inl ⟨hresult, hquiet⟩⟩
  · exact ⟨"0", _, hrun, operand_zero, .inr ⟨hnone, rfl, message, rfl⟩⟩

/-- A product that is too large is reported where it is computed, and the sum goes on with zero. A number is
drawn between bounds that are cut to whole numbers. -/
theorem Operation.answer_is_operand_nested :
    let c := Context.start false (.empty false) ⟨⟨⟨false, []⟩, []⟩, [], fun _ low _ => low, 0, .one,
      ⟨2024, 1, 2, 3, 4, 5⟩⟩
    let d := (Directive.install Registry.empty).dispatcher
    (∃ c₂, (add.handler d "§mul[1e200;-1e200];2").runFrom c = (.ok (.text "2"), c₂) ∧
        c₂.diagnostics.length = 1) ∧
      ∃ c₂, (random.handler d "-2.5;1e3").runFrom c = (.ok (.text "-2"), c₂) ∧ Operand "-2" := by
  intro c d
  have hsum : (d.arguments "§mul[1e200;-1e200];2").runFrom c = (.ok ["0", "2"], _) :=
    Exec.runFrom_of_toOption (by decide +kernel)
  have hbounds : (d.arguments "-2.5;1e3").runFrom c = (.ok ["-2.5", "1e3"], c) := by
    have hlow : Operand "-2.5" := operand_of_numeral rfl (by decide +kernel)
    have hhigh : Operand "1e3" := operand_of_numeral rfl (by decide +kernel)
    exact hlow.first d c c "1e3" ["1e3"] (hhigh.alone d c)
  constructor
  · obtain ⟨r, c₂, hrun, -, hend⟩ := answer_is_operand hsum add (fun h => by cases h)
    have hvalue : ((add.handler d "§mul[1e200;-1e200];2").runFrom c).1.toOption = some (.text "2") := by decide +kernel
    rw [hrun] at hvalue
    cases hvalue
    rcases hend with ⟨-, hquiet⟩ | ⟨-, hzero, -⟩
    · refine ⟨c₂, hrun, ?_⟩
      rw [hquiet]
      decide +kernel
    · cases hzero
  · have hdraws : c.world.DrawsWithin := fun low high hle => ⟨Int.le_refl low, hle⟩
    obtain ⟨r, c₂, hrun, hoperand, -⟩ := answer_is_operand hbounds random (fun _ => hdraws)
    have hvalue : ((random.handler d "-2.5;1e3").runFrom c).1.toOption = some (.text "-2") := by decide +kernel
    rw [hrun] at hvalue
    cases hvalue
    exact ⟨c₂, hrun, hoperand⟩

end Directive

end SigilScript
