import SigilScript.Proofs.ReachedNames

/-!
Strict evaluation beside the lenient one. Both go the same way through a tree until the strict one gets to a
quotient or a remainder by zero, and stops there. Wherever it does not stop, both end alike, with one value or
with one error. And it stops wherever such a part is reached, unless the tree is too deep before that.
-/
namespace SigilScript.Expr

variable {bindings : Bindings}

/-- A quotient or a remainder of two values, the right one of which is zero as a number. -/
inductive ZeroDivision (bindings : Bindings) : Expr → Prop
  | intro {op : BinaryOp} {l r : Expr} {a b : Value} (hop : op = .divide ∨ op = .modulo) (hl : Gives bindings l a)
      (hr : Gives bindings r b) (hzero : b.toNumber.isZero = true) : ZeroDivision bindings (.binary op l r)

/-- Evaluation reaches a division by zero. -/
def Stumbles (bindings : Bindings) (e : Expr) : Prop := ∃ k part, Reaches bindings e k part ∧ ZeroDivision bindings part

/-! Operators -/

theorem binaryValue_strict {op : BinaryOp} {a b : Value} (h : op = .divide ∨ op = .modulo → b.toNumber.isZero = false) :
    binaryValue true op a b = binaryValue false op a b := by
  have hdivide (f : Binary64 → Binary64 → Binary64) (hb : b.toNumber.isZero = false) :
      divide true f a b = divide false f a b := by
    rw [divide, divide, hb, if_neg (fun h => Bool.false_ne_true h.2), if_neg (fun h => Bool.false_ne_true h.1)]
  cases op with
  | divide => exact hdivide _ (h (.inl rfl))
  | modulo => exact hdivide _ (h (.inr rfl))
  | _ => rfl

theorem binaryValue_zero {op : BinaryOp} {a b : Value} (hop : op = .divide ∨ op = .modulo)
    (hb : b.toNumber.isZero = true) : binaryValue true op a b = .error .divisionByZero := by
  have hdivide (f : Binary64 → Binary64 → Binary64) : divide true f a b = .error .divisionByZero := if_pos ⟨rfl, hb⟩
  obtain rfl | rfl := hop <;> exact hdivide _

/-- A division needs both operands. -/
theorem decides_division {op : BinaryOp} (hop : op = .divide ∨ op = .modulo) (a : Value) : decides op a = false := by
  obtain rfl | rfl := hop <;> rfl

/-! Values -/

theorem gives_of_evalAt {levels : Nat} {e : Expr} {v : Value} (h : evalAt false bindings levels e = .ok v) :
    Gives bindings e v := by
  have hsettled := settled_evalAt bindings levels e
  rw [h] at hsettled
  cases hsettled with
  | value hgives => exact hgives

theorem Gives.bound {e : Expr} {v : Value} {k : Nat} {n : Text} (h : Gives bindings e v)
    (hreach : Reaches bindings e k (.name n)) : bindings.lookup n ≠ none := by
  induction h generalizing k with
  | literal => cases hreach
  | name hn =>
    cases hreach
    rw [hn]
    exact Option.some_ne_none _
  | unary _ ih =>
    cases hreach with
    | operand hreach => exact ih hreach
  | decided hl hd ih =>
    cases hreach with
    | left hreach => exact ih hreach
    | right hl' hd' =>
      rw [← hl.unique hl', hd] at hd'
      cases hd'
  | binary _ _ _ _ ihl ihr =>
    cases hreach with
    | left hreach => exact ihl hreach
    | right _ _ hreach => exact ihr hreach

/-- Only the depth of a tree keeps its value from being found. -/
theorem Gives.recursionLimit {levels : Nat} {e : Expr} {v : Value} {err : ExprError} (h : Gives bindings e v)
    (herr : evalAt false bindings levels e = .error err) : err = .recursionLimit := by
  have hsettled := settled_evalAt bindings levels e
  rw [herr] at hsettled
  cases hsettled with
  | unbound hreach hn => exact absurd hn (h.bound hreach)
  | deep => rfl

/-! Both evaluations -/

/-- How a strict and a lenient evaluation of one tree end: the strict one at a division by zero, or both
alike. -/
inductive Alongside (bindings : Bindings) (e : Expr) : Except ExprError Value → Except ExprError Value → Prop
  | stopped {lenient : Except ExprError Value} (h : Stumbles bindings e) :
      Alongside bindings e (.error .divisionByZero) lenient
  | alike {result : Except ExprError Value} (h : result ≠ .error .recursionLimit → ¬Stumbles bindings e) :
      Alongside bindings e result result

section Node

variable {levels : Nat} {e l r : Expr} {op : BinaryOp} {a b : Value} {err : ExprError}
  {strict lenient : Except ExprError Value}

theorem Stumbles.operand (op : UnaryOp) (h : Stumbles bindings e) : Stumbles bindings (.unary op e) := by
  obtain ⟨k, part, hreach, hzero⟩ := h
  exact ⟨k + 1, part, .operand hreach, hzero⟩

theorem Stumbles.left (h : Stumbles bindings l) : Stumbles bindings (.binary op l r) := by
  obtain ⟨k, part, hreach, hzero⟩ := h
  exact ⟨k + 1, part, .left hreach, hzero⟩

theorem Stumbles.right (hl : Gives bindings l a) (hd : decides op a = false) (h : Stumbles bindings r) :
    Stumbles bindings (.binary op l r) := by
  obtain ⟨k, part, hreach, hzero⟩ := h
  exact ⟨k + 1, part, .right hl hd hreach, hzero⟩

theorem stumbles_unary {op : UnaryOp} (h : Stumbles bindings (.unary op e)) : Stumbles bindings e := by
  obtain ⟨k, part, hreach, hzero⟩ := h
  cases hreach with
  | here => cases hzero
  | operand hreach => exact ⟨_, part, hreach, hzero⟩

/-- A division by zero in a tree with two operands is in the left one, or in the right one when that is
reached, or it is the tree itself. -/
theorem stumbles_binary (h : Stumbles bindings (.binary op l r)) :
    Stumbles bindings l ∨ ∃ a, Gives bindings l a ∧ decides op a = false ∧
      (Stumbles bindings r ∨ (op = .divide ∨ op = .modulo) ∧ ∃ b, Gives bindings r b ∧ b.toNumber.isZero = true) := by
  obtain ⟨k, part, hreach, hzero⟩ := h
  cases hreach with
  | here =>
    cases hzero with
    | intro hop hl hr hb => exact .inr ⟨_, hl, decides_division hop _, .inr ⟨hop, _, hr, hb⟩⟩
  | left hreach => exact .inl ⟨_, part, hreach, hzero⟩
  | right hl hd hreach => exact .inr ⟨_, hl, hd, .inl ⟨_, part, hreach, hzero⟩⟩

theorem Alongside.operand (op : UnaryOp) (h : Alongside bindings e strict lenient) :
    Alongside bindings (.unary op e) (strict.map (unaryValue op)) (lenient.map (unaryValue op)) := by
  cases h with
  | stopped h => exact .stopped (h.operand op)
  | @alike result h =>
    refine .alike fun hdeep hunary => h (fun hresult => hdeep ?_) (stumbles_unary hunary)
    rw [hresult]
    rfl

theorem alongside_left_error (hlenient : evalAt false bindings levels l = .error err)
    (h : (.error err : Except ExprError Value) ≠ .error .recursionLimit → ¬Stumbles bindings l) :
    Alongside bindings (.binary op l r) (.error err) (.error err) := by
  refine .alike fun hdeep hstumbles => ?_
  obtain hleft | ⟨a, hgives, -⟩ := stumbles_binary hstumbles
  · exact h hdeep hleft
  · exact hdeep (by rw [hgives.recursionLimit hlenient])

theorem alongside_decided (hl : Gives bindings l a) (hleft : ¬Stumbles bindings l) (hd : decides op a = true) :
    Alongside bindings (.binary op l r) (.ok a) (.ok a) := by
  refine .alike fun _ hstumbles => ?_
  obtain hstumbles | ⟨a', hl', hd', -⟩ := stumbles_binary hstumbles
  · exact hleft hstumbles
  · -- the left operand has one value, and that decides
    rw [← hl.unique hl', hd] at hd'
    cases hd'

theorem alongside_right_error (hleft : ¬Stumbles bindings l) (hlenient : evalAt false bindings levels r = .error err)
    (h : (.error err : Except ExprError Value) ≠ .error .recursionLimit → ¬Stumbles bindings r) :
    Alongside bindings (.binary op l r) (.error err) (.error err) := by
  refine .alike fun hdeep hstumbles => ?_
  obtain hstumbles | ⟨a, -, -, hright | ⟨-, b, hgives, -⟩⟩ := stumbles_binary hstumbles
  · exact hleft hstumbles
  · exact h hdeep hright
  · exact hdeep (by rw [hgives.recursionLimit hlenient])

/-- The two evaluations part where the operator itself divides by zero. -/
theorem alongside_both (hl : Gives bindings l a) (hleft : ¬Stumbles bindings l) (hr : Gives bindings r b)
    (hright : ¬Stumbles bindings r) :
    Alongside bindings (.binary op l r) (binaryValue true op a b) (binaryValue false op a b) := by
  by_cases hzero : (op = .divide ∨ op = .modulo) ∧ b.toNumber.isZero = true
  · rw [binaryValue_zero hzero.1 hzero.2]
    exact .stopped ⟨0, _, .here _, .intro hzero.1 hl hr hzero.2⟩
  · rw [binaryValue_strict fun hop => Bool.eq_false_iff.mpr fun hb => hzero ⟨hop, hb⟩]
    refine .alike fun _ hstumbles => ?_
    obtain hstumbles | ⟨a', -, -, hstumbles | ⟨hop, b', hr', hb'⟩⟩ := stumbles_binary hstumbles
    · exact hleft hstumbles
    · exact hright hstumbles
    · exact hzero ⟨hop, hr.unique hr' ▸ hb'⟩

theorem alongside_binary (hl : Alongside bindings l (evalAt true bindings levels l) (evalAt false bindings levels l))
    (hr : Alongside bindings r (evalAt true bindings levels r) (evalAt false bindings levels r)) :
    Alongside bindings (.binary op l r) (evalAt true bindings (levels + 1) (.binary op l r))
      (evalAt false bindings (levels + 1) (.binary op l r)) := by
  rw [evalAt, evalAt]
  generalize evalAt true bindings levels l = result at hl ⊢
  generalize hlenient : evalAt false bindings levels l = lenient at hl ⊢
  cases hl with
  | stopped h => exact .stopped h.left
  | alike h =>
    cases result with
    | error err => exact alongside_left_error hlenient h
    | ok a =>
      have hgives : Gives bindings l a := gives_of_evalAt hlenient
      have hleft : ¬Stumbles bindings l := h (fun h => by cases h)
      dsimp only
      cases hd : decides op a with
      | true => exact alongside_decided hgives hleft hd
      | false =>
        generalize evalAt true bindings levels r = result at hr ⊢
        generalize hlenient : evalAt false bindings levels r = lenient at hr ⊢
        cases hr with
        | stopped h => exact .stopped (h.right hgives hd)
        | alike h =>
          cases result with
          | error err => exact alongside_right_error hleft hlenient h
          | ok b => exact alongside_both hgives hleft (gives_of_evalAt hlenient) (h fun h => by cases h)

end Node

/-- Both evaluations end alike, or the strict one at a division by zero. -/
theorem alongside_evalAt (bindings : Bindings) (levels : Nat) (e : Expr) :
    Alongside bindings e (evalAt true bindings levels e) (evalAt false bindings levels e) := by
  induction levels generalizing e with
  | zero => exact .alike fun hdeep => absurd rfl hdeep
  | succ levels ih =>
    cases e with
    | literal _ | name _ =>
      rw [evalAt, evalAt]
      refine .alike ?_
      rintro - ⟨k, part, hreach, hzero⟩
      cases hreach
      cases hzero
    | unary op e => exact (ih e).operand op
    | binary op l r => exact alongside_binary (ih l) (ih r)

/-- A strict evaluation ends with the error of a division by zero, which a lenient one never does, or with the same
value or the same error as the lenient one. It ends with that error exactly where evaluation from the left reaches a
quotient or a remainder by zero, unless it has gone too deep before. -/
theorem eval_strict_alike (bindings : Bindings) (e : Expr) :
    (eval true bindings e = .error .divisionByZero ∨ eval true bindings e = eval false bindings e) ∧
    eval false bindings e ≠ .error .divisionByZero ∧
    (eval true bindings e = .error .divisionByZero ↔
      eval true bindings e ≠ .error .recursionLimit ∧
        ∃ k part, Reaches bindings e k part ∧ ZeroDivision bindings part) := by
  have halongside : Alongside bindings e (eval true bindings e) (eval false bindings e) :=
    alongside_evalAt bindings maxRecursion e
  have hlenient : eval false bindings e ≠ .error .divisionByZero := by
    intro herr
    have hsettled : Settled bindings maxRecursion e (eval false bindings e) := settled_evalAt bindings maxRecursion e
    rw [herr] at hsettled
    cases hsettled
  generalize eval true bindings e = strict at halongside ⊢
  generalize eval false bindings e = lenient at halongside hlenient ⊢
  cases halongside with
  | stopped h =>
    refine ⟨.inl rfl, hlenient, fun _ => ⟨?_, h⟩, fun _ => rfl⟩
    intro hdeep
    cases hdeep
  | alike h =>
    refine ⟨.inr rfl, hlenient, fun hzero => absurd hzero hlenient, ?_⟩
    rintro ⟨hdeep, hzero⟩
    exact absurd hzero (h hdeep)

end SigilScript.Expr
