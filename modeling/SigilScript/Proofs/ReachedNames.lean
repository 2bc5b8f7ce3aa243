import SigilScript.Proofs.ArithmeticText

/-!
When evaluation fails. Evaluation goes from the left and leaves out what the left operand decides alone, so
it reaches some parts of a tree and others not. Every operator has a value for all operands, division by zero
included. What is left to fail is a name without a value that evaluation reaches, and a tree in which it
reaches too deep.
-/
namespace SigilScript.Expr

variable {bindings : Bindings}

/-- The value of a tree, with no bound on its depth. -/
inductive Gives (bindings : Bindings) : Expr → Value → Prop
  | literal (v : Value) : Gives bindings (.literal v) v
  | name {n : Text} {v : Value} (h : bindings.lookup n = some v) : Gives bindings (.name n) v
  | unary {op : UnaryOp} {e : Expr} {v : Value} (h : Gives bindings e v) :
      Gives bindings (.unary op e) (unaryValue op v)
  | decided {op : BinaryOp} {l r : Expr} {a : Value} (hl : Gives bindings l a) (hd : decides op a = true) :
      Gives bindings (.binary op l r) a
  | binary {op : BinaryOp} {l r : Expr} {a b v : Value} (hl : Gives bindings l a) (hd : decides op a = false)
      (hr : Gives bindings r b) (hv : binaryValue false op a b = .ok v) : Gives bindings (.binary op l r) v

/-- The parts of a tree that evaluation reaches, and how deep they are. The right operand is reached after
the left one, with a value that does not decide alone. -/
inductive Reaches (bindings : Bindings) : Expr → Nat → Expr → Prop
  | here (e : Expr) : Reaches bindings e 0 e
  | operand {op : UnaryOp} {e part : Expr} {k : Nat} (h : Reaches bindings e k part) :
      Reaches bindings (.unary op e) (k + 1) part
  | left {op : BinaryOp} {l r part : Expr} {k : Nat} (h : Reaches bindings l k part) :
      Reaches bindings (.binary op l r) (k + 1) part
  | right {op : BinaryOp} {l r part : Expr} {a : Value} {k : Nat} (hl : Gives bindings l a)
      (hd : decides op a = false) (h : Reaches bindings r k part) : Reaches bindings (.binary op l r) (k + 1) part

/-- A name without a value. -/
def Unbound (bindings : Bindings) (part : Expr) : Prop := ∃ n, part = .name n ∧ bindings.lookup n = none

/-- The names in a tree. -/
def names : Expr → List Text
  | .literal _ => []
  | .name n => [n]
  | .unary _ e => e.names
  | .binary _ l r => l.names ++ r.names

/-! Values and parts -/

/-- Without strictness every operator has a value for all operands. -/
theorem exists_binaryValue (op : BinaryOp) (a b : Value) : ∃ v, binaryValue false op a b = .ok v := by
  have hdivide (f : Binary64 → Binary64 → Binary64) : divide false f a b = .ok (.number (f a.toNumber b.toNumber)) :=
    if_neg fun h => Bool.false_ne_true h.1
  cases op with
  | divide => exact ⟨_, hdivide _⟩
  | modulo => exact ⟨_, hdivide _⟩
  | _ => exact ⟨_, rfl⟩

theorem Gives.unique {e : Expr} {v v' : Value} (h : Gives bindings e v) (h' : Gives bindings e v') : v = v' := by
  induction h generalizing v' with
  | literal => cases h'; rfl
  | name h =>
    cases h' with
    | name h' => exact Option.some.inj (h.symm.trans h')
  | unary _ ih =>
    cases h' with
    | unary h' => rw [ih h']
  | decided _ hd ih =>
    cases h' with
    | decided hl' => exact ih hl'
    | binary hl' hd' =>
      rw [← ih hl', hd] at hd'
      cases hd'
  | binary _ hd _ hv ihl ihr =>
    cases h' with
    | decided hl' hd' =>
      rw [← ihl hl', hd] at hd'
      cases hd'
    | binary hl' _ hr' hv' =>
      rw [← ihl hl', ← ihr hr', hv] at hv'
      exact Except.ok.inj hv'

theorem Reaches.mem_names {e : Expr} {k : Nat} {n : Text} (h : Reaches bindings e k (.name n)) : n ∈ e.names := by
  generalize hpart : Expr.name n = part at h
  induction h with
  | here => rw [← hpart]; exact List.mem_cons_self
  | operand _ ih => exact ih hpart
  | left _ ih => exact List.mem_append_left _ (ih hpart)
  | right _ _ _ ih => exact List.mem_append_right _ (ih hpart)

/-- How an evaluation of so many levels ends. -/
inductive Settled (bindings : Bindings) (levels : Nat) (e : Expr) : Except ExprError Value → Prop
  | value {v : Value} (hgives : Gives bindings e v)
      (hparts : ∀ k part, Reaches bindings e k part → k < levels ∧ ¬Unbound bindings part) :
      Settled bindings levels e (.ok v)
  | unbound {k : Nat} {n : Text} (h : Reaches bindings e k (.name n)) (hn : bindings.lookup n = none) :
      Settled bindings levels e (.error (.unknownName n))
  | deep {part : Expr} (h : Reaches bindings e levels part) : Settled bindings levels e (.error .recursionLimit)

theorem settled_leaf {levels : Nat} {e : Expr} {v : Value} (hgives : Gives bindings e v)
    (hleaf : ∀ k part, Reaches bindings e k part → k = 0 ∧ part = e) (hbound : ¬Unbound bindings e) :
    Settled bindings (levels + 1) e (.ok v) := by
  refine .value hgives fun k part h => ?_
  obtain ⟨rfl, rfl⟩ := hleaf k part h
  exact ⟨Nat.succ_pos levels, hbound⟩

/-- An inner node is no name, so what is reached below it decides. -/
theorem settled_node {levels : Nat} {e : Expr} {v : Value} (hgives : Gives bindings e v)
    (hname : ∀ n, e ≠ .name n)
    (hbelow : ∀ k part, Reaches bindings e (k + 1) part → k < levels ∧ ¬Unbound bindings part) :
    Settled bindings (levels + 1) e (.ok v) := by
  refine .value hgives fun k part h => ?_
  cases k with
  | zero =>
    cases h
    refine ⟨Nat.succ_pos levels, ?_⟩
    rintro ⟨n, hn, -⟩
    exact hname n hn
  | succ k =>
    obtain ⟨hk, hbound⟩ := hbelow k part h
    exact ⟨Nat.succ_lt_succ hk, hbound⟩

section Node

variable {levels : Nat} {e l r : Expr} {op : BinaryOp} {a b : Value} {err : ExprError}

theorem Settled.operand {result : Except ExprError Value} (op : UnaryOp) (h : Settled bindings levels e result) :
    Settled bindings (levels + 1) (.unary op e) (result.map (unaryValue op)) := by
  cases h with
  | value hgives hparts =>
    refine settled_node (.unary hgives) (fun _ h => by cases h) fun k part h => ?_
    cases h with
    | operand h => exact hparts k part h
  | unbound h hn => exact .unbound (.operand h) hn
  | deep h => exact .deep (.operand h)

theorem Settled.left_error (h : Settled bindings levels l (.error err)) :
    Settled bindings (levels + 1) (.binary op l r) (.error err) := by
  cases h with
  | unbound h hn => exact .unbound (.left h) hn
  | deep h => exact .deep (.left h)

theorem Settled.right_error (hl : Settled bindings levels l (.ok a)) (hd : decides op a = false)
    (h : Settled bindings levels r (.error err)) : Settled bindings (levels + 1) (.binary op l r) (.error err) := by
  cases hl with
  | value hgives =>
    cases h with
    | unbound h hn => exact .unbound (.right hgives hd h) hn
    | deep h => exact .deep (.right hgives hd h)

theorem Settled.decided (hl : Settled bindings levels l (.ok a)) (hd : decides op a = true) :
    Settled bindings (levels + 1) (.binary op l r) (.ok a) := by
  cases hl with
  | value hgives hparts =>
    refine settled_node (.decided hgives hd) (fun _ h => by cases h) fun k part h => ?_
    cases h with
    | left h => exact hparts k part h
    | right hgives' hd' =>
      -- the left operand has one value, and that decides
      rw [← hgives.unique hgives', hd] at hd'
      cases hd'

theorem Settled.both (hl : Settled bindings levels l (.ok a)) (hd : decides op a = false)
    (hr : Settled bindings levels r (.ok b)) :
    Settled bindings (levels + 1) (.binary op l r) (binaryValue false op a b) := by
  obtain ⟨v, hv⟩ := exists_binaryValue op a b
  rw [hv]
  cases hl with
  | value hgives hparts =>
    cases hr with
    | value hgives' hparts' =>
      refine settled_node (.binary hgives hd hgives' hv) (fun _ h => by cases h) fun k part h => ?_
      cases h with
      | left h => exact hparts k part h
      | right _ _ h => exact hparts' k part h

end Node

/-- An evaluation ends with the value, or at the first name without one, or too deep. -/
theorem settled_evalAt (bindings : Bindings) (levels : Nat) (e : Expr) :
    Settled bindings levels e (evalAt false bindings levels e) := by
  fun_induction evalAt false bindings levels e with
  | case1 e => exact .deep (.here e)
  | case2 levels v =>
    refine settled_leaf (.literal v) (fun k part h => ?_) ?_
    · cases h
      exact ⟨rfl, rfl⟩
    · rintro ⟨n, hn, -⟩
      cases hn
  | case3 levels n hn => exact .unbound (.here (.name n)) hn
  | case4 levels n v hn =>
    refine settled_leaf (.name hn) (fun k part h => ?_) ?_
    · cases h
      exact ⟨rfl, rfl⟩
    · rintro ⟨n', hname, hnone⟩
      cases hname
      rw [hn] at hnone
      cases hnone
  | case5 levels op e ih => exact ih.operand op
  | case6 levels op l r err herr ihl =>
    rw [herr] at ihl
    exact ihl.left_error
  | case7 levels op l r a ha hd ihl =>
    rw [ha] at ihl
    exact ihl.decided hd
  | case8 levels op l r a ha hd err herr ihl ihr =>
    rw [ha] at ihl
    rw [herr] at ihr
    exact ihl.right_error (Bool.eq_false_iff.mpr hd) ihr
  | case9 levels op l r a ha hd b hb ihl ihr =>
    rw [ha] at ihl
    rw [hb] at ihr
    exact ihl.both (Bool.eq_false_iff.mpr hd) ihr

end SigilScript.Expr
