import SigilScript.Proofs.ExprReading
import SigilScript.Proofs.NumeralToken

/-!
Names of numbers. An expression may name a variable whose text is a number, or have the tokens of this
number in its place. A number with a sign is two tokens where the name is one, but the grammar lets a sign
stand wherever a name may, and no operator takes the sign from its number: the tree is the same up to the
place of the name, and has the same value. The sign is one more level of nesting, for the reader and for the
evaluation, so only an expression at the limit of either can end differently.
-/
namespace SigilScript.Expr

open Opening

/-- Other tokens in the place of each that is the name `x`. -/
def replaceName (x : Text) (lexed tokens : List ExprToken) : List ExprToken :=
  tokens.flatMap fun t => if t.lexeme = .name x then lexed else [t]

/-- A tree in the place of each name `x`. -/
def substitute (x : Text) (tree : Expr) : Expr → Expr
  | .literal v => .literal v
  | .name n => if n = x then tree else .name n
  | .unary op e => .unary op (substitute x tree e)
  | .binary op l r => .binary op (substitute x tree l) (substitute x tree r)

/-- The number of levels that evaluation may go down. -/
def depth : Expr → Nat
  | .literal _ | .name _ => 1
  | .unary _ e => e.depth + 1
  | .binary _ l r => max l.depth r.depth + 1

section Replacing

variable {x : Text} {number : Binary64} {lexed : List ExprToken} {tree : Expr}

theorem replaceName_append (x : Text) (lexed ts ts' : List ExprToken) :
    replaceName x lexed (ts ++ ts') = replaceName x lexed ts ++ replaceName x lexed ts' :=
  List.flatMap_append

theorem replaceName_cons_self {t : ExprToken} (h : t.lexeme = .name x) (ts : List ExprToken) :
    replaceName x lexed (t :: ts) = lexed ++ replaceName x lexed ts := by
  rw [replaceName, List.flatMap_cons, if_pos h]
  rfl

theorem replaceName_cons_other {t : ExprToken} (h : t.lexeme ≠ .name x) (ts : List ExprToken) :
    replaceName x lexed (t :: ts) = t :: replaceName x lexed ts := by
  rw [replaceName, List.flatMap_cons, if_neg h]
  rfl

/-! Derivations -/

theorem Spells.derives (h : Spells number lexed tree) : Derives .sign lexed tree := by
  cases h with
  | unsigned ht hn hx => exact .operand (.number ht hn)
  | @signed s t text n op sign hs hop ht hn hx =>
    have hnumber : Derives .sign [t] (.literal (.number n.value)) := .operand (.number ht hn)
    cases op with
    | plus =>
      obtain rfl : UnaryOp.plus = sign := Option.some.inj hop
      exact .plus hs hnumber
    | minus =>
      obtain rfl : UnaryOp.minus = sign := Option.some.inj hop
      exact .minus hs hnumber
    | _ => cases hop

/-- The rank of what may stand in the place of a name: an atom may have a sign. -/
def Rank.loosened : Rank → Rank
  | .atom => .sign
  | rank => rank

theorem Rank.loosened_of_groups {rank : Rank} (h : rank.groups) :
    rank.loosened = rank ∧ rank.next.loosened = rank.next :=
  match rank, h with
  | .alternatives, _ | .conjunction, _ | .sum, _ | .product, _ => ⟨rfl, rfl⟩

theorem Derives.operand_loosened {rank : Rank} {ts : List ExprToken} {e : Expr}
    (h : Derives rank.next.loosened ts e) : Derives rank.loosened ts e := by
  cases rank with
  | sign | atom => exact h
  | _ => exact .operand h

theorem Derives.replaceName (hs : Spells number lexed tree) {rank : Rank} {ts : List ExprToken} {e : Expr}
    (h : Derives rank ts e) :
    Derives rank.loosened (Expr.replaceName x lexed ts) (substitute x tree e) := by
  induction h with
  | operand h ih => exact ih.operand_loosened
  | @group rank ls rs l r t op b hg ht hj hl hr ihl ihr =>
    obtain ⟨hrank, hnext⟩ := Rank.loosened_of_groups hg
    rw [hrank] at ihl ⊢
    rw [hnext] at ihr
    rw [replaceName_append, replaceName_cons_other (by rw [ht]; nofun)]
    exact .group hg ht hj ihl ihr
  | compare ht hj hl hr ihl ihr =>
    rw [replaceName_append, replaceName_cons_other (by rw [ht]; nofun)]
    exact .compare ht hj ihl ihr
  | not ht h ih =>
    rw [replaceName_cons_other (by rw [ht]; nofun)]
    exact .not ht ih
  | minus ht h ih =>
    rw [replaceName_cons_other (by rw [ht]; nofun)]
    exact .minus ht ih
  | plus ht h ih =>
    rw [replaceName_cons_other (by rw [ht]; nofun)]
    exact .plus ht ih
  | number ht hn =>
    rw [replaceName_cons_other (by rw [ht]; nofun)]
    exact .operand (.number ht hn)
  | string ht =>
    rw [replaceName_cons_other (by rw [ht]; nofun)]
    exact .operand (.string ht)
  | bool ht =>
    rw [replaceName_cons_other (by rw [ht]; nofun)]
    exact .operand (.bool ht)
  | @name t n ht =>
    by_cases hn : n = x
    · have hnil : Expr.replaceName x lexed [] = [] := rfl
      rw [replaceName_cons_self (hn ▸ ht), hnil, List.append_nil, substitute, if_pos hn]
      exact hs.derives
    · rw [replaceName_cons_other (by rw [ht]; exact fun h => hn (ExprLexeme.name.inj h)), substitute, if_neg hn]
      exact .operand (.name ht)
  | parentheses ht ht' h ih =>
    rw [replaceName_append, replaceName_cons_other (by rw [ht]; nofun),
      replaceName_cons_other (by rw [ht']; nofun)]
    exact .operand (.parentheses ht ht' ih)

/-! Levels -/

theorem Spells.evalAt (h : Spells number lexed tree) (strict : Bool) (bindings : Bindings) (levels : Nat) :
    Expr.evalAt strict bindings (levels + 1) tree = .ok (.number number) ∨
      Expr.evalAt strict bindings (levels + 1) tree = .error .recursionLimit ∧ levels = 0 := by
  cases h with
  | unsigned ht hn hx => exact .inl (hx ▸ rfl)
  | signed hs hop ht hn hx =>
    cases levels with
    | zero => exact .inr ⟨rfl, rfl⟩
    | succ levels => exact .inl (congrArg Except.ok hx)

theorem lookup_bindingsOf (store : Store) (x : Text) :
    (bindingsOf store).lookup x = (store.lookup x).map fun t => t.number?.elim (.text t) .number := by
  induction store with
  | nil => rfl
  | cons p store ih =>
    obtain ⟨n, t⟩ := p
    rw [bindingsOf, List.map_cons, List.lookup_cons, List.lookup_cons]
    split
    · rfl
    · exact ih

end Replacing

end SigilScript.Expr
