import SigilScript.Expr.Reader

/-!
The grammar of expressions. A rank holds what the next, tighter rank holds, and what its own operators
make of that. Alternatives, conjunctions, sums and products may go on with another operand and group to
the left; a comparison has two operands, and neither is a comparison. `Derives` says which tokens a rank
derives and with which tree. Every derivation is followed by the reader, unless it is nested too deep:
whatever comes after the tokens, as long as no operator goes on with the last operand.
-/
namespace SigilScript.Expr

/-- The ranks of the grammar, loosest first. -/
inductive Rank where
  | alternatives | conjunction | negation | comparison | sum | product | sign | atom
  deriving DecidableEq, Repr

namespace Rank

def next : Rank → Rank
  | .alternatives => .conjunction
  | .conjunction => .negation
  | .negation => .comparison
  | .comparison => .sum
  | .sum => .product
  | .product => .sign
  | .sign | .atom => .atom

/-- Loosest first. -/
def place : Rank → Nat
  | .alternatives => 0
  | .conjunction => 1
  | .negation => 2
  | .comparison => 3
  | .sum => 4
  | .product => 5
  | .sign => 6
  | .atom => 7

/-- Any number of operands, grouped to the left. -/
def groups : Rank → Bool
  | .alternatives | .conjunction | .sum | .product => true
  | _ => false

theorem place_le_next (rank : Rank) : rank.place ≤ rank.next.place := by
  cases rank <;> decide

end Rank

/-- An operator between two operands, and what it makes of them. -/
inductive Joins : Rank → Operator → BinaryOp → Prop
  | or : Joins .alternatives .or .or
  | and : Joins .conjunction .and .and
  | equal : Joins .comparison .equal .equal
  | notEqual : Joins .comparison .notEqual .notEqual
  | identical : Joins .comparison .identical .identical
  | notIdentical : Joins .comparison .notIdentical .notIdentical
  | less : Joins .comparison .less .less
  | atMost : Joins .comparison .atMost .atMost
  | greater : Joins .comparison .greater .greater
  | atLeast : Joins .comparison .atLeast .atLeast
  | plus : Joins .sum .plus .plus
  | minus : Joins .sum .minus .minus
  | times : Joins .product .times .times
  | divide : Joins .product .divide .divide
  | modulo : Joins .product .modulo .modulo

/-- The tokens of a phrase of the given rank, and its tree. -/
inductive Derives : Rank → List ExprToken → Expr → Prop
  | operand {rank : Rank} {ts : List ExprToken} {e : Expr} (h : Derives rank.next ts e) : Derives rank ts e
  | group {rank : Rank} {ls rs : List ExprToken} {l r : Expr} {t : ExprToken} {op : Operator} {b : BinaryOp}
      (hg : rank.groups) (ht : t.lexeme = .operator op) (hj : Joins rank op b)
      (hl : Derives rank ls l) (hr : Derives rank.next rs r) : Derives rank (ls ++ t :: rs) (.binary b l r)
  | compare {ls rs : List ExprToken} {l r : Expr} {t : ExprToken} {op : Operator} {b : BinaryOp}
      (ht : t.lexeme = .operator op) (hj : Joins .comparison op b)
      (hl : Derives .sum ls l) (hr : Derives .sum rs r) : Derives .comparison (ls ++ t :: rs) (.binary b l r)
  | not {ts : List ExprToken} {e : Expr} {t : ExprToken} (ht : t.lexeme = .operator .not)
      (h : Derives .negation ts e) : Derives .negation (t :: ts) (.unary .not e)
  | minus {ts : List ExprToken} {e : Expr} {t : ExprToken} (ht : t.lexeme = .operator .minus)
      (h : Derives .sign ts e) : Derives .sign (t :: ts) (.unary .minus e)
  | plus {ts : List ExprToken} {e : Expr} {t : ExprToken} (ht : t.lexeme = .operator .plus)
      (h : Derives .sign ts e) : Derives .sign (t :: ts) (.unary .plus e)
  | number {t : ExprToken} {text : Text} {n : Numeral} (ht : t.lexeme = .number text)
      (hn : Numeral.ofText? text = some n) : Derives .atom [t] (.literal (.number n.value))
  | string {t : ExprToken} {value : Text} (ht : t.lexeme = .string value) :
      Derives .atom [t] (.literal (.text value))
  | bool {t : ExprToken} {value : Bool} (ht : t.lexeme = .bool value) :
      Derives .atom [t] (.literal (.bool value))
  | name {t : ExprToken} {n : Text} (ht : t.lexeme = .name n) : Derives .atom [t] (.name n)
  | parentheses {ts : List ExprToken} {e : Expr} {t t' : ExprToken} (ht : t.lexeme = .leftParenthesis)
      (ht' : t'.lexeme = .rightParenthesis) (h : Derives .alternatives ts e) :
      Derives .atom (t :: ts ++ [t']) e

/-! The reader, rank by rank -/

/-- The operators of a rank, as the reader looks them up. -/
def binaryOp? : Rank → Operator → Option BinaryOp
  | .alternatives => orOp?
  | .conjunction => andOp?
  | .comparison => comparisonOp?
  | .sum => sumOp?
  | .product => productOp?
  | _ => fun _ => none

theorem binaryOp?_eq_some_iff {rank : Rank} {op : Operator} {b : BinaryOp} :
    binaryOp? rank op = some b ↔ Joins rank op b := by
  constructor
  · intro h
    cases rank <;> cases op <;> cases h <;> constructor
  · intro h
    cases h <;> rfl

/-- The part of the reader for a rank, with so many levels of nesting below it. -/
def readerAt (levels : Nat) : Rank → Parser
  | .alternatives => alternatives (parseAt levels)
  | .conjunction => conjunction (parseAt levels)
  | .negation => negated (parseAt levels)
  | .comparison => comparison (sum (parseAt levels))
  | .sum => sum (parseAt levels)
  | .product => product (parseAt levels)
  | .sign => signed (parseAt levels)
  | .atom => atom (parseAt levels .alternatives)

theorem readerAt_of_groups {rank : Rank} (levels : Nat) (h : rank.groups) :
    readerAt levels rank = chain (binaryOp? rank) (readerAt levels rank.next) :=
  match rank, h with
  | .alternatives, _ | .conjunction, _ | .sum, _ | .product, _ => rfl

theorem operator?_cons {t : ExprToken} (ts : List ExprToken) {op : Operator} (h : t.lexeme = .operator op) :
    operator? (t :: ts) = some op := by
  obtain ⟨l, p⟩ := t
  cases h
  rfl

theorem operator?_eq_some {tokens : List ExprToken} {op : Operator} (h : operator? tokens = some op) :
    ∃ t ts, tokens = t :: ts ∧ t.lexeme = .operator op := by
  unfold operator? at h
  split at h
  · cases h
    exact ⟨_, _, rfl, rfl⟩
  · cases h

/-- No operator comes next that joins operands of this or a tighter rank. -/
def Ends (rank : Rank) (tokens : List ExprToken) : Prop :=
  ∀ op b r, operator? tokens = some op → Joins r op b → r.place < rank.place

theorem ends_of_none {rank : Rank} {tokens : List ExprToken} (h : operator? tokens = none) :
    Ends rank tokens := by
  intro op b r ho
  rw [h] at ho
  cases ho

theorem Ends.next {rank : Rank} {tokens : List ExprToken} (h : Ends rank tokens) :
    Ends rank.next tokens := fun op b r ho hj =>
  Nat.lt_of_lt_of_le (h op b r ho hj) rank.place_le_next

theorem Ends.bind_eq_none {rank : Rank} {tokens : List ExprToken} (h : Ends rank tokens) :
    (operator? tokens).bind (binaryOp? rank) = none := by
  cases ho : operator? tokens with
  | none => rfl
  | some op =>
    cases hb : binaryOp? rank op with
    | none => exact hb
    | some b => exact absurd (h op b rank ho (binaryOp?_eq_some_iff.mp hb)) (Nat.lt_irrefl _)

/-- An operator of a rank ends the operands of that rank. -/
theorem Joins.ends {rank : Rank} {op : Operator} {b : BinaryOp} {t : ExprToken} (hj : Joins rank op b)
    (ht : t.lexeme = .operator op) (rest : List ExprToken) : Ends rank.next (t :: rest) := by
  intro op' b' r ho hr
  rw [operator?_cons rest ht] at ho
  cases ho
  cases hj <;> cases hr <;> decide

theorem Joins.bind_eq_some {rank : Rank} {op : Operator} {b : BinaryOp} {t : ExprToken}
    (hj : Joins rank op b) (ht : t.lexeme = .operator op) (rest : List ExprToken) :
    (operator? (t :: rest)).bind (binaryOp? rank) = some b := by
  rw [operator?_cons rest ht]
  exact binaryOp?_eq_some_iff.mpr hj

/-! What derivations begin with -/

/-- The tightest rank that a phrase which begins with the lexeme can have. -/
def beginning? : ExprLexeme → Option Rank
  | .operator .not => some .negation
  | .operator .plus | .operator .minus => some .sign
  | .number _ | .string _ | .bool _ | .name _ | .leftParenthesis => some .atom
  | _ => none

theorem Derives.beginning {rank : Rank} {ts : List ExprToken} {e : Expr} (h : Derives rank ts e) :
    ∃ t more r, ts = t :: more ∧ beginning? t.lexeme = some r ∧ rank.place ≤ r.place := by
  induction h with
  | @operand rank ts e h ih =>
    obtain ⟨t, more, r, rfl, hb, hle⟩ := ih
    exact ⟨t, more, r, rfl, hb, Nat.le_trans rank.place_le_next hle⟩
  | group hg ht hj hl hr ihl ihr =>
    obtain ⟨t, more, r, rfl, hb, hle⟩ := ihl
    exact ⟨t, _, r, rfl, hb, hle⟩
  | compare ht hj hl hr ihl ihr =>
    obtain ⟨t, more, r, rfl, hb, hle⟩ := ihl
    exact ⟨t, _, r, rfl, hb, Nat.le_trans (Rank.place_le_next .comparison) hle⟩
  | not ht h ih => exact ⟨_, _, .negation, rfl, by rw [ht]; rfl, Nat.le_refl _⟩
  | minus ht h ih => exact ⟨_, _, .sign, rfl, by rw [ht]; rfl, Nat.le_refl _⟩
  | plus ht h ih => exact ⟨_, _, .sign, rfl, by rw [ht]; rfl, Nat.le_refl _⟩
  | number ht hn => exact ⟨_, _, .atom, rfl, by rw [ht]; rfl, Nat.le_refl _⟩
  | string ht => exact ⟨_, _, .atom, rfl, by rw [ht]; rfl, Nat.le_refl _⟩
  | bool ht => exact ⟨_, _, .atom, rfl, by rw [ht]; rfl, Nat.le_refl _⟩
  | name ht => exact ⟨_, _, .atom, rfl, by rw [ht]; rfl, Nat.le_refl _⟩
  | parentheses ht ht' h ih => exact ⟨_, _, .atom, rfl, by rw [ht]; rfl, Nat.le_refl _⟩

/-- An operator at the start of a phrase stands before an operand of a rank that it can begin. -/
theorem Derives.place_le {rank : Rank} {ts rest : List ExprToken} {e : Expr} {op : Operator}
    (h : Derives rank ts e) (ho : operator? (ts ++ rest) = some op) :
    ∃ r, beginning? (.operator op) = some r ∧ rank.place ≤ r.place := by
  obtain ⟨t, more, r, rfl, hb, hle⟩ := h.beginning
  obtain ⟨t', ts', heq, ht⟩ := operator?_eq_some ho
  cases heq
  exact ⟨r, ht ▸ hb, hle⟩

/-- A comparison does not begin with a negation. -/
theorem Derives.operator?_ne_not {ts : List ExprToken} {e : Expr} (h : Derives .comparison ts e)
    (rest : List ExprToken) : operator? (ts ++ rest) ≠ some .not := by
  intro ho
  obtain ⟨r, hb, hle⟩ := h.place_le ho
  cases hb
  exact absurd hle (by decide)

/-- An atom does not begin with an operator. -/
theorem Derives.operator?_eq_none {ts : List ExprToken} {e : Expr} (h : Derives .atom ts e)
    (rest : List ExprToken) : operator? (ts ++ rest) = none := by
  cases ho : operator? (ts ++ rest) with
  | none => rfl
  | some op =>
    obtain ⟨r, hb, hle⟩ := h.place_le ho
    cases op <;> cases hb <;> exact absurd hle (by decide)

/-! Derivations are read -/

/-- The tokens are read with the given tree, up to the rest; or they are nested too deep. -/
def Reads (levels : Nat) (rank : Rank) (ts : List ExprToken) (e : Expr) (rest : List ExprToken) : Prop :=
  readerAt levels rank (ts ++ rest) = .ok (e, rest) ∨
    readerAt levels rank (ts ++ rest) = .error .recursionLimit

/-- The tokens are read as the first operands of a rank, which goes on after them. -/
def Resumes (levels : Nat) (rank : Rank) (ts : List ExprToken) (e : Expr) (rest : List ExprToken) : Prop :=
  (∃ fuel, rest.length ≤ fuel ∧ readerAt levels rank (ts ++ rest) =
    chainFrom (binaryOp? rank) (readerAt levels rank.next) fuel e rest) ∨
  readerAt levels rank (ts ++ rest) = .error .recursionLimit

theorem chainFrom_of_none {op? : Operator → Option BinaryOp} {operand : Parser} {rest : List ExprToken}
    (fuel : Nat) (e : Expr) (h : (operator? rest).bind op? = none) :
    chainFrom op? operand fuel e rest = .ok (e, rest) := by
  cases fuel with
  | zero => rfl
  | succ fuel => rw [chainFrom, h]

theorem Resumes.reads {levels : Nat} {rank : Rank} {ts rest : List ExprToken} {e : Expr}
    (h : Resumes levels rank ts e rest) (hrest : Ends rank rest) : Reads levels rank ts e rest := by
  obtain ⟨fuel, -, h⟩ | h := h
  · exact .inl (h.trans (chainFrom_of_none fuel e hrest.bind_eq_none))
  · exact .inr h

section Groups

variable {levels : Nat} {rank : Rank} {ls rs ts rest : List ExprToken} {l r e : Expr}

/-- The first operand of a rank. -/
theorem Reads.resumes (hg : rank.groups) (h : Reads levels rank.next ts e rest) :
    Resumes levels rank ts e rest := by
  unfold Resumes
  rw [readerAt_of_groups levels hg, chain]
  obtain h | h := h
  · exact .inl ⟨rest.length, Nat.le_refl _, by rw [h]⟩
  · exact .inr (by rw [h])

/-- One more operand of a rank. -/
theorem Resumes.group {t : ExprToken} {op : Operator} {b : BinaryOp} (ht : t.lexeme = .operator op)
    (hj : Joins rank op b) (hl : Resumes levels rank ls l (t :: rs ++ rest))
    (hr : Reads levels rank.next rs r rest) :
    Resumes levels rank (ls ++ t :: rs) (.binary b l r) rest := by
  unfold Resumes
  rw [List.append_assoc]
  obtain ⟨fuel, hfuel, hl⟩ | hl := hl
  · rw [hl]
    obtain ⟨fuel, rfl⟩ : ∃ n, fuel = n + 1 := ⟨fuel - 1, by simp at hfuel; omega⟩
    rw [chainFrom, List.cons_append, hj.bind_eq_some ht]
    obtain hr | hr := hr
    · refine .inl ⟨fuel, ?_, ?_⟩
      · simp at hfuel
        omega
      · simp only [List.tail_cons, hr]
    · exact .inr (by simp only [List.tail_cons, hr])
  · exact .inr hl

end Groups

/-- The rank that a level of nesting starts at. -/
def Entry.rank : Entry → Rank
  | .alternatives => .alternatives
  | .negation => .negation
  | .sign => .sign

theorem parseAt_succ (levels : Nat) (entry : Entry) :
    parseAt (levels + 1) entry = readerAt levels entry.rank := by
  cases entry <;> rfl

section Phrases

variable {levels : Nat} {ls rs ts rest : List ExprToken} {l r e : Expr} {t : ExprToken}

/-- One level down. -/
theorem parseAt_of_reads (levels : Nat) (entry : Entry) (h : ∀ levels, Reads levels entry.rank ts e rest) :
    parseAt levels entry (ts ++ rest) = .ok (e, rest) ∨
      parseAt levels entry (ts ++ rest) = .error .recursionLimit := by
  cases levels with
  | zero => exact .inr rfl
  | succ levels =>
    rw [parseAt_succ]
    exact h levels

theorem Reads.not (ht : t.lexeme = .operator .not) (h : ∀ levels, Reads levels .negation ts e rest) :
    Reads levels .negation (t :: ts) (.unary .not e) rest := by
  unfold Reads
  rw [readerAt, negated, List.cons_append, operator?_cons _ ht, if_pos rfl, List.tail_cons]
  obtain hb | hb := parseAt_of_reads levels .negation h
  · exact .inl (by rw [hb]; rfl)
  · exact .inr (by rw [hb]; rfl)

theorem Reads.signed {op : Operator} {sign : UnaryOp} (ht : t.lexeme = .operator op)
    (hs : signOp? op = some sign) (h : ∀ levels, Reads levels .sign ts e rest) :
    Reads levels .sign (t :: ts) (.unary sign e) rest := by
  have ho : (operator? (t :: (ts ++ rest))).bind signOp? = some sign := by
    rw [operator?_cons _ ht]
    exact hs
  unfold Reads
  rw [readerAt, Expr.signed, List.cons_append, ho]
  obtain hb | hb := parseAt_of_reads levels .sign h
  · exact .inl (by simp only [List.tail_cons, hb]; rfl)
  · exact .inr (by simp only [List.tail_cons, hb]; rfl)

theorem Reads.parentheses {t' : ExprToken} (ht : t.lexeme = .leftParenthesis)
    (ht' : t'.lexeme = .rightParenthesis) (h : ∀ levels, Reads levels .alternatives ts e (t' :: rest)) :
    Reads levels .atom (t :: ts ++ [t']) e rest := by
  have hclose : closeParenthesis (e, t' :: rest) = .ok (e, rest) := by
    obtain ⟨lexeme, position⟩ := t'
    cases ht'
    rfl
  unfold Reads
  rw [readerAt, List.cons_append, List.cons_append, List.append_assoc, List.singleton_append, atom, ht]
  obtain hb | hb := parseAt_of_reads levels .alternatives h
  · exact .inl (by simp only [hb]; exact hclose)
  · exact .inr (by simp only [hb]; rfl)

theorem Reads.compare {op : Operator} {b : BinaryOp} (ht : t.lexeme = .operator op)
    (hj : Joins .comparison op b) (hl : Reads levels .sum ls l (t :: rs ++ rest))
    (hr : Reads levels .sum rs r rest) : Reads levels .comparison (ls ++ t :: rs) (.binary b l r) rest := by
  have ho : (operator? (t :: (rs ++ rest))).bind comparisonOp? = some b := hj.bind_eq_some ht _
  unfold Reads
  rw [readerAt, comparison, List.append_assoc]
  obtain hl | hl := hl
  · rw [show sum (parseAt levels) (ls ++ (t :: rs ++ rest)) = .ok (l, t :: (rs ++ rest)) from hl]
    simp only [ho, List.tail_cons]
    obtain hr | hr := hr
    · exact .inl (by rw [show sum (parseAt levels) (rs ++ rest) = _ from hr]; rfl)
    · exact .inr (by rw [show sum (parseAt levels) (rs ++ rest) = _ from hr]; rfl)
  · exact .inr (by rw [show sum (parseAt levels) (ls ++ (t :: rs ++ rest)) = _ from hl])

/-- A phrase of the next rank, where the rank does not group. -/
theorem Reads.operand {rank : Rank} (hg : rank.groups = false) (hd : Derives rank.next ts e)
    (h : Reads levels rank.next ts e rest) (hrest : Ends rank rest) : Reads levels rank ts e rest := by
  unfold Reads at h ⊢
  match rank with
  | .negation =>
    have hn := hd.operator?_ne_not rest
    rw [readerAt, negated, if_neg hn]
    exact h
  | .comparison =>
    have hnone : (operator? rest).bind comparisonOp? = none := hrest.bind_eq_none
    rw [readerAt, comparison]
    obtain h | h := h
    · exact .inl (by rw [show sum (parseAt levels) (ts ++ rest) = _ from h]; simp only [hnone])
    · exact .inr (by rw [show sum (parseAt levels) (ts ++ rest) = _ from h])
  | .sign =>
    rw [readerAt, Expr.signed, hd.operator?_eq_none rest]
    exact h
  | .atom => exact h

end Phrases

/-- What a derivation says of the reader. A rank that groups can go on with more operands. -/
structure Followed (rank : Rank) (ts : List ExprToken) (e : Expr) : Prop where
  resumes : rank.groups → ∀ levels rest, Ends rank.next rest → Resumes levels rank ts e rest
  reads : ∀ levels rest, Ends rank rest → Reads levels rank ts e rest

theorem followed_of_resumes {rank : Rank} {ts : List ExprToken} {e : Expr}
    (h : ∀ levels rest, Ends rank.next rest → Resumes levels rank ts e rest) : Followed rank ts e :=
  ⟨fun _ => h, fun levels rest hrest => (h levels rest hrest.next).reads hrest⟩

theorem followed_of_reads {rank : Rank} {ts : List ExprToken} {e : Expr} (hg : rank.groups = false)
    (h : ∀ levels rest, Ends rank rest → Reads levels rank ts e rest) : Followed rank ts e :=
  ⟨fun hr => absurd hr (by simp [hg]), h⟩

theorem Followed.operand {rank : Rank} {ts : List ExprToken} {e : Expr} (hd : Derives rank.next ts e)
    (h : Followed rank.next ts e) : Followed rank ts e := by
  cases hg : rank.groups with
  | true =>
    exact followed_of_resumes fun levels rest hrest => (h.reads levels rest hrest).resumes hg
  | false =>
    exact followed_of_reads hg fun levels rest hrest =>
      (h.reads levels rest hrest.next).operand hg hd hrest

theorem followed_atom {t : ExprToken} {e : Expr}
    (h : ∀ levels rest, readerAt levels .atom (t :: rest) = .ok (e, rest)) : Followed .atom [t] e :=
  followed_of_reads rfl fun levels rest _ => .inl (h levels rest)

theorem Derives.followed {rank : Rank} {ts : List ExprToken} {e : Expr} (h : Derives rank ts e) :
    Followed rank ts e := by
  induction h with
  | operand h ih => exact ih.operand h
  | group hg ht hj hl hr ihl ihr =>
    exact followed_of_resumes fun levels rest hrest =>
      (ihl.resumes hg levels _ (hj.ends ht _)).group ht hj (ihr.reads levels rest hrest)
  | compare ht hj hl hr ihl ihr =>
    exact followed_of_reads rfl fun levels rest hrest =>
      .compare ht hj (ihl.reads levels _ (hj.ends ht _)) (ihr.reads levels rest hrest.next)
  | not ht h ih =>
    exact followed_of_reads rfl fun levels rest hrest => .not ht fun levels => ih.reads levels rest hrest
  | minus ht h ih =>
    exact followed_of_reads rfl fun levels rest hrest =>
      .signed ht rfl fun levels => ih.reads levels rest hrest
  | plus ht h ih =>
    exact followed_of_reads rfl fun levels rest hrest =>
      .signed ht rfl fun levels => ih.reads levels rest hrest
  | number ht hn =>
    refine followed_atom fun levels rest => ?_
    rw [readerAt, atom, ht]
    simp only [readNumber, hn]
    rfl
  | string ht => exact followed_atom fun levels rest => by rw [readerAt, atom, ht]
  | bool ht => exact followed_atom fun levels rest => by rw [readerAt, atom, ht]
  | name ht => exact followed_atom fun levels rest => by rw [readerAt, atom, ht]
  | @parentheses ts e t t' ht ht' h ih =>
    refine followed_of_reads rfl fun levels rest hrest => .parentheses ht ht' fun levels => ?_
    have hclosed : operator? (t' :: rest) = none := by
      obtain ⟨lexeme, position⟩ := t'
      cases ht'
      rfl
    exact ih.reads levels _ (ends_of_none hclosed)

/-- What the grammar derives is read, with the tree of the derivation, unless it is nested too deep. -/
theorem Derives.reads {rank : Rank} {ts rest : List ExprToken} {e : Expr} (h : Derives rank ts e)
    (levels : Nat) (hrest : Ends rank rest) : Reads levels rank ts e rest :=
  h.followed.reads levels rest hrest

end SigilScript.Expr
