import SigilScript.Proofs.ExprGrammar

/-!
Reading expressions: what comes of every list of tokens. A parenthesis, a negation and a sign each open a
level of nesting; `Opening` follows from token to token which levels are open. The reader either has read
tokens that the grammar derives, or refuses the list; it runs out of levels only where more are open at
once than it allows. In both cases the end of input is the last token that it looks at.
-/
namespace SigilScript.Expr

/-! Levels of nesting -/

inductive Level where
  | parenthesis | negation | sign
  deriving DecidableEq, Repr

/-- What is open at a place between two tokens: the levels, innermost first, and whether an operand has just
ended there. -/
structure Opening where
  levels : List Level
  ended : Bool
  deriving DecidableEq, Repr

namespace Opening

def start : Opening := ⟨[], false⟩

/-- Without the signs of an operand that has ended. -/
def unsigned (levels : List Level) : List Level := levels.dropWhile (· = .sign)

/-- Without the signs and negations inside the innermost parenthesis. -/
def enclosing (levels : List Level) : List Level := levels.dropWhile (· ≠ .parenthesis)

/-- After one more lexeme. A plus or a minus is a sign unless it follows an operand. -/
def after (o : Opening) : ExprLexeme → Opening
  | .number _ | .string _ | .bool _ | .name _ => ⟨unsigned o.levels, true⟩
  | .leftParenthesis => ⟨.parenthesis :: o.levels, false⟩
  | .rightParenthesis => ⟨unsigned (enclosing o.levels).tail, true⟩
  | .operator .not => ⟨.negation :: o.levels, false⟩
  | .operator .plus | .operator .minus => ⟨if o.ended then o.levels else .sign :: o.levels, false⟩
  | .operator .and | .operator .or => ⟨enclosing o.levels, false⟩
  | .operator _ => ⟨o.levels, false⟩
  | .endOfInput => o

def afterAll (o : Opening) (ts : List ExprToken) : Opening := ts.foldl (fun o t => o.after t.lexeme) o

/-- The greatest number of levels that are open at once. -/
def deepest (o : Opening) : List ExprToken → Nat
  | [] => o.levels.length
  | t :: ts => max o.levels.length ((o.after t.lexeme).deepest ts)

theorem levels_le_deepest (o : Opening) (ts : List ExprToken) : o.levels.length ≤ o.deepest ts := by
  cases ts with
  | nil => exact Nat.le_refl _
  | cons t ts => exact Nat.le_max_left _ _

theorem deepest_afterAll_le (o : Opening) (ts rest : List ExprToken) :
    (o.afterAll ts).deepest rest ≤ o.deepest (ts ++ rest) := by
  induction ts generalizing o with
  | nil => exact Nat.le_refl _
  | cons t ts ih => exact Nat.le_trans (ih _) (Nat.le_max_right _ _)

theorem afterAll_append (o : Opening) (ts rest : List ExprToken) :
    o.afterAll (ts ++ rest) = (o.afterAll ts).afterAll rest := List.foldl_append

/-- A phrase of the rank can begin: what is open was not left open by an operand before it. -/
def Admits (o : Opening) (rank : Rank) : Prop :=
  o.ended = false ∧
    match rank with
    | .alternatives | .conjunction => enclosing o.levels = o.levels
    | .negation | .comparison | .sum | .product => unsigned o.levels = o.levels
    | .sign | .atom => True

theorem unsigned_of_enclosing {levels : List Level} (h : enclosing levels = levels) :
    unsigned levels = levels := by
  cases levels with
  | nil => rfl
  | cons level levels =>
    cases level with
    | parenthesis => rfl
    | negation => rfl
    | sign =>
      have hlength : (enclosing levels).length = levels.length + 1 := congrArg List.length h
      have hle : (enclosing levels).length ≤ levels.length := (List.dropWhile_sublist _).length_le
      omega

theorem Admits.next {o : Opening} {rank : Rank} (h : o.Admits rank) : o.Admits rank.next := by
  obtain ⟨hended, hopen⟩ := h
  refine ⟨hended, ?_⟩
  cases rank with
  | alternatives => exact hopen
  | conjunction => exact unsigned_of_enclosing hopen
  | negation => exact hopen
  | comparison => exact hopen
  | sum => exact hopen
  | product => trivial
  | sign => trivial
  | atom => trivial

/-- A rank that joins operands begins with no sign open. -/
theorem Admits.unsigned_eq {o : Opening} {rank : Rank} (h : o.Admits rank)
    (hrank : rank.place < Rank.sign.place) : unsigned o.levels = o.levels := by
  obtain ⟨-, hopen⟩ := h
  cases rank with
  | alternatives => exact unsigned_of_enclosing hopen
  | conjunction => exact unsigned_of_enclosing hopen
  | negation => exact hopen
  | comparison => exact hopen
  | sum => exact hopen
  | product => exact hopen
  | sign => exact absurd hrank (by decide)
  | atom => exact absurd hrank (by decide)

/-- Where a phrase of the rank has ended: at most negations are still open, and none in a rank that is
tighter than a negation. -/
def Leaves (o : Opening) (rank : Rank) (o' : Opening) : Prop :=
  ∃ k, o' = ⟨List.replicate k .negation ++ unsigned o.levels, true⟩ ∧
    (Rank.negation.place < rank.place → k = 0)

theorem enclosing_negations (k : Nat) (levels : List Level) :
    enclosing (List.replicate k .negation ++ levels) = enclosing levels := by
  induction k with
  | zero => rfl
  | succ k ih => exact ih

/-- An operator between two operands opens nothing, and closes what the first one left open. -/
theorem Leaves.after_operator {o o' : Opening} {rank : Rank} {op : Operator} {b : BinaryOp}
    (hj : Joins rank op b) (ho : o.Admits rank) (h : o.Leaves rank o') : o'.after (.operator op) = o := by
  obtain ⟨k, rfl, hk⟩ := h
  obtain ⟨levels, ended⟩ := o
  obtain rfl : ended = false := ho.1
  cases hj with
  | or | and =>
    have henc : enclosing levels = levels := ho.2
    simp [after, enclosing_negations, unsigned_of_enclosing henc, henc]
  | equal | notEqual | identical | notIdentical | less | atMost | greater | atLeast | plus | minus
    | times | divide | modulo =>
    obtain rfl := hk (by decide)
    have huns : unsigned levels = levels := ho.2
    simp [after, huns]

end Opening

open Opening

/-- What a derivation leaves open. -/
theorem Derives.leaves {rank : Rank} {ts : List ExprToken} {e : Expr} (h : Derives rank ts e) {o : Opening}
    (ho : o.Admits rank) : o.Leaves rank (o.afterAll ts) := by
  induction h generalizing o with
  | @operand rank ts e h ih =>
    obtain ⟨k, hk, hzero⟩ := ih ho.next
    exact ⟨k, hk, fun hplace => hzero (Nat.lt_of_lt_of_le hplace rank.place_le_next)⟩
  | @group rank ls rs l r t op b hg ht hj hl hr ihl ihr =>
    obtain ⟨k, hk, hzero⟩ := ihr ho.next
    refine ⟨k, ?_, fun hplace => hzero (Nat.lt_of_lt_of_le hplace rank.place_le_next)⟩
    rw [afterAll_append, afterAll, List.foldl_cons, ht, (ihl ho).after_operator hj ho]
    exact hk
  | @compare ls rs l r t op b ht hj hl hr ihl ihr =>
    obtain ⟨k, hk, hzero⟩ := ihr (ho.next)
    refine ⟨k, ?_, fun _ => hzero (by decide)⟩
    obtain ⟨j, hj', hzero'⟩ := ihl ho.next
    have hleft : o.Leaves .comparison (o.afterAll ls) := ⟨j, hj', fun _ => hzero' (by decide)⟩
    rw [afterAll_append, afterAll, List.foldl_cons, ht, hleft.after_operator hj ho]
    exact hk
  | @not ts e t ht h ih =>
    obtain ⟨k, hk, -⟩ := ih (o := ⟨.negation :: o.levels, false⟩) ⟨rfl, rfl⟩
    refine ⟨k + 1, ?_, fun hplace => absurd hplace (by decide)⟩
    have hnegations : List.replicate k .negation ++ (.negation :: o.levels) =
        List.replicate (k + 1) .negation ++ unsigned o.levels := by
      rw [ho.unsigned_eq (by decide), List.replicate_succ', List.append_assoc, List.singleton_append]
    rw [← hnegations, afterAll, List.foldl_cons, ht]
    exact hk
  | @minus ts e t ht h ih =>
    obtain ⟨k, hk, hzero⟩ := ih (o := ⟨.sign :: o.levels, false⟩) ⟨rfl, trivial⟩
    refine ⟨k, ?_, hzero⟩
    rw [afterAll, List.foldl_cons, ht, Opening.after, ho.1]
    exact hk
  | @plus ts e t ht h ih =>
    obtain ⟨k, hk, hzero⟩ := ih (o := ⟨.sign :: o.levels, false⟩) ⟨rfl, trivial⟩
    refine ⟨k, ?_, hzero⟩
    rw [afterAll, List.foldl_cons, ht, Opening.after, ho.1]
    exact hk
  | number ht hn => exact ⟨0, by rw [afterAll, List.foldl_cons, ht]; rfl, fun _ => rfl⟩
  | string ht => exact ⟨0, by rw [afterAll, List.foldl_cons, ht]; rfl, fun _ => rfl⟩
  | bool ht => exact ⟨0, by rw [afterAll, List.foldl_cons, ht]; rfl, fun _ => rfl⟩
  | name ht => exact ⟨0, by rw [afterAll, List.foldl_cons, ht]; rfl, fun _ => rfl⟩
  | @parentheses ts e t t' ht ht' h ih =>
    obtain ⟨k, hk, -⟩ := ih (o := ⟨.parenthesis :: o.levels, false⟩) ⟨rfl, rfl⟩
    refine ⟨0, ?_, fun _ => rfl⟩
    have hinside : o.afterAll (t :: ts) = ⟨List.replicate k .negation ++ (.parenthesis :: o.levels), true⟩ := by
      rw [afterAll, List.foldl_cons, ht]
      exact hk
    rw [afterAll_append, hinside, afterAll, List.foldl_cons, ht', Opening.after, enclosing_negations]
    rfl

/-! Refusals -/

/-- Why tokens are refused, where so many levels are allowed beside those that are open. -/
inductive Fault (o : Opening) (levels : Nat) (ts : List ExprToken) : ExprError → Prop
  | token (value : Text) (position : Nat) : Fault o levels ts (.unexpectedToken value position)
  | parenthesis (position : Nat) : Fault o levels ts (.expectedParenthesis position)
  | ending : Fault o levels ts .unexpectedEnd
  | number {t : ExprToken} {text : Text} (hm : t ∈ ts) (ht : t.lexeme = .number text)
      (hn : Numeral.ofText? text = none) : Fault o levels ts (.unreadableNumber text)
  | depth (h : o.levels.length + levels < o.deepest ts) : Fault o levels ts .recursionLimit

theorem Fault.later {o : Opening} {levels levels' : Nat} {before ts : List ExprToken} {err : ExprError}
    (h : Fault (o.afterAll before) levels' ts err)
    (hle : o.levels.length + levels ≤ (o.afterAll before).levels.length + levels') :
    Fault o levels (before ++ ts) err := by
  cases h with
  | token value position => exact .token value position
  | parenthesis position => exact .parenthesis position
  | ending => exact .ending
  | number hm ht hn => exact .number (List.mem_append_right _ hm) ht hn
  | depth h =>
    have hdeep := o.deepest_afterAll_le before ts
    exact .depth (by omega)

/-- What comes of tokens before the end of input, whatever follows that: some of them are read, and the
grammar derives these; or they are refused. -/
def Settles (p : Parser) (eof : ExprToken) (rank : Rank) (o : Opening) (levels : Nat) (ts : List ExprToken) :
    Prop :=
  (∃ e read left, ts = read ++ left ∧ Derives rank read e ∧
    ∀ rest, p (ts ++ eof :: rest) = .ok (e, left ++ eof :: rest)) ∨
  ∃ err, Fault o levels ts err ∧ ∀ rest, p (ts ++ eof :: rest) = .error err

theorem operator?_cons_eq (t : ExprToken) (ts : List ExprToken) : operator? (t :: ts) = operator? [t] := by
  obtain ⟨lexeme, position⟩ := t
  cases lexeme <;> rfl

section Settling

variable {eof : ExprToken} {o : Opening} {levels : Nat} {rank : Rank}

theorem operator?_end (heof : eof.lexeme = .endOfInput) (rest : List ExprToken) :
    operator? (eof :: rest) = none := by
  obtain ⟨lexeme, position⟩ := eof
  cases heof
  rfl

/-- Which operator comes next does not depend on what follows the end of input. -/
theorem operator?_before_end (heof : eof.lexeme = .endOfInput) (ts rest : List ExprToken) :
    operator? (ts ++ eof :: rest) = operator? ts := by
  cases ts with
  | nil => exact operator?_end heof rest
  | cons t ts => rw [List.cons_append, operator?_cons_eq, ← operator?_cons_eq t ts]

theorem chainFrom_operator (heof : eof.lexeme = .endOfInput) {op? : Operator → Option BinaryOp}
    (operand : Parser) (fuel : Nat) (l : Expr) {b : BinaryOp} {t : ExprToken} {ts : List ExprToken}
    (rest : List ExprToken) (hb : (operator? (t :: ts)).bind op? = some b) :
    chainFrom op? operand (fuel + 1) l (t :: ts ++ eof :: rest) =
      match operand (ts ++ eof :: rest) with
      | .error e => .error e
      | .ok (r, rest) => chainFrom op? operand fuel (.binary b l r) rest := by
  rw [chainFrom, operator?_before_end heof, hb]
  rfl

/-- After an operator everything is open that was open before the first operand. -/
theorem afterAll_operator {ls : List ExprToken} {l : Expr} {t : ExprToken} {op : Operator} {b : BinaryOp}
    (hl : Derives rank ls l) (ho : o.Admits rank) (ht : t.lexeme = .operator op) (hj : Joins rank op b) :
    o.afterAll (ls ++ [t]) = o := by
  rw [afterAll_append, afterAll, List.foldl_cons, ht]
  exact (hl.leaves ho).after_operator hj ho

/-- A fault after an operator. -/
theorem Fault.operand {ls ts : List ExprToken} {l : Expr} {t : ExprToken} {op : Operator} {b : BinaryOp}
    {err : ExprError} (h : Fault o levels ts err) (hl : Derives rank ls l) (ho : o.Admits rank)
    (ht : t.lexeme = .operator op) (hj : Joins rank op b) : Fault o levels (ls ++ t :: ts) err := by
  have hback := afterAll_operator hl ho ht hj
  have hlater : Fault o levels (ls ++ [t] ++ ts) err :=
    Fault.later (hback.symm ▸ h) (hback.symm ▸ Nat.le_refl _)
  simpa using hlater

/-- Further operands, after those that have been read: by induction on the number of tokens left. -/
theorem settles_chainFrom (heof : eof.lexeme = .endOfInput) (hg : rank.groups) (ho : o.Admits rank)
    {operand : Parser} (hop : ∀ ts, Settles operand eof rank.next o levels ts)
    (left : List ExprToken) {ls : List ExprToken} {l : Expr} (hl : Derives rank ls l) :
    (∃ e read left', left = read ++ left' ∧ Derives rank (ls ++ read) e ∧
      ∀ rest fuel, left.length < fuel →
        chainFrom (binaryOp? rank) operand fuel l (left ++ eof :: rest) = .ok (e, left' ++ eof :: rest)) ∨
    ∃ err, Fault o levels (ls ++ left) err ∧ ∀ rest fuel, left.length < fuel →
      chainFrom (binaryOp? rank) operand fuel l (left ++ eof :: rest) = .error err := by
  induction hn : left.length using Nat.strongRecOn generalizing left ls l with
  | ind n ih =>
    cases hb : (operator? left).bind (binaryOp? rank) with
    | none =>
      refine .inl ⟨l, [], left, rfl, by rwa [List.append_nil], fun rest fuel _ => ?_⟩
      exact chainFrom_of_none fuel l (by rwa [operator?_before_end heof])
    | some b =>
      obtain ⟨op, hop?, hbin⟩ := Option.bind_eq_some_iff.mp hb
      have hj := binaryOp?_eq_some_iff.mp hbin
      obtain ⟨t, ts, rfl, ht⟩ := operator?_eq_some hop?
      obtain ⟨r, rs, left, rfl, hr, hread⟩ | ⟨err, hf, herr⟩ := hop ts
      · have hlength : left.length < n := by
          simp only [← hn, List.length_cons, List.length_append]
          omega
        obtain ⟨e, read, left', rfl, hd, hchain⟩ | ⟨err, hf, herr⟩ :=
          ih left.length hlength left (hl.group hg ht hj hr) rfl
        · refine .inl ⟨e, t :: rs ++ read, left', by simp, by simpa using hd, fun rest fuel hfuel => ?_⟩
          obtain ⟨fuel, rfl⟩ : ∃ k, fuel = k + 1 := ⟨fuel - 1, by omega⟩
          rw [chainFrom_operator heof operand fuel l rest hb, hread]
          exact hchain rest fuel (by omega)
        · refine .inr ⟨err, by simpa using hf, fun rest fuel hfuel => ?_⟩
          obtain ⟨fuel, rfl⟩ : ∃ k, fuel = k + 1 := ⟨fuel - 1, by omega⟩
          rw [chainFrom_operator heof operand fuel l rest hb, hread]
          exact herr rest fuel (by omega)
      · refine .inr ⟨err, hf.operand hl ho ht hj, fun rest fuel hfuel => ?_⟩
        obtain ⟨fuel, rfl⟩ : ∃ k, fuel = k + 1 := ⟨fuel - 1, by omega⟩
        rw [chainFrom_operator heof operand fuel l rest hb, herr]

/-- A rank that groups. -/
theorem settles_chain (heof : eof.lexeme = .endOfInput) (hg : rank.groups) (ho : o.Admits rank)
    {operand : Parser} (hop : ∀ ts, Settles operand eof rank.next o levels ts) (ts : List ExprToken) :
    Settles (chain (binaryOp? rank) operand) eof rank o levels ts := by
  obtain ⟨l, ls, left, rfl, hl, hread⟩ | ⟨err, hf, herr⟩ := hop ts
  · have hfuel (rest : List ExprToken) : left.length < (left ++ eof :: rest).length := by
      simp only [List.length_append, List.length_cons]
      omega
    obtain ⟨e, read, left', rfl, hd, hchain⟩ | ⟨err, hf, herr⟩ :=
      settles_chainFrom heof hg ho hop left hl.operand
    · refine .inl ⟨e, ls ++ read, left', (List.append_assoc _ _ _).symm, hd, fun rest => ?_⟩
      rw [chain, hread]
      exact hchain rest _ (hfuel rest)
    · refine .inr ⟨err, hf, fun rest => ?_⟩
      rw [chain, hread]
      exact herr rest _ (hfuel rest)
  · exact .inr ⟨err, hf, fun rest => by rw [chain, herr]⟩

theorem comparison_eq {operand : Parser} {tokens left : List ExprToken} {l : Expr}
    (h : operand tokens = .ok (l, left)) :
    comparison operand tokens = ((operator? left).bind comparisonOp?).elim (.ok (l, left)) fun op =>
      (operand left.tail).map fun p => (.binary op l p.1, p.2) := by
  rw [comparison, h]
  dsimp only
  cases (operator? left).bind comparisonOp? <;> rfl

/-- At most one comparison. -/
theorem settles_comparison (heof : eof.lexeme = .endOfInput) (ho : o.Admits .comparison) {operand : Parser}
    (hop : ∀ ts, Settles operand eof .sum o levels ts) (ts : List ExprToken) :
    Settles (comparison operand) eof .comparison o levels ts := by
  obtain ⟨l, ls, left, rfl, hl, hread⟩ | ⟨err, hf, herr⟩ := hop ts
  · have hleft : Derives .comparison ls l := .operand hl
    cases hb : (operator? left).bind comparisonOp? with
    | none =>
      refine .inl ⟨l, ls, left, rfl, hleft, fun rest => ?_⟩
      rw [comparison_eq (hread rest), operator?_before_end heof, hb, Option.elim_none]
    | some b =>
      obtain ⟨op, hop?, hbin⟩ := Option.bind_eq_some_iff.mp hb
      have hj : Joins .comparison op b := binaryOp?_eq_some_iff.mp hbin
      obtain ⟨t, left, rfl, ht⟩ := operator?_eq_some hop?
      obtain ⟨r, rs, left, rfl, hr, hright⟩ | ⟨err, hf, herr⟩ := hop left
      · refine .inl ⟨.binary b l r, ls ++ t :: rs, left, by simp, .compare ht hj hl hr, fun rest => ?_⟩
        rw [comparison_eq (hread rest), operator?_before_end heof, hb, Option.elim_some, List.cons_append,
          List.tail_cons, hright]
        rfl
      · refine .inr ⟨err, hf.operand hleft ho ht hj, fun rest => ?_⟩
        rw [comparison_eq (hread rest), operator?_before_end heof, hb, Option.elim_some, List.cons_append,
          List.tail_cons, herr]
        rfl
  · exact .inr ⟨err, hf, fun rest => by rw [comparison, herr]⟩

/-- What comes of the tokens after one that opens a level. -/
theorem settles_nested (entry : Entry) {t : ExprToken}
    (hdown : ∀ n, levels = n + 1 → ∀ rank o ts, o.Admits rank → Settles (readerAt n rank) eof rank o n ts)
    (ho : (o.after t.lexeme).Admits entry.rank)
    (hopen : (o.after t.lexeme).levels.length = o.levels.length + 1) (ts : List ExprToken) :
    (∃ e read left, ts = read ++ left ∧ Derives entry.rank read e ∧
      ∀ rest, parseAt levels entry (ts ++ eof :: rest) = .ok (e, left ++ eof :: rest)) ∨
    ∃ err, Fault o levels (t :: ts) err ∧ ∀ rest, parseAt levels entry (ts ++ eof :: rest) = .error err := by
  cases levels with
  | zero =>
    refine .inr ⟨.recursionLimit, .depth ?_, fun rest => rfl⟩
    have hdeep : (o.after t.lexeme).levels.length ≤ o.deepest (t :: ts) :=
      Nat.le_trans (levels_le_deepest _ ts) (Nat.le_max_right _ _)
    omega
  | succ n =>
    rw [parseAt_succ]
    obtain hread | ⟨err, hf, herr⟩ := hdown n rfl entry.rank _ ts ho
    · exact .inl hread
    · have hle : o.levels.length + (n + 1) ≤ (o.afterAll [t]).levels.length + n := by
        show _ ≤ (o.after t.lexeme).levels.length + n
        omega
      exact .inr ⟨err, Fault.later (show Fault (o.afterAll [t]) n ts err from hf) hle, herr⟩

/-- A rank that reads like the next one. -/
theorem Settles.operand {p q : Parser} {ts : List ExprToken} (h : Settles q eof rank.next o levels ts)
    (hpq : ∀ rest, p (ts ++ eof :: rest) = q (ts ++ eof :: rest)) : Settles p eof rank o levels ts := by
  obtain ⟨e, read, left, hts, hd, hread⟩ | ⟨err, hf, herr⟩ := h
  · exact .inl ⟨e, read, left, hts, hd.operand, fun rest => (hpq rest).trans (hread rest)⟩
  · exact .inr ⟨err, hf, fun rest => (hpq rest).trans (herr rest)⟩

section Levels

variable (heof : eof.lexeme = .endOfInput)
  (hdown : ∀ n, levels = n + 1 → ∀ rank o ts, o.Admits rank → Settles (readerAt n rank) eof rank o n ts)

include heof hdown

theorem settles_negation (hop : ∀ ts, Settles (readerAt levels .comparison) eof .comparison o levels ts)
    (ts : List ExprToken) : Settles (readerAt levels .negation) eof .negation o levels ts := by
  by_cases hnot : operator? ts = some .not
  · obtain ⟨t, ts, rfl, ht⟩ := operator?_eq_some hnot
    have heq (rest : List ExprToken) : readerAt levels .negation (t :: ts ++ eof :: rest) =
        (parseAt levels .negation (ts ++ eof :: rest)).map fun p => (.unary .not p.1, p.2) := by
      rw [readerAt, negated, operator?_before_end heof, if_pos hnot]
      rfl
    have hadmits : (o.after t.lexeme).Admits .negation := by
      rw [ht]
      exact ⟨rfl, rfl⟩
    obtain ⟨e, read, left, rfl, hd, hread⟩ | ⟨err, hf, herr⟩ :=
      settles_nested .negation hdown hadmits (by rw [ht]; rfl) ts
    · exact .inl ⟨.unary .not e, t :: read, left, rfl, hd.not ht, fun rest => by rw [heq, hread]; rfl⟩
    · exact .inr ⟨err, hf, fun rest => by rw [heq, herr]; rfl⟩
  · refine (hop ts).operand fun rest => ?_
    rw [readerAt, negated, operator?_before_end heof, if_neg hnot]
    rfl

theorem settles_sign (ho : o.ended = false)
    (hop : ∀ ts, Settles (readerAt levels .atom) eof .atom o levels ts) (ts : List ExprToken) :
    Settles (readerAt levels .sign) eof .sign o levels ts := by
  cases hs : (operator? ts).bind signOp? with
  | none =>
    refine (hop ts).operand fun rest => ?_
    rw [readerAt, signed, operator?_before_end heof, hs]
    rfl
  | some sign =>
    obtain ⟨op, hop?, hsign⟩ := Option.bind_eq_some_iff.mp hs
    obtain ⟨t, ts, rfl, ht⟩ := operator?_eq_some hop?
    have heq (rest : List ExprToken) : readerAt levels .sign (t :: ts ++ eof :: rest) =
        (parseAt levels .sign (ts ++ eof :: rest)).map fun p => (.unary sign p.1, p.2) := by
      rw [readerAt, signed, operator?_before_end heof, hs]
      rfl
    -- only a plus and a minus are signs, and before an operand both open a level
    have hsigned : o.after t.lexeme = ⟨.sign :: o.levels, false⟩ ∧
        ∀ {ts e}, Derives .sign ts e → Derives .sign (t :: ts) (.unary sign e) := by
      cases op <;> cases hsign
      · exact ⟨by rw [ht, Opening.after, ho]; rfl, fun h => h.plus ht⟩
      · exact ⟨by rw [ht, Opening.after, ho]; rfl, fun h => h.minus ht⟩
    obtain ⟨hafter, hderives⟩ := hsigned
    obtain ⟨e, read, left, rfl, hd, hread⟩ | ⟨err, hf, herr⟩ :=
      settles_nested .sign hdown (by rw [hafter]; exact ⟨rfl, trivial⟩) (by rw [hafter]; rfl) ts
    · exact .inl ⟨.unary sign e, t :: read, left, rfl, hderives hd, fun rest => by rw [heq, hread]; rfl⟩
    · exact .inr ⟨err, hf, fun rest => by rw [heq, herr]; rfl⟩

theorem settles_parentheses {t : ExprToken} (ht : t.lexeme = .leftParenthesis) (ts : List ExprToken) :
    Settles (readerAt levels .atom) eof .atom o levels (t :: ts) := by
  have heq (rest : List ExprToken) : readerAt levels .atom (t :: ts ++ eof :: rest) =
      (parseAt levels .alternatives (ts ++ eof :: rest)).bind closeParenthesis := by
    rw [readerAt, List.cons_append, atom, ht]
  have hadmits : (o.after t.lexeme).Admits .alternatives := by
    rw [ht]
    exact ⟨rfl, rfl⟩
  obtain ⟨e, read, left, rfl, hd, hread⟩ | ⟨err, hf, herr⟩ :=
    settles_nested .alternatives hdown hadmits (by rw [ht]; rfl) ts
  · cases left with
    | nil =>
      refine .inr ⟨.expectedParenthesis eof.position, .parenthesis _, fun rest => ?_⟩
      rw [heq, hread]
      obtain ⟨lexeme, position⟩ := eof
      cases heof
      rfl
    | cons t' left =>
      by_cases hclose : t'.lexeme = .rightParenthesis
      · refine .inl ⟨e, t :: read ++ [t'], left, by simp, .parentheses ht hclose hd, fun rest => ?_⟩
        rw [heq, hread]
        obtain ⟨lexeme, position⟩ := t'
        cases hclose
        rfl
      · refine .inr ⟨.expectedParenthesis t'.position, .parenthesis _, fun rest => ?_⟩
        rw [heq, hread]
        obtain ⟨lexeme, position⟩ := t'
        cases lexeme with
        | rightParenthesis => exact absurd rfl hclose
        | _ => rfl
  · exact .inr ⟨err, hf, fun rest => by rw [heq, herr]; rfl⟩

theorem settles_atom (ts : List ExprToken) : Settles (readerAt levels .atom) eof .atom o levels ts := by
  cases ts with
  | nil => exact .inr ⟨.unexpectedEnd, .ending, fun rest => by rw [readerAt, List.nil_append, atom, heof]⟩
  | cons t ts =>
    have heq (rest : List ExprToken) : readerAt levels .atom (t :: ts ++ eof :: rest) =
        atom (parseAt levels .alternatives) (t :: (ts ++ eof :: rest)) := rfl
    cases ht : t.lexeme with
    | number text =>
      cases hn : Numeral.ofText? text with
      | none =>
        refine .inr ⟨.unreadableNumber text, .number List.mem_cons_self ht hn, fun rest => ?_⟩
        rw [heq, atom, ht]
        simp only [readNumber, hn]
        rfl
      | some n =>
        refine .inl ⟨_, [t], ts, rfl, .number ht hn, fun rest => ?_⟩
        rw [heq, atom, ht]
        simp only [readNumber, hn]
        rfl
    | string value => exact .inl ⟨_, [t], ts, rfl, .string ht, fun rest => by rw [heq, atom, ht]⟩
    | bool value => exact .inl ⟨_, [t], ts, rfl, .bool ht, fun rest => by rw [heq, atom, ht]⟩
    | name n => exact .inl ⟨_, [t], ts, rfl, .name ht, fun rest => by rw [heq, atom, ht]⟩
    | leftParenthesis => exact settles_parentheses heof hdown ht ts
    | rightParenthesis => exact .inr ⟨_, .token _ _, fun rest => by rw [heq, atom, ht]⟩
    | operator op => exact .inr ⟨_, .token _ _, fun rest => by rw [heq, atom, ht]⟩
    | endOfInput => exact .inr ⟨_, .ending, fun rest => by rw [heq, atom, ht]⟩

end Levels

/-- Every list of tokens is read as far as the grammar allows, or refused: by induction on the levels, and
for each of them rank by rank, from the tightest. -/
theorem settles (heof : eof.lexeme = .endOfInput) (levels : Nat) (rank : Rank) (o : Opening)
    (ts : List ExprToken) (ho : o.Admits rank) : Settles (readerAt levels rank) eof rank o levels ts := by
  induction levels using Nat.strongRecOn generalizing rank o ts with
  | ind levels ih =>
    have hdown : ∀ n, levels = n + 1 → ∀ rank o ts, o.Admits rank → Settles (readerAt n rank) eof rank o n ts :=
      fun n hn rank o ts ho => ih n (by omega) rank o ts ho
    have hsign (h : o.Admits .sign) := settles_sign heof hdown h.1 (settles_atom heof hdown)
    have hproduct (h : o.Admits .product) := settles_chain heof rfl h (hsign h.next)
    have hsum (h : o.Admits .sum) := settles_chain heof rfl h (hproduct h.next)
    have hcomparison (h : o.Admits .comparison) := settles_comparison heof h (hsum h.next)
    have hnegation (h : o.Admits .negation) := settles_negation heof hdown (hcomparison h.next)
    have hconjunction (h : o.Admits .conjunction) := settles_chain heof rfl h (hnegation h.next)
    have halternatives (h : o.Admits .alternatives) := settles_chain heof rfl h (hconjunction h.next)
    match rank, ho with
    | .alternatives, ho => exact halternatives ho ts
    | .conjunction, ho => exact hconjunction ho ts
    | .negation, ho => exact hnegation ho ts
    | .comparison, ho => exact hcomparison ho ts
    | .sum, ho => exact hsum ho ts
    | .product, ho => exact hproduct ho ts
    | .sign, ho => exact hsign ho ts
    | .atom, _ => exact settles_atom heof hdown ts

end Settling

/-! What is left -/

/-- The tokens that a parser leaves are the last of those that it was given. -/
def LeavesSuffix (p : Parser) : Prop := ∀ tokens e left, p tokens = .ok (e, left) → left <:+ tokens

theorem LeavesSuffix.tail {p : Parser} (h : LeavesSuffix p) {tokens left : List ExprToken} {e : Expr}
    (hp : p tokens.tail = .ok (e, left)) : left <:+ tokens :=
  (h _ _ _ hp).trans (List.tail_suffix tokens)

theorem LeavesSuffix.chainFrom {operand : Parser} (h : LeavesSuffix operand) (op? : Operator → Option BinaryOp)
    (fuel : Nat) (l : Expr) : LeavesSuffix (Expr.chainFrom op? operand fuel l) := by
  induction fuel generalizing l with
  | zero =>
    rintro tokens e left ⟨⟩
    exact List.suffix_refl _
  | succ fuel ih =>
    intro tokens e left hread
    rw [Expr.chainFrom] at hread
    split at hread
    · cases hread
      exact List.suffix_refl _
    · split at hread
      · cases hread
      · rename_i r rest hoperand
        exact (ih _ _ _ _ hread).trans (h.tail hoperand)

theorem LeavesSuffix.chain {operand : Parser} (h : LeavesSuffix operand) (op? : Operator → Option BinaryOp) :
    LeavesSuffix (Expr.chain op? operand) := by
  intro tokens e left hread
  rw [Expr.chain] at hread
  split at hread
  · cases hread
  · rename_i l rest hoperand
    exact (h.chainFrom _ _ _ _ _ _ hread).trans (h _ _ _ hoperand)

theorem LeavesSuffix.map {p : Parser} (h : LeavesSuffix p) {tokens left : List ExprToken} {e : Expr}
    {f : Expr → Expr} (hp : (p tokens.tail).map (fun r => (f r.1, r.2)) = .ok (e, left)) : left <:+ tokens := by
  cases hread : p tokens.tail with
  | error err =>
    rw [hread] at hp
    cases hp
  | ok r =>
    rw [hread] at hp
    cases hp
    exact h.tail hread

theorem LeavesSuffix.comparison {operand : Parser} (h : LeavesSuffix operand) :
    LeavesSuffix (Expr.comparison operand) := by
  intro tokens e left hread
  rw [Expr.comparison] at hread
  split at hread
  · cases hread
  · rename_i l rest hoperand
    split at hread
    · cases hread
      exact h _ _ _ hoperand
    · exact (h.map hread).trans (h _ _ _ hoperand)

theorem suffix_of_closeParenthesis {r : Expr × List ExprToken} {left : List ExprToken} {e : Expr}
    (h : closeParenthesis r = .ok (e, left)) : left <:+ r.2 := by
  unfold closeParenthesis at h
  split at h
  · cases h
    exact List.suffix_cons _ _
  · cases h
  · cases h

theorem LeavesSuffix.atom {p : Parser} (h : LeavesSuffix p) : LeavesSuffix (Expr.atom p) := by
  intro tokens e left hread
  cases tokens with
  | nil => cases hread
  | cons token rest =>
    obtain ⟨lexeme, position⟩ := token
    cases lexeme with
    | number text =>
      simp only [Expr.atom] at hread
      cases hn : readNumber text with
      | error err =>
        rw [hn] at hread
        cases hread
      | ok x =>
        rw [hn] at hread
        cases hread
        exact List.suffix_cons _ _
    | string | bool | name =>
      cases hread
      exact List.suffix_cons _ _
    | leftParenthesis =>
      simp only [Expr.atom] at hread
      cases hinside : p rest with
      | error err =>
        rw [hinside] at hread
        cases hread
      | ok r =>
        rw [hinside] at hread
        exact ((suffix_of_closeParenthesis hread).trans (h _ _ _ hinside)).trans (List.suffix_cons _ _)
    | rightParenthesis | operator | endOfInput => cases hread

/-- The greatest number of parentheses, negations and signs that are open at once. -/
def nesting (ts : List ExprToken) : Nat := Opening.start.deepest ts

theorem parseAt_top : parseAt maxRecursion .alternatives = readerAt (maxRecursion - 1) .alternatives :=
  parseAt_succ (maxRecursion - 1) .alternatives

theorem ofTokens_of_end {tokens left : List ExprToken} {t : ExprToken} {e : Expr}
    (h : parseAt maxRecursion .alternatives tokens = .ok (e, t :: left)) (ht : t.lexeme = .endOfInput) :
    ofTokens tokens = .ok e := by
  rw [ofTokens, h]
  obtain ⟨lexeme, position⟩ := t
  cases ht
  rfl

theorem ofTokens_of_token {tokens left : List ExprToken} {t : ExprToken} {e : Expr}
    (h : parseAt maxRecursion .alternatives tokens = .ok (e, t :: left)) (ht : t.lexeme ≠ .endOfInput) :
    ofTokens tokens = .error (.unexpectedToken t.lexeme.value t.position) := by
  rw [ofTokens, h]
  obtain ⟨lexeme, position⟩ := t
  cases lexeme with
  | endOfInput => exact absurd rfl ht
  | _ => rfl

theorem ofTokens_of_error {tokens : List ExprToken} {err : ExprError}
    (h : parseAt maxRecursion .alternatives tokens = .error err) : ofTokens tokens = .error err := by
  rw [ofTokens, h]

section Whole

variable {before : List ExprToken} {eof : ExprToken} (heof : eof.lexeme = .endOfInput)

include heof

/-- A list is accepted if the grammar derives what stands before an end of input, or refused. -/
theorem ofTokens_settles (before : List ExprToken) :
    (∃ e read t left, before ++ [eof] = read ++ t :: left ∧ t.lexeme = .endOfInput ∧
      Derives .alternatives read e ∧ ∀ rest, ofTokens (before ++ eof :: rest) = .ok e) ∨
    ∃ err, Fault .start (maxRecursion - 1) before err ∧
      ∀ rest, ofTokens (before ++ eof :: rest) = .error err := by
  have hsettles := settles heof (maxRecursion - 1) .alternatives .start before ⟨rfl, rfl⟩
  rw [← parseAt_top] at hsettles
  obtain ⟨e, read, left, rfl, hd, hread⟩ | ⟨err, hf, herr⟩ := hsettles
  · cases left with
    | nil =>
      exact .inl ⟨e, read, eof, [], by simp, heof, hd, fun rest => ofTokens_of_end (hread rest) heof⟩
    | cons t left =>
      by_cases ht : t.lexeme = .endOfInput
      · exact .inl ⟨e, read, t, left ++ [eof], by simp, ht, hd, fun rest => ofTokens_of_end (hread rest) ht⟩
      · exact .inr ⟨_, .token _ _, fun rest => ofTokens_of_token (hread rest) ht⟩
  · exact .inr ⟨err, hf, fun rest => ofTokens_of_error (herr rest)⟩

/-- What the grammar derives is accepted, unless it is nested too deep. -/
theorem Derives.ofTokens {e : Expr} (h : Derives .alternatives before e) (rest : List ExprToken) :
    Expr.ofTokens (before ++ eof :: rest) = .ok e ∨
      Expr.ofTokens (before ++ eof :: rest) = .error .recursionLimit := by
  have hends : Ends .alternatives (eof :: rest) := ends_of_none (operator?_end heof rest)
  obtain hread | hread := h.reads (maxRecursion - 1) hends
  · exact .inl (ofTokens_of_end (parseAt_top ▸ hread) heof)
  · exact .inr (ofTokens_of_error (parseAt_top ▸ hread))

/-- Only what the grammar derives is accepted. -/
theorem derives_of_ofTokens (hbefore : ∀ t ∈ before, t.lexeme ≠ .endOfInput) {e : Expr} {rest : List ExprToken}
    (h : Expr.ofTokens (before ++ eof :: rest) = .ok e) : Derives .alternatives before e := by
  obtain ⟨e', read, t, left, hsplit, ht, hd, hread⟩ | ⟨err, -, herr⟩ := ofTokens_settles heof before
  · rw [hread] at h
    cases h
    -- the first end of input is the one after `before`
    obtain ⟨more, rfl, hmore⟩ | ⟨more, rfl, hmore⟩ := List.append_eq_append_iff.mp hsplit
    · cases more with
      | nil => rwa [List.append_nil] at hd
      | cons t' more => simp at hmore
    · cases more with
      | nil => rwa [List.append_nil]
      | cons t' more =>
        obtain rfl : t = t' := (List.cons.inj hmore).1
        exact absurd ht (hbefore t (by simp))
  · rw [herr] at h
    cases h

/-- Only a list that nests too deep runs out of levels. -/
theorem nesting_of_recursionLimit {rest : List ExprToken}
    (h : Expr.ofTokens (before ++ eof :: rest) = .error .recursionLimit) : maxRecursion ≤ nesting before := by
  obtain ⟨e, read, t, left, -, -, -, hread⟩ | ⟨err, hf, herr⟩ := ofTokens_settles heof before
  · rw [hread] at h
    cases h
  · rw [herr] at h
    cases h
    cases hf with
    | depth hdeep =>
      have hlt : 0 + (maxRecursion - 1) < nesting before := hdeep
      omega

end Whole

/-- The tokens form no expression. -/
def isGrammatical : ExprError → Bool
  | .unexpectedToken _ _ | .expectedParenthesis _ | .unexpectedEnd => true
  | _ => false

theorem Fault.isGrammatical {before : List ExprToken} {err : ExprError}
    (h : Fault .start (maxRecursion - 1) before err)
    (hnumbers : ∀ t ∈ before, ∀ text, t.lexeme = .number text → (Numeral.ofText? text).isSome)
    (hnesting : nesting before < maxRecursion) : Expr.isGrammatical err := by
  cases h with
  | token value position => rfl
  | parenthesis position => rfl
  | ending => rfl
  | @number t text hm ht hn =>
    have hsome := hnumbers t hm text ht
    rw [hn] at hsome
    cases hsome
  | depth hdeep =>
    have hlt : 0 + (maxRecursion - 1) < nesting before := hdeep
    omega

/-- Reading accepts exactly the grammar. Up to an end of input, in a list whose numbers are readable and
which does not nest too deep, the tree that is read is the one of a derivation; tokens without a derivation
are refused because they form no expression; and nothing after the end of input is looked at. -/
theorem ofTokens_eq_ok_iff_derives {before : List ExprToken} {eof : ExprToken}
    (heof : eof.lexeme = .endOfInput) (hbefore : ∀ t ∈ before, t.lexeme ≠ .endOfInput)
    (hnumbers : ∀ t ∈ before, ∀ text, t.lexeme = .number text → (Numeral.ofText? text).isSome)
    (hnesting : nesting before < maxRecursion) (rest : List ExprToken) :
    (∀ e, ofTokens (before ++ eof :: rest) = .ok e ↔ Derives .alternatives before e) ∧
    ((∀ e, ¬ Derives .alternatives before e) →
      ∃ err, ofTokens (before ++ eof :: rest) = .error err ∧ isGrammatical err) ∧
    ofTokens (before ++ eof :: rest) = ofTokens (before ++ [eof]) := by
  have hlimit : ofTokens (before ++ eof :: rest) ≠ .error .recursionLimit := fun h =>
    absurd (nesting_of_recursionLimit heof h) (by omega)
  have hcomplete {e : Expr} (h : Derives .alternatives before e) :
      ofTokens (before ++ eof :: rest) = .ok e := (h.ofTokens heof rest).resolve_right hlimit
  have hiff (e : Expr) : ofTokens (before ++ eof :: rest) = .ok e ↔ Derives .alternatives before e :=
    ⟨derives_of_ofTokens heof hbefore, hcomplete⟩
  obtain ⟨e, -, -, -, -, -, -, hread⟩ | ⟨err, hf, herr⟩ := ofTokens_settles heof before
  · exact ⟨hiff, fun hnone => absurd ((hiff e).mp (hread rest)) (hnone e), by rw [hread, hread]⟩
  · exact ⟨hiff, fun _ => ⟨err, herr rest, hf.isGrammatical hnumbers hnesting⟩, by rw [herr, herr]⟩

/-- Two differences, grouped to the left, in parentheses and after a negation. -/
theorem ofTokens_eq_ok_iff_derives_grouped :
    let before : List ExprToken :=
      [⟨.operator .not, 0⟩, ⟨.leftParenthesis, 1⟩, ⟨.name "a", 2⟩, ⟨.operator .minus, 3⟩, ⟨.name "b", 4⟩,
        ⟨.operator .minus, 5⟩, ⟨.operator .minus, 6⟩, ⟨.name "c", 7⟩, ⟨.rightParenthesis, 8⟩]
    let tree := Expr.unary .not
      (.binary .minus (.binary .minus (.name "a") (.name "b")) (.unary .minus (.name "c")))
    nesting before = 3 ∧ ofTokens (before ++ [⟨.endOfInput, 9⟩]) = .ok tree ∧
      Derives .alternatives before tree := by
  intro before tree
  have hread : ofTokens (before ++ [⟨.endOfInput, 9⟩]) = .ok tree := rfl
  have hiff := @ofTokens_eq_ok_iff_derives before ⟨.endOfInput, 9⟩ rfl (by decide) (by simp [before])
    (by decide) []
  exact ⟨by decide, hread, (hiff.1 tree).mp hread⟩

end SigilScript.Expr
