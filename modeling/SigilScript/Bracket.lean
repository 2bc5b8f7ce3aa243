import SigilScript.Text.CodePoint

/-!
Square brackets. `closing` finds the bracket that balances an opening one by counting; `imbalance`
finds what is wrong with the brackets of a text.
-/
namespace SigilScript

/-- The distance to the bracket at which the count of open brackets, now `depth`, falls to
zero. -/
def closingFrom (depth : Int) : Text → Option Nat
  | [] => none
  | c :: rest =>
    if c = '[' then (closingFrom (depth + 1) rest).map (· + 1)
    else if c = ']' then
      if depth = 1 then some 0 else (closingFrom (depth - 1) rest).map (· + 1)
    else (closingFrom depth rest).map (· + 1)

theorem closingFrom_lt {depth : Int} {t : Text} {n : Nat} (h : closingFrom depth t = some n) :
    n < t.length := by
  induction t generalizing depth n with
  | nil => simp [closingFrom] at h
  | cons c rest ih =>
    simp only [closingFrom] at h
    simp only [List.length_cons]
    split at h
    · obtain ⟨m, hm, rfl⟩ := Option.map_eq_some_iff.mp h
      have := ih hm
      omega
    · split at h
      · split at h
        · simp only [Option.some.injEq] at h
          omega
        · obtain ⟨m, hm, rfl⟩ := Option.map_eq_some_iff.mp h
          have := ih hm
          omega
      · obtain ⟨m, hm, rfl⟩ := Option.map_eq_some_iff.mp h
        have := ih hm
        omega

/-- The place of the bracket that balances the one at `start`, looking no further than
`stop`. -/
def closing (t : Text) (start stop : Nat) : Option Nat :=
  (closingFrom 0 ((t.take stop).drop start)).map (· + start)

inductive Imbalance where
  | unopened (column : Nat)
  | unclosed (missing : Nat)
  deriving DecidableEq, Repr

def Imbalance.message : Imbalance → String
  | .unopened column => s!"Closing ']' without opening bracket at column {column}"
  | .unclosed missing => s!"Unclosed '[' ({missing} missing ']')"

/-- The first fault in the brackets from `column` on, with `depth` of them open. -/
def imbalanceFrom (depth column : Nat) : Text → Option Imbalance
  | [] => if depth = 0 then none else some (.unclosed depth)
  | c :: rest =>
    if c = '[' then imbalanceFrom (depth + 1) (column + 1) rest
    else if c = ']' then
      if depth = 0 then some (.unopened column) else imbalanceFrom (depth - 1) (column + 1) rest
    else imbalanceFrom depth (column + 1) rest

def imbalance (t : Text) : Option Imbalance := imbalanceFrom 0 1 t

end SigilScript
