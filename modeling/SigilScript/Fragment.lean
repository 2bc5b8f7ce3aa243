import SigilScript.Bracket
import SigilScript.Identifier
import SigilScript.Limit

/-!
Fragments: a text read as literal runs and directive calls. A call is the sigil, a name and
balanced brackets; everything else, a sigil without a bracket included, is literal. The text
between the brackets of a call is read in the same way, so calls form a tree, which may be at most
`maxNesting` calls deep.
-/
namespace SigilScript

inductive Node where
  | text (value : Text)
  | call (name args : Text) (children : List Node)
  deriving Repr

def maxNesting : Nat := 32

inductive FragmentError where
  | nestingTooDeep
  | recursionLimit
  deriving DecidableEq, Repr

def FragmentError.message : FragmentError → String
  | .nestingTooDeep => s!"Directive nesting deeper than {maxNesting} levels"
  | .recursionLimit => recursionMessage

namespace Node

/-- The text that a node was read from. -/
def source : Node → Text
  | .text value => value
  | .call name args _ => sigil :: name ++ ('[' : CodePoint) :: args ++ [(']' : CodePoint)]

mutual

/-- The number of calls nested in one another, this one included. -/
def depth : Node → Nat
  | .text _ => 0
  | .call _ _ children => 1 + maxDepth children

def maxDepth : List Node → Nat
  | [] => 0
  | node :: nodes => max node.depth (maxDepth nodes)

end

end Node

/-- A call at the start of a text that follows a sigil: its name, its arguments and the rest. -/
def takeCall (t : Text) : Option (Text × Text × Text) :=
  match t.takeIdentifier with
  | ([], _) => none
  | (_, []) => none
  | (name, c :: rest) =>
    if c = '[' then (closingFrom 1 rest).map fun n => (name, rest.take n, rest.drop (n + 1))
    else none

theorem takeCall_length {t name args rest : Text} (h : takeCall t = some (name, args, rest)) :
    args.length < t.length ∧ rest.length < t.length := by
  have hlen := Text.takeIdentifier_length t
  unfold takeCall at h
  split at h
  · simp at h
  · simp at h
  · rename_i name' c rest' _ he
    split at h
    · obtain ⟨n, hn, hp⟩ := Option.map_eq_some_iff.mp h
      have hlt := closingFrom_lt hn
      simp only [Prod.mk.injEq] at hp
      obtain ⟨_, rfl, rfl⟩ := hp
      rw [he] at hlen
      simp only [List.length_cons] at hlen
      simp only [List.length_take, List.length_drop]
      omega
    · simp at h

/-- A literal run, if there is any; `run` has it last first. -/
def literal (run : Text) : List Node := if run.isEmpty then [] else [.text run.reverse]

/-- Reads a text after the literal run `run`, which is kept last first. Below `levels` levels of
calls reading gives up. -/
def readNodes (levels : Nat) (run : Text) (t : Text) : Except FragmentError (List Node) :=
  match t with
  | [] => .ok (literal run)
  | c :: rest =>
    if c = sigil then
      match h : takeCall rest with
      | none => readNodes levels (c :: run) rest
      | some (name, args, after) =>
        have _hlt := takeCall_length h
        if levels = 0 then .error .recursionLimit
        else
          match readNodes (levels - 1) [] args with
          | .error e => .error e
          | .ok children =>
            if maxNesting < 1 + Node.maxDepth children then .error .nestingTooDeep
            else
              (readNodes levels [] after).map fun nodes =>
                literal run ++ .call name args children :: nodes
    else readNodes levels (c :: run) rest
termination_by t.length
decreasing_by all_goals simp only [List.length_cons]; omega

/-- The nodes of a text. -/
def Fragment.parse (t : Text) : Except FragmentError (List Node) := readNodes maxRecursion [] t

end SigilScript
