import SigilScript.Statement

/-!
Block structure of a source, checked before anything runs. Every fault is collected: unbalanced
brackets and faults of the blocks in the order of the lines, then the blocks that were never
closed, innermost first.
-/
namespace SigilScript.Validation

/-- A block that is still open: its opener, its line, and whether an `else` has been seen. -/
structure OpenBlock where
  kind : LineKind
  line : Nat
  seenElse : Bool
  deriving DecidableEq, Repr

inductive Fault where
  | brackets (imbalance : Imbalance)
  | missingArguments (name : Text)
  | unmatched (name : Text)
  | mismatched (name : Text) (opened : OpenBlock)
  | withoutIf (name : Text)
  | duplicateElse (name : Text) (opened : OpenBlock)
  | elseIfAfterElse (name : Text) (opened : OpenBlock)
  | unclosed (opened : OpenBlock)
  deriving DecidableEq, Repr

/-- The directive that opens a block. -/
def openerName : LineKind → String
  | .whileHead => "while"
  | .forHead => "for"
  | .elseIf => "elseif"
  | _ => "if"

def Fault.message (line : Nat) : Fault → String
  | .brackets imbalance => imbalance.message
  | .missingArguments name => s!"§{name} requires bracketed arguments"
  | .unmatched name => s!"Unmatched §{name} at line {line}"
  | .mismatched name opened =>
    s!"Mismatched §{name} at line {line}, expected end of " ++
      s!"§{openerName opened.kind} started at line {opened.line}"
  | .withoutIf name => s!"§{name} at line {line} without matching §if"
  | .duplicateElse name opened =>
    s!"Duplicate §{name} at line {line} after §else (conditional started at line {opened.line})"
  | .elseIfAfterElse name opened =>
    s!"Unexpected §{name} at line {line} after §else (conditional started at line {opened.line})"
  | .unclosed opened => s!"Unclosed §{openerName opened.kind} starting at line {opened.line}"

/-- A fault, the line that it is in, and the statement there. -/
structure Problem where
  line : Nat
  fault : Fault
  statement : Text
  deriving DecidableEq, Repr

namespace Problem

def message (p : Problem) : String := p.fault.message p.line

def render (p : Problem) : String := s!"Line {p.line}: {p.message}"

end Problem

/-- The directive at the start of a stripped line, and whether a bracket follows its name. -/
def head? (line : Text) : Option (Text × Bool) :=
  match line with
  | [] => none
  | c :: rest =>
    if c = sigil then
      match Text.takeIdentifier rest with
      | ([], _) => none
      | (name, after) => some (name, after.head? = some ('[' : CodePoint))
    else none

/-- What a directive does to the open blocks, innermost first, and the fault if it may not stand
there. -/
def enter (number : Nat) (name : Text) (bracketed : Bool) (stack : List OpenBlock) :
    List OpenBlock × Option Fault :=
  if (LineKind.ofOpening? name).isSome && !bracketed then (stack, some (.missingArguments name))
  else
    let kind := LineKind.ofDirective name bracketed
    if kind.isOpener then (⟨kind, number, false⟩ :: stack, none)
    else if kind.isCloser then
      match stack with
      | [] => ([], some (.unmatched name))
      | top :: rest =>
        if kind.opener? = some top.kind then (rest, none)
        else (top :: rest, some (.mismatched name top))
    else if kind = .elseIf ∨ kind = .elseHead then
      match stack with
      | [] => ([], some (.withoutIf name))
      | top :: rest =>
        if top.kind = .ifHead then
          let fault :=
            if top.seenElse then
              some (if kind = .elseHead then .duplicateElse name top else .elseIfAfterElse name top)
            else none
          ({ top with seenElse := top.seenElse || kind = .elseHead } :: rest, fault)
        else (top :: rest, some (.withoutIf name))
    else (stack, none)

/-- The faults of one line, and the blocks that are open after it. -/
def checkLine (number : Nat) (raw : Text) (stack : List OpenBlock) :
    List OpenBlock × List Problem :=
  let line := raw.strip
  match head? line with
  | none => (stack, [])
  | some (name, bracketed) =>
    let (stack, fault) := enter number name bracketed stack
    let faults := ((imbalance line).map Fault.brackets).toList ++ fault.toList
    (stack, faults.map fun fault => ⟨number, fault, line⟩)

def checkLines (number : Nat) (stack : List OpenBlock) : List Text → List Problem
  | [] => stack.map fun opened => ⟨opened.line, .unclosed opened, []⟩
  | raw :: rest =>
    let (stack, problems) := checkLine number raw stack
    problems ++ checkLines (number + 1) stack rest

/-- All faults of a source; a source without any may run. -/
def validate (source : Text) : List Problem := checkLines 1 [] (source.splitOn '\n')

end SigilScript.Validation
