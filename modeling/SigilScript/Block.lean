import SigilScript.Failure

/-!
Blocks of a program. The lines from some point on start with a `Construct`: a plain line, a
conditional with its branches, or a loop with its body. What follows the construct is the rest of
the block that it stands in. A construct is read only when its turn comes, so a fault in the
structure stops a run where it stands, and not before.
-/
namespace SigilScript

inductive StructureError where
  | noTerminator (opener : Line)
  | noEndIf (opener : Line)
  | unexpectedCloser (closer : Line)
  deriving DecidableEq, Repr

def StructureError.fault : StructureError → Fault
  | .noTerminator l =>
    ⟨s!"No terminator for §{l.name}", some l.location, some l.kind.label⟩
  | .noEndIf l => ⟨"No §endif for §if", some l.location, some LineKind.ifHead.label⟩
  | .unexpectedCloser l =>
    ⟨s!"Unexpected §{l.name} inside §if", some l.location, some LineKind.ifHead.label⟩

/-- Cuts the lines inside `depth` further blocks at the closer of the outermost one: the lines
before the closer, and those after it. -/
def splitBlock : Nat → List Line → Option (List Line × List Line)
  | _, [] => none
  | depth, line :: rest =>
    if line.isOpener then
      (splitBlock (depth + 1) rest).map fun (body, after) => (line :: body, after)
    else if line.isCloser then
      match depth with
      | 0 => some ([], rest)
      | depth + 1 => (splitBlock depth rest).map fun (body, after) => (line :: body, after)
    else (splitBlock depth rest).map fun (body, after) => (line :: body, after)

/-- A branch of a conditional: the line that starts it, and its body. -/
structure Branch where
  head : Line
  body : List Line
  deriving DecidableEq, Repr

/-- The rest of a conditional, inside `depth` further blocks: the rest of the current body, the
branches after it, and the lines after the conditional. -/
structure Conditional where
  body : List Line
  others : List Branch
  after : List Line
  deriving DecidableEq, Repr

/-- Puts a line in front of the current body. -/
def Conditional.push (line : Line) (c : Conditional) : Conditional :=
  { c with body := line :: c.body }

def scanBranches (opener : Line) : Nat → List Line → Except StructureError Conditional
  | _, [] => .error (.noEndIf opener)
  | depth, line :: rest =>
    if line.isOpener then (scanBranches opener (depth + 1) rest).map (.push line)
    else
      match depth with
      | depth + 1 =>
        (scanBranches opener (if line.isCloser then depth else depth + 1) rest).map (.push line)
      | 0 =>
        if line.kind = .elseIf ∨ line.kind = .elseHead then
          (scanBranches opener 0 rest).map fun c => ⟨[], ⟨line, c.body⟩ :: c.others, c.after⟩
        else if line.kind = .endIf then .ok ⟨[], [], rest⟩
        else if line.isCloser then .error (.unexpectedCloser line)
        else (scanBranches opener 0 rest).map (.push line)

inductive Construct where
  | plain (line : Line)
  | conditional (branches : List Branch)
  | whileLoop (head : Line) (body : List Line)
  | forLoop (head : Line) (body : List Line)
  deriving DecidableEq, Repr

namespace Construct

/-- The blocks inside a construct. -/
def bodies : Construct → List (List Line)
  | .plain _ => []
  | .conditional branches => branches.map Branch.body
  | .whileLoop _ body => [body]
  | .forLoop _ body => [body]

/-- The body of a loop, and the lines after it. -/
def readLoop (head : Line) (rest : List Line) : Except StructureError (List Line × List Line) :=
  match splitBlock 0 rest with
  | none => .error (.noTerminator head)
  | some parts => .ok parts

/-- The construct that a line starts, and the lines after it. -/
def read (line : Line) (rest : List Line) : Except StructureError (Construct × List Line) :=
  match line.kind with
  | .ifHead =>
    (scanBranches line 0 rest).map fun c => (.conditional (⟨line, c.body⟩ :: c.others), c.after)
  | .whileHead => (readLoop line rest).map fun (body, after) => (.whileLoop line body, after)
  | .forHead => (readLoop line rest).map fun (body, after) => (.forLoop line body, after)
  | _ => .ok (.plain line, rest)

end Construct

/-! Reading a construct shortens the lines -/

theorem splitBlock_eq {depth : Nat} {lines body after : List Line}
    (h : splitBlock depth lines = some (body, after)) :
    ∃ closer : Line, closer.isCloser ∧ lines = body ++ closer :: after := by
  induction lines generalizing depth body after with
  | nil => simp [splitBlock] at h
  | cons line rest ih =>
    unfold splitBlock at h
    split at h
    · obtain ⟨⟨b, a⟩, hs, he⟩ := Option.map_eq_some_iff.mp h
      simp only [Prod.mk.injEq] at he
      obtain ⟨rfl, rfl⟩ := he
      obtain ⟨closer, hc, rfl⟩ := ih hs
      exact ⟨closer, hc, rfl⟩
    · split at h
      · rename_i hc
        split at h
        · simp only [Option.some.injEq, Prod.mk.injEq] at h
          obtain ⟨rfl, rfl⟩ := h
          exact ⟨line, hc, rfl⟩
        · obtain ⟨⟨b, a⟩, hs, he⟩ := Option.map_eq_some_iff.mp h
          simp only [Prod.mk.injEq] at he
          obtain ⟨rfl, rfl⟩ := he
          obtain ⟨closer, hc', rfl⟩ := ih hs
          exact ⟨closer, hc', rfl⟩
      · obtain ⟨⟨b, a⟩, hs, he⟩ := Option.map_eq_some_iff.mp h
        simp only [Prod.mk.injEq] at he
        obtain ⟨rfl, rfl⟩ := he
        obtain ⟨closer, hc', rfl⟩ := ih hs
        exact ⟨closer, hc', rfl⟩

/-- All lines of a conditional in order, from the current body on. -/
def Conditional.lines (c : Conditional) : List Line :=
  c.body ++ c.others.flatMap fun b => b.head :: b.body

theorem map_eq_ok {ε α β : Type} {f : α → β} {x : Except ε α} {b : β} (h : x.map f = .ok b) :
    ∃ a, x = .ok a ∧ f a = b := by
  cases x with
  | error e => simp [Except.map] at h
  | ok a => exact ⟨a, rfl, by simpa [Except.map] using h⟩

/-- The branches tile the conditional, up to the line that ends it. -/
theorem scanBranches_eq {opener : Line} {depth : Nat} {lines : List Line} {c : Conditional}
    (h : scanBranches opener depth lines = .ok c) :
    ∃ closer : Line, closer.kind = .endIf ∧ lines = c.lines ++ closer :: c.after := by
  induction lines generalizing depth c with
  | nil => simp [scanBranches] at h
  | cons line rest ih =>
    have pushed : ∀ {d : Nat}, (scanBranches opener d rest).map (Conditional.push line) = .ok c →
        ∃ closer : Line, closer.kind = .endIf ∧ line :: rest = c.lines ++ closer :: c.after := by
      intro d hd
      obtain ⟨c', hc', rfl⟩ := map_eq_ok hd
      obtain ⟨closer, hk, rfl⟩ := ih hc'
      exact ⟨closer, hk, by simp [Conditional.lines, Conditional.push]⟩
    unfold scanBranches at h
    split at h
    · exact pushed h
    · split at h
      · exact pushed h
      · split at h
        · obtain ⟨c', hc', rfl⟩ := map_eq_ok h
          obtain ⟨closer, hk, rfl⟩ := ih hc'
          exact ⟨closer, hk, by simp [Conditional.lines]⟩
        · split at h
          · rename_i hk
            simp only [Except.ok.injEq] at h
            subst h
            exact ⟨line, hk, by simp [Conditional.lines]⟩
          · split at h
            · simp at h
            · exact pushed h

theorem readLoop_eq {head : Line} {rest : List Line} {parts : List Line × List Line}
    (h : Construct.readLoop head rest = .ok parts) : splitBlock 0 rest = some parts := by
  unfold Construct.readLoop at h
  split at h
  · simp at h
  · rename_i hs
    simp only [Except.ok.injEq] at h
    rw [hs, h]

theorem read_after_le {line : Line} {rest after : List Line} {c : Construct}
    (h : Construct.read line rest = .ok (c, after)) : after.length ≤ rest.length := by
  have loop : ∀ {body : List Line}, splitBlock 0 rest = some (body, after) →
      after.length ≤ rest.length := by
    intro body hs
    obtain ⟨closer, -, rfl⟩ := splitBlock_eq hs
    simp only [List.length_append, List.length_cons]
    omega
  unfold Construct.read at h
  split at h
  · obtain ⟨s, hs, he⟩ := map_eq_ok h
    simp only [Prod.mk.injEq] at he
    obtain ⟨-, rfl⟩ := he
    obtain ⟨closer, -, rfl⟩ := scanBranches_eq hs
    simp only [List.length_append, List.length_cons]
    omega
  · obtain ⟨⟨body, a⟩, hs, he⟩ := map_eq_ok h
    simp only [Prod.mk.injEq] at he
    obtain ⟨-, rfl⟩ := he
    exact loop (readLoop_eq hs)
  · obtain ⟨⟨body, a⟩, hs, he⟩ := map_eq_ok h
    simp only [Prod.mk.injEq] at he
    obtain ⟨-, rfl⟩ := he
    exact loop (readLoop_eq hs)
  · simp only [Except.ok.injEq, Prod.mk.injEq] at h
    obtain ⟨-, rfl⟩ := h
    exact Nat.le_refl _

theorem length_le_of_mem_others {c : Conditional} {b : Branch} (h : b ∈ c.others) :
    b.body.length ≤ c.lines.length := by
  obtain ⟨s, t, hst⟩ := List.append_of_mem h
  simp only [Conditional.lines, hst, List.flatMap_append, List.flatMap_cons, List.length_append,
    List.length_cons]
  omega

theorem read_body_le {line : Line} {rest after body : List Line} {c : Construct}
    (h : Construct.read line rest = .ok (c, after)) (hb : body ∈ c.bodies) :
    body.length ≤ rest.length := by
  have loop : ∀ {b a : List Line}, splitBlock 0 rest = some (b, a) → b.length ≤ rest.length := by
    intro b a hs
    obtain ⟨closer, -, rfl⟩ := splitBlock_eq hs
    simp only [List.length_append]
    omega
  unfold Construct.read at h
  split at h
  · obtain ⟨s, hs, he⟩ := map_eq_ok h
    simp only [Prod.mk.injEq] at he
    obtain ⟨rfl, -⟩ := he
    obtain ⟨closer, -, rfl⟩ := scanBranches_eq hs
    simp only [Construct.bodies, List.map_cons, List.mem_cons, List.mem_map] at hb
    rcases hb with rfl | ⟨b, hm, rfl⟩
    · simp only [Conditional.lines, List.length_append]
      omega
    · have := length_le_of_mem_others hm
      simp only [List.length_append]
      omega
  · obtain ⟨⟨b, a⟩, hs, he⟩ := map_eq_ok h
    simp only [Prod.mk.injEq] at he
    obtain ⟨rfl, -⟩ := he
    simp only [Construct.bodies, List.mem_singleton] at hb
    subst hb
    exact loop (readLoop_eq hs)
  · obtain ⟨⟨b, a⟩, hs, he⟩ := map_eq_ok h
    simp only [Prod.mk.injEq] at he
    obtain ⟨rfl, -⟩ := he
    simp only [Construct.bodies, List.mem_singleton] at hb
    subst hb
    exact loop (readLoop_eq hs)
  · simp only [Except.ok.injEq, Prod.mk.injEq] at h
    obtain ⟨rfl, -⟩ := h
    simp [Construct.bodies] at hb

end SigilScript
