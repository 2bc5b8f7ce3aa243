import SigilScript.Block
import SigilScript.Proofs.BlockGrammar

/-!
Block trees. The lines of a program whose directives derive from the grammar form a tree, and only
one. A tree can hold no misplaced line: each line in it has the kind that its place asks for. Reading
the lines of a tree, one construct after the other, finds the constructs of the tree.
-/
namespace SigilScript

/-- A line of a given kind. -/
abbrev Line.OfKind (kind : LineKind) := { line : Line // line.kind = kind }

/-- A line that neither opens, divides nor closes a block. -/
def Line.IsPlain (line : Line) : Prop := line.kind = .text ∨ line.kind = .directive

/-- The kind of the directive that a line starts with. -/
def Line.directiveKind? (line : Line) : Option LineKind :=
  if line.kind = .text then none else some line.kind

namespace Tree

mutual

/-- A plain line, a conditional or a loop. -/
inductive Form where
  | plain (line : Line) (isPlain : line.IsPlain)
  | conditional (head : Line.OfKind .ifHead) (body : Block) (others : Branches)
      (closer : Line.OfKind .endIf)
  | whileLoop (head : Line.OfKind .whileHead) (body : Block) (closer : Line.OfKind .endWhile)
  | forLoop (head : Line.OfKind .forHead) (body : Block) (closer : Line.OfKind .endFor)

/-- Forms in order. -/
inductive Block where
  | nil
  | cons (first : Form) (rest : Block)

/-- The branches of a conditional after the first one. -/
inductive Branches where
  | none
  | otherwise (head : Line.OfKind .elseHead) (body : Block)
  | elseIf (head : Line.OfKind .elseIf) (body : Block) (others : Branches)

end

def Form.head : Form → Line
  | .plain line _ => line
  | .conditional head _ _ _ => head.val
  | .whileLoop head _ _ => head.val
  | .forLoop head _ _ => head.val

mutual

/-- The lines of a form after its first one. -/
def Form.tail : Form → List Line
  | .plain _ _ => []
  | .conditional _ body others closer => body.lines ++ (others.lines ++ [closer.val])
  | .whileLoop _ body closer => body.lines ++ [closer.val]
  | .forLoop _ body closer => body.lines ++ [closer.val]

def Block.lines : Block → List Line
  | .nil => []
  | .cons first rest => first.head :: (first.tail ++ rest.lines)

def Branches.lines : Branches → List Line
  | .none => []
  | .otherwise head body => head.val :: body.lines
  | .elseIf head body others => head.val :: (body.lines ++ others.lines)

end

def Form.lines (f : Form) : List Line := f.head :: f.tail

def Branches.list : Branches → List Branch
  | .none => []
  | .otherwise head body => [⟨head.val, body.lines⟩]
  | .elseIf head body others => ⟨head.val, body.lines⟩ :: others.list

/-- The construct that the lines of a form make. -/
def Form.construct : Form → Construct
  | .plain line _ => .plain line
  | .conditional head body others _ => .conditional (⟨head.val, body.lines⟩ :: others.list)
  | .whileLoop head body _ => .whileLoop head.val body.lines
  | .forLoop head body _ => .forLoop head.val body.lines

end Tree

/-! Scanning over nested blocks -/

/-- Lines in which every block that is opened is closed, whatever divides it. -/
inductive Nested : List Line → Prop where
  | nil : Nested []
  | single {line : Line} {rest : List Line} : line.isOpener = false → line.isCloser = false →
      Nested rest → Nested (line :: rest)
  | block {opener closer : Line} {body rest : List Line} : opener.isOpener = true → Nested body →
      closer.isCloser = true → Nested rest → Nested (opener :: (body ++ closer :: rest))

theorem Nested.append {first second : List Line} (h : Nested first) (hs : Nested second) :
    Nested (first ++ second) := by
  induction h with
  | nil => exact hs
  | single ho hc _ ih => exact .single ho hc ih
  | block ho hb hc _ _ ih =>
    simp only [List.cons_append, List.append_assoc]
    exact .block ho hb hc ih

theorem isOpener_of_isCloser {line : Line} (h : line.isCloser = true) : line.isOpener = false := by
  unfold Line.isCloser at h
  unfold Line.isOpener
  cases hk : line.kind <;> simp_all [LineKind.isOpener, LineKind.isCloser]

/-- Puts lines in front of the body in a cut. -/
def prepend (lines : List Line) (parts : List Line × List Line) : List Line × List Line :=
  (lines ++ parts.1, parts.2)

theorem map_prepend_prepend (first second : List Line) (parts : Option (List Line × List Line)) :
    (parts.map (prepend second)).map (prepend first) = parts.map (prepend (first ++ second)) := by
  cases parts <;> simp [prepend]

theorem splitBlock_opener {line : Line} (h : line.isOpener = true) (depth : Nat) (rest : List Line) :
    splitBlock depth (line :: rest) = (splitBlock (depth + 1) rest).map (prepend [line]) := by
  simp only [splitBlock, h, if_true]
  rfl

theorem splitBlock_single {line : Line} (ho : line.isOpener = false) (hc : line.isCloser = false)
    (depth : Nat) (rest : List Line) :
    splitBlock depth (line :: rest) = (splitBlock depth rest).map (prepend [line]) := by
  simp only [splitBlock, ho, hc, Bool.false_eq_true, if_false]
  rfl

/-- The closer of a block inside the one that is cut. -/
theorem splitBlock_inner {line : Line} (h : line.isCloser = true) (depth : Nat) (rest : List Line) :
    splitBlock (depth + 1) (line :: rest) = (splitBlock depth rest).map (prepend [line]) := by
  simp only [splitBlock, isOpener_of_isCloser h, h, Bool.false_eq_true, if_false, if_true]
  rfl

theorem splitBlock_closer {line : Line} (h : line.isCloser = true) (rest : List Line) :
    splitBlock 0 (line :: rest) = some ([], rest) := by
  simp [splitBlock, isOpener_of_isCloser h, h]

theorem splitBlock_nested {lines : List Line} (h : Nested lines) (depth : Nat) (rest : List Line) :
    splitBlock depth (lines ++ rest) = (splitBlock depth rest).map (prepend lines) := by
  induction h generalizing depth rest with
  | nil => cases hs : splitBlock depth rest <;> simp [hs, prepend]
  | single ho hc _ ih =>
    rw [List.cons_append, splitBlock_single ho hc, ih, map_prepend_prepend, List.singleton_append]
  | @block opener closer body others ho _ hc _ ihb ih =>
    -- the opener goes one block deeper, and its closer comes back
    rw [List.cons_append, List.append_assoc, List.cons_append, splitBlock_opener ho, ihb,
      splitBlock_inner hc, ih]
    simp only [map_prepend_prepend, List.singleton_append]

/-- Puts lines in front of the current body of a conditional. -/
def Conditional.pushAll (lines : List Line) (c : Conditional) : Conditional :=
  { c with body := lines ++ c.body }

theorem map_pushAll_nil (scanned : Except StructureError Conditional) :
    scanned.map (Conditional.pushAll []) = scanned := by
  cases scanned <;> rfl

theorem map_push_pushAll (line : Line) (lines : List Line)
    (scanned : Except StructureError Conditional) :
    (scanned.map (Conditional.pushAll lines)).map (Conditional.push line) =
      scanned.map (Conditional.pushAll (line :: lines)) := by
  cases scanned <;> rfl

theorem map_pushAll_pushAll (first second : List Line)
    (scanned : Except StructureError Conditional) :
    (scanned.map (Conditional.pushAll second)).map (Conditional.pushAll first) =
      scanned.map (Conditional.pushAll (first ++ second)) := by
  cases scanned <;> simp [Except.map, Conditional.pushAll]

theorem scanBranches_nested {lines : List Line} (h : Nested lines) (opener : Line) (depth : Nat)
    (rest : List Line) :
    scanBranches opener (depth + 1) (lines ++ rest) =
      (scanBranches opener (depth + 1) rest).map (.pushAll lines) := by
  induction h generalizing depth rest with
  | nil => rw [List.nil_append, map_pushAll_nil]
  | @single line others ho hc _ ih =>
    simp only [List.cons_append, scanBranches, ho, hc, Bool.false_eq_true, if_false]
    rw [ih, map_push_pushAll]
  | @block first closer body others ho _ hc _ ihb ih =>
    have hclose : scanBranches opener (depth + 1 + 1) (closer :: (others ++ rest)) =
        (scanBranches opener (depth + 1) rest).map (.pushAll (closer :: others)) := by
      simp only [scanBranches, isOpener_of_isCloser hc, hc, Bool.false_eq_true, if_false, if_true]
      rw [ih, map_push_pushAll]
    simp only [List.cons_append, List.append_assoc, scanBranches, ho, if_true]
    rw [ihb, hclose, map_pushAll_pushAll, map_push_pushAll]

/-- A whole block inside a conditional belongs to the current body. -/
theorem scanBranches_block {first closer : Line} {body : List Line} (ho : first.isOpener = true)
    (hb : Nested body) (hc : closer.isCloser = true) (opener : Line) (rest : List Line) :
    scanBranches opener 0 (first :: (body ++ closer :: rest)) =
      (scanBranches opener 0 rest).map (.pushAll (first :: (body ++ [closer]))) := by
  have hclose : scanBranches opener (0 + 1) (closer :: rest) =
      (scanBranches opener 0 rest).map (.pushAll [closer]) := by
    simp only [scanBranches, isOpener_of_isCloser hc, hc, Bool.false_eq_true, if_false, if_true]
    rw [← map_push_pushAll, map_pushAll_nil]
  simp only [scanBranches, ho, if_true]
  rw [scanBranches_nested hb, hclose, map_pushAll_pushAll, map_push_pushAll]

theorem scanBranches_plain {line : Line} (h : line.IsPlain) (opener : Line) (rest : List Line) :
    scanBranches opener 0 (line :: rest) = (scanBranches opener 0 rest).map (.pushAll [line]) := by
  have hk : line.kind ≠ .elseIf ∧ line.kind ≠ .elseHead ∧ line.kind ≠ .endIf ∧
      line.isOpener = false ∧ line.isCloser = false := by
    unfold Line.isOpener Line.isCloser
    rcases h with h | h <;> simp [h, LineKind.isOpener, LineKind.isCloser]
  obtain ⟨h₁, h₂, h₃, ho, hc⟩ := hk
  simp only [scanBranches, ho, hc, h₁, h₂, h₃, or_self, Bool.false_eq_true, if_false]
  rw [← map_push_pushAll, map_pushAll_nil]

theorem isOpener_of_kind {line : Line} {kind : LineKind} (h : line.kind = kind) :
    line.isOpener = kind.isOpener := by rw [Line.isOpener, h]

theorem isCloser_of_kind {line : Line} {kind : LineKind} (h : line.kind = kind) :
    line.isCloser = kind.isCloser := by rw [Line.isCloser, h]

namespace Tree

mutual

theorem Form.nested (f : Form) {rest : List Line} (hr : Nested rest) :
    Nested (f.head :: (f.tail ++ rest)) := by
  cases f with
  | plain line h =>
    rcases h with h | h
    · exact .single (isOpener_of_kind h) (isCloser_of_kind h) hr
    · exact .single (isOpener_of_kind h) (isCloser_of_kind h) hr
  | conditional head body others closer =>
    have hb := body.nested.append others.nested
    simpa [Form.head, Form.tail] using
      Nested.block (isOpener_of_kind head.property) hb (isCloser_of_kind closer.property) hr
  | whileLoop head body closer =>
    simpa [Form.head, Form.tail] using
      Nested.block (isOpener_of_kind head.property) body.nested (isCloser_of_kind closer.property) hr
  | forLoop head body closer =>
    simpa [Form.head, Form.tail] using
      Nested.block (isOpener_of_kind head.property) body.nested (isCloser_of_kind closer.property) hr

theorem Block.nested (b : Block) : Nested b.lines := by
  cases b with
  | nil => exact .nil
  | cons first rest => exact first.nested rest.nested

theorem Branches.nested (bs : Branches) : Nested bs.lines := by
  cases bs with
  | none => exact .nil
  | otherwise head body =>
    exact .single (isOpener_of_kind head.property) (isCloser_of_kind head.property) body.nested
  | elseIf head body others =>
    exact .single (isOpener_of_kind head.property) (isCloser_of_kind head.property)
      (body.nested.append others.nested)

end

/-- A form that opens a block ends with a closer of the same kind, and is nested in between. -/
theorem Form.tail_of_isOpener (f : Form) (h : f.head.isOpener = true) :
    ∃ (inner : List Line) (closer : Line), f.tail = inner ++ [closer] ∧ Nested inner ∧
      closer.isCloser = true ∧ closer.kind.opener? = some f.head.kind := by
  cases f with
  | plain line hp =>
    rcases hp with hp | hp <;> simp [Form.head, isOpener_of_kind hp, LineKind.isOpener] at h
  | conditional head body others closer =>
    refine ⟨body.lines ++ others.lines, closer.val, ?_, body.nested.append others.nested,
      isCloser_of_kind closer.property, ?_⟩
    · rw [Form.tail, List.append_assoc]
    · rw [closer.property, Form.head, head.property, LineKind.opener?]
  | whileLoop head body closer =>
    refine ⟨body.lines, closer.val, rfl, body.nested, isCloser_of_kind closer.property, ?_⟩
    rw [closer.property, Form.head, head.property, LineKind.opener?]
  | forLoop head body closer =>
    refine ⟨body.lines, closer.val, rfl, body.nested, isCloser_of_kind closer.property, ?_⟩
    rw [closer.property, Form.head, head.property, LineKind.opener?]

theorem scanBranches_form (f : Form) (opener : Line) (rest : List Line) :
    scanBranches opener 0 (f.head :: (f.tail ++ rest)) =
      (scanBranches opener 0 rest).map (.pushAll f.lines) := by
  cases f with
  | plain line h => exact scanBranches_plain h opener rest
  | conditional head body others closer =>
    have hb := body.nested.append others.nested
    simpa [Form.head, Form.tail, Form.lines] using scanBranches_block
      (isOpener_of_kind head.property) hb (isCloser_of_kind closer.property) opener rest
  | whileLoop head body closer =>
    simpa [Form.head, Form.tail, Form.lines] using scanBranches_block (isOpener_of_kind head.property)
      body.nested (isCloser_of_kind closer.property) opener rest
  | forLoop head body closer =>
    simpa [Form.head, Form.tail, Form.lines] using scanBranches_block (isOpener_of_kind head.property)
      body.nested (isCloser_of_kind closer.property) opener rest

theorem scanBranches_lines : (b : Block) → (opener : Line) → (rest : List Line) →
    scanBranches opener 0 (b.lines ++ rest) = (scanBranches opener 0 rest).map (.pushAll b.lines)
  | .nil, opener, rest => by simp [Block.lines, map_pushAll_nil]
  | .cons first others, opener, rest => by
    simp only [Block.lines, List.cons_append, List.append_assoc]
    rw [scanBranches_form, scanBranches_lines others, map_pushAll_pushAll, Form.lines,
      List.cons_append]

theorem scanBranches_closer (opener : Line) (closer : Line.OfKind .endIf) (rest : List Line) :
    scanBranches opener 0 (closer.val :: rest) = .ok ⟨[], [], rest⟩ := by
  simp [scanBranches, isOpener_of_kind closer.property, closer.property, LineKind.isOpener]

/-- The branches after the first body, up to the end of the conditional. -/
theorem scanBranches_branches : (bs : Branches) → (opener : Line) → (closer : Line.OfKind .endIf) →
    (rest : List Line) →
    scanBranches opener 0 (bs.lines ++ closer.val :: rest) = .ok ⟨[], bs.list, rest⟩
  | .none, opener, closer, rest => scanBranches_closer opener closer rest
  | .otherwise head body, opener, closer, rest => by
    simp only [Branches.lines, Branches.list, List.cons_append, scanBranches,
      isOpener_of_kind head.property, head.property, LineKind.isOpener, Bool.false_eq_true,
      if_false, or_true, if_true]
    rw [scanBranches_lines body, scanBranches_closer]
    simp [Except.map, Conditional.pushAll]
  | .elseIf head body others, opener, closer, rest => by
    have hend := scanBranches_branches others opener closer rest
    simp only [Branches.lines, Branches.list, List.cons_append, List.append_assoc, scanBranches,
      isOpener_of_kind head.property, head.property, LineKind.isOpener, Bool.false_eq_true,
      if_false, true_or, if_true]
    rw [scanBranches_lines body, hend]
    simp [Except.map, Conditional.pushAll]

theorem splitBlock_lines (b : Block) {closer : Line} (hc : closer.isCloser = true)
    (rest : List Line) : splitBlock 0 (b.lines ++ closer :: rest) = some (b.lines, rest) := by
  rw [splitBlock_nested b.nested, splitBlock_closer hc]
  simp [prepend]

/-- Reading a form from its lines gives its construct, and stops right after it. -/
theorem read_form (f : Form) (rest : List Line) :
    Construct.read f.head (f.tail ++ rest) = .ok (f.construct, rest) := by
  cases f with
  | plain line h =>
    rcases h with h | h
    · simp [Construct.read, Form.head, Form.tail, Form.construct, h]
    · simp [Construct.read, Form.head, Form.tail, Form.construct, h]
  | conditional head body others closer =>
    simp only [Construct.read, Form.head, Form.tail, Form.construct, head.property,
      List.append_assoc, List.cons_append, List.nil_append]
    rw [scanBranches_lines, scanBranches_branches]
    simp [Except.map, Conditional.pushAll]
  | whileLoop head body closer =>
    simp only [Construct.read, Construct.readLoop, Form.head, Form.tail, Form.construct,
      head.property, List.append_assoc, List.cons_append, List.nil_append]
    rw [splitBlock_lines body (isCloser_of_kind closer.property)]
    rfl
  | forLoop head body closer =>
    simp only [Construct.read, Construct.readLoop, Form.head, Form.tail, Form.construct,
      head.property, List.append_assoc, List.cons_append, List.nil_append]
    rw [splitBlock_lines body (isCloser_of_kind closer.property)]
    rfl

/-! Only one tree -/

mutual

theorem Form.eq_of_construct (f g : Form) (hc : f.construct = g.construct)
    (ht : f.tail = g.tail) : f = g := by
  cases f with
  | plain line h =>
    cases g <;> simp only [Form.construct, reduceCtorEq, Construct.plain.injEq] at hc
    subst hc
    rfl
  | conditional head body others closer =>
    cases g <;> simp only [Form.construct, reduceCtorEq, Construct.conditional.injEq,
      List.cons.injEq, Branch.mk.injEq] at hc
    obtain ⟨⟨hh, hb⟩, ho⟩ := hc
    rw [Subtype.ext hh, Block.eq_of_lines _ _ hb, Branches.eq_of_list _ _ ho] at ht ⊢
    simp only [Form.tail, List.append_cancel_left_eq, List.cons.injEq, and_true] at ht
    rw [Subtype.ext ht]
  | whileLoop head body closer =>
    cases g <;> simp only [Form.construct, reduceCtorEq, Construct.whileLoop.injEq] at hc
    obtain ⟨hh, hb⟩ := hc
    rw [Subtype.ext hh, Block.eq_of_lines _ _ hb] at ht ⊢
    simp only [Form.tail, List.append_cancel_left_eq, List.cons.injEq, and_true] at ht
    rw [Subtype.ext ht]
  | forLoop head body closer =>
    cases g <;> simp only [Form.construct, reduceCtorEq, Construct.forLoop.injEq] at hc
    obtain ⟨hh, hb⟩ := hc
    rw [Subtype.ext hh, Block.eq_of_lines _ _ hb] at ht ⊢
    simp only [Form.tail, List.append_cancel_left_eq, List.cons.injEq, and_true] at ht
    rw [Subtype.ext ht]

/-- The lines of a block tell its tree: reading is the way back. -/
theorem Block.eq_of_lines (b c : Block) (h : b.lines = c.lines) : b = c := by
  cases b with
  | nil =>
    cases c with
    | nil => rfl
    | cons => simp [Block.lines] at h
  | cons f rest =>
    cases c with
    | nil => simp [Block.lines] at h
    | cons g rest' =>
      simp only [Block.lines, List.cons.injEq] at h
      have hf := read_form f rest.lines
      rw [h.1, h.2, read_form g rest'.lines] at hf
      simp only [Except.ok.injEq, Prod.mk.injEq] at hf
      have ht : f.tail = g.tail := by
        have := h.2
        rw [hf.2] at this
        exact List.append_cancel_right this
      rw [Form.eq_of_construct f g hf.1.symm ht, Block.eq_of_lines rest rest' hf.2.symm]

theorem Branches.eq_of_list (bs cs : Branches) (h : bs.list = cs.list) : bs = cs := by
  cases bs with
  | none => cases cs <;> simp_all [Branches.list]
  | otherwise head body =>
    cases cs with
    | none => simp [Branches.list] at h
    | otherwise head' body' =>
      simp only [Branches.list, List.cons.injEq, Branch.mk.injEq, and_true] at h
      rw [Subtype.ext h.1, Block.eq_of_lines _ _ h.2]
    | elseIf head' body' others' =>
      simp only [Branches.list, List.cons.injEq, Branch.mk.injEq] at h
      have hk := head.property
      rw [h.1.1, head'.property] at hk
      simp at hk
  | elseIf head body others =>
    cases cs with
    | none => simp [Branches.list] at h
    | otherwise head' body' =>
      simp only [Branches.list, List.cons.injEq, Branch.mk.injEq] at h
      have hk := head.property
      rw [h.1.1, head'.property] at hk
      simp at hk
    | elseIf head' body' others' =>
      simp only [Branches.list, List.cons.injEq, Branch.mk.injEq] at h
      rw [Subtype.ext h.1.1, Block.eq_of_lines _ _ h.1.2, Branches.eq_of_list _ _ h.2]

end

/-! Lines that derive from the grammar form a tree -/

/-- The lines of some block. -/
def AreBlock (lines : List Line) : Prop := ∃ b : Block, b.lines = lines

/-- The lines of some body and of the branches after it. -/
def AreArms (lines : List Line) : Prop :=
  ∃ (body : Block) (others : Branches), body.lines ++ others.lines = lines

theorem AreBlock.cons (f : Form) {rest : List Line} (h : AreBlock rest) :
    AreBlock (f.head :: (f.tail ++ rest)) := by
  obtain ⟨b, rfl⟩ := h
  exact ⟨.cons f b, rfl⟩

theorem append_lines : (b c : Block) → AreBlock (b.lines ++ c.lines)
  | .nil, c => ⟨c, rfl⟩
  | .cons f b, c => by
    simpa [Block.lines] using (append_lines b c).cons f

theorem AreBlock.append {first second : List Line} (h : AreBlock first) (hs : AreBlock second) :
    AreBlock (first ++ second) := by
  obtain ⟨b, rfl⟩ := h
  obtain ⟨c, rfl⟩ := hs
  exact append_lines b c

theorem areBlock_texts {lines : List Line} (h : ∀ line ∈ lines, line.kind = .text) :
    AreBlock lines := by
  induction lines with
  | nil => exact ⟨.nil, rfl⟩
  | cons line lines ih =>
    rw [List.forall_mem_cons] at h
    exact (ih h.2).cons (.plain line (.inl h.1))

theorem append_arms : (body : Block) → (others : Branches) → {texts : List Line} →
    AreBlock texts → AreArms (body.lines ++ (others.lines ++ texts))
  | body, .none, texts, h => by
    obtain ⟨b, hb⟩ := AreBlock.append ⟨body, rfl⟩ h
    exact ⟨b, .none, by simpa [Branches.lines] using hb⟩
  | body, .otherwise head last, texts, h => by
    obtain ⟨b, hb⟩ := AreBlock.append ⟨last, rfl⟩ h
    exact ⟨body, .otherwise head b, by simp [Branches.lines, hb]⟩
  | body, .elseIf head next others, texts, h => by
    obtain ⟨b, bs, hb⟩ := append_arms next others h
    exact ⟨body, .elseIf head b bs, by simp [Branches.lines, hb]⟩

/-- Text that ends an arm belongs to it. -/
theorem AreArms.append {lines texts : List Line} (h : AreArms lines) (ht : AreBlock texts) :
    AreArms (lines ++ texts) := by
  obtain ⟨body, others, rfl⟩ := h
  simpa using append_arms body others ht

theorem AreBlock.arms {first second : List Line} (h : AreBlock first) (hs : AreArms second) :
    AreArms (first ++ second) := by
  obtain ⟨body, others, rfl⟩ := hs
  obtain ⟨b, hb⟩ := h.append ⟨body, rfl⟩
  exact ⟨b, others, by rw [hb, List.append_assoc]⟩

theorem directiveKind?_eq_none {line : Line} (h : line.directiveKind? = none) :
    line.kind = .text := by
  unfold Line.directiveKind? at h
  by_contra hk
  simp [hk] at h

theorem directiveKind?_eq_some {line : Line} {kind : LineKind} (h : line.directiveKind? = some kind) :
    line.kind = kind := by
  unfold Line.directiveKind? at h
  split at h
  · simp at h
  · simpa using h

/-- Before the next directive there is only text. -/
theorem split_at_directive {lines : List Line} {kind : LineKind} {kinds : List LineKind}
    (h : lines.filterMap Line.directiveKind? = kind :: kinds) :
    ∃ texts line rest, lines = texts ++ line :: rest ∧ AreBlock texts ∧ line.kind = kind ∧
      rest.filterMap Line.directiveKind? = kinds := by
  obtain ⟨texts, line, rest, rfl, ht, hl, hr⟩ := List.filterMap_eq_cons_iff.mp h
  exact ⟨texts, line, rest, rfl, areBlock_texts fun line hm => directiveKind?_eq_none (ht line hm),
    directiveKind?_eq_some hl, hr⟩

/-- A loop around a block, given how its form is made. -/
theorem areBlock_loop {opener closer : LineKind}
    (make : Line.OfKind opener → Block → Line.OfKind closer → Form)
    (hhead : ∀ head body last, (make head body last).head = head.val)
    (htail : ∀ head body last, (make head body last).tail = body.lines ++ [last.val])
    {body rest : List LineKind}
    (ihb : ∀ lines : List Line, lines.filterMap Line.directiveKind? = body → AreBlock lines)
    (ihr : ∀ lines : List Line, lines.filterMap Line.directiveKind? = rest → AreBlock lines)
    {lines : List Line}
    (h : lines.filterMap Line.directiveKind? = opener :: (body ++ closer :: rest)) :
    AreBlock lines := by
  obtain ⟨texts, head, others, rfl, ht, hk, h⟩ := split_at_directive h
  obtain ⟨inner, others, rfl, hi, h⟩ := List.filterMap_eq_append_iff.mp h
  obtain ⟨more, last, others, rfl, hm, hc, h⟩ := split_at_directive h
  obtain ⟨b, hb⟩ := (ihb inner hi).append hm
  have hf := (ihr others h).cons (make ⟨head, hk⟩ b ⟨last, hc⟩)
  rw [hhead, htail, hb] at hf
  simpa using ht.append hf

/-- Lines whose directives derive from the grammar form a tree: by induction on the derivation, with
the branches of a conditional forming arms. -/
theorem areBlock_of_derives {kinds : List LineKind} (h : Grammar.Block kinds) :
    ∀ lines : List Line, lines.filterMap Line.directiveKind? = kinds → AreBlock lines := by
  refine @Grammar.Block.rec
    (fun kinds _ => ∀ lines : List Line, lines.filterMap Line.directiveKind? = kinds → AreBlock lines)
    (fun kinds _ => ∀ lines : List Line, lines.filterMap Line.directiveKind? = kinds → AreArms lines)
    ?empty ?statement ?conditional ?whileLoop ?forLoop ?none ?otherwise ?elseIf kinds h
  case empty =>
    intro lines hl
    apply areBlock_texts
    intro line hm
    exact directiveKind?_eq_none (List.filterMap_eq_nil_iff.mp hl line hm)
  case statement =>
    intro _ _ ih lines hl
    obtain ⟨texts, line, rest, rfl, ht, hk, hl⟩ := split_at_directive hl
    exact ht.append ((ih rest hl).cons (.plain line (.inr hk)))
  case conditional =>
    intro _ _ _ _ _ _ ihb iho ihr lines hl
    obtain ⟨texts, head, rest, rfl, ht, hk, hl⟩ := split_at_directive hl
    obtain ⟨body, rest, rfl, hb, hl⟩ := List.filterMap_eq_append_iff.mp hl
    obtain ⟨others, rest, rfl, ho, hl⟩ := List.filterMap_eq_append_iff.mp hl
    obtain ⟨more, closer, rest, rfl, hm, hc, hl⟩ := split_at_directive hl
    obtain ⟨b, bs, hbs⟩ := (ihb body hb).arms ((iho others ho).append hm)
    have hf := (ihr rest hl).cons (.conditional ⟨head, hk⟩ b bs ⟨closer, hc⟩)
    rw [Form.tail, ← List.append_assoc b.lines, hbs] at hf
    simpa [Form.head] using ht.append hf
  case whileLoop =>
    intro _ _ _ _ ihb ihr lines hl
    exact areBlock_loop .whileLoop (fun _ _ _ => rfl) (fun _ _ _ => rfl) ihb ihr hl
  case forLoop =>
    intro _ _ _ _ ihb ihr lines hl
    exact areBlock_loop .forLoop (fun _ _ _ => rfl) (fun _ _ _ => rfl) ihb ihr hl
  case none =>
    intro lines hl
    have ht : ∀ line ∈ lines, line.kind = .text := by
      intro line hm
      exact directiveKind?_eq_none (List.filterMap_eq_nil_iff.mp hl line hm)
    obtain ⟨b, hb⟩ := areBlock_texts ht
    exact ⟨b, .none, by simpa [Branches.lines] using hb⟩
  case otherwise =>
    intro _ _ ih lines hl
    obtain ⟨texts, head, rest, rfl, ht, hk, hl⟩ := split_at_directive hl
    obtain ⟨b, hb⟩ := ih rest hl
    exact ht.arms ⟨.nil, .otherwise ⟨head, hk⟩ b, by simp [Block.lines, Branches.lines, hb]⟩
  case elseIf =>
    intro _ _ _ _ ihb iho lines hl
    obtain ⟨texts, head, rest, rfl, ht, hk, hl⟩ := split_at_directive hl
    obtain ⟨body, rest, rfl, hb, hl⟩ := List.filterMap_eq_append_iff.mp hl
    obtain ⟨b, bs, hbs⟩ := (ihb body hb).arms (iho rest hl)
    exact ht.arms ⟨.nil, .elseIf ⟨head, hk⟩ b bs, by simp [Block.lines, Branches.lines, hbs]⟩

end Tree

end SigilScript
