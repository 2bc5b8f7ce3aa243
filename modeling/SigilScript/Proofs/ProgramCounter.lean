import SigilScript.Proofs.BlockSemantics

/-!
Execution by a program counter: the lines stay where they are, and a block is the range between two
positions. The ends of blocks are found by scans that count how many blocks are open. Every call that
looks at lines is seen by a `Watch`, which may do anything; where it does nothing at the calls that a
run makes, the run is that of the lines read one construct at a time.
-/
namespace SigilScript.Counter

/-- The lines from one position up to another. -/
def slice (lines : List Line) (start stop : Nat) : List Line := (lines.take stop).drop start

theorem slice_of_none {lines : List Line} {pc : Nat} (h : lines[pc]? = none) (stop : Nat) :
    slice lines pc stop = [] := by
  rw [List.getElem?_eq_none_iff] at h
  simp only [slice, List.drop_eq_nil_iff, List.length_take]
  omega

theorem slice_of_le (lines : List Line) {start stop : Nat} (h : stop ≤ start) :
    slice lines start stop = [] := by
  simp only [slice, List.drop_eq_nil_iff, List.length_take]
  omega

theorem slice_of_some {lines : List Line} {line : Line} {pc stop : Nat} (h : pc < stop)
    (hl : lines[pc]? = some line) : slice lines pc stop = line :: slice lines (pc + 1) stop := by
  obtain ⟨hlt, rfl⟩ := List.getElem?_eq_some_iff.mp hl
  have hin : pc < (lines.take stop).length := by simp only [List.length_take]; omega
  rw [slice, List.drop_eq_getElem_cons hin, List.getElem_take, slice]

theorem slice_succ {lines : List Line} {line : Line} {start index : Nat} (h : start ≤ index)
    (hl : lines[index]? = some line) :
    slice lines start (index + 1) = slice lines start index ++ [line] := by
  obtain ⟨hlt, rfl⟩ := List.getElem?_eq_some_iff.mp hl
  rw [slice, slice, List.take_succ_eq_append_getElem hlt, List.drop_append_of_le_length]
  simp only [List.length_take]
  omega

theorem slice_length (lines : List Line) (pc : Nat) : slice lines pc lines.length = lines.drop pc := by
  rw [slice, List.take_length]

/-- A range that a line divides consists of what stands before it, the line, and the rest. -/
theorem slice_split {lines body after : List Line} {closer : Line} {start stop : Nat}
    (h : slice lines start stop = body ++ closer :: after) :
    start + body.length < stop ∧ slice lines start (start + body.length) = body ∧
      lines[start + body.length]? = some closer ∧
      slice lines (start + body.length + 1) stop = after := by
  have hlen : body.length < (slice lines start stop).length := by simp [h]
  have hlt : start + body.length < stop := by
    simp only [slice, List.length_drop, List.length_take] at hlen
    omega
  have hbody : slice lines start (start + body.length) =
      (slice lines start stop).take body.length := by
    rw [slice, slice, List.take_drop, List.take_take, Nat.min_eq_left (by omega)]
  have hline : lines[start + body.length]? = (slice lines start stop)[body.length]? := by
    rw [slice, List.getElem?_drop, List.getElem?_take_of_lt hlt]
  have hafter : slice lines (start + body.length + 1) stop =
      (slice lines start stop).drop (body.length + 1) := by
    rw [slice, slice, List.drop_drop, Nat.add_assoc]
  refine ⟨hlt, ?_, ?_, ?_⟩
  · rw [hbody, h, List.take_left]
  · rw [hline, h]
    simp
  · rw [hafter, h]
    simp

/-! Looking for the end of a block -/

/-- The position at which the number of open blocks, now `depth`, falls to zero. -/
def terminatorFrom (lines : List Line) (stop : Nat) (depth : Int) (index : Nat) : Option Nat :=
  if index < stop then
    match lines[index]? with
    | none => none
    | some line =>
      if line.isOpener then terminatorFrom lines stop (depth + 1) (index + 1)
      else if line.isCloser then
        if depth - 1 = 0 then some index else terminatorFrom lines stop (depth - 1) (index + 1)
      else terminatorFrom lines stop depth (index + 1)
  else none
termination_by stop - index

/-- The position of the line that closes the block opened at `pc`, below `stop`. -/
def terminator? (lines : List Line) (pc stop : Nat) : Option Nat := terminatorFrom lines stop 0 pc

/-- A branch of a conditional: the line that starts it, and the range of its body. -/
structure Span where
  head : Line
  start : Nat
  stop : Nat
  deriving DecidableEq, Repr

def Span.branch (lines : List Line) (s : Span) : Branch := ⟨s.head, slice lines s.start s.stop⟩

/-- The branches of a conditional from the one that `head` starts on, and the position of its end;
the body of the first starts at `start` and has been scanned up to `index`. -/
def spansFrom (lines : List Line) (stop : Nat) (opener head : Line) (start depth index : Nat) :
    Except StructureError (List Span × Nat) :=
  if index < stop then
    match lines[index]? with
    | none => .error (.noEndIf opener)
    | some line =>
      if line.isOpener then spansFrom lines stop opener head start (depth + 1) (index + 1)
      else if 0 < depth then
        spansFrom lines stop opener head start (if line.isCloser then depth - 1 else depth)
          (index + 1)
      else if line.kind = .elseIf ∨ line.kind = .elseHead then
        (spansFrom lines stop opener line (index + 1) 0 (index + 1)).map fun (spans, last) =>
          (⟨head, start, index⟩ :: spans, last)
      else if line.kind = .endIf then .ok ([⟨head, start, index⟩], index)
      else if line.isCloser then .error (.unexpectedCloser line)
      else spansFrom lines stop opener head start 0 (index + 1)
  else .error (.noEndIf opener)
termination_by stop - index

/-- The branches of the conditional at `pc`, below `stop`, and the position of its end. -/
def spans (lines : List Line) (opener : Line) (pc stop : Nat) :
    Except StructureError (List Span × Nat) :=
  spansFrom lines stop opener opener (pc + 1) 0 (pc + 1)

theorem terminatorFrom_bounds {lines : List Line} {stop index last : Nat} {depth : Int}
    (h : terminatorFrom lines stop depth index = some last) : index ≤ last ∧ last < stop := by
  fun_induction terminatorFrom lines stop depth index with
  | case1 => simp at h
  | case2 depth index hi line hl ho ih => have := ih h; omega
  | case3 depth index hi line hl ho hc hd => simp at h; omega
  | case4 depth index hi line hl ho hc hd ih => have := ih h; omega
  | case5 depth index hi line hl ho hc ih => have := ih h; omega
  | case6 => simp at h

/-- Inside a block, the scan finds the line at which the block is cut. -/
theorem terminatorFrom_eq (lines : List Line) (stop depth index : Nat) :
    terminatorFrom lines stop (depth + 1) index =
      (splitBlock depth (slice lines index stop)).map fun parts => index + parts.1.length := by
  have later : ∀ (line : Line) (index : Nat) (parts : Option (List Line × List Line)),
      (parts.map (prepend [line])).map (fun parts => index + parts.1.length) =
        parts.map fun parts => index + 1 + parts.1.length := by
    intro line index parts
    cases parts <;> simp [prepend]; omega
  induction hn : stop - index generalizing depth index with
  | zero =>
    have hi : stop ≤ index := by omega
    rw [terminatorFrom, if_neg (Nat.not_lt.mpr hi), slice_of_le lines hi, splitBlock,
      Option.map_none]
  | succ n ih =>
    have hi : index < stop := by omega
    have next := fun depth => ih depth (index + 1) (by omega)
    rw [terminatorFrom, if_pos hi]
    cases hl : lines[index]? with
    | none => simp [slice_of_none hl, splitBlock]
    | some line =>
      rw [slice_of_some hi hl]
      cases ho : line.isOpener with
      | true =>
        rw [splitBlock_opener ho, later, ← next (depth + 1)]
        simp only [ho, if_true, Int.natCast_add, Int.cast_ofNat_Int]
      | false =>
        cases hc : line.isCloser with
        | false =>
          rw [splitBlock_single ho hc, later, ← next depth]
          simp only [ho, hc, Bool.false_eq_true, if_false]
        | true =>
          cases depth with
          | zero => simp [ho, hc, splitBlock_closer hc]
          | succ depth =>
            have hd : ((depth + 1 : Nat) : Int) + 1 - 1 = depth + 1 := by omega
            rw [splitBlock_inner hc, later, ← next depth]
            simp only [ho, hc, Bool.false_eq_true, if_false, if_true, hd]
            rw [if_neg (by omega)]

/-- The scan for the end of the block that is opened at `pc`. -/
theorem terminator?_eq {lines : List Line} {line : Line} {pc stop : Nat} (h : pc < stop)
    (hl : lines[pc]? = some line) (ho : line.isOpener = true) :
    terminator? lines pc stop =
      (splitBlock 0 (slice lines (pc + 1) stop)).map fun parts => pc + 1 + parts.1.length := by
  rw [terminator?, terminatorFrom, if_pos h, hl]
  simp only [ho, if_true]
  exact terminatorFrom_eq lines stop 0 (pc + 1)

theorem spansFrom_bounds {lines : List Line} {stop depth index start last : Nat}
    {opener head : Line} {spans : List Span} (hs : start ≤ index)
    (h : spansFrom lines stop opener head start depth index = .ok (spans, last)) :
    index ≤ last ∧ last < stop ∧ ∀ s ∈ spans, start ≤ s.start ∧ s.stop ≤ last := by
  fun_induction spansFrom lines stop opener head start depth index generalizing spans last with
  | case1 => simp at h
  | case2 head start depth index hi line hl ho ih =>
    have := ih (by omega) h
    exact ⟨by omega, this.2⟩
  | case3 head start depth index hi line hl ho hd ih =>
    have := ih (by omega) h
    exact ⟨by omega, this.2⟩
  | case4 head start depth index hi line hl ho hd hk ih =>
    obtain ⟨⟨others, last⟩, hr, he⟩ := map_eq_ok h
    simp only [Prod.mk.injEq] at he
    obtain ⟨rfl, rfl⟩ := he
    obtain ⟨hle, hlt, hb⟩ := ih (by omega) hr
    refine ⟨by omega, hlt, ?_⟩
    rw [List.forall_mem_cons]
    refine ⟨⟨Nat.le_refl _, Nat.le_of_succ_le hle⟩, fun s hs => ?_⟩
    have := hb s hs
    omega
  | case5 head start depth index hi line hl ho hd hk he =>
    simp only [Except.ok.injEq, Prod.mk.injEq] at h
    obtain ⟨rfl, rfl⟩ := h
    simp; omega
  | case6 => simp at h
  | case7 head start depth index hi line hl ho hd hk he hc ih =>
    have := ih (by omega) h
    exact ⟨by omega, this.2⟩
  | case8 => simp at h

theorem spans_bounds {lines : List Line} {opener : Line} {pc stop : Nat} {found : List Span × Nat}
    (h : spans lines opener pc stop = .ok found) :
    pc < found.2 ∧ ∀ s ∈ found.1, pc < s.start ∧ s.stop < stop := by
  obtain ⟨hle, hlt, hs⟩ := spansFrom_bounds (Nat.le_refl _) h
  exact ⟨hle, fun s hm => ⟨(hs s hm).1, Nat.lt_of_le_of_lt (hs s hm).2 hlt⟩⟩

/-- What a scan of the branches finds: the branches, and the lines after the conditional. -/
def found (lines : List Line) (stop : Nat) (result : List Span × Nat) : List Branch × List Line :=
  (result.1.map (Span.branch lines), slice lines (result.2 + 1) stop)

theorem spansFrom_eq (lines : List Line) (stop : Nat) (opener head : Line)
    {start index : Nat} (depth : Nat) (hs : start ≤ index) :
    (spansFrom lines stop opener head start depth index).map (found lines stop) =
      (scanBranches opener depth (slice lines index stop)).map fun c =>
        (⟨head, slice lines start index ++ c.body⟩ :: c.others, c.after) := by
  induction hn : stop - index generalizing depth index head start with
  | zero =>
    have hi : stop ≤ index := by omega
    rw [spansFrom, if_neg (Nat.not_lt.mpr hi), slice_of_le lines hi, scanBranches]
    rfl
  | succ n ih =>
    have hi : index < stop := by omega
    rw [spansFrom, if_pos hi]
    cases hl : lines[index]? with
    | none => simp [slice_of_none hl, scanBranches, Except.map]
    | some line =>
      -- the line at `index` goes over from the lines to come to the current body
      have pushed : ∀ depth,
          (spansFrom lines stop opener head start depth (index + 1)).map (found lines stop) =
            ((scanBranches opener depth (slice lines (index + 1) stop)).map
              (Conditional.push line)).map fun c =>
                (⟨head, slice lines start index ++ c.body⟩ :: c.others, c.after) := by
        intro depth
        rw [ih head depth (by omega) (by omega), slice_succ hs hl]
        cases scanBranches opener depth (slice lines (index + 1) stop) with
        | error e => rfl
        | ok c => simp [Except.map, Conditional.push]
      rw [slice_of_some hi hl]
      simp only [scanBranches]
      cases ho : line.isOpener with
      | true => simp only [if_true, pushed]
      | false =>
        simp only [Bool.false_eq_true, if_false]
        cases depth with
        | succ depth =>
          simp only [Nat.zero_lt_succ, if_true, Nat.add_sub_cancel, pushed]
        | zero =>
          simp only [Nat.lt_irrefl, if_false]
          split
          · have next := @ih line (index + 1) (index + 1) 0 (Nat.le_refl _) (by omega)
            rw [slice_of_le lines (Nat.le_refl _)] at next
            revert next
            cases spansFrom lines stop opener line (index + 1) 0 (index + 1) <;>
              cases scanBranches opener 0 (slice lines (index + 1) stop) <;>
              simp_all [Except.map, found, Span.branch]
          · split
            · simp [Except.map, found, Span.branch]
            · split
              · rfl
              · exact pushed 0

/-! Execution -/

/-- The calls that look at lines: a step, a scan for the end of a block, and one for the branches of a
conditional. -/
inductive Call where
  | step
  | terminator
  | branches
  deriving DecidableEq, Repr

/-- What is done at each call, which is given a position and the end of its range. -/
abbrev Watch := Call → Nat → Nat → Exec Unit

section Engine

variable (watch : Watch) (d : Dispatcher) (lines : List Line)

def findTerminator (line : Line) (pc stop : Nat) : Exec { last // pc ≤ last ∧ last < stop } := do
  watch .terminator pc stop
  match h : terminator? lines pc stop with
  | none => throw (.fault (StructureError.noTerminator line).fault)
  | some last => return ⟨last, terminatorFrom_bounds h⟩

def findBranches (line : Line) (pc stop : Nat) : Exec { found : List Span × Nat //
    pc < found.2 ∧ ∀ s ∈ found.1, pc < s.start ∧ s.stop < stop } := do
  watch .branches pc stop
  match h : spans lines line pc stop with
  | .error e => throw (.fault e.fault)
  | .ok found => return ⟨found, spans_bounds h⟩

/-- Runs the line at `pc`, with all of its block if it opens one, and gives the position after it. The
blocks inside it lie strictly between `pc` and `stop`. -/
def step (line : Line) (pc stop : Nat)
    (block : (start finish : Nat) → pc < start → finish < stop → Exec Unit) :
    Exec { next // pc < next } := do
  watch .step pc stop
  match line.kind with
  | .ifHead =>
    let found ← findBranches watch lines line pc stop
    Execution.conditional d (found.val.1.attach.map fun s =>
      (s.val.head, block s.val.start s.val.stop (found.property.2 s.val s.property).1
        (found.property.2 s.val s.property).2))
    return ⟨found.val.2 + 1, Nat.lt_succ_of_lt found.property.1⟩
  | .whileHead =>
    let last ← findTerminator watch lines line pc stop
    Execution.whileLoop d line (block (pc + 1) last (Nat.lt_succ_self _) last.property.2)
    return ⟨last + 1, Nat.lt_succ_of_le last.property.1⟩
  | .forHead =>
    let last ← findTerminator watch lines line pc stop
    Execution.forLoop d line (block (pc + 1) last (Nat.lt_succ_self _) last.property.2)
    return ⟨last + 1, Nat.lt_succ_of_le last.property.1⟩
  | _ =>
    Execution.statement d line
    return ⟨pc + 1, Nat.lt_succ_self _⟩

/-- Runs the lines from `pc` up to `stop`. -/
def block (pc stop : Nat) : Exec Unit :=
  if pc < stop then
    match lines[pc]? with
    | none => return
    | some line => do
      Exec.checkExit
      let next ← step watch d lines line pc stop fun start finish _ _ => block start finish
      have _hlt := next.property
      block next stop
  else return
termination_by stop - pc

/-- The position after the line at `pc` and all of its block. -/
def resumption (line : Line) (pc stop : Nat) : Exec { next // pc < next } := do
  if line.isOpener then
    let last ← findTerminator watch lines line pc stop
    return ⟨last + 1, Nat.lt_succ_of_le last.property.1⟩
  else return ⟨pc + 1, Nat.lt_succ_self _⟩

/-- Reports a misplaced request, and goes on after it. -/
def passOver {α : Type} (after : α) : Interrupt → Exec α
  | .breakLoop => do
    Execution.outsideLoop "BREAK" "break"
    return after
  | .continueLoop => do
    Execution.outsideLoop "CONTINUE" "continue"
    return after
  | e => throw e

/-- Runs a program from `pc` on. A line that is left by a misplaced request is passed over, with all of
its block. -/
def program (pc : Nat) : Exec Unit :=
  match h : lines[pc]? with
  | none => return
  | some line => do
    Exec.checkExit
    let after ← resumption watch lines line pc lines.length
    let next ← tryCatch
      (step watch d lines line pc lines.length fun start finish _ _ =>
        block watch d lines start finish) (passOver after)
    have _hlt := next.property
    have _hin := (List.getElem?_eq_some_iff.mp h).1
    program next
termination_by lines.length - pc

end Engine

/-! A run by positions is a run of the lines -/

/-- The calls that are made at a line. -/
def Call.At (line : Line) : Call → Prop
  | .step => True
  | .terminator => line.isOpener = true
  | .branches => line.kind = .ifHead

/-- The end of a conditional is the end of its block. -/
theorem terminatorFrom_of_spansFrom {lines : List Line} {stop start depth index last : Nat}
    {opener head : Line} {found : List Span}
    (h : spansFrom lines stop opener head start depth index = .ok (found, last)) :
    terminatorFrom lines stop (depth + 1) index = some last := by
  fun_induction spansFrom lines stop opener head start depth index generalizing found last with
  | case1 => simp at h
  | case2 head start depth index hi line hl ho ih =>
    rw [terminatorFrom, if_pos hi, hl]
    simpa [ho] using ih h
  | case3 head start depth index hi line hl ho hd ih =>
    have next := ih h
    rw [terminatorFrom, if_pos hi, hl]
    cases hc : line.isCloser with
    | false => simpa [ho, hc] using next
    | true =>
      have hd' : ((depth - 1 : Nat) : Int) + 1 = depth := by omega
      have hne : ¬ ((depth : Int) = 0) := by omega
      rw [dif_pos hc, hd'] at next
      simp only [ho, hc, hne, Bool.false_eq_true, if_false, if_true, Int.add_sub_cancel, next]
  | case4 head start depth index hi line hl ho hd hk ih =>
    obtain ⟨⟨others, last⟩, hr, he⟩ := map_eq_ok h
    simp only [Prod.mk.injEq] at he
    obtain ⟨-, rfl⟩ := he
    have hc : line.isCloser = false := by
      rcases hk with hk | hk <;> rw [isCloser_of_kind hk] <;> rfl
    obtain rfl : depth = 0 := by omega
    rw [terminatorFrom, if_pos hi, hl]
    simpa [ho, hc] using ih hr
  | case5 head start depth index hi line hl ho hd hk he =>
    simp only [Except.ok.injEq, Prod.mk.injEq] at h
    obtain ⟨-, rfl⟩ := h
    have hc : line.isCloser = true := isCloser_of_kind he
    obtain rfl : depth = 0 := by omega
    rw [terminatorFrom, if_pos hi, hl]
    simp [ho, hc]
  | case6 => simp at h
  | case7 head start depth index hi line hl ho hd hk he hc ih =>
    obtain rfl : depth = 0 := by omega
    rw [terminatorFrom, if_pos hi, hl]
    simpa [ho, hc] using ih h
  | case8 => simp at h

theorem terminator?_of_spans {lines : List Line} {opener : Line} {pc stop last : Nat}
    {ss : List Span} (hpc : pc < stop) (hl : lines[pc]? = some opener) (ho : opener.isOpener = true)
    (h : spans lines opener pc stop = .ok (ss, last)) : terminator? lines pc stop = some last := by
  rw [terminator?, terminatorFrom, if_pos hpc, hl]
  simpa [ho] using terminatorFrom_of_spansFrom h

theorem map_eq_error {ε α β : Type} {f : α → β} {x : Except ε α} {e : ε} (h : x.map f = .error e) :
    x = .error e := by
  cases x with
  | error e' => simpa [Except.map] using h
  | ok a => simp [Except.map] at h

@[simp] theorem throw_bind {α β : Type} (e : Interrupt) (f : α → Exec β) :
    (throw e : Exec α) >>= f = throw e := rfl

section Agreement

variable {watch : Watch} {d : Dispatcher} {lines : List Line} {line : Line} {pc stop : Nat}

theorem findTerminator_eq {last : Nat} (hw : watch .terminator pc stop = pure ())
    (h : terminator? lines pc stop = some last) :
    findTerminator watch lines line pc stop = pure ⟨last, terminatorFrom_bounds h⟩ := by
  unfold findTerminator
  rw [hw, pure_bind]
  split
  · rename_i hn
    rw [hn] at h
    cases h
  · rename_i last' hs
    rw [hs] at h
    cases h
    rfl

theorem findTerminator_none (hw : watch .terminator pc stop = pure ())
    (h : terminator? lines pc stop = none) :
    findTerminator watch lines line pc stop =
      throw (.fault (StructureError.noTerminator line).fault) := by
  unfold findTerminator
  rw [hw, pure_bind]
  split
  · rfl
  · rename_i last hs
    rw [hs] at h
    cases h

theorem findBranches_eq {found : List Span × Nat} (hw : watch .branches pc stop = pure ())
    (h : spans lines line pc stop = .ok found) :
    findBranches watch lines line pc stop = pure ⟨found, spans_bounds h⟩ := by
  unfold findBranches
  rw [hw, pure_bind]
  split
  · rename_i hs
    rw [hs] at h
    cases h
  · rename_i hs
    rw [hs] at h
    cases h
    rfl

theorem findBranches_error {e : StructureError} (hw : watch .branches pc stop = pure ())
    (h : spans lines line pc stop = .error e) :
    findBranches watch lines line pc stop = throw (.fault e.fault) := by
  unfold findBranches
  rw [hw, pure_bind]
  split
  · rename_i hs
    rw [hs] at h
    cases h
    rfl
  · rename_i hs
    rw [hs] at h
    cases h

theorem tryCatch_passOver {α : Type} (action : Exec Unit) (after : α) :
    tryCatch (do action; return after) (passOver after) = (do
      Execution.unlooped action
      return after) := by
  apply Exec.ext
  intro c
  rw [Exec.runFrom_tryCatch, Exec.runFrom_bind, Exec.runFrom_bind, Tree.runFrom_unlooped]
  rcases action.runFrom c with ⟨e | _, c⟩
  · cases e <;> rfl
  · rfl

theorem resumption_throw (hw : ∀ call : Call, call.At line → watch call pc stop = pure ())
    (ho : line.isOpener = true) (h : terminator? lines pc stop = none) :
    resumption watch lines line pc stop =
      throw (.fault (StructureError.noTerminator line).fault) := by
  rw [resumption, if_pos ho, findTerminator_none (hw .terminator ho) h, throw_bind]

theorem resumption_eq {last : Nat} (hw : ∀ call : Call, call.At line → watch call pc stop = pure ())
    (ho : line.isOpener = true) (h : terminator? lines pc stop = some last) :
    resumption watch lines line pc stop =
      pure ⟨last + 1, Nat.lt_succ_of_le (terminatorFrom_bounds h).1⟩ := by
  rw [resumption, if_pos ho, findTerminator_eq (hw .terminator ho) h, pure_bind]

/-- The block that a line opens, as positions. -/
theorem terminator?_of_splitBlock {body after : List Line} (hpc : pc < stop)
    (hl : lines[pc]? = some line) (ho : line.isOpener = true)
    (h : splitBlock 0 (slice lines (pc + 1) stop) = some (body, after)) :
    ∃ last, terminator? lines pc stop = some last ∧ slice lines (pc + 1) last = body ∧
      slice lines (last + 1) stop = after := by
  obtain ⟨closer, -, ht⟩ := splitBlock_eq h
  obtain ⟨-, hbody, -, hafter⟩ := slice_split ht
  refine ⟨pc + 1 + body.length, ?_, hbody, hafter⟩
  rw [terminator?_eq hpc hl ho, h, Option.map_some]

theorem resumption_of_closed (hpc : pc < stop) (hl : lines[pc]? = some line)
    (hw : ∀ call : Call, call.At line → watch call pc stop = pure ())
    (h : (line.isOpener && (splitBlock 0 (slice lines (pc + 1) stop)).isNone) = false) :
    ∃ after, resumption watch lines line pc stop = pure after := by
  cases ho : line.isOpener with
  | false => exact ⟨⟨pc + 1, Nat.lt_succ_self _⟩, by simp [resumption, ho]⟩
  | true =>
    cases hs : splitBlock 0 (slice lines (pc + 1) stop) with
    | none => simp [ho, hs] at h
    | some parts =>
      obtain ⟨last, ht, -⟩ := terminator?_of_splitBlock hpc hl ho hs
      exact ⟨_, resumption_eq hw ho ht⟩

/-- The branches of a conditional, as positions. -/
theorem spans_of_scanBranches {opener : Line} {c : Conditional}
    (h : scanBranches opener 0 (slice lines (pc + 1) stop) = .ok c) :
    ∃ ss last, spans lines opener pc stop = .ok (ss, last) ∧
      ss.map (Span.branch lines) = ⟨opener, c.body⟩ :: c.others ∧
      slice lines (last + 1) stop = c.after := by
  have hs := spansFrom_eq lines stop opener opener 0 (Nat.le_refl (pc + 1))
  rw [h, slice_of_le lines (Nat.le_refl _)] at hs
  obtain ⟨⟨ss, last⟩, hok, hf⟩ := map_eq_ok hs
  simp only [found, List.nil_append, Prod.mk.injEq] at hf
  exact ⟨ss, last, hok, hf.1, hf.2⟩

theorem spans_error {opener : Line} {e : StructureError}
    (h : scanBranches opener 0 (slice lines (pc + 1) stop) = .error e) :
    spans lines opener pc stop = .error e := by
  have hs := spansFrom_eq lines stop opener opener 0 (Nat.le_refl (pc + 1))
  rw [h] at hs
  rw [spans]
  cases he : spansFrom lines stop opener opener (pc + 1) 0 (pc + 1) with
  | ok r => simp [he, Except.map] at hs
  | error e' => simpa [he, Except.map] using hs

/-- The body of a loop, found by position. -/
theorem positions_of_readLoop {body after : List Line} (hpc : pc < stop)
    (hl : lines[pc]? = some line) (ho : line.isOpener = true)
    (hw : ∀ call : Call, call.At line → watch call pc stop = pure ())
    (h : Construct.readLoop line (slice lines (pc + 1) stop) = .ok (body, after)) :
    ∃ last : { last // pc ≤ last ∧ last < stop },
      findTerminator watch lines line pc stop = pure last ∧
      resumption watch lines line pc stop =
        pure ⟨last + 1, Nat.lt_succ_of_le last.property.1⟩ ∧
      slice lines (pc + 1) last = body ∧ slice lines (last + 1) stop = after := by
  obtain ⟨last, ht, hbody, hafter⟩ := terminator?_of_splitBlock hpc hl ho (readLoop_eq h)
  exact ⟨⟨last, terminatorFrom_bounds ht⟩, findTerminator_eq (hw .terminator ho) ht,
    resumption_eq hw ho ht, hbody, hafter⟩

/-- The branches of a conditional, found by position; its end is where its block ends. -/
theorem positions_of_scanBranches {c : Conditional} (hpc : pc < stop) (hl : lines[pc]? = some line)
    (hk : line.kind = .ifHead) (hw : ∀ call : Call, call.At line → watch call pc stop = pure ())
    (h : scanBranches line 0 (slice lines (pc + 1) stop) = .ok c) :
    ∃ found : { found : List Span × Nat //
        pc < found.2 ∧ ∀ s ∈ found.1, pc < s.start ∧ s.stop < stop },
      findBranches watch lines line pc stop = pure found ∧
      resumption watch lines line pc stop =
        pure ⟨found.val.2 + 1, Nat.lt_succ_of_lt found.property.1⟩ ∧
      found.val.1.map (Span.branch lines) = ⟨line, c.body⟩ :: c.others ∧
      slice lines (found.val.2 + 1) stop = c.after := by
  have ho : line.isOpener = true := isOpener_of_kind hk
  obtain ⟨ss, last, hok, hss, hafter⟩ := spans_of_scanBranches h
  have ht := terminator?_of_spans hpc hl ho hok
  exact ⟨⟨(ss, last), spans_bounds hok⟩, findBranches_eq (hw .branches hk) hok,
    resumption_eq hw ho ht, hss, hafter⟩

/-- Where a construct can be read, the step at its first line runs it, and goes on right after it. -/
theorem step_of_read {c : Construct} {after : List Line} (hpc : pc < stop)
    (hl : lines[pc]? = some line) (hw : ∀ call : Call, call.At line → watch call pc stop = pure ())
    (hr : Construct.read line (slice lines (pc + 1) stop) = .ok (c, after))
    (inner : List Line → Exec Unit)
    (block : (start finish : Nat) → pc < start → finish < stop → Exec Unit)
    (hb : ∀ start finish h₁ h₂, slice lines start finish ∈ c.bodies →
      block start finish h₁ h₂ = inner (slice lines start finish)) :
    ∃ next : { next // pc < next }, slice lines next stop = after ∧
      resumption watch lines line pc stop = pure next ∧
      step watch d lines line pc stop block = (do
        Execution.construct d c fun body _ => inner body
        return next) := by
  have hw₀ : watch .step pc stop = pure () := hw .step trivial
  unfold Construct.read at hr
  split at hr
  · rename_i hk
    obtain ⟨cond, hs, he⟩ := map_eq_ok hr
    simp only [Prod.mk.injEq] at he
    obtain ⟨rfl, rfl⟩ := he
    obtain ⟨found, hfind, hres, hss, hafter⟩ := positions_of_scanBranches hpc hl hk hw hs
    refine ⟨_, hafter, hres, ?_⟩
    simp only [step, hw₀, hk, pure_bind, hfind]
    rw [Execution.construct_conditional, ← hss, List.map_map]
    congr 2
    -- the spans carry the proof that they lie in the list, which the list of branches does not need
    refine Eq.trans (List.map_congr_left ?_) List.attach_map_val
    rintro ⟨s, hm⟩ -
    have hin : slice lines s.start s.stop ∈
        (Construct.conditional (⟨line, cond.body⟩ :: cond.others)).bodies := by
      rw [← hss, Construct.bodies, List.map_map]
      exact List.mem_map_of_mem hm
    simp only [hb s.start s.stop _ _ hin, Function.comp_apply, Span.branch]
  · rename_i hk
    obtain ⟨⟨body, after⟩, hs, he⟩ := map_eq_ok hr
    simp only [Prod.mk.injEq] at he
    obtain ⟨rfl, rfl⟩ := he
    obtain ⟨last, hfind, hres, hbody, hafter⟩ :=
      positions_of_readLoop hpc hl (isOpener_of_kind hk) hw hs
    refine ⟨_, hafter, hres, ?_⟩
    have hin := hb (pc + 1) last (Nat.lt_succ_self _) last.property.2
      (by simp [Construct.bodies, hbody])
    simp only [step, hw₀, hk, pure_bind, hfind]
    rw [hin, hbody, Execution.construct]
  · rename_i hk
    obtain ⟨⟨body, after⟩, hs, he⟩ := map_eq_ok hr
    simp only [Prod.mk.injEq] at he
    obtain ⟨rfl, rfl⟩ := he
    obtain ⟨last, hfind, hres, hbody, hafter⟩ :=
      positions_of_readLoop hpc hl (isOpener_of_kind hk) hw hs
    refine ⟨_, hafter, hres, ?_⟩
    have hin := hb (pc + 1) last (Nat.lt_succ_self _) last.property.2
      (by simp [Construct.bodies, hbody])
    simp only [step, hw₀, hk, pure_bind, hfind]
    rw [hin, hbody, Execution.construct]
  · rename_i hif hwhile hfor
    simp only [Except.ok.injEq, Prod.mk.injEq] at hr
    obtain ⟨rfl, rfl⟩ := hr
    have ho : line.isOpener = false := by
      unfold Line.isOpener
      cases hk : line.kind <;> simp_all [LineKind.isOpener]
    refine ⟨⟨pc + 1, Nat.lt_succ_self _⟩, rfl, ?_, ?_⟩
    · simp [resumption, ho]
    · rw [step, hw₀, pure_bind]
      split <;> first | contradiction | rfl

theorem step_of_error {e : StructureError} (hpc : pc < stop) (hl : lines[pc]? = some line)
    (hw : ∀ call : Call, call.At line → watch call pc stop = pure ())
    (hr : Construct.read line (slice lines (pc + 1) stop) = .error e)
    (block : (start finish : Nat) → pc < start → finish < stop → Exec Unit) :
    step watch d lines line pc stop block = throw (.fault e.fault) := by
  have hw₀ : watch .step pc stop = pure () := hw .step trivial
  have loop : line.isOpener = true → Construct.readLoop line (slice lines (pc + 1) stop) = .error e →
      findTerminator watch lines line pc stop = throw (.fault e.fault) := by
    intro ho hs
    unfold Construct.readLoop at hs
    split at hs
    · rename_i hn
      cases hs
      apply findTerminator_none (hw .terminator ho)
      rw [terminator?_eq hpc hl ho, hn, Option.map_none]
    · cases hs
  unfold Construct.read at hr
  split at hr
  · rename_i hk
    have hs := spans_error (map_eq_error hr)
    simp only [step, hw₀, hk, pure_bind, findBranches_error (hw .branches hk) hs, throw_bind]
  · rename_i hk
    simp only [step, hw₀, hk, pure_bind, loop (isOpener_of_kind hk) (map_eq_error hr), throw_bind]
  · rename_i hk
    simp only [step, hw₀, hk, pure_bind, loop (isOpener_of_kind hk) (map_eq_error hr), throw_bind]
  · cases hr

/-- What a run gets to from lines with the property has it too. -/
def Hereditary (P : List Line → Prop) : Prop :=
  ∀ (line : Line) (rest : List Line) (c : Construct) (after : List Line), P (line :: rest) →
    Construct.read line rest = .ok (c, after) → (∀ body ∈ c.bodies, P body) ∧ P after

/-- Does nothing at the calls that are made in ranges with the property. -/
def Watch.SilentOn (watch : Watch) (lines : List Line) (P : List Line → Prop) : Prop :=
  ∀ (pc stop : Nat) (line : Line), pc < stop → lines[pc]? = some line → P (slice lines pc stop) →
    ∀ call : Call, call.At line → watch call pc stop = pure ()

theorem block_eq {P : List Line → Prop} (hp : Hereditary P) (hw : watch.SilentOn lines P)
    (d : Dispatcher) (pc stop : Nat) (h : P (slice lines pc stop)) :
    block watch d lines pc stop = Execution.block d (slice lines pc stop) := by
  induction hn : stop - pc using Nat.strong_induction_on generalizing pc stop with
  | _ n ih =>
    by_cases hpc : pc < stop
    · cases hl : lines[pc]? with
      | none =>
        rw [block, if_pos hpc, hl, slice_of_none hl, Execution.block]
      | some line =>
        have hcalls := hw pc stop line hpc hl h
        rw [block, if_pos hpc, hl]
        rw [slice_of_some hpc hl] at h ⊢
        cases hr : Construct.read line (slice lines (pc + 1) stop) with
        | error e =>
          rw [Execution.block_cons, hr]
          simp only [step_of_error hpc hl hcalls hr, throw_bind]
        | ok r =>
          obtain ⟨c, after⟩ := r
          obtain ⟨hbodies, hafter⟩ := hp line _ c after h hr
          obtain ⟨next, rfl, -, hstep⟩ := step_of_read (d := d) hpc hl hcalls hr
            (Execution.block d) (fun start finish _ _ => block watch d lines start finish)
            fun start finish h₁ h₂ hm => ih _ (by omega) start finish (hbodies _ hm) rfl
          have := next.property
          rw [Execution.block_cons, hr]
          simp only [hstep, bind_assoc, pure_bind, ih (stop - next) (by omega) next stop hafter rfl]
    · rw [block, if_neg hpc, slice_of_le lines (Nat.le_of_not_lt hpc), Execution.block]

theorem program_of_none (h : lines[pc]? = none) : program watch d lines pc = pure () := by
  rw [program]
  split
  · rfl
  · rename_i line hs
    rw [h] at hs
    cases hs

theorem program_of_some (h : lines[pc]? = some line) :
    program watch d lines pc = (do
      Exec.checkExit
      let after ← resumption watch lines line pc lines.length
      let next ← tryCatch
        (step watch d lines line pc lines.length fun start finish _ _ =>
          block watch d lines start finish) (passOver after)
      program watch d lines next) := by
  rw [program]
  split
  · rename_i hs
    rw [h] at hs
    cases hs
  · rename_i line' hs
    rw [h] at hs
    cases hs
    rfl

/-- Where nothing it meets is watched, a run by positions from `pc` on is a run of the lines from there
on: by induction on how many lines are left. -/
theorem program_eq {P : List Line → Prop} (hp : Hereditary P) (hw : watch.SilentOn lines P)
    (d : Dispatcher) (pc : Nat) (h : P (lines.drop pc)) :
    program watch d lines pc = Execution.program d (lines.drop pc) := by
  induction hn : lines.length - pc using Nat.strong_induction_on generalizing pc with
  | _ n ih =>
    cases hl : lines[pc]? with
    | none => rw [program_of_none hl, ← slice_length, slice_of_none hl, Execution.program]
    | some line =>
      have hpc : pc < lines.length := (List.getElem?_eq_some_iff.mp hl).1
      have hcalls := hw pc lines.length line hpc hl (by rwa [slice_length])
      have hdrop : lines.drop pc = line :: slice lines (pc + 1) lines.length := by
        rw [← slice_length, slice_of_some hpc hl]
      rw [hdrop] at h ⊢
      rw [program_of_some hl, Execution.program_cons]
      congr 1
      funext _
      cases hu : line.isOpener && (splitBlock 0 (slice lines (pc + 1) lines.length)).isNone with
      | true =>
        simp only [Bool.and_eq_true, Option.isNone_iff_eq_none] at hu
        have ht : terminator? lines pc lines.length = none := by
          rw [terminator?_eq hpc hl hu.1, hu.2, Option.map_none]
        rw [resumption_throw hcalls hu.1 ht, throw_bind, if_pos rfl]
      | false =>
        simp only [Bool.false_eq_true, if_false]
        cases hr : Construct.read line (slice lines (pc + 1) lines.length) with
        | error e =>
          -- the end of the block is found, but not all of its branches
          obtain ⟨after, hres⟩ := resumption_of_closed hpc hl hcalls hu
          simp only [hres, pure_bind, step_of_error hpc hl hcalls hr]
          rfl
        | ok r =>
          obtain ⟨c, after⟩ := r
          obtain ⟨hbodies, hafter⟩ := hp line _ c after h hr
          obtain ⟨next, rfl, hres, hstep⟩ := step_of_read (d := d) hpc hl hcalls hr
            (Execution.block d) (fun start finish _ _ => block watch d lines start finish)
            fun start finish h₁ h₂ hm => block_eq hp hw d start finish (hbodies _ hm)
          have := next.property
          rw [slice_length] at hafter ⊢
          simp only [hres, hstep, pure_bind, tryCatch_passOver, bind_assoc,
            ih (lines.length - next) (by omega) next hafter rfl]

end Agreement

end SigilScript.Counter
