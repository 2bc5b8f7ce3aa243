import SigilScript.Proofs.BlockGrammar

/-!
Every line that opens or ends a block is accounted for, however broken a source is. A directive that may not stand at
its place is reported and leaves the open blocks alone, so that each opener is ended, or still open at the end, and each
end has ended a block or was refused. The open blocks keep the order of their lines; from this the order of the faults
follows.
-/
namespace SigilScript.Validation

/-- The directives that open a block. -/
def blockNames : List Text := ["if", "while", "for"]

/-- The directives that end one. -/
def endNames : List Text := ["endif", "endwhile", "endfor"]

/-- A line that opens a block, with a bracket behind the name. -/
def opensBlock (raw : Text) : Bool := (head? raw.strip).any fun head => head.2 && blockNames.contains head.1

/-- A line that ends a block, with or without a bracket. -/
def endsBlock (raw : Text) : Bool := (head? raw.strip).any fun head => endNames.contains head.1

namespace Fault

/-- A block that was never ended. -/
def isUnclosed : Fault → Bool
  | .unclosed _ => true
  | _ => false

/-- The end of a block, with none open or another one. -/
def isRefusedEnd : Fault → Bool
  | .unmatched _ | .mismatched _ _ => true
  | _ => false

/-- A fault that concerns a whole block. -/
def isOfBlock (f : Fault) : Bool := f.isUnclosed || f.isRefusedEnd

end Fault

/-! Names and kinds -/

/-- The names that matter to the blocks. -/
def knownNames : List Text := "elseif" :: "else" :: (blockNames ++ endNames)

theorem ofDirective_of_unknown {name : Text} (h : name ∉ knownNames) (bracketed : Bool) :
    LineKind.ofDirective name bracketed = .directive := by
  simp only [knownNames, blockNames, endNames, List.cons_append, List.nil_append, List.mem_cons, List.not_mem_nil,
    or_false, not_or] at h
  simp [LineKind.ofDirective, LineKind.ofClosing?, LineKind.ofOpening?, h]

/-- What holds of every known name, and of all others, which are plain directives. -/
theorem ofDirective_cases {motive : Text → Bool → LineKind → Prop}
    (known : ∀ name ∈ knownNames, ∀ bracketed, motive name bracketed (.ofDirective name bracketed))
    (other : ∀ name bracketed, name ∉ knownNames → motive name bracketed .directive) (name : Text) (bracketed : Bool) :
    motive name bracketed (.ofDirective name bracketed) := by
  by_cases h : name ∈ knownNames
  · exact known name h bracketed
  · rw [ofDirective_of_unknown h]
    exact other name bracketed h

theorem isOpener_ofDirective (name : Text) (bracketed : Bool) :
    (LineKind.ofDirective name bracketed).isOpener = (bracketed && blockNames.contains name) := by
  refine ofDirective_cases
    (motive := fun name bracketed kind => kind.isOpener = (bracketed && blockNames.contains name))
    (by decide) (fun name bracketed h => ?_) name bracketed
  have hname : name ∉ blockNames := fun hname =>
    h (List.mem_cons_of_mem _ (List.mem_cons_of_mem _ (List.mem_append_left _ hname)))
  rw [List.contains_eq_mem, decide_eq_false hname, Bool.and_false]
  rfl

theorem isCloser_ofDirective (name : Text) (bracketed : Bool) :
    (LineKind.ofDirective name bracketed).isCloser = endNames.contains name := by
  refine ofDirective_cases (motive := fun name _ kind => kind.isCloser = endNames.contains name)
    (by decide) (fun name bracketed h => ?_) name bracketed
  have hname : name ∉ endNames := fun hname =>
    h (List.mem_cons_of_mem _ (List.mem_cons_of_mem _ (List.mem_append_right _ hname)))
  rw [List.contains_eq_mem, decide_eq_false hname]
  rfl

/-- The kind of an opener tells its name. -/
theorem eq_openerName {name : Text} {bracketed : Bool} (h : (LineKind.ofDirective name bracketed).isOpener = true) :
    name = openerName (.ofDirective name bracketed) ∧ bracketed = true := by
  revert h
  refine ofDirective_cases
    (motive := fun name bracketed kind => kind.isOpener = true → name = openerName kind ∧ bracketed = true)
    (by decide) (fun name bracketed _ h => ?_) name bracketed
  cases h

/-! One directive -/

/-- What a directive of a kind can do to the open blocks, and the fault that it can have. -/
inductive Enters (number : Nat) (kind : LineKind) : List OpenBlock → List OpenBlock → Option Fault → Prop
  | opened {stack : List OpenBlock} (hkind : kind.isOpener = true) :
      Enters number kind stack (⟨kind, number, false⟩ :: stack) none
  | ended {top : OpenBlock} {rest : List OpenBlock} (hkind : kind.isCloser = true) :
      Enters number kind (top :: rest) rest none
  | refused {stack : List OpenBlock} {fault : Fault} (hkind : kind.isCloser = true)
      (hfault : fault.isRefusedEnd = true) : Enters number kind stack stack (some fault)
  | kept {stack : List OpenBlock} {fault : Option Fault} (hopener : kind.isOpener = false)
      (hcloser : kind.isCloser = false) (hfault : fault.any Fault.isOfBlock = false) :
      Enters number kind stack stack fault
  | branched {top : OpenBlock} {rest : List OpenBlock} {seen : Bool} {fault : Option Fault}
      (hopener : kind.isOpener = false) (hcloser : kind.isCloser = false) (hfault : fault.any Fault.isOfBlock = false) :
      Enters number kind (top :: rest) ({ top with seenElse := seen } :: rest) fault

theorem enters_enter (number : Nat) (name : Text) (bracketed : Bool) (stack : List OpenBlock) :
    Enters number (.ofDirective name bracketed) stack (enter number name bracketed stack).1
      (enter number name bracketed stack).2 := by
  generalize hresult : enter number name bracketed stack = result
  rw [enter] at hresult
  split at hresult
  · -- the bracket is missing: the name could open something, so that it ends nothing
    rename_i hmissing
    cases hresult
    obtain ⟨hopening, hbracketed⟩ : name ∈ openingNames ∧ bracketed = false := by
      rw [Bool.and_eq_true, Option.isSome_iff_ne_none, ne_eq, ofOpening?_eq_none_iff, not_not,
        Bool.not_eq_true'] at hmissing
      exact hmissing
    have hend : name ∉ endNames := (by decide : ∀ name ∈ openingNames, name ∉ endNames) name hopening
    refine .kept ?_ ?_ rfl
    · rw [isOpener_ofDirective, hbracketed, Bool.false_and]
    · rw [isCloser_ofDirective, List.contains_eq_mem, decide_eq_false hend]
  · dsimp only at hresult
    generalize LineKind.ofDirective name bracketed = kind at hresult ⊢
    by_cases hopener : kind.isOpener = true
    · rw [if_pos hopener] at hresult
      cases hresult
      exact .opened hopener
    by_cases hcloser : kind.isCloser = true
    · rw [if_neg hopener, if_pos hcloser] at hresult
      cases stack with
      | nil =>
        cases hresult
        exact .refused hcloser rfl
      | cons top rest =>
        dsimp only at hresult
        split at hresult
        · cases hresult
          exact .ended hcloser
        · cases hresult
          exact .refused hcloser rfl
    rw [if_neg hopener, if_neg hcloser] at hresult
    rw [Bool.not_eq_true] at hopener hcloser
    split at hresult
    · cases stack with
      | nil =>
        cases hresult
        exact .kept hopener hcloser rfl
      | cons top rest =>
        dsimp only at hresult
        split at hresult
        · -- the top block is marked even when its `else` was not the first one
          cases hresult
          refine .branched hopener hcloser ?_
          split
          · split <;> rfl
          · rfl
        · cases hresult
          exact .kept hopener hcloser rfl
    · cases hresult
      exact .kept hopener hcloser rfl

theorem isOpener_of_isCloser {kind : LineKind} (h : kind.isCloser = true) : kind.isOpener = false := by
  revert h
  cases kind <;> decide

theorem isCloser_of_isOpener {kind : LineKind} (h : kind.isOpener = true) : kind.isCloser = false := by
  revert h
  cases kind <;> decide

theorem openerName_mem {kind : LineKind} (h : kind.isOpener = true) : Text.ofString (openerName kind) ∈ blockNames := by
  revert h
  cases kind <;> decide

section Directive

variable {number : Nat} {kind : LineKind} {stack after : List OpenBlock} {fault : Option Fault}

theorem not_isOfBlock (h : fault.any Fault.isOfBlock = false) :
    ∀ f ∈ fault.toList, f.isUnclosed = false ∧ f.isRefusedEnd = false := by
  intro f hf
  rw [Option.mem_toList.mp hf, Option.any_some, Fault.isOfBlock, Bool.or_eq_false_iff] at h
  exact h

theorem countP_isRefusedEnd (h : fault.any Fault.isOfBlock = false) :
    fault.toList.countP Fault.isRefusedEnd = 0 :=
  List.countP_eq_zero.mpr fun f hf => Bool.eq_false_iff.mp (not_isOfBlock h f hf).2

/-- Blocks that were never ended are only reported in the end. -/
theorem Enters.not_isUnclosed (h : Enters number kind stack after fault) :
    ∀ f ∈ fault.toList, f.isUnclosed = false := by
  cases h with
  | opened => exact List.forall_mem_nil _
  | ended => exact List.forall_mem_nil _
  | @refused _ fault _ hfault =>
    refine List.forall_mem_singleton.mpr ?_
    cases fault with
    | unmatched | mismatched => rfl
    | _ => cases hfault
  | kept _ _ hfault => exact fun f hf => (not_isOfBlock hfault f hf).1
  | branched _ _ hfault => exact fun f hf => (not_isOfBlock hfault f hf).1

/-- An opener adds a block, an end takes one away or is refused, and nothing else changes their number. -/
theorem Enters.length_eq (h : Enters number kind stack after fault) :
    after.length + kind.isCloser.toNat =
      stack.length + kind.isOpener.toNat + fault.toList.countP Fault.isRefusedEnd := by
  cases h with
  | opened hkind =>
    rw [hkind, isCloser_of_isOpener hkind]
    rfl
  | ended hkind =>
    rw [hkind, isOpener_of_isCloser hkind]
    rfl
  | refused hkind hfault =>
    rw [hkind, isOpener_of_isCloser hkind, Option.toList_some, List.countP_cons_of_pos hfault]
    rfl
  | kept hopener hcloser hfault => rw [hopener, hcloser, countP_isRefusedEnd hfault, Nat.add_zero]
  | branched hopener hcloser hfault =>
    rw [hopener, hcloser, countP_isRefusedEnd hfault, Nat.add_zero, List.length_cons, List.length_cons]

end Directive

/-! The open blocks -/

/-- A block whose opener stands in its line, with a bracket. -/
structure OpenBlock.StandsIn (lines : List Text) (b : OpenBlock) : Prop where
  opener : b.kind.isOpener = true
  pos : 0 < b.line
  line : ∃ raw, lines[b.line - 1]? = some raw ∧ head? raw.strip = some (Text.ofString (openerName b.kind), true)

/-- The blocks that are open before a line, from the last one that was opened to the first. -/
structure Stacked (lines : List Text) (number : Nat) (stack : List OpenBlock) : Prop where
  descending : stack.Pairwise fun b outer => outer.line < b.line
  before : ∀ b ∈ stack, b.line < number
  stands : ∀ b ∈ stack, b.StandsIn lines

section Step

variable {lines : List Text} {number : Nat} {stack after : List OpenBlock}

theorem stacked_nil (lines : List Text) (number : Nat) : Stacked lines number [] where
  descending := .nil
  before := List.forall_mem_nil _
  stands := List.forall_mem_nil _

theorem Stacked.next (h : Stacked lines number stack) : Stacked lines (number + 1) stack where
  descending := h.descending
  before b hb := Nat.lt_succ_of_lt (h.before b hb)
  stands := h.stands

theorem Stacked.tail {top : OpenBlock} (h : Stacked lines number (top :: stack)) : Stacked lines number stack where
  descending := h.descending.tail
  before b hb := h.before b (List.mem_cons_of_mem _ hb)
  stands b hb := h.stands b (List.mem_cons_of_mem _ hb)

theorem Stacked.push {top : OpenBlock} (h : Stacked lines number stack) (hline : top.line = number)
    (htop : top.StandsIn lines) : Stacked lines (number + 1) (top :: stack) where
  descending := List.pairwise_cons.mpr ⟨fun b hb => hline ▸ h.before b hb, h.descending⟩
  before := List.forall_mem_cons.mpr ⟨hline ▸ Nat.lt_succ_self _, h.next.before⟩
  stands := List.forall_mem_cons.mpr ⟨htop, h.stands⟩

theorem Stacked.setElse {top : OpenBlock} (h : Stacked lines number (top :: stack)) (seen : Bool) :
    Stacked lines number ({ top with seenElse := seen } :: stack) where
  descending := List.pairwise_cons.mpr (List.pairwise_cons.mp h.descending)
  before := List.forall_mem_cons.mpr (List.forall_mem_cons.mp h.before)
  stands :=
    have htop := h.stands top List.mem_cons_self
    List.forall_mem_cons.mpr ⟨⟨htop.opener, htop.pos, htop.line⟩, h.tail.stands⟩

theorem Stacked.enters {kind : LineKind} {fault : Option Fault} (h : Stacked lines number stack)
    (hopener : kind.isOpener = true → OpenBlock.StandsIn lines ⟨kind, number, false⟩)
    (henters : Enters number kind stack after fault) : Stacked lines (number + 1) after := by
  cases henters with
  | opened hkind => exact h.push rfl (hopener hkind)
  | ended => exact h.tail.next
  | refused => exact h.next
  | kept => exact h.next
  | branched => exact (h.setElse _).next

end Step

/-! Lines -/

section Line

variable {lines : List Text} {number : Nat} {raw : Text} {stack : List OpenBlock}

theorem checkLine_of_none (h : head? raw.strip = none) : checkLine number raw stack = (stack, []) := by
  simp only [checkLine, h]

theorem checkLine_of_some {name : Text} {bracketed : Bool} (h : head? raw.strip = some (name, bracketed)) :
    checkLine number raw stack = ((enter number name bracketed stack).1,
      (((imbalance raw.strip).map Fault.brackets).toList ++ (enter number name bracketed stack).2.toList).map
        fun fault => ⟨number, fault, raw.strip⟩) := by
  simp only [checkLine, h]

theorem opensBlock_of_some {name : Text} {bracketed : Bool} (h : head? raw.strip = some (name, bracketed)) :
    opensBlock raw = (LineKind.ofDirective name bracketed).isOpener := by
  rw [opensBlock, h, Option.any_some, isOpener_ofDirective]

theorem endsBlock_of_some {name : Text} {bracketed : Bool} (h : head? raw.strip = some (name, bracketed)) :
    endsBlock raw = (LineKind.ofDirective name bracketed).isCloser := by
  rw [endsBlock, h, Option.any_some, isCloser_ofDirective]

/-- Brackets that are not balanced are no fault of a block. -/
theorem any_brackets (found : Option Imbalance) : (found.map Fault.brackets).any Fault.isOfBlock = false := by
  cases found <;> rfl

theorem countP_faults (number : Nat) (line : Text) (faults : List Fault) :
    (faults.map fun fault => (⟨number, fault, line⟩ : Problem)).countP (·.fault.isRefusedEnd) =
      faults.countP Fault.isRefusedEnd :=
  List.countP_map

/-- The blocks that are open after a line, by their number. -/
theorem checkLine_length (number : Nat) (raw : Text) (stack : List OpenBlock) :
    (checkLine number raw stack).1.length + (endsBlock raw).toNat =
      stack.length + (opensBlock raw).toNat + (checkLine number raw stack).2.countP (·.fault.isRefusedEnd) := by
  cases hhead : head? raw.strip with
  | none =>
    rw [checkLine_of_none hhead, opensBlock, endsBlock, hhead]
    rfl
  | some head =>
    obtain ⟨name, bracketed⟩ := head
    rw [checkLine_of_some hhead, opensBlock_of_some hhead, endsBlock_of_some hhead,
      (enters_enter number name bracketed stack).length_eq, countP_faults, List.countP_append,
      countP_isRefusedEnd (any_brackets _), Nat.zero_add]

theorem checkLine_problems (number : Nat) (raw : Text) (stack : List OpenBlock) :
    ∀ p ∈ (checkLine number raw stack).2, p.line = number ∧ p.fault.isUnclosed = false := by
  cases hhead : head? raw.strip with
  | none =>
    rw [checkLine_of_none hhead]
    exact List.forall_mem_nil _
  | some head =>
    obtain ⟨name, bracketed⟩ := head
    rw [checkLine_of_some hhead]
    refine List.forall_mem_map.mpr fun f hf => ⟨rfl, ?_⟩
    rcases List.mem_append.mp hf with hf | hf
    · exact (not_isOfBlock (any_brackets _) f hf).1
    · exact (enters_enter number name bracketed stack).not_isUnclosed f hf

theorem Stacked.checkLine (h : Stacked lines number stack) (hpos : 0 < number) (hraw : lines[number - 1]? = some raw) :
    Stacked lines (number + 1) (checkLine number raw stack).1 := by
  cases hhead : head? raw.strip with
  | none =>
    rw [checkLine_of_none hhead]
    exact h.next
  | some head =>
    obtain ⟨name, bracketed⟩ := head
    rw [checkLine_of_some hhead]
    refine h.enters (fun hopener => ⟨hopener, hpos, raw, hraw, ?_⟩) (enters_enter number name bracketed stack)
    obtain ⟨hname, hbracketed⟩ := eq_openerName hopener
    rw [hhead, ← hname, hbracketed]

end Line

/-! Sources -/

/-- The fault of a block that was never ended. -/
def OpenBlock.unclosed (b : OpenBlock) : Problem := ⟨b.line, .unclosed b, []⟩

/-- The faults of the lines from a line on, and the blocks that are left in the end. -/
structure Account (lines : List Text) (number : Nat) (stack : List OpenBlock) (raws : List Text)
    (others : List Problem) (left : List OpenBlock) : Prop where
  balance : stack.length + raws.countP opensBlock + others.countP (·.fault.isRefusedEnd) =
    left.length + raws.countP endsBlock
  closed : ∀ p ∈ others, p.fault.isUnclosed = false
  later : ∀ p ∈ others, number ≤ p.line
  ascending : others.Pairwise fun p q => p.line ≤ q.line
  stacked : Stacked lines (number + raws.length) left

theorem countP_cons_toNat {α : Type} (p : α → Bool) (a : α) (l : List α) :
    (a :: l).countP p = l.countP p + (p a).toNat := by
  rw [List.countP_cons]
  cases p a <;> rfl

/-- A line in front of others. -/
theorem Account.cons {lines : List Text} {number : Nat} {raw : Text} {stack : List OpenBlock} {raws : List Text}
    {others : List Problem} {left : List OpenBlock}
    (h : Account lines (number + 1) (checkLine number raw stack).1 raws others left) :
    Account lines number stack (raw :: raws) ((checkLine number raw stack).2 ++ others) left where
  balance := by
    have hlength := checkLine_length number raw stack
    have hbalance := h.balance
    rw [countP_cons_toNat, countP_cons_toNat, List.countP_append]
    omega
  closed := List.forall_mem_append.mpr ⟨fun p hp => (checkLine_problems number raw stack p hp).2, h.closed⟩
  later := List.forall_mem_append.mpr ⟨fun p hp => (checkLine_problems number raw stack p hp).1.ge,
    fun p hp => Nat.le_of_succ_le (h.later p hp)⟩
  ascending := by
    have hnumber := fun p hp => (checkLine_problems number raw stack p hp).1
    refine List.pairwise_append.mpr ⟨List.pairwise_of_forall_mem_list fun p hp q hq => ?_, h.ascending,
      fun p hp q hq => ?_⟩
    · rw [hnumber p hp, hnumber q hq]
    · rw [hnumber p hp]
      exact Nat.le_of_succ_le (h.later q hq)
  stacked := by
    have hstacked := h.stacked
    rwa [Nat.add_right_comm, Nat.add_assoc] at hstacked

/-- The lines of a source from a line on. The induction is on these lines; the blocks that are open before them refer to
all lines of the source. -/
theorem exists_account {lines : List Text} (k : Nat) (raws : List Text) (stack : List OpenBlock)
    (hlines : lines.drop k = raws) (h : Stacked lines (k + 1) stack) :
    ∃ others left, checkLines (k + 1) stack raws = others ++ left.map OpenBlock.unclosed ∧
      Account lines (k + 1) stack raws others left := by
  induction raws generalizing k stack with
  | nil => exact ⟨[], stack, rfl, rfl, List.forall_mem_nil _, List.forall_mem_nil _, .nil, h⟩
  | cons raw rest ih =>
    have hraw : lines[k]? = some raw := by rw [← List.head?_drop, hlines, List.head?_cons]
    have hrest : lines.drop (k + 1) = rest := by rw [← List.tail_drop, hlines, List.tail_cons]
    obtain ⟨others, left, hothers, haccount⟩ :=
      ih (k + 1) (checkLine (k + 1) raw stack).1 hrest (h.checkLine (Nat.succ_pos k) hraw)
    refine ⟨(checkLine (k + 1) raw stack).2 ++ others, left, ?_, haccount.cons⟩
    rw [checkLines, List.append_assoc, ← hothers]

/-- A fault about a block that was never ended, with the line and the directive that opened the block. -/
def Problem.NamesOpener (lines : List Text) (p : Problem) : Prop :=
  ∃ opened raw, p.fault = .unclosed opened ∧ opened.line = p.line ∧ 0 < p.line ∧ lines[p.line - 1]? = some raw ∧
    opensBlock raw = true ∧ head? raw.strip = some (Text.ofString (openerName opened.kind), true)

theorem OpenBlock.StandsIn.namesOpener {lines : List Text} {b : OpenBlock} (h : b.StandsIn lines) :
    b.unclosed.NamesOpener lines := by
  obtain ⟨raw, hraw, hhead⟩ := h.line
  refine ⟨b, raw, rfl, rfl, h.pos, hraw, ?_, hhead⟩
  rw [opensBlock, hhead, Option.any_some, Bool.true_and, List.contains_iff_mem]
  exact openerName_mem h.opener

/-- Openers that are not left open are as many as the ends that are not refused. Every block that is left open is
reported with the line of its own opener, after all other faults and from the last line to the first; the others come in
the order of the lines. -/
theorem validate_accounts (source : Text) :
    let lines := source.splitOn '\n'
    let problems := validate source
    ((lines.countP opensBlock : Int) - problems.countP (·.fault.isUnclosed) =
      lines.countP endsBlock - problems.countP (·.fault.isRefusedEnd)) ∧
    ∃ others unclosed, problems = others ++ unclosed ∧
      (∀ p ∈ others, p.fault.isUnclosed = false) ∧ others.Pairwise (fun p q => p.line ≤ q.line) ∧
      (∀ p ∈ unclosed, p.NamesOpener lines) ∧ unclosed.Pairwise fun p q => q.line < p.line := by
  intro lines problems
  obtain ⟨others, left, hproblems, haccount⟩ := exists_account 0 lines [] rfl (stacked_nil lines 1)
  have hsplit : problems = others ++ left.map OpenBlock.unclosed := hproblems
  have hunclosed : problems.countP (·.fault.isUnclosed) = left.length := by
    have hothers : others.countP (·.fault.isUnclosed) = 0 :=
      List.countP_eq_zero.mpr fun p hp => Bool.eq_false_iff.mp (haccount.closed p hp)
    have hleft : (left.map OpenBlock.unclosed).countP (·.fault.isUnclosed) = left.length := by
      rw [← List.length_map OpenBlock.unclosed, List.countP_eq_length]
      exact List.forall_mem_map.mpr fun _ _ => rfl
    rw [hsplit, List.countP_append, hothers, hleft, Nat.zero_add]
  have hrefused : problems.countP (·.fault.isRefusedEnd) = others.countP (·.fault.isRefusedEnd) := by
    have hleft : (left.map OpenBlock.unclosed).countP (·.fault.isRefusedEnd) = 0 :=
      List.countP_eq_zero.mpr (List.forall_mem_map.mpr fun _ _ => Bool.false_ne_true)
    rw [hsplit, List.countP_append, hleft, Nat.add_zero]
  refine ⟨?_, others, left.map OpenBlock.unclosed, hsplit, haccount.closed, haccount.ascending, ?_, ?_⟩
  · have hbalance := haccount.balance
    rw [List.length_nil] at hbalance
    rw [hunclosed, hrefused]
    omega
  · exact List.forall_mem_map.mpr fun b hb => (haccount.stacked.stands b hb).namesOpener
  · exact List.pairwise_map.mpr haccount.stacked.descending

end SigilScript.Validation
