import SigilScript.Proofs.ValidatedProgram
import SigilScript.Proofs.WrittenText

/-!
The calls that are written in a text: one for each place at which a sigil, a name and a bracket stand that is closed
again. A stretch of a text has only calls of the text, each of them once, and so have stretches that follow one another.
The nodes that are read from a text account for its calls, level by level.
-/
namespace SigilScript

/-! Balanced texts -/

namespace Text

theorem balanced_of_not_bracket {t : Text} (h : ∀ c ∈ t, c ≠ ('[' : CodePoint) ∧ c ≠ (']' : CodePoint)) :
    t.Balanced := by
  have hzero : ∀ start, start <+: t → start.count (']' : CodePoint) = 0 := by
    intro start hs
    rw [List.count_eq_zero]
    exact fun hm => (h _ (hs.subset hm)).2 rfl
  have hopen : t.count ('[' : CodePoint) = 0 := List.count_eq_zero.mpr fun hm => (h _ hm).1 rfl
  constructor
  · intro start hs
    rw [hzero start hs]
    exact Nat.zero_le _
  · rw [hzero t List.prefix_rfl, hopen]

theorem Balanced.append {s t : Text} (hs : s.Balanced) (ht : t.Balanced) : (s ++ t).Balanced := by
  constructor
  · rintro start ⟨rest, hrest⟩
    rcases List.append_eq_append_iff.mp hrest with ⟨middle, rfl, -⟩ | ⟨middle, rfl, hmiddle⟩
    · exact hs.upTo start (List.prefix_append start middle)
    · have hm := ht.upTo middle ⟨rest, hmiddle.symm⟩
      have htotal := hs.total
      simp only [List.count_append]
      omega
  · rw [List.count_append, List.count_append, hs.total, ht.total]

theorem Balanced.bracketed {t : Text} (ht : t.Balanced) :
    Balanced (('[' : CodePoint) :: (t ++ [(']' : CodePoint)])) := by
  have hne : ('[' : CodePoint) ≠ (']' : CodePoint) := by decide
  have htotal := ht.total
  constructor
  · intro start hs
    rcases List.prefix_cons_iff.mp hs with rfl | ⟨inner, rfl, hinner⟩
    · exact Nat.le_refl _
    · rw [List.count_cons_of_ne hne, List.count_cons_self]
      rcases List.prefix_concat_iff.mp hinner with rfl | hinner
      · simp only [List.count_append, List.count_singleton_self]
        omega
      · have hle := ht.upTo inner hinner
        omega
  · have hzero : [(']' : CodePoint)].count ('[' : CodePoint) = 0 := by decide
    rw [List.count_cons_of_ne hne, List.count_cons_self, List.count_append, List.count_append,
      List.count_singleton_self, hzero, htotal]

end Text

/-- What stands between brackets is balanced. -/
theorem imbalanceFrom_of_closingFrom {depth column n : Nat} {t : Text} (h : closingFrom (depth + 1) t = some n) :
    imbalanceFrom depth column (t.take n) = none := by
  induction t generalizing depth column n with
  | nil => simp [closingFrom] at h
  | cons c rest ih =>
    simp only [closingFrom] at h
    by_cases ho : c = '['
    · rw [if_pos ho] at h
      obtain ⟨m, hm, rfl⟩ := Option.map_eq_some_iff.mp h
      rw [List.take_succ_cons, imbalanceFrom, if_pos ho]
      exact ih (by exact_mod_cast hm)
    · rw [if_neg ho] at h
      by_cases hc : c = ']'
      · rw [if_pos hc] at h
        cases depth with
        | zero =>
          rw [if_pos (by rfl)] at h
          cases h
          rfl
        | succ depth =>
          rw [if_neg (by omega)] at h
          obtain ⟨m, hm, rfl⟩ := Option.map_eq_some_iff.mp h
          have hcast : ((depth + 1 : Nat) : Int) + 1 - 1 = (depth : Int) + 1 := by omega
          rw [hcast] at hm
          rw [List.take_succ_cons, imbalanceFrom, if_neg ho, if_pos hc, if_neg (Nat.succ_ne_zero depth)]
          exact ih hm
      · rw [if_neg hc] at h
        obtain ⟨m, hm, rfl⟩ := Option.map_eq_some_iff.mp h
        rw [List.take_succ_cons, imbalanceFrom, if_neg ho, if_neg hc]
        exact ih hm

/-- A balanced text is read up to the bracket after it. -/
theorem closingFrom_of_imbalanceFrom {depth column : Nat} {t : Text} (h : imbalanceFrom depth column t = none)
    (rest : Text) : closingFrom (depth + 1) (t ++ (']' : CodePoint) :: rest) = some t.length := by
  induction t generalizing depth column with
  | nil =>
    rw [imbalanceFrom] at h
    split at h
    · rename_i hd
      subst hd
      rfl
    · cases h
  | cons c t ih =>
    rw [imbalanceFrom] at h
    rw [List.cons_append, closingFrom, List.length_cons]
    by_cases ho : c = '['
    · rw [if_pos ho] at h ⊢
      have hcast : (depth : Int) + 1 + 1 = ((depth + 1 : Nat) : Int) + 1 := by omega
      rw [hcast, ih h]
      rfl
    · rw [if_neg ho] at h ⊢
      by_cases hc : c = ']'
      · rw [if_pos hc] at h ⊢
        cases depth with
        | zero => cases h
        | succ depth =>
          rw [if_neg (Nat.succ_ne_zero depth), Nat.add_sub_cancel] at h
          have hcast : ((depth + 1 : Nat) : Int) + 1 - 1 = (depth : Int) + 1 := by omega
          rw [if_neg (by omega), hcast, ih h]
          rfl
      · rw [if_neg hc] at h ⊢
        rw [ih h]
        rfl

/-- A call is a name and, between brackets, a balanced text. -/
theorem takeCall_eq_some_iff {t name args rest : Text} : takeCall t = some (name, args, rest) ↔
    t = name ++ ('[' : CodePoint) :: (args ++ (']' : CodePoint) :: rest) ∧ name.isName ∧ args.Balanced := by
  constructor
  · intro h
    refine ⟨takeCall_eq h, ?_⟩
    unfold takeCall at h
    split at h
    · cases h
    · cases h
    · rename_i name' c after hn he
      split at h
      · obtain ⟨n, hclosing, hp⟩ := Option.map_eq_some_iff.mp h
        simp only [Prod.mk.injEq] at hp
        obtain ⟨rfl, rfl, -⟩ := hp
        refine ⟨((Text.takeIdentifier_eq_iff hn _ _).mp he).2.1, ?_⟩
        rw [← imbalance_eq_none_iff]
        exact @imbalanceFrom_of_closingFrom 0 1 _ _ hclosing
      · cases h
  · rintro ⟨rfl, hname, hargs⟩
    have hne : name ≠ [] := by
      rintro rfl
      cases hname
    have hlong : ∀ c, (('[' : CodePoint) :: (args ++ (']' : CodePoint) :: rest)).head? = some c →
        c.isIdentifierPart = false := by
      intro c hc
      cases hc
      rfl
    have hclosing : closingFrom 1 (args ++ (']' : CodePoint) :: rest) = some args.length :=
      @closingFrom_of_imbalanceFrom 0 1 args ((imbalance_eq_none_iff args).mpr hargs) rest
    rw [takeCall, (Text.takeIdentifier_eq_iff hne _ _).mpr ⟨rfl, hname, hlong⟩]
    cases name with
    | nil => exact absurd rfl hne
    | cons c name =>
      simp only [if_pos, hclosing, Option.map_some, List.take_left', List.drop_append]
      simp

/-! Places of calls -/

/-- The call that a text starts with: its name and its arguments. -/
def callAt : Text → Option (Text × Text)
  | [] => none
  | c :: rest => if c = sigil then (takeCall rest).map fun found => (found.1, found.2.1) else none

/-- The calls that are written in a text, by the places at which they start. -/
def writtenCalls : Text → List (Text × Text)
  | [] => []
  | c :: rest => (callAt (c :: rest)).toList ++ writtenCalls rest

theorem callAt_eq_some_iff {t name args : Text} : callAt t = some (name, args) ↔
    ∃ rest, t = sigil :: (name ++ ('[' : CodePoint) :: (args ++ (']' : CodePoint) :: rest)) ∧ name.isName ∧
      args.Balanced := by
  cases t with
  | nil => simp [callAt]
  | cons c t =>
    by_cases hc : c = sigil
    · rw [callAt, if_pos hc, Option.map_eq_some_iff]
      constructor
      · rintro ⟨⟨name', args', rest⟩, hcall, hfound⟩
        cases hfound
        obtain ⟨rfl, hname, hargs⟩ := takeCall_eq_some_iff.mp hcall
        exact ⟨rest, by rw [hc], hname, hargs⟩
      · rintro ⟨rest, ht, hname, hargs⟩
        exact ⟨(name, args, rest), takeCall_eq_some_iff.mpr ⟨(List.cons.inj ht).2, hname, hargs⟩, rfl⟩
    · rw [callAt, if_neg hc]
      constructor
      · intro h
        cases h
      · rintro ⟨rest, ht, -⟩
        exact absurd (List.cons.inj ht).1 hc

theorem callAt_of_ne {c : CodePoint} (h : c ≠ sigil) (t : Text) : callAt (c :: t) = none := if_neg h

theorem callAt_eq_none {c : CodePoint} {rest : Text} (h : c = sigil → takeCall rest = none) :
    callAt (c :: rest) = none := by
  rw [callAt]
  split
  · rename_i hc
    rw [h hc]
    rfl
  · rfl

/-- What comes after a call does not matter. -/
theorem callAt_append {t : Text} {w : Text × Text} (h : callAt t = some w) (u : Text) : callAt (t ++ u) = some w := by
  obtain ⟨rest, rfl, hname, hargs⟩ := callAt_eq_some_iff.mp h
  exact callAt_eq_some_iff.mpr ⟨rest ++ u, by simp, hname, hargs⟩

theorem mem_writtenCalls {t : Text} {w : Text × Text} :
    w ∈ writtenCalls t ↔ ∃ before s, t = before ++ s ∧ callAt s = some w := by
  induction t with
  | nil =>
    constructor
    · intro h
      cases h
    · rintro ⟨before, s, hs, hcall⟩
      obtain ⟨-, rfl⟩ := List.append_eq_nil_iff.mp hs.symm
      cases hcall
  | cons c t ih =>
    rw [writtenCalls, List.mem_append, Option.mem_toList, ih]
    constructor
    · rintro (h | ⟨before, s, rfl, h⟩)
      · exact ⟨[], c :: t, rfl, h⟩
      · exact ⟨c :: before, s, rfl, h⟩
    · rintro ⟨before, s, hs, h⟩
      cases before with
      | nil =>
        rw [List.nil_append] at hs
        exact .inl (hs ▸ h)
      | cons first before =>
        obtain ⟨rfl, rfl⟩ := List.cons.inj hs
        exact .inr ⟨before, s, rfl, h⟩

/-- The arguments of a call stand in the text, and are shorter. -/
theorem isInfix_of_mem_writtenCalls {t : Text} {w : Text × Text} (h : w ∈ writtenCalls t) :
    w.2 <:+: t ∧ w.2.length < t.length := by
  obtain ⟨before, s, rfl, hcall⟩ := mem_writtenCalls.mp h
  obtain ⟨rest, rfl, -⟩ := callAt_eq_some_iff.mp hcall
  constructor
  · exact ⟨before ++ sigil :: (w.1 ++ [('[' : CodePoint)]), (']' : CodePoint) :: rest, by simp⟩
  · simp only [List.length_append, List.length_cons]
    omega

theorem writtenCalls_of_not_sigil {s : Text} (h : ∀ c ∈ s, c ≠ sigil) (t : Text) :
    writtenCalls (s ++ t) = writtenCalls t := by
  induction s with
  | nil => rfl
  | cons c s ih =>
    rw [List.forall_mem_cons] at h
    rw [List.cons_append, writtenCalls, callAt_of_ne h.1, ih h.2]
    rfl

/-- Texts that follow one another have no call in common. -/
theorem writtenCalls_append (s t : Text) :
    (writtenCalls s ++ writtenCalls t).Sublist (writtenCalls (s ++ t)) := by
  induction s with
  | nil => exact List.Sublist.refl _
  | cons c s ih =>
    rw [List.cons_append, writtenCalls, writtenCalls, List.append_assoc]
    refine List.Sublist.append ?_ ih
    cases h : callAt (c :: s) with
    | none => exact List.nil_sublist _
    | some w =>
      have hsame : (some w).toList = (callAt (c :: (s ++ t))).toList :=
        congrArg Option.toList (callAt_append h t).symm
      exact hsame ▸ List.Sublist.refl _

theorem writtenCalls_isInfix {s t : Text} (h : s <:+: t) : (writtenCalls s).Sublist (writtenCalls t) := by
  obtain ⟨before, after, rfl⟩ := h
  have hbefore := List.sublist_append_right (writtenCalls before) (writtenCalls s)
  have hafter := List.sublist_append_left (writtenCalls (before ++ s)) (writtenCalls after)
  exact ((hbefore.trans (writtenCalls_append before s)).trans hafter).trans (writtenCalls_append (before ++ s) after)

theorem isIdentifierPart_sigil : sigil.isIdentifierPart = false := by decide

theorem not_sigil_of_isName {name : Text} (h : name.isName) : ∀ c ∈ name, c ≠ sigil := by
  rintro c hc rfl
  have hpart := isIdentifierPart_of_isName h sigil hc
  rw [isIdentifierPart_sigil] at hpart
  cases hpart

/-- A call, and the calls in its arguments and after it. -/
theorem writtenCalls_of_takeCall {t name args rest : Text} (h : takeCall t = some (name, args, rest)) :
    writtenCalls (sigil :: t) = (name, args) :: writtenCalls (args ++ (']' : CodePoint) :: rest) := by
  obtain ⟨rfl, hname, -⟩ := takeCall_eq_some_iff.mp h
  have hcall : callAt (sigil :: (name ++ ('[' : CodePoint) :: (args ++ (']' : CodePoint) :: rest))) =
      some (name, args) := by
    rw [callAt, if_pos rfl, h]
    rfl
  have hskip : writtenCalls (name ++ ('[' : CodePoint) :: (args ++ (']' : CodePoint) :: rest)) =
      writtenCalls (args ++ (']' : CodePoint) :: rest) := by
    rw [writtenCalls_of_not_sigil (not_sigil_of_isName hname), writtenCalls, callAt_of_ne (by decide)]
    rfl
  rw [writtenCalls, hcall, hskip]
  rfl

/-- A call that starts in a balanced text ends there. -/
theorem callAt_of_balanced {before s rest : Text} (hb : Text.Balanced (before ++ s)) {w : Text × Text}
    (h : callAt (s ++ (']' : CodePoint) :: rest) = some w) : callAt s = some w := by
  obtain ⟨name, args⟩ := w
  obtain ⟨after, hs, hname, hargs⟩ := callAt_eq_some_iff.mp h
  have hspelled : Text.Balanced ((sigil :: name) ++ ('[' : CodePoint) :: (args ++ [(']' : CodePoint)])) := by
    refine Text.Balanced.append (Text.balanced_of_not_bracket ?_) hargs.bracketed
    rw [List.forall_mem_cons]
    exact ⟨by decide, fun c hc => not_bracket_of_isIdentifierPart (isIdentifierPart_of_isName hname c hc)⟩
  have heq : s ++ (']' : CodePoint) :: rest =
      ((sigil :: name) ++ ('[' : CodePoint) :: (args ++ [(']' : CodePoint)])) ++ after := by
    rw [hs]
    simp
  rcases List.append_eq_append_iff.mp heq with ⟨middle, hmiddle, hrest⟩ | ⟨middle, rfl, -⟩
  · cases middle with
    | nil =>
      rw [List.append_nil] at hmiddle
      exact callAt_eq_some_iff.mpr ⟨[], by rw [← hmiddle]; simp, hname, hargs⟩
    | cons c middle =>
      -- the bracket after the text would close one of the call, which it cannot and be balanced
      obtain ⟨rfl, -⟩ := List.cons.inj hrest
      have hopen := hspelled.upTo (s ++ [(']' : CodePoint)]) ⟨middle, by rw [hmiddle]; simp⟩
      have hclose := hb.upTo before (List.prefix_append before s)
      have htotal := hb.total
      have hzero : [(']' : CodePoint)].count ('[' : CodePoint) = 0 := by decide
      simp only [List.count_append, List.count_singleton_self, hzero] at hopen htotal
      omega
  · exact callAt_eq_some_iff.mpr ⟨middle, by simp, hname, hargs⟩

/-- The calls of a balanced text and of what comes after its bracket are all that there are. -/
theorem mem_writtenCalls_of_balanced {args rest : Text} (hb : args.Balanced) {w : Text × Text}
    (h : w ∈ writtenCalls (args ++ (']' : CodePoint) :: rest)) : w ∈ writtenCalls args ∨ w ∈ writtenCalls rest := by
  obtain ⟨before, s, heq, hcall⟩ := mem_writtenCalls.mp h
  rcases List.append_eq_append_iff.mp heq with ⟨middle, rfl, hs⟩ | ⟨middle, rfl, rfl⟩
  · right
    cases middle with
    | nil =>
      rw [List.nil_append] at hs
      rw [← hs, callAt_of_ne (by decide)] at hcall
      cases hcall
    | cons c middle => exact mem_writtenCalls.mpr ⟨middle, s, (List.cons.inj hs).2, hcall⟩
  · exact .inl (mem_writtenCalls.mpr ⟨before, middle, rfl, callAt_of_balanced hb hcall⟩)

/-! Nodes -/

/-- The calls that a node accounts for. -/
def Node.calls : Node → List (Text × Text)
  | .text _ => []
  | .call name args _ => (name, args) :: writtenCalls args

/-- Calls stand at most so many deep inside one another. -/
def NestedUpTo : Nat → Text → Prop
  | 0, t => writtenCalls t = []
  | n + 1, t => ∀ w ∈ writtenCalls t, NestedUpTo n w.2

namespace NestedUpTo

theorem of_subset {n : Nat} {s t : Text} (ht : NestedUpTo n t) (h : writtenCalls s ⊆ writtenCalls t) :
    NestedUpTo n s := by
  cases n with
  | zero =>
    rw [NestedUpTo] at ht ⊢
    rw [ht] at h
    exact List.subset_nil.mp h
  | succ n => exact fun w hw => ht w (h hw)

theorem of_isInfix {n : Nat} {s t : Text} (ht : NestedUpTo n t) (h : s <:+: t) : NestedUpTo n s :=
  ht.of_subset (writtenCalls_isInfix h).subset

theorem of_no_calls {t : Text} (h : writtenCalls t = []) (n : Nat) : NestedUpTo n t := by
  cases n with
  | zero => exact h
  | succ n =>
    intro w hw
    rw [h] at hw
    cases hw

theorem succ {n : Nat} {t : Text} (h : NestedUpTo n t) : NestedUpTo (n + 1) t := by
  induction n generalizing t with
  | zero => exact of_no_calls h 1
  | succ n ih => exact fun w hw => ih (h w hw)

theorem mono {n m : Nat} {t : Text} (h : NestedUpTo n t) (hle : n ≤ m) : NestedUpTo m t := by
  induction hle with
  | refl => exact h
  | step _ ih => exact ih.succ

end NestedUpTo

theorem Node.maxDepth_append (nodes others : List Node) :
    maxDepth (nodes ++ others) = max (maxDepth nodes) (maxDepth others) := by
  induction nodes with
  | nil => simp [maxDepth]
  | cons node nodes ih => rw [List.cons_append, maxDepth, maxDepth, ih, Nat.max_assoc]

theorem maxDepth_literal (run : Text) : Node.maxDepth (literal run) = 0 := by
  unfold literal
  split <;> simp [Node.maxDepth, Node.depth]

theorem calls_literal (run : Text) : (literal run).flatMap Node.calls = [] := by
  unfold literal
  split <;> rfl

/-- The nodes of a text account for calls of the text, each of them once. -/
theorem calls_readNodes {levels : Nat} {run t : Text} {nodes : List Node} (h : readNodes levels run t = .ok nodes) :
    (nodes.flatMap Node.calls).Sublist (writtenCalls t) := by
  refine readNodes_induction (P := fun _ t nodes => (nodes.flatMap Node.calls).Sublist (writtenCalls t)) ?_ ?_ ?_ h
  · intro run
    rw [calls_literal]
    exact List.nil_sublist _
  · intro run c rest nodes _ ih
    exact ih.trans (writtenCalls_isInfix (List.suffix_cons c rest).isInfix)
  · intro run rest name args after children nodes hcall _ _ _ ih
    have hlater : (writtenCalls after).Sublist (writtenCalls ((']' : CodePoint) :: after)) :=
      writtenCalls_isInfix (List.suffix_cons _ after).isInfix
    rw [List.flatMap_append, calls_literal, List.nil_append, List.flatMap_cons, Node.calls, List.cons_append,
      writtenCalls_of_takeCall hcall]
    exact (((List.Sublist.refl _).append (ih.trans hlater)).trans (writtenCalls_append args _)).cons_cons _

theorem maxDepth_readNodes {levels : Nat} {run t : Text} {nodes : List Node} (h : readNodes levels run t = .ok nodes) :
    Node.maxDepth nodes ≤ maxNesting := by
  refine readNodes_induction (P := fun _ _ nodes => Node.maxDepth nodes ≤ maxNesting) ?_ ?_ ?_ h
  · intro run
    rw [maxDepth_literal]
    exact Nat.zero_le _
  · exact fun _ _ _ _ _ ih => ih
  · intro run rest name args after children nodes _ _ hdepth _ ih
    rw [Node.maxDepth_append, maxDepth_literal, Node.maxDepth, Node.depth]
    omega

/-- The calls of a text stand no deeper inside one another than its nodes. -/
theorem nestedUpTo_readNodes {levels : Nat} {run t : Text} {nodes : List Node}
    (h : readNodes levels run t = .ok nodes) : NestedUpTo (Node.maxDepth nodes) t := by
  refine readNodes_induction (P := fun _ t nodes => NestedUpTo (Node.maxDepth nodes) t) ?_ ?_ ?_ h
  · exact fun run => .of_no_calls rfl _
  · intro run c rest nodes hplace ih
    refine ih.of_subset ?_
    rw [writtenCalls, callAt_eq_none hplace]
    exact fun _ hw => hw
  · intro run rest name args after children nodes hcall _ _ hargs hafter
    obtain ⟨k, hk⟩ : ∃ k, Node.maxDepth (literal run ++ .call name args children :: nodes) = k + 1 := by
      rw [Node.maxDepth_append, maxDepth_literal, Node.maxDepth, Node.depth]
      exact ⟨max (1 + Node.maxDepth children) (Node.maxDepth nodes) - 1, by omega⟩
    have hbounds : Node.maxDepth children ≤ k ∧ Node.maxDepth nodes ≤ k + 1 := by
      rw [Node.maxDepth_append, maxDepth_literal, Node.maxDepth, Node.depth] at hk
      omega
    have hk' : NestedUpTo k args := hargs.mono hbounds.1
    rw [hk]
    intro w hw
    rw [writtenCalls_of_takeCall hcall] at hw
    rcases List.mem_cons.mp hw with rfl | hw
    · exact hk'
    · rcases mem_writtenCalls_of_balanced (takeCall_eq_some_iff.mp hcall).2.2 hw with hw | hw
      · exact hk'.succ w hw
      · exact hafter.mono hbounds.2 w hw

/-- Where reading a text does not give up, its calls stand at most `maxNesting` deep inside one another. -/
theorem nestedUpTo_of_parse {t : Text} {nodes : List Node} (h : Fragment.parse t = .ok nodes) :
    NestedUpTo maxNesting t := (nestedUpTo_readNodes h).mono (maxDepth_readNodes h)

end SigilScript
