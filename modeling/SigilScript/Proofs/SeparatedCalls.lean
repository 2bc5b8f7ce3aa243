import SigilScript.Proofs.ArgumentParts
import SigilScript.Proofs.CallPlaces

/-!
Separators and calls. Cutting a text counts all of its brackets, from its start on; reading it counts those of a call,
from its name on. In a balanced text the counts cannot part: up to a semicolon inside of a call a bracket of the call is
open, and what stands before the call has closed no more brackets than it has opened. So no call is cut in two, and the
calls of the text are those of its arguments, one after the other.
-/
namespace SigilScript

/-! Inside of a call -/

/-- Up to a semicolon inside of a call, more brackets are opened than closed. -/
theorem open_before_semicolon {s after name args rest : Text} (hname : name.isName) (hargs : args.Balanced)
    (h : s ++ (';' : CodePoint) :: after = sigil :: (name ++ ('[' : CodePoint) :: (args ++ (']' : CodePoint) :: rest)))
    (hlt : s.length < name.length + args.length + 3) :
    s.count (']' : CodePoint) < s.count ('[' : CodePoint) := by
  have hplain : ∀ c ∈ sigil :: name, c ≠ (';' : CodePoint) ∧ c ≠ ('[' : CodePoint) ∧ c ≠ (']' : CodePoint) := by
    rw [List.forall_mem_cons]
    refine ⟨by decide, fun c hc => ?_⟩
    have hpart := isIdentifierPart_of_isName hname c hc
    refine ⟨?_, not_bracket_of_isIdentifierPart hpart⟩
    rintro rfl
    cases hpart
  rw [← List.cons_append] at h
  rcases List.append_eq_append_iff.mp h with ⟨middle, hs, hafter⟩ | ⟨middle, rfl, hrest⟩
  · -- the semicolon would be in the name, or the bracket after it
    cases middle with
    | nil => exact absurd (List.cons.inj hafter).1 (by decide)
    | cons c middle =>
      have hc : c ∈ sigil :: name := hs ▸ List.mem_append_right s List.mem_cons_self
      exact absurd (List.cons.inj hafter).1.symm (hplain c hc).1
  · cases middle with
    | nil => exact absurd (List.cons.inj hrest).1 (by decide)
    | cons c inner =>
      obtain ⟨rfl, hinside⟩ := List.cons.inj hrest
      have hinner : inner <+: args := by
        have hargs : args <+: inner ++ (';' : CodePoint) :: after := ⟨_, hinside⟩
        refine List.prefix_of_prefix_length_le (List.prefix_append inner _) hargs ?_
        simp only [List.length_append, List.length_cons] at hlt
        omega
      have hupTo := hargs.upTo inner hinner
      have hopen : (sigil :: name).count ('[' : CodePoint) = 0 :=
        List.count_eq_zero.mpr fun hm => (hplain _ hm).2.1 rfl
      have hclose : (sigil :: name).count (']' : CodePoint) = 0 :=
        List.count_eq_zero.mpr fun hm => (hplain _ hm).2.2 rfl
      have hne : ('[' : CodePoint) ≠ (']' : CodePoint) := by decide
      rw [List.count_append, List.count_append, hopen, hclose, List.count_cons_of_ne hne, List.count_cons_self]
      omega

/-- A call that starts in a balanced text in front of a semicolon ends there. -/
theorem callAt_before_semicolon {before s rest : Text} (hb : Text.Balanced (before ++ s)) {w : Text × Text}
    (h : callAt (s ++ (';' : CodePoint) :: rest) = some w) : callAt s = some w := by
  obtain ⟨name, args⟩ := w
  obtain ⟨after, hs, hname, hargs⟩ := callAt_eq_some_iff.mp h
  by_cases hlt : s.length < name.length + args.length + 3
  · have hopen := open_before_semicolon hname hargs hs hlt
    have hclosed := hb.upTo before (List.prefix_append before s)
    have htotal := hb.total
    rw [List.count_append, List.count_append] at htotal
    omega
  · have hspelled : s ++ (';' : CodePoint) :: rest =
        (sigil :: (name ++ ('[' : CodePoint) :: (args ++ [(']' : CodePoint)]))) ++ after := by
      rw [hs]
      simp
    rcases List.append_eq_append_iff.mp hspelled with ⟨middle, hmiddle, hafter⟩ | ⟨middle, rfl, -⟩
    · have hlength := congrArg List.length hmiddle
      simp only [List.length_append, List.length_cons, List.length_nil] at hlength
      obtain rfl : middle = [] := List.length_eq_zero_iff.mp (by omega)
      rw [List.append_nil] at hmiddle
      exact callAt_eq_some_iff.mpr ⟨[], hmiddle.symm, hname, hargs⟩
    · exact callAt_eq_some_iff.mpr ⟨middle, by simp, hname, hargs⟩

/-! Calls of two texts -/

section Reading

variable {levels : Nat} {run t rest name args after : Text} {nodes : List Node}

theorem filter_isCall_literal (run : Text) (nodes : List Node) :
    (literal run ++ nodes).filter Node.isCall = nodes.filter Node.isCall := by
  unfold literal
  split <;> rfl

/-- A call that is read in one text is read in every text that has it. -/
theorem readNodes_same_call (hcall : takeCall rest = some (name, args, after))
    (h : readNodes levels run (sigil :: rest) = .ok nodes) :
    ∃ children others, nodes = literal run ++ .call name args children :: others ∧
      readNodes levels [] after = .ok others ∧
      ∀ run' rest' after' others', takeCall rest' = some (name, args, after') →
        readNodes levels [] after' = .ok others' →
        readNodes levels run' (sigil :: rest') = .ok (literal run' ++ .call name args children :: others') := by
  cases levels with
  | zero =>
    rw [readNodes_call_zero hcall] at h
    cases h
  | succ levels =>
    rw [readNodes_call hcall] at h
    cases hchildren : readNodes levels [] args with
    | error e =>
      rw [hchildren] at h
      cases h
    | ok children =>
      simp only [hchildren, Except.bind] at h
      split at h
      · cases h
      · rename_i hdepth
        cases hothers : readNodes (levels + 1) [] after with
        | error e =>
          rw [hothers] at h
          cases h
        | ok others =>
          rw [hothers] at h
          refine ⟨children, others, (Except.ok.inj h).symm, rfl, fun run' rest' after' others' hcall' hothers' => ?_⟩
          rw [readNodes_call hcall', hchildren, hothers']
          simp only [Except.bind, if_neg hdepth]
          rfl

/-- The calls do not depend on the literal text in front of them. -/
theorem readNodes_run (h : readNodes levels run t = .ok nodes) (run' : Text) :
    ∃ nodes', readNodes levels run' t = .ok nodes' ∧ nodes'.filter Node.isCall = nodes.filter Node.isCall := by
  induction t using call_induction generalizing run run' nodes with
  | nil =>
    rw [readNodes] at h
    cases h
    refine ⟨literal run', by rw [readNodes], ?_⟩
    rw [← List.append_nil (literal run'), ← List.append_nil (literal run), filter_isCall_literal, filter_isCall_literal]
  | place c rest hplace ih =>
    rw [readNodes_place hplace] at h ⊢
    exact ih h (c :: run')
  | call rest name args after hcall _ _ =>
    obtain ⟨children, others, rfl, hothers, hread⟩ := readNodes_same_call hcall h
    exact ⟨_, hread run' rest after others hcall hothers, by rw [filter_isCall_literal, filter_isCall_literal]⟩

/-- The calls of a balanced text and those of what comes after a semicolon are the calls of both together. The part
of the text that is read already stands in `before`. -/
theorem readNodes_semicolon (before : Text) {p : Text} (hb : Text.Balanced (before ++ p))
    (h : readNodes levels run (p ++ (';' : CodePoint) :: rest) = .ok nodes) :
    ∃ left right, readNodes levels run p = .ok left ∧ readNodes levels [] rest = .ok right ∧
      nodes.filter Node.isCall = left.filter Node.isCall ++ right.filter Node.isCall := by
  induction p using call_induction generalizing before run nodes with
  | nil =>
    have hplace : (';' : CodePoint) = sigil → takeCall rest = none := fun hc => absurd hc (by decide)
    rw [List.nil_append, readNodes_place hplace] at h
    obtain ⟨right, hright, hcalls⟩ := readNodes_run h []
    refine ⟨literal run, right, by rw [readNodes], hright, ?_⟩
    rw [← hcalls, ← List.append_nil (literal run), filter_isCall_literal]
    rfl
  | place c p hplace ih =>
    have hplace' : c = sigil → takeCall (p ++ (';' : CodePoint) :: rest) = none := by
      rintro rfl
      have hnone : callAt (sigil :: p ++ (';' : CodePoint) :: rest) = none := by
        cases hsome : callAt (sigil :: p ++ (';' : CodePoint) :: rest) with
        | none => rfl
        | some w =>
          rw [← callAt_eq_none hplace]
          exact (callAt_before_semicolon hb hsome).symm
      rw [List.cons_append, callAt, if_pos rfl, Option.map_eq_none_iff] at hnone
      exact hnone
    rw [List.cons_append, readNodes_place hplace'] at h
    rw [readNodes_place hplace]
    exact ih (before ++ [c]) (by simpa using hb) h
  | call p name args after hcall _ ih =>
    obtain ⟨rfl, hname, hargs⟩ := takeCall_eq_some_iff.mp hcall
    have hcall' : takeCall (name ++ ('[' : CodePoint) :: (args ++ (']' : CodePoint) :: after) ++
        (';' : CodePoint) :: rest) = some (name, args, after ++ (';' : CodePoint) :: rest) :=
      takeCall_eq_some_iff.mpr ⟨by simp, hname, hargs⟩
    obtain ⟨children, others, rfl, hothers, hread⟩ := readNodes_same_call hcall' h
    obtain ⟨left, right, hleft, hright, hcalls⟩ := ih
      (before ++ sigil :: (name ++ ('[' : CodePoint) :: (args ++ [(']' : CodePoint)]))) (by simpa using hb) hothers
    refine ⟨_, right, hread run _ after left hcall hleft, hright, ?_⟩
    rw [filter_isCall_literal, filter_isCall_literal, List.filter_cons_of_pos rfl, List.filter_cons_of_pos rfl,
      List.cons_append, hcalls]

end Reading

namespace Argument

/-! Where a text is cut -/

/-- The place at which the first parts of a text end, and the text does not. -/
def CutAt (t : Text) (i : Nat) : Prop :=
  i < t.length ∧ ∃ k < (split t).length, i = (Text.join ";" ((split t).take (k + 1))).length

theorem length_join_cons {p first : Text} {others : List Text} :
    (Text.join ";" (p :: first :: others)).length = p.length + 1 + (Text.join ";" (first :: others)).length := by
  rw [Text.join_cons_cons, List.length_append, List.length_append, ← Nat.add_assoc]
  rfl

/-- A text is cut at its separators. -/
theorem cutAt_iff {t : Text} {i : Nat} : CutAt t i ↔ IsSeparator t i := by
  rw [← mem_separators]
  induction t using separator_induction generalizing i with
  | last t h =>
    rw [h, CutAt, split_of_uncut h]
    refine iff_of_false ?_ List.not_mem_nil
    rintro ⟨hlt, k, hk, rfl⟩
    split at hk
    · cases hk
    · rename_i hne
      obtain rfl : k = 0 := Nat.lt_one_iff.mp hk
      rw [if_neg hne, List.take_one] at hlt
      simp [Text.join, List.intercalate] at hlt
  | more p rest h ih =>
    rw [h.separators_eq, List.mem_cons, List.mem_map, CutAt, h.split_eq]
    have hlength : (p ++ (';' : CodePoint) :: rest).length = p.length + 1 + rest.length := by
      rw [List.length_append, List.length_cons]
      omega
    have hfirst : (Text.join ";" [p]).length = p.length := by simp [Text.join, List.intercalate]
    have hlater : ∀ k < (split rest).length, (Text.join ";" (p :: (split rest).take (k + 1))).length =
        p.length + 1 + (Text.join ";" ((split rest).take (k + 1))).length := by
      intro k hk
      cases hrest : split rest with
      | nil =>
        rw [hrest] at hk
        cases hk
      | cons first others =>
        rw [List.take_succ_cons]
        exact length_join_cons
    constructor
    · rintro ⟨hlt, k, hk, rfl⟩
      cases k with
      | zero => exact .inl hfirst
      | succ k =>
        rw [List.take_succ_cons] at hlt ⊢
        have hk : k < (split rest).length := Nat.lt_of_succ_lt_succ hk
        rw [hlater k hk] at hlt ⊢
        exact .inr ⟨_, ih.mp ⟨by omega, k, hk, rfl⟩, rfl⟩
    · rintro (rfl | ⟨j, hj, rfl⟩)
      · exact ⟨by omega, 0, Nat.succ_pos _, hfirst.symm⟩
      · obtain ⟨hlt, k, hk, rfl⟩ := ih.mpr hj
        refine ⟨by omega, k + 1, Nat.succ_lt_succ hk, ?_⟩
        rw [List.take_succ_cons, hlater k hk]

/-! Counting brackets -/

/-- Without quotes, only brackets count. -/
theorem foldl_next_of_not_quote {t : Text} (h : ∀ c ∈ t, isQuote c = false) (depth : Int) :
    t.foldl Nesting.next ⟨depth, none⟩ =
      ⟨depth + t.count ('[' : CodePoint) - t.count (']' : CodePoint), none⟩ := by
  induction t generalizing depth with
  | nil => simp
  | cons c t ih =>
    rw [List.forall_mem_cons] at h
    have hne : ('[' : CodePoint) ≠ (']' : CodePoint) := by decide
    rw [List.foldl_cons]
    by_cases ho : c = '['
    · subst ho
      have hnext : Nesting.next ⟨depth, none⟩ ('[' : CodePoint) = ⟨depth + 1, none⟩ := rfl
      rw [hnext, ih h.2, List.count_cons_self, List.count_cons_of_ne hne]
      congr 1
      omega
    · by_cases hc : c = ']'
      · subst hc
        have hnext : Nesting.next ⟨depth, none⟩ (']' : CodePoint) = ⟨depth - 1, none⟩ := rfl
        rw [hnext, ih h.2, List.count_cons_self, List.count_cons_of_ne hne.symm]
        congr 1
        omega
      · have hnext : Nesting.next ⟨depth, none⟩ c = ⟨depth, none⟩ := by
          simp only [Nesting.next, h.1, if_neg ho, if_neg hc, Bool.false_eq_true, if_false]
        rw [hnext, ih h.2, List.count_cons_of_ne ho, List.count_cons_of_ne hc]

theorem count_of_closed {p : Text} (h : ∀ c ∈ p, isQuote c = false) (hp : p.foldl Nesting.next .outside = .outside) :
    p.count (']' : CodePoint) = p.count ('[' : CodePoint) := by
  have hdepth := congrArg Nesting.depth ((foldl_next_of_not_quote h 0).symm.trans hp)
  simp only [Nesting.outside] at hdepth
  omega

/-- A separator cuts a balanced text into balanced ones. -/
theorem balanced_of_leads {p rest : Text} (hb : Text.Balanced (p ++ (';' : CodePoint) :: rest))
    (hp : p.count (']' : CodePoint) = p.count ('[' : CodePoint)) : p.Balanced ∧ rest.Balanced := by
  have hcounts : ∀ s : Text, (p ++ (';' : CodePoint) :: s).count ('[' : CodePoint) =
      p.count ('[' : CodePoint) + s.count ('[' : CodePoint) ∧ (p ++ (';' : CodePoint) :: s).count (']' : CodePoint) =
      p.count (']' : CodePoint) + s.count (']' : CodePoint) := by
    intro s
    rw [List.count_append, List.count_append, List.count_cons_of_ne (by decide), List.count_cons_of_ne (by decide)]
    exact ⟨rfl, rfl⟩
  refine ⟨⟨fun start hs => hb.upTo start (hs.trans (List.prefix_append _ _)), hp⟩, fun start hs => ?_, ?_⟩
  · obtain ⟨more, rfl⟩ := hs
    have hupTo := hb.upTo (p ++ (';' : CodePoint) :: start) ⟨more, by simp⟩
    rw [(hcounts start).1, (hcounts start).2] at hupTo
    omega
  · have htotal := hb.total
    rw [(hcounts rest).1, (hcounts rest).2] at htotal
    omega

/-! Arguments and their calls -/

/-- No separator of a balanced text stands inside of a call. -/
theorem not_inside_of_isSeparator {a : Text} (hb : a.Balanced) (hq : ∀ c ∈ a, isQuote c = false) {i : Nat}
    (hi : IsSeparator a i) {o : Occurrence} (ho : o.StandsIn a) : ¬ (o.start ≤ i ∧ i < o.stop) := by
  rintro ⟨hstart, hstop⟩
  obtain ⟨rest, hdrop, hname, hargs⟩ := ho
  obtain ⟨hlt, hat⟩ := List.getElem?_eq_some_iff.mp hi.1
  have hcut : a.drop o.start = (a.take i).drop o.start ++ (';' : CodePoint) :: a.drop (i + 1) := by
    rw [← hat, ← List.drop_eq_getElem_cons hlt]
    conv_lhs => rw [← List.take_append_drop i a]
    rw [List.drop_append_of_le_length (by rw [List.length_take]; omega)]
  have hopen := open_before_semicolon hname hargs (hcut.symm.trans hdrop) (by
    rw [List.length_drop, List.length_take]
    simp only [Occurrence.stop] at hstop
    omega)
  have hbefore := hb.upTo _ (List.take_prefix o.start a)
  have htake : a.take i = a.take o.start ++ (a.take i).drop o.start := by
    conv_lhs => rw [← List.take_append_drop o.start (a.take i)]
    rw [List.take_take, Nat.min_eq_left hstart]
  have hclosed := count_of_closed (fun c hc => hq c (List.mem_of_mem_take hc)) hi.2
  rw [htake, List.count_append, List.count_append] at hclosed
  omega

theorem mapM_parse_cons {p : Text} {parts : List Text} {first : List Node} {others : List (List Node)}
    (hp : Fragment.parse p = .ok first) (h : parts.mapM Fragment.parse = .ok others) :
    (p :: parts).mapM Fragment.parse = .ok (first :: others) := by
  rw [List.mapM_cons, hp, h]
  rfl

/-- The calls of a balanced text are those of its arguments, by induction over its separators. -/
theorem calls_of_split {a : Text} (hb : a.Balanced) (hq : ∀ c ∈ a, isQuote c = false) {nodes : List Node}
    (hp : Fragment.parse a = .ok nodes) :
    ∃ pieces, (split a).mapM Fragment.parse = .ok pieces ∧
      nodes.filter Node.isCall = pieces.flatMap (List.filter Node.isCall) := by
  induction a using separator_induction generalizing nodes with
  | last t h =>
    rw [split_of_uncut h]
    split
    · rename_i hempty
      rw [List.isEmpty_iff.mp hempty, Fragment.parse, readNodes] at hp
      cases hp
      exact ⟨[], rfl, rfl⟩
    · exact ⟨[nodes], mapM_parse_cons hp rfl, (List.append_nil _).symm⟩
  | more p rest h ih =>
    rw [List.forall_mem_append, List.forall_mem_cons] at hq
    obtain ⟨hpb, hrb⟩ := balanced_of_leads hb (count_of_closed hq.1 h.closed)
    obtain ⟨left, right, hleft, hright, hcalls⟩ := readNodes_semicolon [] hpb hp
    obtain ⟨pieces, hpieces, hrest⟩ := ih hrb hq.2.2 hright
    rw [h.split_eq]
    exact ⟨left :: pieces, mapM_parse_cons hleft hpieces, by rw [hcalls, hrest, List.flatMap_cons]⟩

/-- Cutting a balanced text without quotes never cuts a call: no place at which it is cut lies in the span of a
call, on whatever level; and every part can be read, and the calls of the parts, one after the other, are the calls of
the text. -/
theorem split_keeps_calls {a : Text} (hb : a.Balanced) (hq : ∀ c ∈ a, isQuote c = false) {nodes : List Node}
    (hp : Fragment.parse a = .ok nodes) :
    (∀ i, CutAt a i → ∀ o ∈ (Node.placedAll [] 0 nodes).map Prod.fst, ¬ (o.start ≤ i ∧ i < o.stop)) ∧
      ∃ pieces, (split a).mapM Fragment.parse = .ok pieces ∧
        nodes.filter Node.isCall = pieces.flatMap (List.filter Node.isCall) := by
  refine ⟨fun i hi o ho => ?_, calls_of_split hb hq hp⟩
  have hstands : o.StandsIn a := ((Fragment.accountsFor_of_parse hp).calls o).mp ho
  exact not_inside_of_isSeparator hb hq (cutAt_iff.mp hi) hstands

/-- Separators in the arguments of calls, in brackets of no call and between calls. -/
theorem split_keeps_calls_nested :
    let a : Text := "x§a[1;§b[2;3]];[p;§c[;]];"
    ∃ nodes pieces, Fragment.parse a = .ok nodes ∧ CutAt a 14 ∧ CutAt a 24 ∧
      (∀ o ∈ (Node.placedAll [] 0 nodes).map Prod.fst, ¬ (o.start ≤ 14 ∧ 14 < o.stop)) ∧
      (split a).mapM Fragment.parse = .ok pieces ∧
      nodes.filter Node.isCall = pieces.flatMap (List.filter Node.isCall) := by
  intro a
  have hok : (Fragment.parse a).isOk := by decide +kernel
  cases hp : Fragment.parse a with
  | error e =>
    rw [hp] at hok
    cases hok
  | ok nodes =>
    have hb : a.Balanced := (imbalance_eq_none_iff a).mp (by decide)
    have hcut : CutAt a 14 := cutAt_iff.mpr (by decide)
    obtain ⟨hspans, pieces, hpieces, hcalls⟩ := split_keeps_calls hb (by decide) hp
    exact ⟨nodes, pieces, rfl, hcut, cutAt_iff.mpr (by decide), hspans 14 hcut, hpieces, hcalls⟩

end Argument

end SigilScript
