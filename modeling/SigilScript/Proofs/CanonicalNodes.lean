import SigilScript.Proofs.WrittenCalls
import Mathlib.Data.List.Chain

/-!
The form of the nodes that are read from a text. Written one after the other they are the text again; a call has the
nodes of its arguments below it, however deep it stands itself; and literal text is as long as it can be: no text node is
empty, none comes after another, and none would be read as anything else if it stood alone.
-/
namespace SigilScript

namespace Node

def isCall : Node → Bool
  | .text _ => false
  | .call .. => true

theorem depth_eq_zero {node : Node} (h : node.isCall = false) : node.depth = 0 := by
  cases node with
  | text value => rw [depth]
  | call name args children => cases h

/-- Only the calls among some nodes have a depth. -/
theorem maxDepth_eq (nodes : List Node) : maxDepth nodes = ((nodes.filter isCall).map depth).foldr max 0 := by
  induction nodes with
  | nil => rw [maxDepth]; rfl
  | cons node nodes ih =>
    rw [maxDepth, ih, List.filter_cons]
    split
    · rw [List.map_cons, List.foldr_cons]
    · rename_i h
      rw [depth_eq_zero (Bool.eq_false_iff.mpr h), Nat.zero_max]

end Node

/-! Steps of reading -/

/-- The places of a text, and the texts in the arguments of a call and after it. -/
theorem call_induction {motive : Text → Prop} (nil : motive [])
    (place : ∀ c rest, (c = sigil → takeCall rest = none) → motive rest → motive (c :: rest))
    (call : ∀ rest name args after, takeCall rest = some (name, args, after) → motive args → motive after →
      motive (sigil :: rest)) (t : Text) : motive t := by
  induction hlength : t.length using Nat.strongRecOn generalizing t with
  | ind n ih =>
    subst hlength
    cases t with
    | nil => exact nil
    | cons c rest =>
      by_cases hplace : c = sigil → takeCall rest = none
      · exact place c rest hplace (ih rest.length (Nat.lt_succ_self _) rest rfl)
      · obtain ⟨rfl, hcall⟩ := Classical.not_imp.mp hplace
        obtain ⟨⟨name, args, after⟩, hcall⟩ := Option.ne_none_iff_exists'.mp hcall
        obtain ⟨hargs, hafter⟩ := takeCall_length hcall
        exact call rest name args after hcall (ih _ (Nat.lt_succ_of_lt hargs) args rfl)
          (ih _ (Nat.lt_succ_of_lt hafter) after rfl)

section Steps

variable {levels : Nat} {run t rest name args after : Text} {nodes : List Node}

theorem readNodes_place {c : CodePoint} (h : c = sigil → takeCall rest = none) :
    readNodes levels run (c :: rest) = readNodes levels (c :: run) rest := by
  rw [readNodes]
  split
  · rename_i hc
    split
    · rfl
    · rename_i hcall
      rw [h hc] at hcall
      cases hcall
  · rfl

/-- A call below the last level. -/
theorem readNodes_call_zero (h : takeCall rest = some (name, args, after)) :
    readNodes 0 run (sigil :: rest) = .error .recursionLimit := by
  rw [readNodes, if_pos rfl]
  split
  · rename_i hnone
    rw [h] at hnone
    cases hnone
  · rfl

/-- A call: its arguments are read one level down, and then what comes after it. -/
theorem readNodes_call (h : takeCall rest = some (name, args, after)) :
    readNodes (levels + 1) run (sigil :: rest) = (readNodes levels [] args).bind fun children =>
      if maxNesting < 1 + Node.maxDepth children then .error .nestingTooDeep
      else (readNodes (levels + 1) [] after).map fun nodes => literal run ++ .call name args children :: nodes := by
  rw [readNodes, if_pos rfl]
  split
  · rename_i hnone
    rw [h] at hnone
    cases hnone
  · rename_i hcall
    rw [h] at hcall
    cases hcall
    rw [if_neg (Nat.succ_ne_zero levels), Nat.add_sub_cancel]
    cases readNodes levels [] args <;> rfl

/-- Reading gives the same nodes wherever there are levels enough for them. -/
theorem readNodes_of_levels (h : readNodes levels run t = .ok nodes) :
    ∀ levels', Node.maxDepth nodes ≤ levels' → readNodes levels' run t = .ok nodes := by
  refine readNodes_induction
    (P := fun run t nodes => ∀ levels', Node.maxDepth nodes ≤ levels' → readNodes levels' run t = .ok nodes) ?_ ?_ ?_ h
  · intro run levels' _
    rw [readNodes]
  · intro run c rest nodes hplace ih levels' hle
    rw [readNodes_place hplace, ih levels' hle]
  · intro run rest name args after children nodes hcall _ hdepth hargs hafter levels' hle
    rw [Node.maxDepth_append, maxDepth_literal, Node.maxDepth, Node.depth] at hle
    obtain ⟨levels', rfl⟩ : ∃ below, levels' = below + 1 := ⟨levels' - 1, by omega⟩
    rw [readNodes_call hcall, hargs levels' (by omega), hafter (levels' + 1) (by omega)]
    simp only [Except.bind, if_neg (Nat.not_lt.mpr hdepth)]
    rfl

theorem maxNesting_le_maxRecursion : maxNesting ≤ maxRecursion := by decide

theorem parse_of_readNodes (h : readNodes levels [] t = .ok nodes) : Fragment.parse t = .ok nodes :=
  readNodes_of_levels h maxRecursion ((maxDepth_readNodes h).trans maxNesting_le_maxRecursion)

/-- A text without calls is one run. -/
theorem readNodes_of_no_calls (h : writtenCalls t = []) : readNodes levels run t = .ok (literal (t.reverse ++ run)) := by
  induction t generalizing run with
  | nil => rw [readNodes]; rfl
  | cons c t ih =>
    rw [writtenCalls, List.append_eq_nil_iff, Option.toList_eq_nil_iff] at h
    have hplace : c = sigil → takeCall t = none := by
      rintro rfl
      rw [callAt, if_pos rfl, Option.map_eq_none_iff] at h
      exact h.1
    rw [readNodes_place hplace, ih h.2]
    simp

theorem parse_of_no_calls (h : writtenCalls t = []) (hne : t ≠ []) : Fragment.parse t = .ok [.text t] := by
  rw [Fragment.parse, readNodes_of_no_calls h, List.append_nil, literal, if_neg (by simpa using hne),
    List.reverse_reverse]

end Steps

/-! Nodes of one level -/

theorem mem_literal {run : Text} {node : Node} (h : node ∈ literal run) : node = .text run.reverse ∧ run ≠ [] := by
  unfold literal at h
  split at h
  · cases h
  · rename_i hne
    exact ⟨List.mem_singleton.mp h, by simpa using hne⟩

section Level

variable {levels : Nat} {run t : Text} {nodes : List Node}

/-- The nodes of a call are those of its arguments, read as a text of their own. -/
theorem call_of_mem_readNodes (h : readNodes levels run t = .ok nodes) : ∀ name args children,
    .call name args children ∈ nodes → name.isName ∧ args.Balanced ∧ Fragment.parse args = .ok children := by
  refine readNodes_induction (P := fun _ _ nodes => ∀ name args children, .call name args children ∈ nodes →
    name.isName ∧ args.Balanced ∧ Fragment.parse args = .ok children) ?_ ?_ ?_ h
  · intro run name args children hm
    exact absurd (mem_literal hm).1 nofun
  · intro run c rest nodes _ ih
    exact ih
  · intro run rest name args after children nodes hcall hread _ _ ih name' args' children' hm
    rcases List.mem_append.mp hm with hm | hm
    · exact absurd (mem_literal hm).1 nofun
    · rcases List.mem_cons.mp hm with hm | hm
      · cases hm
        obtain ⟨-, hname, hargs⟩ := takeCall_eq_some_iff.mp hcall
        exact ⟨hname, hargs, hread.elim fun _ hread => parse_of_readNodes hread⟩
      · exact ih name' args' children' hm

/-- No call starts in a run that stands before a text. -/
def NoCallIn (run t : Text) : Prop := ∀ s, s <:+ run.reverse → s ≠ [] → callAt (s ++ t) = none

theorem NoCallIn.writtenCalls_eq (h : NoCallIn run t) : writtenCalls run.reverse = [] := by
  refine List.eq_nil_iff_forall_not_mem.mpr fun w hw => ?_
  obtain ⟨before, s, hs, hcall⟩ := mem_writtenCalls.mp hw
  have hne : s ≠ [] := by
    rintro rfl
    cases hcall
  have hnone := h s ⟨before, hs.symm⟩ hne
  rw [callAt_append hcall t] at hnone
  cases hnone

theorem NoCallIn.place {c : CodePoint} {rest : Text} (h : NoCallIn run (c :: rest))
    (hplace : c = sigil → takeCall rest = none) : NoCallIn (c :: run) rest := by
  intro s hs hne
  rw [List.reverse_cons] at hs
  rcases List.suffix_concat_iff.mp hs with rfl | ⟨before, rfl, hbefore⟩
  · exact absurd rfl hne
  · rw [List.append_assoc, List.singleton_append]
    by_cases hnil : before = []
    · subst hnil
      exact callAt_eq_none hplace
    · exact h before hbefore hnil

/-- A run of literal text is not empty and has no call in it, whether others follow in the text or not. -/
theorem text_of_mem_readNodes (h : readNodes levels run t = .ok nodes) (hrun : NoCallIn run t) :
    ∀ value, .text value ∈ nodes → value ≠ [] ∧ writtenCalls value = [] := by
  refine readNodes_induction (P := fun run t nodes => NoCallIn run t → ∀ value, .text value ∈ nodes →
    value ≠ [] ∧ writtenCalls value = []) ?_ ?_ ?_ h hrun
  · intro run hrun value hm
    obtain ⟨hvalue, hne⟩ := mem_literal hm
    cases hvalue
    exact ⟨by simpa using hne, hrun.writtenCalls_eq⟩
  · intro run c rest nodes hplace ih hrun
    exact ih (hrun.place hplace)
  · intro run rest name args after children nodes _ _ _ _ ih hrun value hm
    rcases List.mem_append.mp hm with hm | hm
    · obtain ⟨hvalue, hne⟩ := mem_literal hm
      cases hvalue
      exact ⟨by simpa using hne, hrun.writtenCalls_eq⟩
    · rcases List.mem_cons.mp hm with hm | hm
      · cases hm
      · refine ih ?_ value hm
        intro s hs hne
        exact absurd (List.suffix_nil.mp hs) hne

/-- Between two texts there is a call. -/
theorem isChain_readNodes (h : readNodes levels run t = .ok nodes) :
    nodes.IsChain fun a b => a.isCall ∨ b.isCall := by
  refine readNodes_induction (P := fun _ _ nodes => nodes.IsChain fun a b => a.isCall ∨ b.isCall) ?_ ?_ ?_ h
  · intro run
    unfold literal
    split
    · exact .nil
    · exact .singleton _
  · intro run c rest nodes _ ih
    exact ih
  · intro run rest name args after children nodes _ _ _ _ ih
    have hcall : (Node.call name args children :: nodes).IsChain fun a b => a.isCall ∨ b.isCall := by
      cases nodes with
      | nil => exact .singleton _
      | cons node nodes => exact .cons_cons (.inl rfl) ih
    unfold literal
    split
    · exact hcall
    · exact .cons_cons (.inr rfl) hcall

end Level

/-! All levels -/

namespace Fragment

/-- The nodes of a text in the form that reading gives them. -/
structure Canonical (t : Text) (nodes : List Node) : Prop where
  lossless : nodes.flatMap Node.source = t
  source : ∀ name args children, .call name args children ∈ nodes →
    (Node.call name args children).source = sigil :: (name ++ ('[' : CodePoint) :: (args ++ [(']' : CodePoint)]))
  call : ∀ name args children, .call name args children ∈ nodes → name.isName ∧ args.Balanced ∧ parse args = .ok children
  depth : ∀ name args children, .call name args children ∈ nodes →
    (Node.call name args children).depth = 1 + ((children.filter Node.isCall).map Node.depth).foldr max 0
  text : ∀ value, .text value ∈ nodes → value ≠ [] ∧ parse value = .ok [.text value]
  apart : nodes.IsChain fun a b => a.isCall ∨ b.isCall

/-- The text and the nodes of a level: those of the fragment, or the arguments of a call of another level and the nodes
below it. -/
inductive Level (t : Text) (nodes : List Node) : Text → List Node → Prop
  | top : Level t nodes t nodes
  | nested {u name args : Text} {us children : List Node} (h : Level t nodes u us)
      (hm : .call name args children ∈ us) : Level t nodes args children

theorem canonical_of_parse {t : Text} {nodes : List Node} (h : parse t = .ok nodes) : Canonical t nodes where
  lossless := readNodes_source h
  source name args children _ := by simp [Node.source]
  call := call_of_mem_readNodes h
  depth name args children _ := by rw [Node.depth, Node.maxDepth_eq]
  text value hm := by
    have hrun : NoCallIn [] t := fun s hs hne => absurd (List.suffix_nil.mp hs) hne
    obtain ⟨hne, hcalls⟩ := text_of_mem_readNodes h hrun value hm
    exact ⟨hne, parse_of_no_calls hcalls hne⟩
  apart := isChain_readNodes h

/-- On every level the nodes that are read from a text are in their form: nothing of the text is lost, a call is a sigil,
a name and its arguments in brackets, with the nodes of the arguments below it, and literal text stands alone. -/
theorem canonical_levels {t : Text} {nodes : List Node} (h : parse t = .ok nodes) {u : Text} {us : List Node}
    (hl : Level t nodes u us) : Canonical u us := by
  have hparse : parse u = .ok us := by
    induction hl with
    | top => exact h
    | nested _ hm ih => exact ((canonical_of_parse ih).call _ _ _ hm).2.2
  exact canonical_of_parse hparse

/-- A bracket that is never closed, with a complete call after it, and the level inside of that. -/
theorem canonical_levels_unclosed :
    let t : Text := "§d[ x§a[§b[1]y]z"
    let u : Text := "§b[1]y"
    ∃ nodes us, parse t = .ok nodes ∧ Level t nodes u us ∧ Canonical u us := by
  intro t u
  have hfound : ((parse t).toOption.bind fun nodes => nodes[1]?.bind fun
      | .call _ args _ => some args
      | .text _ => none) = some u := by
    decide +kernel
  obtain ⟨nodes, hnodes, hfound⟩ := Option.bind_eq_some_iff.mp hfound
  obtain ⟨node, hnode, hargs⟩ := Option.bind_eq_some_iff.mp hfound
  have hparse : parse t = .ok nodes := by
    cases h : parse t with
    | error e =>
      rw [h] at hnodes
      cases hnodes
    | ok found =>
      rw [h] at hnodes
      exact congrArg Except.ok (Option.some.inj hnodes)
  cases node with
  | text value => cases hargs
  | call name args us =>
    obtain rfl : args = u := Option.some.inj hargs
    have hlevel : Level t nodes u us := .nested .top (List.mem_of_getElem? hnode)
    exact ⟨nodes, us, hparse, hlevel, canonical_levels hparse hlevel⟩

end Fragment

end SigilScript
