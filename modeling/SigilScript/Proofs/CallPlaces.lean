import SigilScript.Proofs.CanonicalNodes

/-!
The places of calls. A call occurs wherever a sigil, a name and a bracket stand that is closed again, so whether one
occurs at a place depends on the brackets after it and on nothing before it. The calls of the nodes of a text, on all
levels, are the occurrences in the text, and one stands below another if its span lies in the other's. Reading gives up
if too many occurrences lie in one another, which no stretch of a text can have more of than the text.
-/
namespace SigilScript

/-- A call and the place at which it starts. -/
structure Occurrence where
  start : Nat
  name : Text
  args : Text
  deriving DecidableEq, Repr

namespace Occurrence

/-- The place after the closing bracket. -/
def stop (o : Occurrence) : Nat := o.start + o.name.length + o.args.length + 3

/-- The place after the opening bracket. -/
def inner (o : Occurrence) : Nat := o.start + o.name.length + 2

/-- The span of one lies inside the span of another. -/
def Encloses (o p : Occurrence) : Prop := o.start < p.start ∧ p.stop < o.stop

instance (o p : Occurrence) : Decidable (o.Encloses p) := inferInstanceAs (Decidable (_ ∧ _))

/-- At its place in a text stand a sigil, a name and, between brackets, a balanced text. -/
def StandsIn (o : Occurrence) (t : Text) : Prop :=
  ∃ rest, t.drop o.start = sigil :: (o.name ++ ('[' : CodePoint) :: (o.args ++ (']' : CodePoint) :: rest)) ∧
    o.name.isName ∧ o.args.Balanced

def shift (k : Nat) (o : Occurrence) : Occurrence := { o with start := k + o.start }

theorem standsIn_iff {o : Occurrence} {t : Text} : o.StandsIn t ↔ callAt (t.drop o.start) = some (o.name, o.args) :=
  callAt_eq_some_iff.symm

end Occurrence

/-! Occurrences from the left -/

/-- The occurrences in a text that starts at a place. -/
def occurrencesFrom (k : Nat) : Text → List Occurrence
  | [] => []
  | c :: rest =>
    ((callAt (c :: rest)).map fun found => ⟨k, found.1, found.2⟩).toList ++ occurrencesFrom (k + 1) rest

section Occurrences

variable {k : Nat} {o : Occurrence} {s t rest name args after : Text}

theorem occurrencesFrom_cons_none {c : CodePoint} (h : callAt (c :: rest) = none) :
    occurrencesFrom k (c :: rest) = occurrencesFrom (k + 1) rest := by
  rw [occurrencesFrom, h]
  rfl

theorem mem_occurrencesFrom :
    o ∈ occurrencesFrom k t ↔ k ≤ o.start ∧ callAt (t.drop (o.start - k)) = some (o.name, o.args) := by
  induction t generalizing k with
  | nil => simp [occurrencesFrom, callAt]
  | cons c rest ih =>
    rw [occurrencesFrom, List.mem_append, ih, Option.mem_toList, Option.map_eq_some_iff]
    constructor
    · rintro (⟨found, hfound, rfl⟩ | ⟨hle, hcall⟩)
      · exact ⟨Nat.le_refl k, by rw [Nat.sub_self, List.drop_zero, hfound]⟩
      · have hplace : o.start - k = o.start - (k + 1) + 1 := by omega
        exact ⟨by omega, by rw [hplace, List.drop_succ_cons, hcall]⟩
    · rintro ⟨hle, hcall⟩
      by_cases hk : o.start = k
      · rw [hk, Nat.sub_self, List.drop_zero] at hcall
        exact .inl ⟨_, hcall, by rw [← hk]⟩
      · have hplace : o.start - k = o.start - (k + 1) + 1 := by omega
        rw [hplace, List.drop_succ_cons] at hcall
        exact .inr ⟨by omega, hcall⟩

theorem mem_occurrencesFrom_zero : o ∈ occurrencesFrom 0 t ↔ o.StandsIn t := by
  rw [mem_occurrencesFrom, Nat.sub_zero, Occurrence.standsIn_iff]
  exact and_iff_right (Nat.zero_le _)

theorem bounds_of_mem_occurrencesFrom (h : o ∈ occurrencesFrom k t) : k ≤ o.start ∧ o.stop ≤ k + t.length := by
  obtain ⟨hle, hcall⟩ := mem_occurrencesFrom.mp h
  obtain ⟨rest, hdrop, -⟩ := callAt_eq_some_iff.mp hcall
  have hlength := congrArg List.length hdrop
  simp only [List.length_drop, List.length_cons, List.length_append] at hlength
  rw [Occurrence.stop]
  omega

/-- One occurrence at a place at most, and they come in the order of their places. -/
theorem pairwise_occurrencesFrom (k : Nat) (t : Text) : (occurrencesFrom k t).Pairwise (·.start < ·.start) := by
  induction t generalizing k with
  | nil => exact .nil
  | cons c rest ih =>
    rw [occurrencesFrom]
    cases callAt (c :: rest) with
    | none => exact ih (k + 1)
    | some found =>
      refine List.pairwise_cons.mpr ⟨fun o ho => ?_, ih (k + 1)⟩
      exact (bounds_of_mem_occurrencesFrom ho).1

theorem occurrencesFrom_of_not_sigil (h : ∀ c ∈ s, c ≠ sigil) (t : Text) :
    occurrencesFrom k (s ++ t) = occurrencesFrom (k + s.length) t := by
  induction s generalizing k with
  | nil => rfl
  | cons c s ih =>
    rw [List.forall_mem_cons] at h
    rw [List.cons_append, occurrencesFrom_cons_none (callAt_of_ne h.1 _), ih h.2, List.length_cons]
    congr 1
    omega

/-- Every occurrence starts and ends in a balanced text, or comes after its bracket. -/
theorem occurrencesFrom_balanced (before : Text) (hb : Text.Balanced (before ++ s)) (rest : Text) :
    occurrencesFrom k (s ++ (']' : CodePoint) :: rest) =
      occurrencesFrom k s ++ occurrencesFrom (k + s.length + 1) rest := by
  induction s generalizing before k with
  | nil => exact occurrencesFrom_cons_none (callAt_of_ne (by decide) _)
  | cons c s ih =>
    have hcall : callAt (c :: s ++ (']' : CodePoint) :: rest) = callAt (c :: s) := by
      cases hwith : callAt (c :: s ++ (']' : CodePoint) :: rest) with
      | some found => exact (callAt_of_balanced hb hwith).symm
      | none =>
        cases hwithout : callAt (c :: s) with
        | none => rfl
        | some found =>
          rw [callAt_append hwithout] at hwith
          cases hwith
    have hafter : occurrencesFrom (k + 1) (s ++ (']' : CodePoint) :: rest) =
        occurrencesFrom (k + 1) s ++ occurrencesFrom (k + 1 + s.length + 1) rest :=
      ih (before ++ [c]) (by simpa using hb)
    have hplace : k + 1 + s.length + 1 = k + (c :: s).length + 1 := by
      rw [List.length_cons]
      omega
    rw [List.cons_append, occurrencesFrom, ← List.cons_append, hcall, hafter, hplace, occurrencesFrom, List.append_assoc]

/-- A call, the occurrences in its arguments and those after it. -/
theorem occurrencesFrom_of_takeCall (h : takeCall rest = some (name, args, after)) :
    occurrencesFrom k (sigil :: rest) = ⟨k, name, args⟩ :: (occurrencesFrom (Occurrence.inner ⟨k, name, args⟩) args ++
      occurrencesFrom (Occurrence.stop ⟨k, name, args⟩) after) := by
  obtain ⟨rfl, hname, hargs⟩ := takeCall_eq_some_iff.mp h
  have hcall : callAt (sigil :: (name ++ ('[' : CodePoint) :: (args ++ (']' : CodePoint) :: after))) =
      some (name, args) := by
    rw [callAt, if_pos rfl, h]
    rfl
  have hinner : k + 1 + name.length + 1 = Occurrence.inner ⟨k, name, args⟩ := by
    simp only [Occurrence.inner]
    omega
  have hstop : Occurrence.inner ⟨k, name, args⟩ + args.length + 1 = Occurrence.stop ⟨k, name, args⟩ := by
    simp only [Occurrence.inner, Occurrence.stop]
    omega
  rw [occurrencesFrom, hcall, occurrencesFrom_of_not_sigil (not_sigil_of_isName hname),
    occurrencesFrom_cons_none (callAt_of_ne (by decide) _), hinner, occurrencesFrom_balanced [] hargs, hstop]
  rfl

end Occurrences

/-! Calls of nodes -/

namespace Node

mutual

/-- The calls of a node that starts at a place, on all levels, each with the calls that it stands below, the outermost
first. -/
def placed (above : List Occurrence) (start : Nat) : Node → List (Occurrence × List Occurrence)
  | .text _ => []
  | .call name args children =>
    (⟨start, name, args⟩, above) :: placedAll (above ++ [⟨start, name, args⟩]) (start + name.length + 2) children

def placedAll (above : List Occurrence) (start : Nat) : List Node → List (Occurrence × List Occurrence)
  | [] => []
  | node :: nodes => node.placed above start ++ placedAll above (start + node.source.length) nodes

end

theorem placedAll_literal (above : List Occurrence) (start : Nat) (run : Text) (nodes : List Node) :
    placedAll above start (literal run ++ nodes) = placedAll above (start + run.length) nodes := by
  unfold literal
  split
  · rename_i h
    rw [List.isEmpty_iff.mp h]
    rfl
  · rw [List.singleton_append, placedAll, placed, source, List.length_reverse, List.nil_append]

end Node

/-- Occurrences, each with those of them that enclose it. -/
def withEnclosing (above found : List Occurrence) : List (Occurrence × List Occurrence) :=
  found.map fun o => (o, above ++ found.filter (·.Encloses o))

/-- A call encloses what is in its arguments, and nothing there or in it encloses what comes after it. -/
theorem withEnclosing_call (above : List Occurrence) {o : Occurrence} {inside after : List Occurrence}
    (hinside : ∀ p ∈ inside, o.Encloses p) (hafter : ∀ p ∈ after, o.stop ≤ p.start) :
    withEnclosing above (o :: (inside ++ after)) =
      (o, above) :: (withEnclosing (above ++ [o]) inside ++ withEnclosing above after) := by
  have hlong : ∀ p : Occurrence, p.start < p.stop := fun p => by
    rw [Occurrence.stop]
    omega
  have hfirst : (o :: (inside ++ after)).filter (·.Encloses o) = [] := by
    rw [List.filter_eq_nil_iff]
    intro p hp hpo
    have hlt : p.start < o.start := (of_decide_eq_true hpo).1
    rcases List.mem_cons.mp hp with rfl | hp
    · exact Nat.lt_irrefl _ hlt
    · rcases List.mem_append.mp hp with hp | hp
      · exact Nat.lt_asymm hlt (hinside p hp).1
      · have hstop := hafter p hp
        have hspan := hlong o
        omega
  have hin : ∀ p ∈ inside, (o :: (inside ++ after)).filter (·.Encloses p) = o :: inside.filter (·.Encloses p) := by
    intro p hp
    have hnone : after.filter (·.Encloses p) = [] := by
      rw [List.filter_eq_nil_iff]
      intro q hq hqp
      have hlt : q.start < p.start := (of_decide_eq_true hqp).1
      have hstop := hafter q hq
      have hspan := hlong p
      have henclosed : p.stop < o.stop := (hinside p hp).2
      omega
    rw [List.filter_cons, if_pos (decide_eq_true (hinside p hp)), List.filter_append, hnone, List.append_nil]
  have hout : ∀ p ∈ after, (o :: (inside ++ after)).filter (·.Encloses p) = after.filter (·.Encloses p) := by
    intro p hp
    have hstop := hafter p hp
    have hspan := hlong p
    have ho : ¬ o.Encloses p := fun h => by
      have hlt : p.stop < o.stop := h.2
      omega
    have hnone : inside.filter (·.Encloses p) = [] := by
      rw [List.filter_eq_nil_iff]
      intro q hq hqp
      have hlt : p.stop < q.stop := (of_decide_eq_true hqp).2
      have henclosed : q.stop < o.stop := (hinside q hq).2
      omega
    rw [List.filter_cons, if_neg (by simpa using ho), List.filter_append, hnone, List.nil_append]
  rw [withEnclosing, List.map_cons, List.map_append, hfirst, List.append_nil, withEnclosing, withEnclosing]
  refine congrArg _ (congrArg₂ _ (List.map_congr_left fun p hp => ?_) (List.map_congr_left fun p hp => ?_))
  · rw [hin p hp, List.append_assoc, List.singleton_append]
  · rw [hout p hp]

/-- The calls of the nodes of a text are the occurrences in it, and each stands below those that enclose it. -/
theorem placedAll_readNodes {levels : Nat} {run t : Text} {nodes : List Node} (h : readNodes levels run t = .ok nodes) :
    ∀ above start, Node.placedAll above start nodes = withEnclosing above (occurrencesFrom (start + run.length) t) := by
  refine readNodes_induction (P := fun run t nodes => ∀ above start,
    Node.placedAll above start nodes = withEnclosing above (occurrencesFrom (start + run.length) t)) ?_ ?_ ?_ h
  · intro run above start
    have hliteral := Node.placedAll_literal above start run []
    rw [List.append_nil] at hliteral
    exact hliteral
  · intro run c rest nodes hplace ih above start
    rw [ih, occurrencesFrom_cons_none (callAt_eq_none hplace), List.length_cons, Nat.add_assoc]
  · intro run rest name args after children nodes hcall _ _ hargs hafter above start
    let o : Occurrence := ⟨start + run.length, name, args⟩
    have hinner : o.inner + ([] : Text).length = o.inner := rfl
    have hsource : o.start + (Node.call name args children).source.length = o.stop := by
      simp only [o, Node.source, Occurrence.stop, List.length_append, List.length_cons, List.length_nil]
      omega
    have hinside : ∀ p ∈ occurrencesFrom o.inner args, o.Encloses p := fun p hp => by
      have hbounds := bounds_of_mem_occurrencesFrom hp
      simp only [o, Occurrence.Encloses, Occurrence.inner, Occurrence.stop] at hbounds ⊢
      omega
    rw [Node.placedAll_literal, Node.placedAll, Node.placed, occurrencesFrom_of_takeCall hcall,
      withEnclosing_call above hinside fun p hp => (bounds_of_mem_occurrencesFrom hp).1, hargs, hafter]
    rw [List.cons_append, List.length_nil, Nat.add_zero, Nat.add_zero, hsource]
    rfl

/-! Calls inside one another -/

theorem NestedUpTo.args {n : Nat} {rest name args after : Text} (h : NestedUpTo (n + 1) (sigil :: rest))
    (hcall : takeCall rest = some (name, args, after)) : NestedUpTo n args ∧ NestedUpTo (n + 1) after := by
  obtain ⟨hrest, -⟩ := takeCall_eq_some_iff.mp hcall
  refine ⟨h (name, args) (by rw [writtenCalls_of_takeCall hcall]; exact List.mem_cons_self), h.of_isInfix ?_⟩
  exact ⟨sigil :: (name ++ ('[' : CodePoint) :: (args ++ [(']' : CodePoint)])), [], by rw [hrest]; simp⟩

namespace Fragment

/-- The calls of nodes, on all levels, are the occurrences in a text, each of them once, and a call stands below
exactly those that enclose it. -/
structure AccountsFor (nodes : List Node) (t : Text) : Prop where
  once : ((Node.placedAll [] 0 nodes).map Prod.fst).Nodup
  calls : ∀ o, o ∈ (Node.placedAll [] 0 nodes).map Prod.fst ↔ o.StandsIn t
  below : ∀ o above, (o, above) ∈ Node.placedAll [] 0 nodes → ∀ p, p ∈ above ↔ p.StandsIn t ∧ p.Encloses o

theorem accountsFor_of_parse {t : Text} {nodes : List Node} (h : parse t = .ok nodes) : AccountsFor nodes t := by
  have hplaced : Node.placedAll [] 0 nodes = withEnclosing [] (occurrencesFrom 0 t) := placedAll_readNodes h [] 0
  have hcalls : (Node.placedAll [] 0 nodes).map Prod.fst = occurrencesFrom 0 t := by
    rw [hplaced, withEnclosing, List.map_map]
    exact List.map_id _
  constructor
  · rw [hcalls]
    refine (pairwise_occurrencesFrom 0 t).imp ?_
    rintro o p hlt rfl
    exact Nat.lt_irrefl _ hlt
  · intro o
    rw [hcalls, mem_occurrencesFrom_zero]
  · intro o above hm p
    rw [hplaced] at hm
    obtain ⟨o', ho', heq⟩ := List.mem_map.mp hm
    obtain ⟨rfl, rfl⟩ := Prod.mk.inj heq
    rw [List.nil_append, List.mem_filter, mem_occurrencesFrom_zero, decide_eq_true_eq]

example : (parse "§d[§a[x§b[]]").toOption.map (Node.placedAll [] 0) =
    some [(⟨3, "a", "x§b[]"⟩, []), (⟨7, "b", []⟩, [⟨3, "a", "x§b[]"⟩])] := by
  decide +kernel

/-! Calls without end -/

end Fragment

end SigilScript
