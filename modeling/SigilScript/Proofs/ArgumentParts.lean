import SigilScript.Proofs.StoredContent
import Mathlib.Data.List.Induction

/-!
The arguments of a text and its separators. A separator stands where no bracket and no quote is open, so what comes
after it is cut as a text of its own. The text before the first separator is one argument, and the arguments of the
rest follow: the facts here go by induction over the separators, from the first one on.
-/
namespace SigilScript.Argument

/-! Separators -/

/-- What surrounds a place of a text. -/
def nestingAt (t : Text) (i : Nat) : Nesting := (t.take i).foldl Nesting.next .outside

/-- A semicolon at a place where no bracket and no quote is open. -/
def IsSeparator (t : Text) (i : Nat) : Prop := t[i]? = some (';' : CodePoint) ∧ nestingAt t i = .outside

instance (t : Text) (i : Nat) : Decidable (IsSeparator t i) := inferInstanceAs (Decidable (_ ∧ _))

/-- The places of the separators, from the left. -/
def separators (t : Text) : List Nat := (List.range t.length).filter (IsSeparator t ·)

/-- Where the arguments of a text start: at its start, and after each separator. -/
def starts (t : Text) : List Nat := 0 :: (separators t).map (· + 1)

theorem nestingAt_append_left {p : Text} {i : Nat} (h : i ≤ p.length) (r : Text) :
    nestingAt (p ++ r) i = nestingAt p i := by
  rw [nestingAt, nestingAt, List.take_append_of_le_length h]

theorem nestingAt_length (p : Text) : nestingAt p p.length = p.foldl Nesting.next .outside := by
  rw [nestingAt, List.take_length]

theorem isSeparator_append_left {p : Text} {i : Nat} (h : i < p.length) (r : Text) :
    IsSeparator (p ++ r) i ↔ IsSeparator p i := by
  rw [IsSeparator, IsSeparator, nestingAt_append_left (Nat.le_of_lt h), List.getElem?_append_left h]

/-- After a text that leaves nothing open, separators stand where they would without it. -/
theorem isSeparator_append_right {p : Text} (h : p.foldl Nesting.next .outside = .outside) (r : Text) (i : Nat) :
    IsSeparator (p ++ r) (p.length + i) ↔ IsSeparator r i := by
  have hplace : nestingAt (p ++ r) (p.length + i) = nestingAt r i := by
    rw [nestingAt, List.take_length_add_append, List.foldl_append, h, nestingAt]
  rw [IsSeparator, IsSeparator, hplace, List.getElem?_append_right (Nat.le_add_right _ _), Nat.add_sub_cancel_left]

theorem separators_append {p : Text} (h : p.foldl Nesting.next .outside = .outside) (r : Text) :
    separators (p ++ r) = separators p ++ (separators r).map (p.length + ·) := by
  rw [separators, List.length_append, List.range_add, List.filter_append, List.filter_map]
  refine congrArg₂ (· ++ ·) (List.filter_congr fun i hi => ?_) (congrArg _ (List.filter_congr fun i _ => ?_))
  · rw [decide_eq_decide]
    exact isSeparator_append_left (List.mem_range.mp hi) r
  · rw [Function.comp_apply, decide_eq_decide]
    exact isSeparator_append_right h r i

/-- A text before a separator, with none in it. -/
structure Leads (p : Text) : Prop where
  uncut : separators p = []
  closed : p.foldl Nesting.next .outside = .outside

theorem Leads.closed_semicolon {p : Text} (h : Leads p) :
    (p ++ [(';' : CodePoint)]).foldl Nesting.next .outside = .outside := by
  rw [List.foldl_append, h.closed]
  rfl

theorem Leads.separators_eq {p : Text} (h : Leads p) (rest : Text) :
    separators (p ++ (';' : CodePoint) :: rest) = p.length :: (separators rest).map (p.length + 1 + ·) := by
  have hfirst : separators (p ++ [(';' : CodePoint)]) = [p.length] := by
    rw [separators_append h.closed, h.uncut]
    rfl
  have hsplit : p ++ (';' : CodePoint) :: rest = (p ++ [(';' : CodePoint)]) ++ rest := by simp
  rw [hsplit, separators_append h.closed_semicolon, hfirst, List.length_append]
  rfl

theorem Leads.starts_eq {p : Text} (h : Leads p) (rest : Text) :
    starts (p ++ (';' : CodePoint) :: rest) = 0 :: (starts rest).map (p.length + 1 + ·) := by
  rw [starts, h.separators_eq, starts, List.map_cons, List.map_cons, List.map_map, List.map_map]
  rfl

theorem mem_separators {t : Text} {i : Nat} : i ∈ separators t ↔ IsSeparator t i := by
  rw [separators, List.mem_filter, List.mem_range, decide_eq_true_eq]
  refine and_iff_right_of_imp fun h => ?_
  exact (List.getElem?_eq_some_iff.mp h.1).1

/-- Every text either has no separator, or is a text without any, a separator and another text. -/
theorem separator_induction {motive : Text → Prop} (last : ∀ t, separators t = [] → motive t)
    (more : ∀ p rest, Leads p → motive rest → motive (p ++ (';' : CodePoint) :: rest)) (t : Text) : motive t := by
  induction hlength : t.length using Nat.strongRecOn generalizing t with
  | ind n ih =>
    subst hlength
    cases hfirst : separators t with
    | nil => exact last t hfirst
    | cons i others =>
      have hi : IsSeparator t i := mem_separators.mp (hfirst ▸ List.mem_cons_self)
      obtain ⟨hlt, hat⟩ := List.getElem?_eq_some_iff.mp hi.1
      have hsplit : t = t.take i ++ (';' : CodePoint) :: t.drop (i + 1) := by
        rw [← hat, ← List.drop_eq_getElem_cons hlt, List.take_append_drop]
      have hleads : Leads (t.take i) := by
        refine ⟨List.eq_nil_iff_forall_not_mem.mpr fun j hj => ?_, hi.2⟩
        have hj : IsSeparator (t.take i) j := mem_separators.mp hj
        have hji : j < (t.take i).length := (List.getElem?_eq_some_iff.mp hj.1).1
        have hjt : j ∈ separators t := by
          rw [mem_separators, hsplit]
          exact (isSeparator_append_left hji _).mpr hj
        -- the places ascend, and this one would be before the first
        have hascending : (separators t).Pairwise (· < ·) := List.pairwise_lt_range.filter _
        rw [hfirst] at hjt hascending
        have hle : i ≤ j := by
          rcases List.mem_cons.mp hjt with rfl | hjt
          · exact Nat.le_refl j
          · exact Nat.le_of_lt ((List.pairwise_cons.mp hascending).1 j hjt)
        rw [List.length_take] at hji
        omega
      rw [hsplit]
      refine more _ _ hleads (ih _ ?_ _ rfl)
      rw [List.length_drop]
      omega

/-! Cutting -/

theorem isQuote_of_foldl {s : Nesting} (h : ∀ q, s.quote = some q → isQuote q) (t : Text) :
    ∀ q, (t.foldl Nesting.next s).quote = some q → isQuote q := by
  induction t generalizing s with
  | nil => exact h
  | cons c t ih => exact ih (isQuote_of_next h c)

theorem separates_nestingAt (t : Text) (i : Nat) (c : CodePoint) :
    separates (nestingAt t i) c ↔ c = ';' ∧ nestingAt t i = .outside := by
  have hquote : ∀ q, (nestingAt t i).quote = some q → isQuote q := isQuote_of_foldl (by nofun) (t.take i)
  constructor
  · intro h
    obtain rfl := eq_of_separates h
    have hnone := quote_of_separates hquote h
    simp only [separates, Bool.and_eq_true, decide_eq_true_eq] at h
    refine ⟨rfl, ?_⟩
    rw [← h.2, Nesting.next, hnone]
    rfl
  · rintro ⟨rfl, h⟩
    rw [h]
    decide

/-- What has no separator is passed over. -/
theorem split_append {p r : Text} (h : separators p = []) :
    split (p ++ r) = splitFrom (p.foldl Nesting.next .outside) p.reverse r := by
  induction p using List.reverseRecOn generalizing r with
  | nil => rfl
  | append_singleton p c ih =>
    have hnone : ∀ i, ¬ IsSeparator (p ++ [c]) i := fun i hi => by
      have hm := mem_separators.mpr hi
      rw [h] at hm
      cases hm
    have hp : separators p = [] := by
      refine List.eq_nil_iff_forall_not_mem.mpr fun i hi => hnone i ?_
      have hi := mem_separators.mp hi
      exact (isSeparator_append_left (List.getElem?_eq_some_iff.mp hi.1).1 [c]).mpr hi
    have hc : ¬ separates (p.foldl Nesting.next .outside) c := by
      rw [← nestingAt_length, separates_nestingAt]
      rintro ⟨rfl, hout⟩
      refine hnone p.length ⟨List.getElem?_concat_length, ?_⟩
      rw [nestingAt_append_left (Nat.le_refl _), hout]
    rw [List.append_assoc, ih hp, List.singleton_append, splitFrom, if_neg hc, List.foldl_append, List.reverse_append]
    rfl

theorem split_of_uncut {t : Text} (h : separators t = []) : split t = if t.isEmpty then [] else [t] := by
  have hs := split_append (r := []) h
  rw [List.append_nil, splitFrom, List.isEmpty_reverse, List.reverse_reverse] at hs
  exact hs

theorem Leads.split_eq {p : Text} (h : Leads p) (rest : Text) :
    split (p ++ (';' : CodePoint) :: rest) = p :: split rest := by
  rw [split_append h.uncut, h.closed, splitFrom, if_pos (by decide), List.reverse_reverse]
  rfl

/-- Each part is cut no further. -/
theorem split_of_mem_split {t p : Text} (hp : p ∈ split t) (hne : p ≠ []) : split p = [p] := by
  have hwhole : ∀ {p : Text}, separators p = [] → p ≠ [] → split p = [p] := fun h hne => by
    rw [split_of_uncut h, if_neg (by simpa using hne)]
  induction t using separator_induction with
  | last t h =>
    rw [split_of_uncut h] at hp
    split at hp
    · cases hp
    · exact hwhole (List.mem_singleton.mp hp ▸ h) hne
  | more q rest h ih =>
    rw [h.split_eq] at hp
    rcases List.mem_cons.mp hp with rfl | hp
    · exact hwhole h.uncut hne
    · exact ih hp

/-- The parts from one on, joined again, are what comes after the separator before it. -/
theorem join_drop_split {t : Text} {k : Nat} (h : k < (split t).length) :
    ∃ start, (starts (Text.join ";" (split t)))[k]? = some start ∧
      Text.join ";" ((split t).drop k) = (Text.join ";" (split t)).drop start := by
  induction t using separator_induction generalizing k with
  | last t hu =>
    have hk : k = 0 := by
      rw [split_of_uncut hu] at h
      split at h
      · cases h
      · exact Nat.lt_one_iff.mp h
    subst hk
    exact ⟨0, rfl, rfl⟩
  | more p rest hp ih =>
    rw [hp.split_eq] at h ⊢
    cases k with
    | zero => exact ⟨0, rfl, rfl⟩
    | succ k =>
      have hk : k < (split rest).length := Nat.lt_of_succ_lt_succ h
      obtain ⟨start, hstart, hjoin⟩ := ih hk
      have hmore : Text.join ";" (p :: split rest) = p ++ (';' : CodePoint) :: Text.join ";" (split rest) := by
        cases hrest : split rest with
        | nil =>
          rw [hrest] at hk
          cases hk
        | cons first others => exact Text.join_cons_cons ";" p first others
      refine ⟨p.length + 1 + start, ?_, ?_⟩
      · rw [hmore, hp.starts_eq, List.getElem?_cons_succ, List.getElem?_map, hstart]
        rfl
      · rw [List.drop_succ_cons, hjoin, hmore, Nat.add_assoc, List.drop_length_add_append, Nat.add_comm 1 start,
          List.drop_succ_cons]

/-- The separator that is left out is one at the last place. -/
theorem withoutLast_eq (t : Text) :
    withoutLast .outside t = if IsSeparator t (t.length - 1) then t.dropLast else t := by
  have hlast : t.getLast?.any (separates (t.dropLast.foldl Nesting.next .outside)) ↔ IsSeparator t (t.length - 1) := by
    have hplace : t.dropLast.foldl Nesting.next .outside = nestingAt t (t.length - 1) := by
      rw [nestingAt, List.dropLast_eq_take]
    rw [hplace, List.getLast?_eq_getElem?, IsSeparator, Option.any_eq_true]
    constructor
    · rintro ⟨c, hc, hs⟩
      obtain ⟨rfl, hout⟩ := (separates_nestingAt _ _ _).mp hs
      exact ⟨hc, hout⟩
    · rintro ⟨hc, hout⟩
      exact ⟨_, hc, (separates_nestingAt _ _ _).mpr ⟨rfl, hout⟩⟩
  rw [withoutLast]
  exact if_congr hlast rfl rfl

/-- Cutting a text loses nothing but a separator at its end. The parts joined again are the text, without that one; the
parts from one on, joined again, are what comes after the separator before it; and no part that is not empty can be
cut further. -/
theorem parts_of_split (a : Text) :
    Text.join ";" (split a) = (if IsSeparator a (a.length - 1) then a.dropLast else a) ∧
      (∀ k < (split a).length, ∃ start, (starts (Text.join ";" (split a)))[k]? = some start ∧
        Text.join ";" ((split a).drop k) = (Text.join ";" (split a)).drop start) ∧
      ∀ p ∈ split a, p ≠ [] → split p = [p] :=
  ⟨(join_split a).trans (withoutLast_eq a), fun _ hk => join_drop_split hk, fun _ hp hne => split_of_mem_split hp hne⟩

/-- Separators in brackets and a bracket in quotes, an empty part, and two separators at the end. -/
theorem parts_of_split_nested :
    let a : Text := "[a;b];;'x]';c;;"
    Text.join ";" (split a) = "[a;b];;'x]';c;" ∧ Text.join ";" ((split a).drop 2) = "'x]';c;" ∧
      split "'x]'" = [Text.ofString "'x]'"] := by
  intro a
  obtain ⟨hjoin, hdrop, hpart⟩ := parts_of_split a
  rw [if_pos (by decide)] at hjoin
  have hjoin : Text.join ";" (split a) = "[a;b];;'x]';c;" := hjoin
  obtain ⟨start, hstart, htail⟩ := hdrop 2 (by decide)
  rw [hjoin] at hstart htail
  obtain rfl : 7 = start := Option.some.inj ((by decide : some 7 = _).trans hstart)
  exact ⟨hjoin, htail, hpart "'x]'" (by decide) (by decide)⟩

end SigilScript.Argument
