import SigilScript.Number.Numeral

/-!
Runs of code points of one class. A run goes on up to the first code point that is not of the class, so it
is found again in a text in which something else follows it. The classes that numbers are made of, and the
blanks around them, are told apart here once for all code points, by comparing the ranges of their tables.
-/
namespace SigilScript

/-! Runs -/

section Run

variable {α : Type} {p : α → Bool} {run rest : List α}

theorem takeWhile_run (hrun : ∀ a ∈ run, p a) (hrest : ∀ a, rest.head? = some a → p a = false) :
    (run ++ rest).takeWhile p = run := by
  rw [List.takeWhile_append_of_pos hrun]
  cases rest with
  | nil => rw [List.takeWhile_nil, List.append_nil]
  | cons a rest => rw [List.takeWhile_cons, hrest a rfl, if_neg Bool.false_ne_true, List.append_nil]

theorem dropWhile_run (hrun : ∀ a ∈ run, p a) (hrest : ∀ a, rest.head? = some a → p a = false) :
    (run ++ rest).dropWhile p = rest := by
  rw [List.dropWhile_append_of_pos hrun]
  cases rest with
  | nil => rfl
  | cons a rest => rw [List.dropWhile_cons, hrest a rfl, if_neg Bool.false_ne_true]

end Run

/-! Tables -/

/-- Every range starts after the ones before it. -/
def Ascending (ranges : List (Nat × Nat)) : Prop := ranges.Pairwise fun r s => r.1 ≤ s.1 ∧ r.2 < s.1

instance (ranges : List (Nat × Nat)) : Decidable (Ascending ranges) :=
  inferInstanceAs (Decidable (List.Pairwise _ _))

theorem exists_of_inRanges {ranges : List (Nat × Nat)} {n : Nat} (h : inRanges ranges n) :
    ∃ r ∈ ranges, r.1 ≤ n ∧ n ≤ r.2 := by
  induction ranges with
  | nil => cases h
  | cons r ranges ih =>
    obtain ⟨low, high⟩ := r
    rw [inRanges] at h
    split at h
    · cases h
    · split at h
      · exact ⟨(low, high), List.mem_cons_self, by omega⟩
      · obtain ⟨r, hr, hn⟩ := ih h
        exact ⟨r, List.mem_cons_of_mem _ hr, hn⟩

theorem inRanges_of_mem {ranges : List (Nat × Nat)} (ha : Ascending ranges) {r : Nat × Nat} (hr : r ∈ ranges)
    {n : Nat} (hlow : r.1 ≤ n) (hhigh : n ≤ r.2) : inRanges ranges n := by
  induction ranges with
  | nil => cases hr
  | cons s ranges ih =>
    obtain ⟨low, high⟩ := s
    obtain ⟨hfirst, ha⟩ := List.pairwise_cons.mp ha
    rw [inRanges]
    rcases List.mem_cons.mp hr with rfl | hr
    · rw [if_neg (by omega), if_pos hhigh]
    · have hbelow : low ≤ r.1 ∧ high < r.1 := hfirst r hr
      rw [if_neg (by omega), if_neg (by omega)]
      exact ih ha hr

theorem decimalValueIn_isSome (ranges : List (Nat × Nat)) (n : Nat) :
    (decimalValueIn ranges n).isSome = inRanges ranges n := by
  induction ranges with
  | nil => rfl
  | cons r ranges ih =>
    obtain ⟨low, high⟩ := r
    rw [decimalValueIn, inRanges]
    split
    · rfl
    · split
      · rfl
      · exact ih

namespace CodePoint

theorem isDigit_of_isDecimal {c : CodePoint} (h : c.isDecimal) : c.isDigit := by
  rw [isDecimal, decimal?, decimalValueIn_isSome] at h
  obtain ⟨r, hr, hlow, hhigh⟩ := exists_of_inRanges h
  have hwithin : ∀ r ∈ decimalRanges, ∃ s ∈ digitRanges, s.1 ≤ r.1 ∧ r.2 ≤ s.2 := by decide +kernel
  obtain ⟨s, hs, hl, hh⟩ := hwithin r hr
  exact inRanges_of_mem (by decide +kernel) hs (by omega) (by omega)

theorem not_isDigit_of_isBlank {c : CodePoint} (h : c.isBlank) : c.isDigit = false := by
  refine Bool.eq_false_iff.mpr fun hd => ?_
  obtain ⟨r, hr, hlow, hhigh⟩ := exists_of_inRanges h
  obtain ⟨s, hs, hl, hh⟩ := exists_of_inRanges hd
  have hapart : ∀ r ∈ blankRanges, ∀ s ∈ digitRanges, r.2 < s.1 ∨ s.2 < r.1 := by decide +kernel
  have hdisjoint : r.2 < s.1 ∨ s.2 < r.1 := hapart r hr s hs
  omega

theorem not_isBlank_of_isDigit {c : CodePoint} (h : c.isDigit) : c.isBlank = false :=
  Bool.eq_false_iff.mpr fun hb => Bool.false_ne_true (not_isDigit_of_isBlank hb ▸ h)

end CodePoint

end SigilScript
