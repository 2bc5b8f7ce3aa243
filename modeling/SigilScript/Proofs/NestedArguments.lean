import Mathlib.Data.List.TakeWhile
import SigilScript.Directive.Table
import SigilScript.Proofs.Ending
import SigilScript.Proofs.WrittenText

/-!
Arguments of a nested call. A directive that starts a line gets the text between its brackets as it is
written, and one that is called inside a text gets it without the blanks and the quotes around it. Both
cut what they get into operands. The operands are the same unless the blanks at the end were an operand
of their own, or the quotes did not enclose a single plain operand: the first and the last quote of
several operands are taken for a pair, and then every quote between them opens where it should close.
-/
namespace SigilScript

namespace Text

theorem strip_append_blanks {t blanks : Text} (h : ∀ c ∈ blanks, c.isBlank) :
    strip (t ++ blanks) = strip t := by
  have hb : blanks.reverse.dropWhile CodePoint.isBlank = [] :=
    List.dropWhile_eq_nil_iff.mpr fun c hc => h c (List.mem_reverse.mp hc)
  by_cases ht : t.stripStart = []
  · have hs : stripStart (t ++ blanks) = [] := by
      rw [stripStart, List.dropWhile_append_of_pos (List.dropWhile_eq_nil_iff.mp ht)]
      exact List.dropWhile_eq_nil_iff.mpr h
    rw [strip, strip, hs, ht]
  · have hs : stripStart (t ++ blanks) = t.stripStart ++ blanks := by
      rw [stripStart, List.dropWhile_append, if_neg (by simpa [stripStart] using ht)]
      rfl
    rw [strip, strip, hs, stripEnd, List.reverse_append, List.dropWhile_append, hb]
    rfl

theorem strip_blanks_append {t blanks : Text} (h : ∀ c ∈ blanks, c.isBlank) :
    strip (blanks ++ t) = strip t := by
  rw [strip, stripStart, List.dropWhile_append_of_pos h]
  rfl

end Text

namespace Argument

/-- The operands of a directive, as they are written. -/
def operands (args : Text) : List Text := (split args).map unquote

/-- Quotes are around a text, blanks apart. -/
def InQuotes (t : Text) : Prop := ∃ q inner, isQuote q ∧ t.strip = q :: (inner ++ [q])

/-- The blanks at the end of a text are an argument of their own. -/
def EndsBlank (t : Text) : Prop :=
  ∃ before blanks, t = before ++ blanks ∧ blanks ≠ [] ∧ (∀ c ∈ blanks, c.isBlank) ∧
    split t = split before ++ [blanks]

/-- The blanks and the quotes around a text can be taken off: the quotes enclose one operand, which has
none of its own, and without quotes, the blanks are no operand. -/
structure Unwraps (args : Text) : Prop where
  quoted : InQuotes args → split args = [args] ∧ split (unquote args) = [unquote args] ∧
    unquote (unquote args) = unquote args
  unquoted : ¬ InQuotes args → ¬ EndsBlank args

/-! Quotes and blanks around a text -/

theorem unquote_of_inQuotes {t inner : Text} {q : CodePoint} (hq : isQuote q)
    (h : t.strip = q :: (inner ++ [q])) : unquote t = inner := by
  simp [unquote, h, hq]

theorem unquote_of_not_inQuotes {t : Text} (h : ¬ InQuotes t) : unquote t = t.strip := by
  unfold unquote
  split
  · simp_all
  · rename_i first rest hs
    rw [hs]
    refine if_neg fun hc => h ?_
    simp only [Bool.and_eq_true, decide_eq_true_eq] at hc
    obtain ⟨inner, rfl⟩ := List.getLast?_eq_some_iff.mp hc.2
    exact ⟨first, inner, hc.1, hs⟩

theorem unquote_append_blanks {t blanks : Text} (h : ∀ c ∈ blanks, c.isBlank) :
    unquote (t ++ blanks) = unquote t := by
  rw [unquote, unquote, Text.strip_append_blanks h]

theorem unquote_blanks_append {t blanks : Text} (h : ∀ c ∈ blanks, c.isBlank) :
    unquote (blanks ++ t) = unquote t := by
  rw [unquote, unquote, Text.strip_blanks_append h]

theorem semicolon_not_mem_blanks {blanks : Text} (h : ∀ c ∈ blanks, c.isBlank) :
    (';' : CodePoint) ∉ blanks :=
  fun hm => absurd (h _ hm) (by decide)

theorem ne_semicolon_of_isQuote {q : CodePoint} (h : isQuote q) : q ≠ ';' := by
  rintro rfl
  exact absurd h (by decide)

/-- A semicolon is neither a blank nor a quote, so that each of them stays. -/
theorem count_unquote (t : Text) :
    (unquote t).count (';' : CodePoint) = t.count (';' : CodePoint) := by
  obtain ⟨trailing, ht, hb⟩ := t.eq_blanks_append_strip
  have hs : t.count (';' : CodePoint) = t.strip.count (';' : CodePoint) := by
    rw [ht, List.count_append, List.count_append, ← ht,
      List.count_eq_zero.mpr (semicolon_not_mem_blanks Text.isBlank_of_mem_takeWhile),
      List.count_eq_zero.mpr (semicolon_not_mem_blanks hb), Nat.zero_add, Nat.add_zero]
  by_cases hq : InQuotes t
  · obtain ⟨q, inner, hq, hi⟩ := hq
    have hne := ne_semicolon_of_isQuote hq
    rw [unquote_of_inQuotes hq hi, hs, hi, List.count_cons_of_ne hne, List.count_append]
    simp [hne]
  · rw [unquote_of_not_inQuotes hq, hs]

/-! Where a text is cut -/

theorem eq_of_separates {s : Nesting} {c : CodePoint} (h : separates s c) : c = ';' := by
  simp only [separates, Bool.and_eq_true, decide_eq_true_eq] at h
  exact h.1

/-- A stretch without semicolons belongs to the begun argument. -/
theorem splitFrom_of_not_mem {s : Nesting} {current t : Text} (h : (';' : CodePoint) ∉ t)
    (rest : Text) :
    splitFrom s current (t ++ rest) = splitFrom (t.foldl Nesting.next s) (t.reverse ++ current) rest := by
  induction t generalizing s current with
  | nil => rfl
  | cons c t ih =>
    have hc : ¬ separates s c := fun hs => h (eq_of_separates hs ▸ List.mem_cons_self)
    have ht : (';' : CodePoint) ∉ t := fun hm => h (List.mem_cons_of_mem _ hm)
    rw [List.cons_append, splitFrom, if_neg hc, ih ht]
    simp

theorem splitFrom_last {s : Nesting} {current t : Text} (h : (';' : CodePoint) ∉ t)
    (hne : current.reverse ++ t ≠ []) : splitFrom s current t = [current.reverse ++ t] := by
  have hs := @splitFrom_of_not_mem s current t h []
  rw [List.append_nil] at hs
  rw [hs, splitFrom, if_neg (by simpa [and_comm] using hne)]
  simp

/-- What is already begun goes in front of the first argument. -/
theorem splitFrom_begun (s : Nesting) {t : Text} (h : t ≠ []) :
    ∃ first others, ∀ current, splitFrom s current t = (current.reverse ++ first) :: others := by
  induction t generalizing s with
  | nil => exact absurd rfl h
  | cons c rest ih =>
    by_cases hc : separates s c
    · exact ⟨[], splitFrom (s.next c) [] rest, fun current => by
        rw [splitFrom, if_pos hc, List.append_nil]⟩
    · cases rest with
      | nil => exact ⟨[c], [], fun current => by simp [splitFrom, hc]⟩
      | cons c' rest =>
        obtain ⟨first, others, ho⟩ := ih (s.next c) (by simp)
        refine ⟨c :: first, others, fun current => ?_⟩
        rw [splitFrom, if_neg hc, ho]
        simp

/-- Blanks at the end of a text are an argument of their own, or belong to the last one. -/
theorem splitFrom_append_blanks {blanks : Text} (hne : blanks ≠ []) (hb : ∀ c ∈ blanks, c.isBlank)
    (s : Nesting) (current t : Text) :
    splitFrom s current (t ++ blanks) = splitFrom s current t ++ [blanks] ∨
      ∃ before last, splitFrom s current t = before ++ [last] ∧
        splitFrom s current (t ++ blanks) = before ++ [last ++ blanks] := by
  induction t generalizing s current with
  | nil =>
    have hs : splitFrom s current blanks = [current.reverse ++ blanks] :=
      splitFrom_last (semicolon_not_mem_blanks hb) (by simp [hne])
    rw [List.nil_append, hs]
    cases current with
    | nil => exact .inl rfl
    | cons c current => exact .inr ⟨[], (c :: current).reverse, by simp [splitFrom], rfl⟩
  | cons c t ih =>
    rw [List.cons_append, splitFrom, splitFrom]
    split
    · rcases ih (s.next c) [] with h | ⟨before, last, ht, hl⟩
      · exact .inl (by rw [h, List.cons_append])
      · exact .inr ⟨current.reverse :: before, last, by rw [ht, List.cons_append],
          by rw [hl, List.cons_append]⟩
    · exact ih (s.next c) (c :: current)

/-! Operands of a text without the blanks around it -/

theorem outside_next_blank {c : CodePoint} (h : c.isBlank) : Nesting.outside.next c = .outside := by
  have hne : ∀ k : CodePoint, ¬ k.isBlank → c ≠ k := by
    rintro k hk rfl
    exact hk h
  have hq : ¬ isQuote c := by
    simp only [isQuote, Bool.or_eq_true, decide_eq_true_eq]
    rintro (hc | hc)
    · exact hne _ (by decide) hc
    · exact hne _ (by decide) hc
  simp only [Nesting.next, Nesting.outside, if_neg hq, if_neg (hne '[' (by decide)),
    if_neg (hne ']' (by decide))]

/-- Blanks in front of a text are begun with its first argument. -/
theorem split_blanks_append {blanks : Text} (h : ∀ c ∈ blanks, c.isBlank) (t : Text) :
    split (blanks ++ t) = splitFrom .outside blanks.reverse t := by
  have hout : blanks.foldl Nesting.next .outside = .outside := by
    induction blanks with
    | nil => rfl
    | cons c blanks ih =>
      rw [List.forall_mem_cons] at h
      rw [List.foldl_cons, outside_next_blank h.1, ih h.2]
  rw [split, splitFrom_of_not_mem (semicolon_not_mem_blanks h), hout, List.append_nil]

theorem operands_blanks_append {t blanks : Text} (ht : t ≠ []) (hb : ∀ c ∈ blanks, c.isBlank) :
    operands (blanks ++ t) = operands t := by
  obtain ⟨first, others, ho⟩ := splitFrom_begun .outside ht
  rw [operands, split_blanks_append hb, operands, split, ho, ho]
  simp [unquote_blanks_append hb]

theorem unquote_blanks {blanks : Text} (h : ∀ c ∈ blanks, c.isBlank) : unquote blanks = [] :=
  (@unquote_append_blanks [] blanks h).trans rfl

theorem operands_append_blanks {t blanks : Text} (hne : blanks ≠ []) (hb : ∀ c ∈ blanks, c.isBlank) :
    operands (t ++ blanks) = operands t ∨
      split (t ++ blanks) = split t ++ [blanks] ∧ operands (t ++ blanks) = operands t ++ [[]] := by
  rcases splitFrom_append_blanks hne hb .outside [] t with h | ⟨before, last, ht, hl⟩
  · refine .inr ⟨h, ?_⟩
    rw [operands, split, h, List.map_append, List.map_singleton, unquote_blanks hb]
    rfl
  · refine .inl ?_
    rw [operands, operands, split, split, ht, hl]
    simp [unquote_append_blanks hb]

theorem operands_strip_cases (t : Text) :
    operands t = operands t.strip ∨ EndsBlank t ∧ operands t = operands t.strip ++ [[]] := by
  obtain ⟨trailing, ht, hb⟩ := t.eq_blanks_append_strip
  by_cases hs : t.strip = []
  · by_cases hn : t = []
    · exact .inl (by rw [hn]; rfl)
    have hall : ∀ c ∈ t, c.isBlank := by
      rw [ht, hs, List.nil_append]
      intro c hc
      rcases List.mem_append.mp hc with hc | hc
      · exact Text.isBlank_of_mem_takeWhile c hc
      · exact hb c hc
    have hsplit : split t = [t] := splitFrom_last (semicolon_not_mem_blanks hall) (by simpa using hn)
    refine .inr ⟨⟨[], t, rfl, hn, hall, hsplit⟩, ?_⟩
    rw [hs, operands, hsplit, List.map_singleton, unquote_blanks hall]
    rfl
  have hlead := operands_blanks_append hs (@Text.isBlank_of_mem_takeWhile t)
  rw [← List.append_assoc] at ht
  by_cases hn : trailing = []
  · rw [hn, List.append_nil] at ht
    exact .inl (by rw [ht, hlead, ← ht])
  rcases @operands_append_blanks (t.takeWhile CodePoint.isBlank ++ t.strip) trailing hn hb with h | h
  · rw [← ht, hlead] at h
    exact .inl h
  · rw [← ht, hlead] at h
    exact .inr ⟨⟨_, trailing, ht, hn, hb, h.1⟩, h.2⟩

/-- Without the blanks around it, a text has the same operands, or loses a blank last one. -/
theorem operands_strip_iff (t : Text) : operands t.strip = operands t ↔ ¬ EndsBlank t := by
  constructor
  · rintro h ⟨before, blanks, rfl, hne, hb, hs⟩
    have hlast : (operands (before ++ blanks)).length = (operands before).length + 1 := by
      simp [operands, hs]
    rw [Text.strip_append_blanks hb] at h
    rcases operands_strip_cases before with hc | ⟨-, hc⟩
    · rw [← h, hc] at hlast
      omega
    · rw [← h, hc, List.length_append] at hlast
      omega
  · intro h
    rcases operands_strip_cases t with hc | ⟨hb, -⟩
    · exact hc.symm
    · exact absurd hb h

/-! Operands of a text without the quotes around it -/

theorem next_quote_some {s : Nesting} {q : CodePoint} (h : s.quote = some q) (c : CodePoint) :
    (s.next c).quote = if c = q then none else some q := by
  simp only [Nesting.next, h]
  split
  · rfl
  · exact h

theorem next_quote_none {s : Nesting} (h : s.quote = none) (c : CodePoint) :
    (s.next c).quote = if isQuote c then some c else none := by
  simp only [Nesting.next, h]
  split
  · rfl
  · split
    · rfl
    · split
      · rfl
      · exact h

/-- A quote that closes in one place opens in a place where nothing is open. -/
theorem next_quote_ne {s s' : Nesting} {q : CodePoint} (hs : s.quote = some q) (hq : isQuote q)
    (hs' : s'.quote = none) (c : CodePoint) : (s.next c).quote ≠ (s'.next c).quote := by
  rw [next_quote_some hs, next_quote_none hs']
  by_cases hc : c = q
  · simp [hc, hq]
  · rw [if_neg hc]
    split
    · simpa [eq_comm] using hc
    · simp

/-- What is open in two places is a different quote, or a quote in only one of them. -/
structure Apart (s s' : Nesting) : Prop where
  ne : s.quote ≠ s'.quote
  left : ∀ q, s.quote = some q → isQuote q
  right : ∀ q, s'.quote = some q → isQuote q

theorem isQuote_of_next {s : Nesting} (h : ∀ q, s.quote = some q → isQuote q) (c : CodePoint) :
    ∀ q, (s.next c).quote = some q → isQuote q := by
  intro q hq
  cases hs : s.quote with
  | none =>
    rw [next_quote_none hs] at hq
    split at hq
    · simp_all
    · simp at hq
  | some k =>
    rw [next_quote_some hs] at hq
    split at hq
    · simp at hq
    · exact h q (hs.trans hq)

/-- After any text that follows both places, they are still apart. -/
theorem Apart.next {s s' : Nesting} (h : Apart s s') (c : CodePoint) : Apart (s.next c) (s'.next c) := by
  refine ⟨?_, isQuote_of_next h.left c, isQuote_of_next h.right c⟩
  have hne := h.ne
  cases hs : s.quote with
  | none =>
    cases hs' : s'.quote with
    | none => exact absurd (hs.trans hs'.symm) hne
    | some k => exact (next_quote_ne hs' (h.right k hs') hs c).symm
  | some q =>
    cases hs' : s'.quote with
    | none => exact next_quote_ne hs (h.left q hs) hs' c
    | some k =>
      have hqk : q ≠ k := by simpa [hs, hs'] using hne
      rw [next_quote_some hs, next_quote_some hs']
      by_cases hc : c = q
      · simp [hc, hqk]
      · rw [if_neg hc]
        split
        · simp
        · simpa using hqk

theorem quote_of_separates {s : Nesting} (hv : ∀ q, s.quote = some q → isQuote q) {c : CodePoint}
    (h : separates s c) : s.quote = none := by
  have hc := eq_of_separates h
  simp only [separates, Bool.and_eq_true, decide_eq_true_eq] at h
  cases hq : s.quote with
  | none => rfl
  | some q =>
    have hn := next_quote_some hq c
    rw [h.2, if_neg (hc ▸ (ne_semicolon_of_isQuote (hv q hq)).symm)] at hn
    exact absurd hn (by simp [Nesting.outside])

theorem Apart.not_separates {s s' : Nesting} (h : Apart s s') {c : CodePoint} (hc : separates s c) :
    ¬ separates s' c :=
  fun hc' => h.ne ((quote_of_separates h.left hc).trans (quote_of_separates h.right hc').symm)

theorem begun_isPrefix {s : Nesting} {current t first : Text} {others : List Text}
    (h : splitFrom s current t = first :: others) : current.reverse <+: first := by
  by_cases ht : t = []
  · subst ht
    rw [splitFrom] at h
    split at h
    · simp at h
    · simp only [List.cons.injEq] at h
      exact h.1 ▸ List.prefix_rfl
  · obtain ⟨first', others', ho⟩ := splitFrom_begun s ht
    rw [ho, List.cons.injEq] at h
    exact h.1 ▸ List.prefix_append _ _

/-- A cut text from two places that are apart is never cut at the same semicolon. So the first arguments
hold the same number of semicolons only when neither text is cut. -/
theorem uncut_of_apart {s s' : Nesting} {current current' t tail first first' : Text}
    {others others' : List Text} (ha : Apart s s')
    (hc : current.count (';' : CodePoint) = current'.count (';' : CodePoint))
    (ht : (';' : CodePoint) ∉ tail) (hne : tail ≠ [])
    (h : splitFrom s current (t ++ tail) = first :: others)
    (h' : splitFrom s' current' t = first' :: others')
    (hf : first.count (';' : CodePoint) = first'.count (';' : CodePoint)) :
    splitFrom s current (t ++ tail) = [current.reverse ++ (t ++ tail)] ∧
      splitFrom s' current' t = [current'.reverse ++ t] := by
  induction t generalizing s s' current current' with
  | nil =>
    refine ⟨splitFrom_last ht (by simp [hne]), ?_⟩
    rw [splitFrom] at h' ⊢
    split at h'
    · simp at h'
    · rename_i hn
      rw [if_neg hn, List.append_nil]
  | cons c t ih =>
    rw [List.cons_append, splitFrom] at h ⊢
    rw [splitFrom] at h' ⊢
    by_cases hs : separates s c
    · rw [if_pos hs, List.cons.injEq] at h
      rw [if_neg (ha.not_separates hs)] at h'
      have hle := ( begun_isPrefix h').sublist.count_le (';' : CodePoint)
      rw [← hf, ← h.1, List.count_reverse, List.count_reverse, eq_of_separates hs,
        List.count_cons_self] at hle
      omega
    by_cases hs' : separates s' c
    · rw [if_neg hs] at h
      rw [if_pos hs', List.cons.injEq] at h'
      have hle := ( begun_isPrefix h).sublist.count_le (';' : CodePoint)
      rw [hf, ← h'.1, List.count_reverse, List.count_reverse, eq_of_separates hs',
        List.count_cons_self] at hle
      omega
    · rw [if_neg hs] at h ⊢
      rw [if_neg hs'] at h' ⊢
      have hcc : (c :: current).count (';' : CodePoint) = (c :: current').count (';' : CodePoint) := by
        rw [List.count_cons, List.count_cons, hc]
      simpa using ih (ha.next c) hcc h h'

theorem apart_of_isQuote {q : CodePoint} (hq : isQuote q) :
    Apart (Nesting.next .outside q) .outside := by
  refine ⟨?_, isQuote_of_next (by simp [Nesting.outside]) q, by simp [Nesting.outside]⟩
  rw [next_quote_none rfl, if_pos hq]
  simp [Nesting.outside]

/-- A first quote is begun with the blanks before it. -/
theorem split_blanks_quote {blanks : Text} (hb : ∀ c ∈ blanks, c.isBlank) {q : CodePoint}
    (hq : isQuote q) (rest : Text) : split (blanks ++ q :: rest) =
      splitFrom (Nesting.next .outside q) (q :: blanks.reverse) rest := by
  rw [split_blanks_append hb, splitFrom,
    if_neg fun hc => ne_semicolon_of_isQuote hq (eq_of_separates hc)]

/-- Where quotes are around a text and its operands stay the same without them, nothing is cut. -/
theorem split_of_inQuotes {args : Text} (hq : InQuotes args)
    (h : operands (unquote args) = operands args) :
    split args = [args] ∧ split (unquote args) = [unquote args] := by
  obtain ⟨q, inner, hq, hs⟩ := hq
  obtain ⟨trailing, ht, hb⟩ := args.eq_blanks_append_strip
  have hlead := @Text.isBlank_of_mem_takeWhile args
  generalize args.takeWhile CodePoint.isBlank = leading at ht hlead
  have hargs : args = leading ++ q :: (inner ++ q :: trailing) := by rw [ht, hs]; simp
  have hsplit := split_blanks_quote hlead hq (inner ++ q :: trailing)
  rw [← hargs] at hsplit
  rw [unquote_of_inQuotes hq hs] at h ⊢
  -- From the first quote on, what is left of the text and the text in quotes differ by a tail that is
  -- never cut.
  have hne := ne_semicolon_of_isQuote hq
  have htail : (';' : CodePoint) ∉ q :: trailing := by
    simp [hne.symm, semicolon_not_mem_blanks hb]
  have hbegun : (q :: leading.reverse).count (';' : CodePoint) = ([] : Text).count (';' : CodePoint) := by
    rw [List.count_cons_of_ne hne, List.count_reverse,
      List.count_eq_zero.mpr (semicolon_not_mem_blanks hlead), List.count_nil]
  obtain ⟨first, others, hf⟩ := splitFrom_begun (Nesting.next .outside q) (t := inner ++ q :: trailing)
    (by simp)
  have hfirst := hsplit.trans (hf _)
  cases hi : split inner with
  | nil => simp [operands, hi, hfirst] at h
  | cons first' others' =>
    simp only [operands, hi, hfirst, List.map_cons, List.cons.injEq] at h
    have hcount := congrArg (List.count (';' : CodePoint)) h.1
    rw [count_unquote, count_unquote] at hcount
    obtain ⟨huncut, huncut'⟩ :=
      uncut_of_apart (apart_of_isQuote hq) hbegun htail (by simp) (hf _) hi hcount.symm
    refine ⟨?_, hi.symm.trans huncut'⟩
    rw [hsplit, huncut, hargs]
    simp

theorem operands_unquote_iff (args : Text) :
    operands (unquote args) = operands args ↔ Unwraps args := by
  by_cases hq : InQuotes args
  · constructor
    · intro h
      obtain ⟨hs, hu⟩ := split_of_inQuotes hq h
      refine ⟨fun _ => ⟨hs, hu, ?_⟩, fun hn => absurd hq hn⟩
      simpa [operands, hs, hu] using h
    · intro h
      obtain ⟨hs, hu, hi⟩ := h.quoted hq
      simp [operands, hs, hu, hi]
  · rw [unquote_of_not_inQuotes hq, operands_strip_iff]
    exact ⟨fun h => ⟨fun hc => absurd hc hq, fun _ => h⟩, fun h => h.unquoted hq⟩

example : Unwraps " 'a;b'; §upper[\"c\"]; \"d\" " := (operands_unquote_iff _).mp (by decide)

end Argument

namespace Dispatcher

open Argument

theorem arguments_eq (d : Dispatcher) (args : Text) :
    d.arguments args = (operands args).mapM d.resolve := by
  rw [arguments, operands, List.mapM_map]
  rfl

/-- A nested call and a line with the same text between the brackets have the same operands if and only
if its blanks and quotes can be taken off. Then their values are found in the same way, whatever the
directives are and whatever state the run is in. -/
theorem nested_operands_iff (args : Text) :
    (operands (unquote args) = operands args ↔ Unwraps args) ∧
      (Unwraps args → ∀ d : Dispatcher, d.arguments (unquote args) = d.arguments args) := by
  refine ⟨operands_unquote_iff args, fun h d => ?_⟩
  rw [arguments_eq, arguments_eq, (operands_unquote_iff args).mpr h]

/-- Two quoted operands are no operand in quotes. As a line, the first of them contains the second; in a
nested call they are a single operand, which does not. -/
theorem nested_contains_quoted :
    let d := (Directive.install .empty).dispatcher
    let c := Context.start false (.empty false)
      ⟨⟨⟨false, ["work"]⟩, []⟩, [], fun _ low _ => low, 0, .one, ⟨2024, 1, 2, 3, 4, 5⟩⟩
    ((d.arguments "\"abc\";\"b\"").runFrom c).1.toOption =
        (some ["abc", "b"] : Option (List Text)) ∧
      ((d.arguments (unquote "\"abc\";\"b\"")).runFrom c).1.toOption =
        (some ["abc\";\"b"] : Option (List Text)) ∧
      ((d.invoke "contains" "\"abc\";\"b\"").runFrom c).1.toOption =
        (some (some "true") : Option (Option Text)) ∧
      ((d.expand "§contains[\"abc\";\"b\"]").runFrom c).1.toOption = some "false" := by
  decide +kernel

end Dispatcher

end SigilScript
