import Mathlib.Data.List.TakeWhile
import SigilScript.Block
import SigilScript.Inclusion
import SigilScript.Proofs.WrittenText

/-!
Requires that are left in a resolved source. A require is looked for from the left, its argument may
go on over the end of its line, and one that starts in a comment is passed over with all that its
argument holds. So a require that a comment opens and does not close hides every statement up to the
next closing bracket. In a source that resolution calls complete, nothing else is hidden: the requires
among its statements are exactly those that stand inside such an argument.
-/
namespace SigilScript

/-! Lines of a text -/

namespace Text

/-- Lines written one after the other, each with its end. -/
def unlines (raws : List Text) : Text := raws.flatMap (· ++ [('\n' : CodePoint)])

theorem unlines_cons (raw : Text) (raws : List Text) :
    unlines (raw :: raws) = raw ++ ('\n' : CodePoint) :: unlines raws := by
  simp [unlines]

/-- What stands before a piece is the pieces before it, and their separators. -/
theorem eq_unlines_append {t raw : Text} {before after : List Text}
    (h : t.splitOn '\n' = before ++ raw :: after) : ∃ rest, t = unlines before ++ (raw ++ rest) := by
  induction t generalizing before raw after with
  | nil =>
    have hb : before = [] ∧ raw = [] := by
      cases before <;> simp_all [splitOn]
    exact ⟨[], by simp [hb.1, hb.2, unlines]⟩
  | cons c t ih =>
    cases hs : splitOn '\n' t with
    | nil => exact absurd hs (splitOn_ne_nil _ t)
    | cons piece pieces =>
      simp only [splitOn, hs] at h
      by_cases hc : c = '\n'
      · rw [if_pos hc] at h
        cases before with
        | nil =>
          simp only [List.nil_append, List.cons.injEq] at h
          exact ⟨c :: t, by simp [← h.1, unlines]⟩
        | cons first before =>
          simp only [List.cons_append, List.cons.injEq] at h
          obtain ⟨rest, hr⟩ := ih (hs.trans h.2)
          exact ⟨rest, by rw [unlines_cons, ← h.1, hc, hr, List.nil_append, List.cons_append]⟩
      · rw [if_neg hc] at h
        cases before with
        | nil =>
          simp only [List.nil_append, List.cons.injEq] at h
          obtain ⟨rest, hr⟩ := ih (hs.trans (List.nil_append _).symm)
          refine ⟨rest, ?_⟩
          rw [← h.1, hr]
          rfl
        | cons first before =>
          simp only [List.cons_append, List.cons.injEq] at h
          have hp : splitOn '\n' t = (piece :: before) ++ raw :: after := by rw [hs, h.2, List.cons_append]
          obtain ⟨rest, hr⟩ := ih hp
          refine ⟨rest, ?_⟩
          rw [hr, ← h.1, unlines_cons, unlines_cons]
          rfl

end Text

/-- The lines of a program are those of its source that are not passed over. -/
theorem Program.mem_linesFrom_iff {file : Text} {number : Nat} {raws : List Text} {lines : List Line}
    (h : Program.linesFrom file number raws = .ok lines) (line : Line) :
    line ∈ lines ↔ ∃ before raw after, raws = before ++ raw :: after ∧
      Line.ofRaw? file (number + before.length) raw = .ok (some line) := by
  induction raws generalizing number lines with
  | nil =>
    simp only [Program.linesFrom, Except.ok.injEq] at h
    subst h
    simp
  | cons first raws ih =>
    unfold Program.linesFrom at h
    cases hf : Line.ofRaw? file number first with
    | error e => simp [hf] at h
    | ok head =>
      simp only [hf] at h
      obtain ⟨others, ho, rfl⟩ := map_eq_ok h
      rw [List.mem_append, Option.mem_toList, ih ho]
      constructor
      · rintro (rfl | ⟨before, raw, after, rfl, hl⟩)
        · exact ⟨[], first, raws, rfl, hf⟩
        · exact ⟨first :: before, raw, after, rfl, by rwa [List.length_cons, ← Nat.add_assoc,
            Nat.add_right_comm]⟩
      · rintro ⟨before, raw, after, hr, hl⟩
        cases before with
        | nil =>
          simp only [List.nil_append, List.cons.injEq] at hr
          obtain ⟨rfl, rfl⟩ := hr
          rw [List.length_nil, Nat.add_zero, hf, Except.ok.injEq] at hl
          exact .inl hl
        | cons _ before =>
          simp only [List.cons_append, List.cons.injEq] at hr
          obtain ⟨rfl, rfl⟩ := hr
          refine .inr ⟨before, raw, after, rfl, ?_⟩
          rwa [List.length_cons, ← Nat.add_assoc, Nat.add_right_comm] at hl

namespace Inclusion

/-! The current line -/

theorem lineAfter_append (line first second : Text) :
    lineAfter line (first ++ second) = lineAfter (lineAfter line first) second :=
  List.foldl_append

theorem lineAfter_unlines (raws : List Text) : lineAfter [] (Text.unlines raws) = [] := by
  induction raws with
  | nil => rfl
  | cons raw raws ih =>
    have hend : lineAfter [] (raw ++ [('\n' : CodePoint)]) = [] := by
      rw [lineAfter_append]
      rfl
    rw [Text.unlines_cons, List.append_cons, lineAfter_append, hend, ih]

theorem isBlank_of_mem_lineAfter {line t : Text} (hl : ∀ c ∈ line, c.isBlank = true)
    (ht : ∀ c ∈ t, c.isBlank = true) : ∀ c ∈ lineAfter line t, c.isBlank = true := by
  induction t generalizing line with
  | nil => exact hl
  | cons d t ih =>
    rw [List.forall_mem_cons] at ht
    have hd : ∀ c ∈ (if d = '\n' then [] else d :: line : Text), c.isBlank = true := by
      split
      · simp
      · rw [List.forall_mem_cons]
        exact ⟨ht.1, hl⟩
    exact ih hd ht.2

theorem isComment_of_blank {line : Text} (h : ∀ c ∈ line, c.isBlank = true) :
    isComment line = false := by
  have hs : Text.stripStart line.reverse = [] := by
    rw [Text.stripStart, List.dropWhile_eq_nil_iff]
    intro c hc
    exact h c (List.mem_reverse.mp hc)
  simp [isComment, hs]

/-! Looking for requires -/

theorem takeRequire_eq_some_iff (t argument after : Text) :
    takeRequire t = some (argument, after) ↔
      t = opening ++ (argument ++ (']' : CodePoint) :: after) ∧ argument ≠ [] ∧
        (']' : CodePoint) ∉ argument := by
  have found : ∀ {u : Text}, (']' : CodePoint) ∉ argument →
      (argument ++ (']' : CodePoint) :: u).takeWhile (fun c : CodePoint => c ≠ ']') = argument ∧
      (argument ++ (']' : CodePoint) :: u).dropWhile (fun c : CodePoint => c ≠ ']') =
        (']' : CodePoint) :: u := by
    intro u hn
    have hall : ∀ c ∈ argument, decide (c ≠ (']' : CodePoint)) = true := by
      intro c hc
      rw [decide_eq_true_eq]
      rintro rfl
      exact hn hc
    rw [List.takeWhile_append_of_pos hall, List.dropWhile_append_of_pos hall]
    simp
  constructor
  · intro h
    unfold takeRequire at h
    split at h
    · rename_i ho
      obtain ⟨u, rfl⟩ := List.isPrefixOf_iff_prefix.mp ho
      simp only [List.drop_left] at h
      split at h
      · rename_i c argument' d after' ht hd
        simp only [Option.some.injEq, Prod.mk.injEq] at h
        obtain ⟨rfl, rfl⟩ := h
        have hu := List.takeWhile_append_dropWhile (p := fun c : CodePoint => c ≠ ']') (l := u)
        have hb : d = ']' := by
          have hhead := List.head?_dropWhile_not (fun c : CodePoint => decide (c ≠ ']')) u
          rw [hd] at hhead
          simpa using hhead
        rw [ht, hd, hb] at hu
        refine ⟨by rw [hu], by simp, ?_⟩
        intro hm
        rw [← ht] at hm
        simpa using List.mem_takeWhile_imp hm
      · simp at h
    · simp at h
  · rintro ⟨rfl, hne, hn⟩
    obtain ⟨htake, hdrop⟩ := @found after hn
    have ho : opening.isPrefixOf (opening ++ (argument ++ (']' : CodePoint) :: after)) = true :=
      List.isPrefixOf_iff_prefix.mpr (List.prefix_append _ _)
    unfold takeRequire
    rw [if_pos ho]
    simp only [List.drop_left, htake, hdrop]
    cases argument with
    | nil => exact absurd rfl hne
    | cons c argument => rfl

/-- A require that starts in a comment after `line` is still open at the end of a text. -/
def HiddenAfter (line before : Text) : Prop :=
  ∃ outer inner, before = outer ++ (opening ++ inner) ∧ isComment (lineAfter line outer) = true ∧
    (']' : CodePoint) ∉ inner

/-- A place that stands in the argument of a require in a comment: the text before it opens one and
does not close it. -/
def Hidden (before : Text) : Prop := HiddenAfter [] before

theorem HiddenAfter.append {line first second : Text} (h : HiddenAfter (lineAfter line first) second) :
    HiddenAfter line (first ++ second) := by
  obtain ⟨outer, inner, rfl, hc, hn⟩ := h
  exact ⟨first ++ outer, inner, by rw [List.append_assoc], by rwa [lineAfter_append], hn⟩

/-- The sigil starts a require, and does not come again in its name. -/
theorem not_prefix_inside_opening {start rest t : Text} (h : opening = start ++ rest)
    (hs : start ≠ []) (hr : rest ≠ []) : ¬ opening <+: rest ++ t := by
  have htail : sigil ∉ opening.tail := by decide
  intro hp
  obtain ⟨c, start, rfl⟩ := List.exists_cons_of_ne_nil hs
  obtain ⟨d, rest, rfl⟩ := List.exists_cons_of_ne_nil hr
  have hd : d = sigil := by
    obtain ⟨u, hu⟩ := hp
    exact (congrArg (List.headD · d) hu).symm
  rw [h, hd] at htail
  simp at htail

/-- A require that starts inside another one starts in its argument. -/
theorem inside_of_overlap {before rest argument after : Text} (hr : opening <+: rest)
    (h : before ++ rest = opening ++ (argument ++ (']' : CodePoint) :: after)) (hb : before ≠ [])
    (hl : before.length < (opening ++ (argument ++ [(']' : CodePoint)])).length) :
    ∃ inner, before = opening ++ inner ∧ inner <+: argument := by
  rcases List.append_eq_append_iff.mp h with ⟨start, ho, hrest⟩ | ⟨inner, hbefore, ha⟩
  · by_cases hs : start = []
    · exact ⟨[], by simpa [hs] using ho.symm, List.nil_prefix⟩
    · rw [hrest] at hr
      exact absurd hr (not_prefix_inside_opening ho hb hs)
  · refine ⟨inner, hbefore, ?_⟩
    rw [hbefore] at hl
    simp only [List.length_append, List.length_cons, List.length_nil] at hl
    have hp : inner <+: argument ++ (']' : CodePoint) :: after := ⟨rest, ha.symm⟩
    exact List.prefix_of_prefix_length_le hp (List.prefix_append _ _) (by omega)

/-- Where no require is found, one that stands outside of comments is hidden. The induction follows the
search: a place is either looked at itself, or passed over inside a match in a comment. -/
theorem hiddenAfter_of_not_found {line run t : Text}
    (h : ∀ argument, .require argument ∉ piecesFrom line run t) {before rest argument after : Text}
    (ht : t = before ++ rest) (hr : takeRequire rest = some (argument, after))
    (hc : isComment (lineAfter line before) = false) : HiddenAfter line before := by
  fun_induction piecesFrom line run t generalizing before with
  | case1 line run =>
    obtain ⟨rfl, rfl⟩ := List.append_eq_nil_iff.mp ht.symm
    simp [takeRequire, opening, Text.ofString] at hr
  | case2 line run c t hn ih =>
    cases before with
    | nil =>
      rw [List.nil_append] at ht
      rw [ht, hr] at hn
      simp at hn
    | cons d before =>
      simp only [List.cons_append, List.cons.injEq] at ht
      obtain ⟨rfl, ht⟩ := ht
      exact (ih h ht (by rwa [← lineAfter_append])).append
  | case3 line run c t inner outer hm _ source hcom ih =>
    obtain ⟨he, -, hnot⟩ := (takeRequire_eq_some_iff _ _ _).mp hm
    have hprefix : opening <+: rest := ⟨_, ((takeRequire_eq_some_iff _ _ _).mp hr).1.symm⟩
    have hsource : source = opening ++ (inner ++ [(']' : CodePoint)]) := by
      simp [source, Piece.source]
    by_cases hb : before = []
    · rw [hb] at hc
      rw [show lineAfter line [] = line from rfl, hcom] at hc
      simp at hc
    · by_cases hl : before.length < source.length
      · obtain ⟨part, rfl, hp⟩ := inside_of_overlap hprefix (ht.symm.trans he) hb (hsource ▸ hl)
        exact ⟨[], part, rfl, hcom, fun hm => hnot (hp.subset hm)⟩
      · have hsplit : before ++ rest = source ++ outer := by
          rw [← ht, he, hsource]
          simp
        obtain ⟨more, rfl⟩ : source <+: before :=
          List.prefix_of_prefix_length_le ⟨outer, hsplit.symm⟩ (List.prefix_append _ _) (by omega)
        rw [List.append_assoc, List.append_cancel_left_eq] at hsplit
        exact HiddenAfter.append (ih h hsplit.symm (by rwa [← lineAfter_append]))
  | case4 line run c t inner outer hm _ source hcom ih => exact absurd (h inner) (by simp)

/-! Statements -/

/-- A line whose statement requires a file. -/
def IsRequire (raw : Text) : Prop :=
  ∃ s : Statement, Statement.parse raw.strip = .ok (some s) ∧ s.name = "require" ∧
    s.args.getD [] ≠ []

/-- A statement with arguments: they stand in the brackets after its name. -/
theorem bracketed_of_parse {t args : Text} {s : Statement} (h : Statement.parse t = .ok (some s))
    (ha : s.args = some args) :
    ∃ (u : Text) (n : Nat), t = sigil :: (s.name ++ ('[' : CodePoint) :: u) ∧
      closingFrom 1 u = some n ∧ args = u.take n := by
  unfold Statement.parse at h
  split at h
  · simp at h
  · rename_i c rest
    have happend := Text.takeIdentifier_append rest
    split at h
    · rename_i hc
      split at h
      · simp at h
      · simp only [Except.ok.injEq, Option.some.injEq] at h
        subst h
        simp at ha
      · rename_i name d u hne hu
        rw [hu] at happend
        split at h
        · rename_i hd
          split at h
          · simp at h
          · rename_i n hclose
            simp only [Except.ok.injEq, Option.some.injEq] at h
            subst h
            rw [Option.some.injEq] at ha
            exact ⟨u, n, by rw [← happend, hc, hd], hclose, ha.symm⟩
        · simp only [Except.ok.injEq, Option.some.injEq] at h
          subst h
          simp at ha
    · simp at h

/-- The argument up to the first closing bracket is empty only if the one up to the matching bracket
is. -/
theorem takeRequire_of_closingFrom {u : Text} {n : Nat} (h : closingFrom 1 u = some n)
    (ha : u.take n ≠ []) (rest : Text) :
    ∃ argument after, takeRequire (opening ++ (u ++ rest)) = some (argument, after) := by
  have hmem : (']' : CodePoint) ∈ u := by
    rw [closingFrom_eq h]
    simp
  obtain ⟨first, last, rfl, hnot⟩ := List.eq_append_cons_of_mem hmem
  refine ⟨first, last ++ rest, (takeRequire_eq_some_iff _ _ _).mpr ⟨by simp, ?_, hnot⟩⟩
  rintro rfl
  have hother : ((']' : CodePoint) = ('[' : CodePoint)) ↔ False := by decide
  have hn : n = 0 := by simpa [closingFrom, hother, eq_comm] using h
  simp [hn] at ha

/-- The statement of a line that requires a file is found where it stands. -/
theorem takeRequire_of_isRequire {raw : Text} (h : IsRequire raw) (rest : Text) :
    ∃ argument after, takeRequire (raw.strip ++ rest) = some (argument, after) := by
  obtain ⟨s, hp, hname, ha⟩ := h
  have hopening : opening = sigil :: (("require" : Text) ++ [('[' : CodePoint)]) := by decide
  cases hargs : s.args with
  | none => simp [hargs] at ha
  | some args =>
    obtain ⟨u, n, ht, hclose, rfl⟩ := bracketed_of_parse hp hargs
    have hraw : raw.strip = opening ++ u := by
      rw [ht, hname, hopening]
      simp only [List.cons_append, List.append_assoc, List.nil_append]
    rw [hraw, List.append_assoc]
    exact takeRequire_of_closingFrom hclose (by simpa [hargs] using ha) rest

theorem isRequire_of_ofRaw? {file raw : Text} {number : Nat} {line : Line}
    (h : Line.ofRaw? file number raw = .ok (some line)) :
    line.name = "require" ∧ line.args ≠ [] ↔ IsRequire raw := by
  unfold Line.ofRaw? at h
  simp only at h
  split at h
  · simp at h
  · obtain ⟨statement, hs, hl⟩ := map_eq_ok h
    rw [Option.some.injEq] at hl
    subst hl
    unfold IsRequire
    rw [hs]
    cases statement with
    | none =>
      refine iff_of_false ?_ (by simp)
      rintro ⟨-, ha⟩
      exact ha rfl
    | some s => simp [Line.name, Line.args]

/-- A line with a statement is not passed over. -/
theorem ofRaw?_of_parse {raw : Text} {s : Statement} (h : Statement.parse raw.strip = .ok (some s))
    (file : Text) (number : Nat) : ∃ line, Line.ofRaw? file number raw = .ok (some line) := by
  have hs : raw.strip.head? = some sigil := by
    unfold Statement.parse at h
    split at h
    · simp at h
    · rename_i c rest hraw
      split at h
      · rename_i hc
        rw [hraw, hc, List.head?_cons]
      · simp at h
  have hskip : ¬ (raw.strip.isEmpty ∨ raw.strip.head? = some commentMark) := by
    rw [hs]
    rintro (he | he)
    · simp_all
    · exact absurd he (by decide)
  exact ⟨_, by rw [Line.ofRaw?, if_neg hskip, h]; rfl⟩

theorem not_mem_pieces_of_unresolved {t : Text} (h : unresolved t = []) (argument : Text) :
    .require argument ∉ pieces t := by
  intro hm
  rw [unresolved, List.filterMap_eq_nil_iff] at h
  simpa using h _ hm

/-- In a text without requires to resolve, a line that requires a file is hidden. -/
theorem hidden_of_isRequire {t raw : Text} {before after : List Text} (h : unresolved t = [])
    (ht : t.splitOn '\n' = before ++ raw :: after) (hr : IsRequire raw) :
    Hidden (Text.unlines before ++ raw.takeWhile CodePoint.isBlank) := by
  obtain ⟨rest, hrest⟩ := Text.eq_unlines_append ht
  obtain ⟨blanks, hb, -⟩ := raw.eq_blanks_append_strip
  obtain ⟨argument, last, htake⟩ := takeRequire_of_isRequire hr (blanks ++ rest)
  have hplace : t = (Text.unlines before ++ raw.takeWhile CodePoint.isBlank) ++
      (raw.strip ++ (blanks ++ rest)) := by
    calc t = Text.unlines before ++ (raw ++ rest) := hrest
      _ = Text.unlines before ++
          ((raw.takeWhile CodePoint.isBlank ++ (raw.strip ++ blanks)) ++ rest) := by rw [← hb]
      _ = _ := by simp only [List.append_assoc]
  refine hiddenAfter_of_not_found (not_mem_pieces_of_unresolved h) hplace htake ?_
  rw [lineAfter_append, lineAfter_unlines]
  exact isComment_of_blank (isBlank_of_mem_lineAfter (by simp) Text.isBlank_of_mem_takeWhile)

/-! Resolution without requires -/

theorem source_textPiece (run : Text) : (textPiece run).flatMap Piece.source = run.reverse := by
  unfold textPiece
  split
  · simp_all
  · simp [Piece.source]

/-- The pieces of a text, written one after the other, are the text. -/
theorem source_piecesFrom (line run t : Text) :
    (piecesFrom line run t).flatMap Piece.source = run.reverse ++ t := by
  fun_induction piecesFrom line run t with
  | case1 line run => rw [source_textPiece, List.append_nil]
  | case2 line run c t hn ih => rw [ih, List.reverse_cons, List.append_assoc, List.singleton_append]
  | case3 line run c t argument after hm _ source hcom ih =>
    have ht := ((takeRequire_eq_some_iff _ _ _).mp hm).1
    rw [ih, ht]
    simp [source, Piece.source]
  | case4 line run c t argument after hm _ source hcom ih =>
    have ht := ((takeRequire_eq_some_iff _ _ _).mp hm).1
    rw [List.flatMap_append, List.flatMap_cons, source_textPiece, ih, ht]
    simp [Piece.source]

theorem resolvePieces_texts (tree : FileTree) (options : Options) (chain : List AbsolutePath)
    (progress : Progress) {ps : List Piece} (h : ∀ argument, .require argument ∉ ps) :
    resolvePieces tree options chain progress ps = (.ok (ps.flatMap Piece.source), progress) := by
  induction ps with
  | nil => rw [resolvePieces, List.flatMap_nil]
  | cons p ps ih =>
    cases p with
    | require argument => exact absurd List.mem_cons_self (h argument)
    | text value =>
      have hps : ∀ argument, .require argument ∉ ps := fun argument hm =>
        h argument (List.mem_cons_of_mem _ hm)
      rw [resolvePieces, ih hps]
      rfl

/-- A source without requires is its own resolution. -/
theorem resolve_of_unresolved (tree : FileTree) (options : Options) (origin : Option Text)
    {source : Text} (h : unresolved source = []) :
    ∃ progress, resolve tree options origin source = (.ok ⟨source, progress⟩, progress) ∧
      progress.notes = [] ∧ (Result.mk source progress).complete = true := by
  refine ⟨⟨(origin.map (Path.resolve tree.workingDirectory)).toList, [], [], [], []⟩, ?_, rfl, ?_⟩
  · simp only [resolve]
    rw [resolvePieces_texts _ _ _ _ (not_mem_pieces_of_unresolved h), pieces, source_piecesFrom]
    rfl
  · simp [Result.complete, Result.failures, Result.unresolved, h]

/-- No statement of a completely resolved source requires a file, unless it is hidden: a comment before
it opens a require, and no bracket closes that before the statement. -/
theorem no_require_left_iff {tree : FileTree} {options : Options} {origin : Option Text}
    {source : Text} {result : Result} (_h : (resolve tree options origin source).1 = .ok result)
    (hc : result.complete = true) {file : Text} {lines : List Line}
    (hp : Program.parse result.text file = .ok lines) :
    (∀ line ∈ lines, line.name = "require" → line.args = []) ↔
      ∀ before raw after, result.text.splitOn '\n' = before ++ raw :: after → IsRequire raw →
        ¬ Hidden (Text.unlines before ++ raw.takeWhile CodePoint.isBlank) := by
  have hu : unresolved result.text = [] := by
    simpa [Result.complete, Result.unresolved] using (Bool.and_eq_true_iff.mp hc).2
  have hmem := Program.mem_linesFrom_iff hp
  constructor
  · intro hnone before raw after ht hr
    obtain ⟨s, hs, -⟩ := id hr
    obtain ⟨line, hl⟩ := ofRaw?_of_parse hs file (1 + before.length)
    obtain ⟨hname, hargs⟩ := (isRequire_of_ofRaw? hl).mpr hr
    exact absurd (hnone line ((hmem line).mpr ⟨before, raw, after, ht, hl⟩) hname) hargs
  · intro hnone line hm hname
    obtain ⟨before, raw, after, ht, hl⟩ := (hmem line).mp hm
    by_contra hargs
    have hr : IsRequire raw := (isRequire_of_ofRaw? hl).mp ⟨hname, hargs⟩
    exact hnone before raw after ht hr (hidden_of_isRequire hu ht hr)

/-- A comment that opens a require hides the require in the next line. -/
theorem no_require_left_iff_open_comment :
    ∃ (result : Result) (lines : List Line),
      (resolve ⟨⟨false, []⟩, []⟩ ⟨none, defaultExtension, .skip⟩ none
        "# §require[a\n§require[b]").1 = .ok result ∧ result.complete = true ∧
      Program.parse result.text "main" = .ok lines ∧
      ∃ before raw after, result.text.splitOn '\n' = before ++ raw :: after ∧ IsRequire raw ∧
        Hidden (Text.unlines before ++ raw.takeWhile CodePoint.isBlank) := by
  obtain ⟨progress, hr, -, hc⟩ := resolve_of_unresolved ⟨⟨false, []⟩, []⟩
    ⟨none, defaultExtension, .skip⟩ none
    (show unresolved "# §require[a\n§require[b]" = [] by decide +kernel)
  have hr : (resolve ⟨⟨false, []⟩, []⟩ ⟨none, defaultExtension, .skip⟩ none
      "# §require[a\n§require[b]").1 = .ok ⟨"# §require[a\n§require[b]", progress⟩ := by rw [hr]
  obtain ⟨lines, hp, hline⟩ : ∃ lines, Program.parse "# §require[a\n§require[b]" "main" = .ok lines ∧
      ¬ ∀ line ∈ lines, line.name = "require" → line.args = [] := ⟨_, rfl, by decide +kernel⟩
  rw [no_require_left_iff hr hc hp] at hline
  simp only [Classical.not_forall, not_not, exists_prop] at hline
  exact ⟨_, lines, hr, hc, hp, hline⟩

/-- A resolution can be complete and leave a require among the statements. -/
theorem require_left_after_open_comment :
    ∃ (result : Result) (lines : List Line),
      (resolve ⟨⟨false, []⟩, []⟩ ⟨none, defaultExtension, .skip⟩ none
        "# §require[a\n§require[b]").1 = .ok result ∧ result.complete = true ∧
      Program.parse result.text "main" = .ok lines ∧
      ∃ line ∈ lines, line.name = "require" ∧ line.args = "b" := by
  obtain ⟨progress, hr, -, hc⟩ := resolve_of_unresolved ⟨⟨false, []⟩, []⟩
    ⟨none, defaultExtension, .skip⟩ none
    (show unresolved "# §require[a\n§require[b]" = [] by decide +kernel)
  obtain ⟨lines, hp, hline⟩ : ∃ lines, Program.parse "# §require[a\n§require[b]" "main" = .ok lines ∧
      ∃ line ∈ lines, line.name = "require" ∧ line.args = "b" := ⟨_, rfl, by decide +kernel⟩
  exact ⟨_, lines, by rw [hr], hc, hp, hline⟩

end Inclusion

end SigilScript
