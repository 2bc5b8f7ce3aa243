import Mathlib.Data.List.Basic
import Mathlib.Logic.Relation
import SigilScript.Inclusion
import SigilScript.Proofs.NestedArguments

/-!
Canonical paths. A path that is normalised has only ordinary parts, and normalising it again changes nothing. A require
names its file by a path that may be written in many ways: from the directory itself, through another directory and
back, with or without the extension. All of them come out as one path, which is what the checks for repetitions and
cycles compare.
-/
namespace SigilScript

namespace Text

/-! Cutting at a separator -/

section Split

variable {sep : CodePoint} {t u e : Text}

theorem splitOn_cons (sep c : CodePoint) (t : Text) : ∃ piece pieces, splitOn sep t = piece :: pieces ∧
    splitOn sep (c :: t) = if c = sep then [] :: piece :: pieces else (c :: piece) :: pieces := by
  cases hs : splitOn sep t with
  | nil => exact absurd hs (splitOn_ne_nil sep t)
  | cons piece pieces => exact ⟨piece, pieces, rfl, by rw [splitOn, hs]⟩

theorem splitOn_append (sep : CodePoint) (t u : Text) :
    splitOn sep (t ++ sep :: u) = splitOn sep t ++ splitOn sep u := by
  induction t with
  | nil =>
    obtain ⟨piece, pieces, hu, hs⟩ := splitOn_cons sep sep u
    rw [List.nil_append, hs, if_pos rfl, hu]
    rfl
  | cons c t ih =>
    obtain ⟨piece, pieces, ht, hs⟩ := splitOn_cons sep c t
    obtain ⟨piece', pieces', ht', hs'⟩ := splitOn_cons sep c (t ++ sep :: u)
    rw [ht', ht, List.cons_append, List.cons.injEq] at ih
    rw [List.cons_append, hs, hs', ih.1, ih.2]
    split <;> rfl

theorem not_mem_of_mem_splitOn : ∀ piece ∈ splitOn sep t, sep ∉ piece := by
  induction t with
  | nil => exact List.forall_mem_singleton.mpr List.not_mem_nil
  | cons c t ih =>
    obtain ⟨piece, pieces, ht, hs⟩ := splitOn_cons sep c t
    rw [ht, List.forall_mem_cons] at ih
    rw [hs]
    by_cases hc : c = sep
    · rw [if_pos hc]
      exact List.forall_mem_cons.mpr ⟨List.not_mem_nil, List.forall_mem_cons.mpr ih⟩
    · rw [if_neg hc]
      exact List.forall_mem_cons.mpr ⟨List.not_mem_cons_of_ne_of_not_mem (Ne.symm hc) ih.1, ih.2⟩

theorem splitOn_of_not_mem (h : sep ∉ t) : splitOn sep t = [t] := by
  induction t with
  | nil => rfl
  | cons c t ih =>
    rw [List.mem_cons, not_or] at h
    rw [splitOn, ih h.2]
    exact if_neg (Ne.symm h.1)

theorem exists_last_piece (sep : CodePoint) (t : Text) :
    sep ∉ t ∨ ∃ before last, t = before ++ sep :: last ∧ sep ∉ last := by
  induction t with
  | nil => exact .inl List.not_mem_nil
  | cons c t ih =>
    rcases ih with ht | ⟨before, last, rfl, hlast⟩
    · by_cases hc : c = sep
      · exact .inr ⟨[], t, by rw [hc, List.nil_append], ht⟩
      · exact .inl (List.not_mem_cons_of_ne_of_not_mem (Ne.symm hc) ht)
    · exact .inr ⟨c :: before, last, rfl, hlast⟩

/-- What has no separator in it ends the last piece. -/
theorem splitOn_append_of_not_mem (he : sep ∉ e) (t : Text) :
    ∃ pieces last, splitOn sep (t ++ e) = pieces ++ [last ++ e] ∧ sep ∉ last := by
  have hnone : ∀ {last : Text}, sep ∉ last → splitOn sep (last ++ e) = [last ++ e] := fun hlast =>
    splitOn_of_not_mem fun hm => (List.mem_append.mp hm).elim hlast he
  rcases exists_last_piece sep t with ht | ⟨before, last, rfl, hlast⟩
  · exact ⟨[], t, hnone ht, ht⟩
  · refine ⟨splitOn sep before, last, ?_, hlast⟩
    rw [List.append_assoc, List.cons_append, splitOn_append, hnone hlast]

theorem splitOn_join {pieces : List Text} (hne : pieces ≠ []) (h : ∀ piece ∈ pieces, sep ∉ piece) :
    splitOn sep (join [sep] pieces) = pieces := by
  induction pieces with
  | nil => exact absurd rfl hne
  | cons first others ih =>
    rw [List.forall_mem_cons] at h
    cases others with
    | nil =>
      rw [join, List.intercalate_singleton, splitOn_of_not_mem h.1]
    | cons second others =>
      rw [join_cons_cons, List.singleton_append, splitOn_append, splitOn_of_not_mem h.1,
        ih (List.cons_ne_nil _ _) h.2, List.singleton_append]

theorem suffix_join_concat (sep last : Text) (pieces : List Text) : last <:+ join sep (pieces ++ [last]) := by
  induction pieces with
  | nil => exact ⟨[], by rw [List.nil_append, List.nil_append, join, List.intercalate_singleton]⟩
  | cons first others ih =>
    obtain ⟨second, rest, hrest⟩ := List.exists_cons_of_ne_nil (List.append_ne_nil_of_right_ne_nil others
      (List.cons_ne_nil last []))
    rw [hrest] at ih
    rw [List.cons_append, hrest, join_cons_cons]
    exact ih.trans ((List.suffix_append sep _).trans (List.suffix_append first _))

end Split

/-! Blanks around a text -/

theorem dropWhile_of_head? {t : Text} (h : ∀ c, t.head? = some c → c.isBlank = false) :
    t.dropWhile CodePoint.isBlank = t := by
  cases t with
  | nil => rfl
  | cons c t => rw [List.dropWhile_cons_of_neg (by rw [h c rfl]; exact Bool.false_ne_true)]

theorem strip_of_ends {t : Text} (hfirst : ∀ c, t.head? = some c → c.isBlank = false)
    (hlast : ∀ c, t.getLast? = some c → c.isBlank = false) : t.strip = t := by
  rw [strip, stripStart, dropWhile_of_head? hfirst, stripEnd, dropWhile_of_head? (by rwa [List.head?_reverse]),
    List.reverse_reverse]

theorem not_isBlank_of_head?_stripStart {t : Text} {c : CodePoint} (h : t.stripStart.head? = some c) :
    c.isBlank = false := by
  have hhead := List.head?_dropWhile_not CodePoint.isBlank t
  rw [show t.dropWhile CodePoint.isBlank = t.stripStart from rfl, h] at hhead
  exact hhead

theorem not_isBlank_of_head?_strip {t : Text} {c : CodePoint} (h : t.strip.head? = some c) : c.isBlank = false := by
  have hstart : t.strip <+: t.stripStart := by
    rw [strip, stripEnd, ← List.reverse_suffix, List.reverse_reverse]
    exact List.dropWhile_suffix _
  obtain ⟨after, hafter⟩ := hstart
  refine not_isBlank_of_head?_stripStart (t := t) ?_
  rw [← hafter, List.head?_append, h, Option.some_or]

theorem not_isBlank_of_getLast?_strip {t : Text} {c : CodePoint} (h : t.strip.getLast? = some c) :
    c.isBlank = false := by
  rw [strip, stripEnd, List.getLast?_reverse] at h
  exact not_isBlank_of_head?_stripStart h

theorem strip_append {t u : Text} (ht : t.strip = t) (hu : u.strip = u) : (t ++ u).strip = t ++ u := by
  refine strip_of_ends (fun c hc => ?_) fun c hc => ?_
  · rw [List.head?_append, Option.or_eq_some_iff] at hc
    rcases hc with hc | ⟨-, hc⟩
    · exact not_isBlank_of_head?_strip (ht.symm ▸ hc)
    · exact not_isBlank_of_head?_strip (hu.symm ▸ hc)
  · rw [List.getLast?_append, Option.or_eq_some_iff] at hc
    rcases hc with hc | ⟨-, hc⟩
    · exact not_isBlank_of_getLast?_strip (hu.symm ▸ hc)
    · exact not_isBlank_of_getLast?_strip (ht.symm ▸ hc)

end Text

/-! Parts of a path -/

namespace Path

/-- A part that stands for itself: normalising neither drops it nor lets it cancel another one. -/
structure Ordinary (part : Text) : Prop where
  ne_nil : part ≠ []
  ne_here : part ≠ "."
  ne_up : part ≠ ".."
  slash : ('/' : CodePoint) ∉ part

variable {done parts : List Text} {part name : Text}

theorem collapse_here (done parts : List Text) :
    collapse done ((("." : String) : Text) :: parts) = collapse done parts :=
  if_pos (.inr rfl)

theorem collapse_up (done parts : List Text) :
    collapse done (((".." : String) : Text) :: parts) = collapse done.tail parts := by
  rw [collapse, if_neg (by decide), if_pos rfl]

theorem Ordinary.collapse (h : Ordinary name) (done parts : List Text) :
    collapse done (name :: parts) = collapse (name :: done) parts := by
  rw [Path.collapse, if_neg (not_or.mpr ⟨h.ne_nil, h.ne_here⟩), if_neg h.ne_up]

theorem Ordinary.append (h : Ordinary name) (hslash : ('/' : CodePoint) ∉ part) : Ordinary (part ++ name) where
  ne_nil := List.append_ne_nil_of_right_ne_nil _ h.ne_nil
  ne_here heq := by
    cases part with
    | nil => exact h.ne_here heq
    | cons c part => exact h.ne_nil (List.append_eq_nil_iff.mp (List.cons.inj heq).2).2
  ne_up heq := by
    match part with
    | [] => exact h.ne_up heq
    | [c] => exact h.ne_here (List.cons.inj heq).2
    | c :: d :: part => exact h.ne_nil (List.append_eq_nil_iff.mp (List.cons.inj (List.cons.inj heq).2).2).2
  slash hm := (List.mem_append.mp hm).elim hslash h.slash

theorem collapse_append (done first second : List Text) :
    collapse done (first ++ second) = collapse (collapse done first).reverse second := by
  fun_induction collapse done first with
  | case1 done => rw [List.nil_append, List.reverse_reverse]
  | case2 done part rest h ih => rw [List.cons_append, collapse, if_pos h, ih]
  | case3 done rest h ih => rw [List.cons_append, collapse_up, ih]
  | case4 done part rest h hup ih => rw [List.cons_append, collapse, if_neg h, if_neg hup, ih]

theorem ordinary_of_mem_collapse (hdone : ∀ part ∈ done, Ordinary part)
    (hparts : ∀ part ∈ parts, ('/' : CodePoint) ∉ part) : ∀ part ∈ collapse done parts, Ordinary part := by
  fun_induction collapse done parts with
  | case1 done => exact fun part hp => hdone part (List.mem_reverse.mp hp)
  | case2 done part rest h ih => exact ih hdone (List.forall_mem_cons.mp hparts).2
  | case3 done rest h ih =>
    exact ih (fun part hp => hdone part (List.mem_of_mem_tail hp)) (List.forall_mem_cons.mp hparts).2
  | case4 done part rest h hup ih =>
    rw [List.forall_mem_cons] at hparts
    rw [not_or] at h
    exact ih (List.forall_mem_cons.mpr ⟨⟨h.1, h.2, hup, hparts.1⟩, hdone⟩) hparts.2

theorem collapse_of_ordinary (h : ∀ part ∈ parts, Ordinary part) (done : List Text) :
    collapse done parts = done.reverse ++ parts := by
  induction parts generalizing done with
  | nil => rw [collapse, List.append_nil]
  | cons part parts ih =>
    rw [List.forall_mem_cons] at h
    rw [h.1.collapse, ih h.2, List.reverse_cons, List.append_assoc, List.singleton_append]

/-! Normal forms -/

theorem isAbsolute_append (before path : Text) :
    isAbsolute (before ++ ('/' : CodePoint) :: path) = isAbsolute (before ++ [('/' : CodePoint)]) := by
  cases before <;> rfl

theorem Ordinary.isAbsolute_append (h : Ordinary name) (path : Text) : isAbsolute (name ++ path) = false := by
  cases name with
  | nil => exact absurd rfl h.ne_nil
  | cons c name =>
    refine decide_eq_false fun hc => h.slash ?_
    rw [List.cons_append, List.head?_cons, Option.some.injEq] at hc
    exact List.mem_cons.mpr (.inl hc.symm)

theorem Ordinary.isAbsolute_eq (h : Ordinary name) : isAbsolute name = false := by
  rw [← List.append_nil name, h.isAbsolute_append]

theorem isAbsolute_join (h : ∀ part ∈ parts, Ordinary part) : isAbsolute (Text.join "/" parts) = false := by
  cases parts with
  | nil => rfl
  | cons first others =>
    rw [List.forall_mem_cons] at h
    cases others with
    | nil => rw [Text.join, List.intercalate_singleton, h.1.isAbsolute_eq]
    | cons second others => rw [Text.join_cons_cons, h.1.isAbsolute_append]

/-- How many slashes a path starts with is decided before a part that is not empty. -/
theorem isDoubled_append (before : Text) {path : Text} (h : isAbsolute path = false) :
    isDoubled (before ++ ('/' : CodePoint) :: path) = isDoubled (before ++ [('/' : CodePoint)]) := by
  have htwo : Text.ofString "//" = [('/' : CodePoint), '/'] := rfl
  have hthree : Text.ofString "///" = [('/' : CodePoint), '/', '/'] := rfl
  cases path with
  | nil => rfl
  | cons c path =>
    have hc : c ≠ '/' := by simpa [isAbsolute] using h
    match before with
    | [] => simp [isDoubled, htwo, hthree, List.isPrefixOf, hc.symm]
    | [a] => simp [isDoubled, htwo, hthree, List.isPrefixOf, hc.symm]
    | [_, _] => rfl
    | _ :: _ :: _ :: _ => rfl

theorem normalize_append (before : Text) {path : Text} (h : isAbsolute path = false) :
    normalize (before ++ ('/' : CodePoint) :: path) =
      ⟨isDoubled (before ++ [('/' : CodePoint)]),
        collapse (collapse [] (before.splitOn '/')).reverse (path.splitOn '/')⟩ := by
  rw [normalize, isDoubled_append before h, Text.splitOn_append, collapse_append]

theorem collapse_join (h : ∀ part ∈ parts, Ordinary part) :
    collapse [] ((Text.join "/" parts).splitOn '/') = parts := by
  cases parts with
  | nil => rfl
  | cons first others =>
    have hslash : ∀ part ∈ first :: others, ('/' : CodePoint) ∉ part := fun part hp => (h part hp).slash
    have hsplit := Text.splitOn_join (List.cons_ne_nil first others) hslash
    rw [show Text.join "/" (first :: others) = Text.join [('/' : CodePoint)] (first :: others) from rfl, hsplit,
      collapse_of_ordinary h, List.reverse_nil, List.nil_append]

end Path

namespace AbsolutePath

/-- All parts are ordinary. -/
def IsNormal (p : AbsolutePath) : Prop := ∀ part ∈ p.parts, Path.Ordinary part

theorem isNormal_normalize (t : Text) : (Path.normalize t).IsNormal :=
  Path.ordinary_of_mem_collapse (List.forall_mem_nil _) Text.not_mem_of_mem_splitOn

/-- What stands before the last slash that a path starts with. -/
def lead (p : AbsolutePath) : Text := if p.doubled then [('/' : CodePoint)] else []

theorem toText_eq (p : AbsolutePath) : p.toText = p.lead ++ ('/' : CodePoint) :: Text.join "/" p.parts := by
  unfold toText lead
  cases p.doubled with
  | false =>
    simp only [Bool.false_eq_true, if_false]
    rfl
  | true =>
    simp only [if_true]
    rfl

theorem head?_toText (p : AbsolutePath) : p.toText.head? = some '/' := by
  rw [toText_eq, lead]
  cases p.doubled <;> rfl

theorem toText_ne_nil (p : AbsolutePath) : p.toText ≠ [] := fun h => by
  have hhead := p.head?_toText
  rw [h] at hhead
  cases hhead

theorem isAbsolute_toText (p : AbsolutePath) : Path.isAbsolute p.toText :=
  decide_eq_true p.head?_toText

/-- The text of a normal form is normalised already. -/
theorem IsNormal.normalize_toText {p : AbsolutePath} (h : p.IsNormal) : Path.normalize p.toText = p := by
  rw [toText_eq, Path.normalize_append _ (Path.isAbsolute_join h)]
  obtain ⟨doubled, parts⟩ := p
  cases doubled with
  | false => exact congrArg (AbsolutePath.mk false) (Path.collapse_join h)
  | true => exact congrArg (AbsolutePath.mk true) (Path.collapse_join h)

/-- A text without slashes that ends a path still ends its normal form. -/
theorem suffix_normalize {t e : Text} (he : Path.Ordinary e) (h : e <:+ t) :
    (Path.normalize t).parts ≠ [] ∧ e <:+ (Path.normalize t).toText := by
  obtain ⟨before, rfl⟩ := h
  obtain ⟨pieces, last, hsplit, hlast⟩ := Text.splitOn_append_of_not_mem he.slash before
  have hparts : (Path.normalize (before ++ e)).parts = Path.collapse [] pieces ++ [last ++ e] := by
    rw [Path.normalize, hsplit, Path.collapse_append, (he.append hlast).collapse, Path.collapse, List.reverse_cons,
      List.reverse_reverse]
  refine ⟨?_, ?_⟩
  · rw [hparts]
    exact List.append_ne_nil_of_right_ne_nil _ (List.cons_ne_nil _ _)
  · rw [toText_eq, hparts]
    exact ((List.suffix_append last e).trans (Text.suffix_join_concat "/" _ _)).trans
      ((List.suffix_cons _ _).trans (List.suffix_append _ _))

end AbsolutePath

/-! From a directory -/

namespace Path

theorem join_of_isAbsolute {path : Text} (h : isAbsolute path) (directory : Text) : join directory path = path :=
  if_pos h

theorem exists_join {directory : Text} (hne : directory ≠ []) :
    ∃ before, ∀ path, isAbsolute path = false → join directory path = before ++ ('/' : CodePoint) :: path := by
  by_cases hlast : directory.getLast? = some ('/' : CodePoint)
  · obtain ⟨before, rfl⟩ := List.getLast?_eq_some_iff.mp hlast
    refine ⟨before, fun path h => ?_⟩
    rw [join, h, if_neg Bool.false_ne_true, if_pos (.inr hlast), List.append_assoc, List.singleton_append]
  · refine ⟨directory, fun path h => ?_⟩
    rw [join, h, if_neg Bool.false_ne_true, if_neg (not_or.mpr ⟨by simpa using hne, hlast⟩)]

/-- A relative path, seen from a directory, which may be relative to another one. -/
theorem exists_join_join {directory : Text} (hne : directory ≠ []) (here : AbsolutePath) :
    ∃ before, ∀ path, isAbsolute path = false →
      join here.toText (join directory path) = before ++ ('/' : CodePoint) :: path := by
  obtain ⟨before, hbefore⟩ := exists_join hne
  cases habsolute : isAbsolute (before ++ [('/' : CodePoint)]) with
  | true =>
    refine ⟨before, fun path h => ?_⟩
    rw [hbefore path h, join_of_isAbsolute (by rw [isAbsolute_append, habsolute])]
  | false =>
    obtain ⟨first, hfirst⟩ := exists_join here.toText_ne_nil
    refine ⟨first ++ ('/' : CodePoint) :: before, fun path h => ?_⟩
    rw [hbefore path h, hfirst _ (by rw [isAbsolute_append, habsolute]), List.append_assoc, List.cons_append]

theorem suffix_join (directory path : Text) : path <:+ join directory path := by
  rw [join]
  split
  · exact List.suffix_refl _
  · split
    · exact List.suffix_append _ _
    · exact (List.suffix_cons _ _).trans (List.suffix_append _ _)

end Path

namespace Inclusion

/-! Required paths -/

/-- The ending of a file name. -/
structure IsExtension (extension : Text) : Prop extends Path.Ordinary extension where
  strip : extension.strip = extension

theorem isExtension_defaultExtension : IsExtension defaultExtension where
  ne_nil := by decide
  ne_here := by decide
  ne_up := by decide
  slash := by decide
  strip := by decide

def withExtension (extension path : Text) : Text :=
  if extension.isSuffixOf path then path else path ++ extension

/-- The directory from which relative paths are read. -/
def startDirectory (tree : FileTree) (base : Option Text) : Text :=
  (base.filter (!·.isEmpty)).getD tree.workingDirectory.toText

theorem resolvePath_eq (tree : FileTree) (base : Option Text) (extension raw : Text) :
    resolvePath tree base extension raw = Path.resolve tree.workingDirectory
      (Path.join (startDirectory tree base) (withExtension extension raw.strip)) :=
  rfl

theorem startDirectory_ne_nil (tree : FileTree) (base : Option Text) : startDirectory tree base ≠ [] := by
  have hworking : tree.workingDirectory.toText ≠ [] := tree.workingDirectory.toText_ne_nil
  unfold startDirectory
  match base with
  | none => exact hworking
  | some [] => exact hworking
  | some (_ :: _) => exact List.cons_ne_nil _ _

section Extension

variable {extension path before : Text}

theorem withExtension_of_suffix (h : extension <:+ path) : withExtension extension path = path :=
  if_pos (List.isSuffixOf_iff_suffix.mpr h)

theorem withExtension_of_not_suffix (h : ¬ extension <:+ path) : withExtension extension path = path ++ extension :=
  if_neg fun hs => h (List.isSuffixOf_iff_suffix.mp hs)

theorem suffix_withExtension (extension path : Text) : extension <:+ withExtension extension path := by
  by_cases h : extension <:+ path
  · rwa [withExtension_of_suffix h]
  · rw [withExtension_of_not_suffix h]
    exact List.suffix_append path extension

/-- Whether a path ends in the extension is decided after its last slash. -/
theorem suffix_append_iff (h : Path.Ordinary extension) :
    extension <:+ before ++ ('/' : CodePoint) :: path ↔ extension <:+ path := by
  have hpath := List.suffix_append before (('/' : CodePoint) :: path)
  refine ⟨fun hs => ?_, fun hs => (hs.trans (List.suffix_cons _ _)).trans hpath⟩
  rcases List.suffix_or_suffix_of_suffix hs hpath with hs | hs
  · rcases List.suffix_cons_iff.mp hs with rfl | hs
    · exact absurd List.mem_cons_self h.slash
    · exact hs
  · exact absurd (hs.subset List.mem_cons_self) h.slash

theorem withExtension_append (h : Path.Ordinary extension) (before path : Text) :
    withExtension extension (before ++ ('/' : CodePoint) :: path) =
      before ++ ('/' : CodePoint) :: withExtension extension path := by
  by_cases hs : extension <:+ path
  · rw [withExtension_of_suffix hs, withExtension_of_suffix ((suffix_append_iff h).mpr hs)]
  · rw [withExtension_of_not_suffix hs, withExtension_of_not_suffix (mt (suffix_append_iff h).mp hs),
      List.append_assoc, List.cons_append]

theorem isAbsolute_withExtension (h : Path.Ordinary extension) (path : Text) :
    Path.isAbsolute (withExtension extension path) = Path.isAbsolute path := by
  by_cases hs : extension <:+ path
  · rw [withExtension_of_suffix hs]
  · rw [withExtension_of_not_suffix hs]
    cases path with
    | nil => exact h.isAbsolute_eq
    | cons c path => rfl

end Extension

/-! Two spellings of one path -/

section Spelling

variable {extension : Text} (tree : FileTree) (base : Option Text)

/-- The same text stands before every relative path. -/
theorem resolvePath_of_relative (h : Path.Ordinary extension) : ∃ before, ∀ raw, Path.isAbsolute raw.strip = false →
    resolvePath tree base extension raw =
      Path.normalize (before ++ ('/' : CodePoint) :: withExtension extension raw.strip) := by
  obtain ⟨before, hbefore⟩ := Path.exists_join_join (startDirectory_ne_nil tree base) tree.workingDirectory
  refine ⟨before, fun raw hraw => ?_⟩
  rw [resolvePath_eq, Path.resolve, hbefore _ ((isAbsolute_withExtension h _).trans hraw)]

/-- A way that ends where it started may stand before a relative path. -/
theorem resolvePath_detour (h : Path.Ordinary extension) {way path raw : Text}
    (hraw : raw.strip = way ++ ('/' : CodePoint) :: path) (hpath : path.strip = path)
    (hway : Path.isAbsolute (way ++ [('/' : CodePoint)]) = false) (hrelative : Path.isAbsolute path = false)
    (hback : ∀ done, Path.collapse done (way.splitOn '/') = done.reverse) :
    resolvePath tree base extension path = resolvePath tree base extension raw := by
  obtain ⟨before, hbefore⟩ := resolvePath_of_relative tree base h
  have hwhole : Path.isAbsolute raw.strip = false := by rw [hraw, Path.isAbsolute_append, hway]
  have hfile : Path.isAbsolute (withExtension extension path) = false := by rw [isAbsolute_withExtension h, hrelative]
  have hlong : Path.isAbsolute (way ++ ('/' : CodePoint) :: withExtension extension path) = false := by
    rw [Path.isAbsolute_append, hway]
  rw [hbefore raw hwhole, hraw, hbefore path (by rwa [hpath]), hpath, withExtension_append h,
    Path.normalize_append _ hfile, Path.normalize_append _ hlong, Text.splitOn_append,
    Path.collapse_append _ (way.splitOn '/'), hback, List.reverse_reverse]

/-- The same file, named in another way: between blanks, from the directory itself, through a directory and back, or
with its extension. -/
inductive Respells (extension : Text) : Text → Text → Prop
  | padded (raw : Text) : Respells extension raw.strip raw
  | here {path : Text} (hstrip : path.strip = path) (hrelative : Path.isAbsolute path = false) :
      Respells extension path (Text.ofString "./" ++ path)
  -- Blanks at the start of the name are also the start of the path, where they are dropped.
  | detour {name path : Text} (hname : Path.Ordinary name.stripStart) (hstrip : path.strip = path)
      (hrelative : Path.isAbsolute path = false) : Respells extension path (name ++ (Text.ofString "/../" ++ path))
  | extended {path : Text} (hstrip : path.strip = path) (hsuffix : ¬ extension <:+ path) :
      Respells extension path (path ++ extension)

theorem strip_detour {name path : Text} (hname : Path.Ordinary name.stripStart) (hpath : path.strip = path) :
    (name ++ (Text.ofString "/../" ++ path)).strip =
      (name.stripStart ++ Text.ofString "/..") ++ ('/' : CodePoint) :: path := by
  have hway : (name.stripStart ++ Text.ofString "/../").strip = name.stripStart ++ Text.ofString "/../" := by
    refine Text.strip_of_ends (fun c hc => ?_) fun c hc => ?_
    · rw [List.head?_append_of_ne_nil _ hname.ne_nil] at hc
      exact Text.not_isBlank_of_head?_stripStart hc
    · rw [List.getLast?_append_of_ne_nil _ (by decide)] at hc
      obtain rfl : ('/' : CodePoint) = c := Option.some.inj hc
      decide
  have hblanks : name ++ (Text.ofString "/../" ++ path) =
      name.takeWhile CodePoint.isBlank ++ ((name.stripStart ++ Text.ofString "/../") ++ path) := by
    rw [List.append_assoc, ← List.append_assoc (name.takeWhile _), Text.stripStart, List.takeWhile_append_dropWhile]
  rw [hblanks, Text.strip_blanks_append Text.isBlank_of_mem_takeWhile, Text.strip_append hway hpath, List.append_assoc,
    List.append_assoc]
  rfl

theorem collapse_detour {name : Text} (hname : Path.Ordinary name) (done : List Text) :
    Path.collapse done ((name ++ Text.ofString "/..").splitOn '/') = done.reverse := by
  rw [show Text.ofString "/.." = ('/' : CodePoint) :: Text.ofString ".." from rfl, Text.splitOn_append,
    Text.splitOn_of_not_mem hname.slash, List.singleton_append, hname.collapse]
  exact Path.collapse_up (name :: done) []

theorem Respells.resolvePath_eq (h : IsExtension extension) {raw raw' : Text} (hr : Respells extension raw raw') :
    resolvePath tree base extension raw = resolvePath tree base extension raw' := by
  cases hr with
  | padded raw =>
    rw [Inclusion.resolvePath_eq, Inclusion.resolvePath_eq,
      Text.strip_of_ends (fun _ => Text.not_isBlank_of_head?_strip) fun _ => Text.not_isBlank_of_getLast?_strip]
  | here hstrip hrelative =>
    have hraw : (Text.ofString "./" ++ raw).strip = Text.ofString "." ++ ('/' : CodePoint) :: raw :=
      Text.strip_append (by decide) hstrip
    exact resolvePath_detour tree base h.toOrdinary hraw hstrip (by decide) hrelative fun done =>
      Path.collapse_here done []
  | detour hname hstrip hrelative =>
    have hway := hname.isAbsolute_append (Text.ofString "/.." ++ [('/' : CodePoint)])
    rw [← List.append_assoc] at hway
    exact resolvePath_detour tree base h.toOrdinary (strip_detour hname hstrip) hstrip hway hrelative
      (collapse_detour hname)
  | extended hstrip hsuffix =>
    rw [Inclusion.resolvePath_eq, Inclusion.resolvePath_eq, hstrip, Text.strip_append hstrip h.strip,
      withExtension_of_not_suffix hsuffix, withExtension_of_suffix (List.suffix_append _ _)]

theorem resolvePath_eq_of_eqvGen (h : IsExtension extension) {raw raw' : Text}
    (hr : Relation.EqvGen (Respells extension) raw raw') :
    resolvePath tree base extension raw = resolvePath tree base extension raw' := by
  induction hr with
  | rel raw raw' hr => exact hr.resolvePath_eq tree base h
  | refl raw => rfl
  | symm raw raw' _ ih => exact ih.symm
  | trans raw mid raw' _ _ ih ih' => exact ih.trans ih'

/-! The one spelling -/

theorem isNormal_resolvePath (extension raw : Text) : (resolvePath tree base extension raw).IsNormal :=
  AbsolutePath.isNormal_normalize _

theorem suffix_resolvePath (h : Path.Ordinary extension) (raw : Text) :
    (resolvePath tree base extension raw).parts ≠ [] ∧ extension <:+ (resolvePath tree base extension raw).toText :=
  AbsolutePath.suffix_normalize h
    (((suffix_withExtension extension raw.strip).trans (Path.suffix_join _ _)).trans (Path.suffix_join _ _))

/-- A normal path that ends in the extension names itself. -/
theorem resolvePath_toText (h : IsExtension extension) {p : AbsolutePath} (hp : p.IsNormal)
    (hs : extension <:+ p.toText) : resolvePath tree base extension p.toText = p := by
  have hstrip : p.toText.strip = p.toText := by
    refine Text.strip_of_ends (fun c hc => ?_) fun c hc => ?_
    · obtain rfl : ('/' : CodePoint) = c := Option.some.inj (p.head?_toText.symm.trans hc)
      decide
    · obtain ⟨before, hbefore⟩ := hs
      rw [← hbefore, List.getLast?_append_of_ne_nil _ h.ne_nil] at hc
      exact Text.not_isBlank_of_getLast?_strip (h.strip.symm ▸ hc)
  rw [resolvePath_eq, hstrip, withExtension_of_suffix hs, Path.resolve,
    Path.join_of_isAbsolute p.isAbsolute_toText, Path.join_of_isAbsolute p.isAbsolute_toText, hp.normalize_toText]

/-- The one spelling of a path: from the root, with nothing in it that normalising would drop. -/
structure Canonical (extension path : Text) : Prop where
  absolute : Path.isAbsolute path
  ending : extension <:+ path
  components : ∃ lead rest : Text, path = lead ++ rest ∧ (lead = "/" ∨ lead = "//") ∧
    ∀ part ∈ rest.splitOn '/', part ≠ [] ∧ part ≠ "." ∧ part ≠ ".."

theorem canonical_resolvePath (h : Path.Ordinary extension) (raw : Text) :
    Canonical extension (resolvePath tree base extension raw).toText := by
  have hnormal := isNormal_resolvePath tree base extension raw
  obtain ⟨hne, hending⟩ := suffix_resolvePath tree base h raw
  generalize resolvePath tree base extension raw = p at *
  refine ⟨p.isAbsolute_toText, hending, _, _, rfl, ?_, ?_⟩
  · cases p.doubled with
    | false => exact .inl rfl
    | true => exact .inr rfl
  · have hsplit : (Text.join "/" p.parts).splitOn '/' = p.parts :=
      Text.splitOn_join hne fun part hp => (hnormal part hp).slash
    rw [hsplit]
    exact fun part hp => ⟨(hnormal part hp).ne_nil, (hnormal part hp).ne_here, (hnormal part hp).ne_up⟩

/-- A required path comes out in its one spelling, whatever the spelling it has in the source, and so a repetition is
seen in every spelling. -/
theorem resolvePath_canonical (h : IsExtension extension) :
    (∀ raw, resolvePath tree base extension (resolvePath tree base extension raw).toText =
        resolvePath tree base extension raw ∧ Canonical extension (resolvePath tree base extension raw).toText) ∧
      ∀ raw raw', Relation.EqvGen (Respells extension) raw raw' →
        resolvePath tree base extension raw = resolvePath tree base extension raw' ∧
          ∀ policy chain seen, isRepeat policy chain seen (resolvePath tree base extension raw') ↔
            resolvePath tree base extension raw ∈ chain ∨
              policy ≠ .repeated ∧ resolvePath tree base extension raw ∈ seen := by
  refine ⟨fun raw => ⟨?_, canonical_resolvePath tree base h.toOrdinary raw⟩, fun raw raw' hr => ?_⟩
  · exact resolvePath_toText tree base h (isNormal_resolvePath tree base extension raw)
      (suffix_resolvePath tree base h.toOrdinary raw).2
  · have hsame := resolvePath_eq_of_eqvGen tree base h hr
    refine ⟨hsame, fun policy chain seen => ?_⟩
    rw [hsame, isRepeat, Bool.or_eq_true, Bool.and_eq_true, decide_eq_true_eq, decide_eq_true_eq, decide_eq_true_eq]

end Spelling

theorem resolvePath_canonical_detour :
    Relation.EqvGen (Respells defaultExtension) "m" " a/.././m.sgl" ∧
      let tree : FileTree := ⟨⟨false, ["w"]⟩, []⟩
      let path := resolvePath tree (some "d/..") defaultExtension "m"
      path.toText = "/w/m.sgl" ∧
        resolvePath tree (some "d/..") defaultExtension " a/.././m.sgl" = path ∧
          resolvePath tree (some "d/..") defaultExtension path.toText = path ∧
            isRepeat .skip [] [path] (resolvePath tree (some "d/..") defaultExtension " a/.././m.sgl") := by
  have hextended : Respells defaultExtension "m" "m.sgl" := .extended (by decide) (by decide)
  have hhere : Respells defaultExtension "m.sgl" "./m.sgl" := .here (by decide) (by decide)
  have hname : Path.Ordinary (Text.stripStart " a") := ⟨by decide, by decide, by decide, by decide⟩
  have hdetour : Respells defaultExtension "./m.sgl" " a/.././m.sgl" :=
    .detour hname (by decide) (by decide)
  have hsame : Relation.EqvGen (Respells defaultExtension) "m" " a/.././m.sgl" :=
    .trans _ _ _ (.rel _ _ hextended) (.trans _ _ _ (.rel _ _ hhere) (.rel _ _ hdetour))
  obtain ⟨hraw, hspelling⟩ :=
    resolvePath_canonical ⟨⟨false, ["w"]⟩, []⟩ (some "d/..") isExtension_defaultExtension
  obtain ⟨heq, hrepeat⟩ := hspelling _ _ hsame
  exact ⟨hsame, by decide, heq.symm, (hraw _).1, (hrepeat .skip [] _).mpr (.inr ⟨by decide, List.mem_singleton_self _⟩)⟩

end Inclusion

end SigilScript
