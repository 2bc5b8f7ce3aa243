import SigilScript.Files.Tree
import SigilScript.Identifier
import SigilScript.Text.Blank

/-!
Inclusion of required files. A source is cut into `Piece`s: text, and requires that do not stand in
a comment line. Each require is replaced by its file, whose own requires are resolved first. A file
that is being included already is never included again inside itself; what else counts as a
repetition is up to the policy. The first file that cannot be read stops everything, and the rest
of the source stays as it was written.
-/
namespace SigilScript.Inclusion

inductive Policy where
  | skip | repeated | error
  deriving DecidableEq, Repr

namespace Policy

def label : Policy → String
  | .skip => "skip"
  | .repeated => "repeat"
  | .error => "error"

def all : List Policy := [.skip, .repeated, .error]

def ofText? (t : Text) : Option Policy := all.find? fun p => t = p.label

def unknownMessage (t : Text) : String :=
  let known := ", ".intercalate (all.map label)
  s!"Unknown require policy '{t}' (expected one of {known})"

end Policy

/-! Pieces -/

inductive Piece where
  | text (value : Text)
  | require (argument : Text)
  deriving DecidableEq, Repr

def opening : Text := "§require["

def Piece.source : Piece → Text
  | .text value => value
  | .require argument => opening ++ argument ++ [(']' : CodePoint)]

/-- A require at the start of a text: its argument, which is not empty, and the rest. -/
def takeRequire (t : Text) : Option (Text × Text) :=
  if opening.isPrefixOf t then
    let rest := t.drop opening.length
    match rest.takeWhile (fun c : CodePoint => c ≠ ']'), rest.dropWhile (fun c : CodePoint => c ≠ ']') with
    | c :: argument, _ :: after => some (c :: argument, after)
    | _, _ => none
  else none

theorem length_dropWhile_le {α : Type} (p : α → Bool) (l : List α) :
    (l.dropWhile p).length ≤ l.length := by
  have h := congrArg List.length (List.takeWhile_append_dropWhile (p := p) (l := l))
  simp only [List.length_append] at h
  omega

theorem takeRequire_length {t argument after : Text} (h : takeRequire t = some (argument, after)) :
    after.length < t.length := by
  unfold takeRequire at h
  split at h
  · simp only at h
    split at h
    · rename_i he hd
      simp only [Option.some.injEq, Prod.mk.injEq] at h
      obtain ⟨-, rfl⟩ := h
      have hl := length_dropWhile_le (fun c : CodePoint => decide (c ≠ ']')) (t.drop opening.length)
      rw [hd] at hl
      simp only [List.length_cons, List.length_drop] at hl
      omega
    · simp at h
  · simp at h

/-- The part of the current line, last first, after a text. -/
def lineAfter (line t : Text) : Text :=
  t.foldl (fun line (c : CodePoint) => if c = '\n' then [] else c :: line) line

/-- The line starts with the comment mark. -/
def isComment (line : Text) : Bool := (Text.stripStart line.reverse).head? = some commentMark

/-- A run of text before the next piece; `run` has it last first. -/
def textPiece (run : Text) : List Piece := if run.isEmpty then [] else [.text run.reverse]

/-- The pieces of a text after the run `run`, in a line that starts with `line`, both last
first. -/
def piecesFrom (line run t : Text) : List Piece :=
  match t with
  | [] => textPiece run
  | c :: rest =>
    match h : takeRequire (c :: rest) with
    | none => piecesFrom (lineAfter line [c]) (c :: run) rest
    | some (argument, after) =>
      have _hlt := takeRequire_length h
      let source := (Piece.require argument).source
      if isComment line then piecesFrom (lineAfter line source) (source.reverse ++ run) after
      else textPiece run ++ .require argument :: piecesFrom (lineAfter line source) [] after
termination_by t.length
decreasing_by all_goals simp only [List.length_cons] at *; omega

def pieces (t : Text) : List Piece := piecesFrom [] [] t

/-- The requires that a text still has, as they are written. -/
def unresolved (t : Text) : List Text :=
  (pieces t).filterMap fun
    | .require argument => some (Piece.require argument).source
    | .text _ => none

/-! Resolution -/

structure Options where
  base : Option Text
  extension : Text
  policy : Policy
  deriving Repr

def defaultExtension : Text := ".sgl"

/-- The file that a require names. -/
def resolvePath (tree : FileTree) (base : Option Text) (extension raw : Text) : AbsolutePath :=
  let path := raw.strip
  let path := if extension.isSuffixOf path then path else path ++ extension
  let directory := (base.filter (!·.isEmpty)).getD tree.workingDirectory.toText
  Path.resolve tree.workingDirectory (Path.join directory path)

inductive Failure where
  | notFound (path : AbsolutePath)
  | unreadable (path : AbsolutePath) (error : Utf8.DecodeError)
  deriving DecidableEq, Repr

def Failure.message : Failure → String
  | .notFound path => s!"File not found: {path}"
  | .unreadable path error => s!"Failed to read {path}: {error.message}"

inductive Note where
  | loading (path : AbsolutePath)
  | skipping (path : AbsolutePath)
  deriving DecidableEq, Repr

def Note.message : Note → String
  | .loading path => s!"Loading: {path}"
  | .skipping path => s!"Repeated require skipped: {path}"

/-- What resolution has done so far. Lists grow at the end. -/
structure Progress where
  seen : List AbsolutePath
  included : List AbsolutePath
  skipped : List AbsolutePath
  failures : List Failure
  notes : List Note
  deriving Repr

/-- A file was required again where the policy forbids it. -/
structure Repetition where
  path : AbsolutePath
  deriving DecidableEq, Repr

def Repetition.message (r : Repetition) : String := s!"File required more than once: {r.path}"

def isRepeat (policy : Policy) (chain seen : List AbsolutePath) (path : AbsolutePath) : Bool :=
  path ∈ chain || (policy ≠ .repeated && path ∈ seen)

def skipMarker (path : AbsolutePath) : Text := Text.ofString "# require skipped: " ++ path.toText

/-- The text of the file at a path; none if there is no file. -/
def content (tree : FileTree) (path : AbsolutePath) : Option (Except Utf8.DecodeError Text) :=
  match tree.get? path.parts with
  | some (.file bytes) => some ((Utf8.decode bytes).map Text.normalizeNewlines)
  | _ => none

/-- The spellings of the files of a tree. -/
def spellings (tree : FileTree) : List AbsolutePath :=
  tree.entries.flatMap fun (parts, _) => [⟨false, parts⟩, ⟨true, parts⟩]

/-- The spellings that a chain has not used; each inclusion uses one up. -/
def unused (tree : FileTree) (chain : List AbsolutePath) : Nat :=
  ((spellings tree).filter (· ∉ chain)).length

theorem mem_of_lookup {α β : Type} [BEq α] [LawfulBEq α] {l : List (α × β)} {a : α} {b : β}
    (h : l.lookup a = some b) : (a, b) ∈ l := by
  induction l with
  | nil => simp at h
  | cons p l ih =>
    obtain ⟨a', b'⟩ := p
    rw [List.lookup_cons] at h
    split at h
    · rename_i he
      have ha : a = a' := by simpa using he
      simp only [Option.some.injEq] at h
      subst ha; subst h
      exact List.mem_cons_self
    · exact List.mem_cons_of_mem _ (ih h)

theorem mem_spellings {tree : FileTree} {path : AbsolutePath} {r : Except Utf8.DecodeError Text}
    (h : content tree path = some r) : path ∈ spellings tree := by
  unfold content at h
  split at h
  · rename_i bytes hg
    unfold FileTree.get? at hg
    split at hg
    · simp at hg
    · simp only [spellings, List.mem_flatMap]
      refine ⟨_, mem_of_lookup hg, ?_⟩
      obtain ⟨doubled, parts⟩ := path
      cases doubled <;> simp
  · simp at h

theorem length_filter_append_lt {α : Type} [DecidableEq α] {l chain : List α} {a : α}
    (hm : a ∈ l) (hn : a ∉ chain) :
    (l.filter (· ∉ chain ++ [a])).length < (l.filter (· ∉ chain)).length := by
  induction l with
  | nil => simp at hm
  | cons b l ih =>
    have hle : (l.filter (· ∉ chain ++ [a])).length ≤ (l.filter (· ∉ chain)).length := by
      rw [← List.countP_eq_length_filter, ← List.countP_eq_length_filter]
      apply List.countP_mono_left
      intro x _ hx
      simp only [List.mem_append, not_or, decide_eq_true_eq] at hx ⊢
      exact hx.1
    by_cases hb : b = a
    · subst hb
      have := Nat.lt_succ_of_le hle
      simpa [hn] using this
    · have hm' : a ∈ l := by
        rcases List.mem_cons.mp hm with h | h
        · exact absurd h.symm hb
        · exact h
      have := ih hm'
      by_cases hc : b ∈ chain
      · simpa [hc, hb] using this
      · simpa [hc, hb] using this

theorem unused_lt {tree : FileTree} {chain : List AbsolutePath} {path : AbsolutePath}
    {r : Except Utf8.DecodeError Text} (hc : content tree path = some r) (hn : path ∉ chain) :
    unused tree (chain ++ [path]) < unused tree chain :=
  length_filter_append_lt (mem_spellings hc) hn

theorem not_mem_of_not_isRepeat {policy : Policy} {chain seen : List AbsolutePath}
    {path : AbsolutePath} (h : ¬ isRepeat policy chain seen path = true) : path ∉ chain := by
  intro hm
  exact h (by simp [isRepeat, hm])

/-- Resolves pieces while the files of `chain` are being included. -/
def resolvePieces (tree : FileTree) (options : Options) (chain : List AbsolutePath)
    (progress : Progress) (ps : List Piece) : Except Repetition Text × Progress :=
  match ps with
  | [] => (.ok [], progress)
  | .text value :: rest =>
    let (result, progress) := resolvePieces tree options chain progress rest
    (result.map (value ++ ·), progress)
  | .require argument :: rest =>
    let path := resolvePath tree options.base options.extension argument
    if hr : isRepeat options.policy chain progress.seen path then
      if options.policy = .error then (.error ⟨path⟩, progress)
      else
        let progress := { progress with
          notes := progress.notes ++ [.skipping path], skipped := progress.skipped ++ [path] }
        let (result, progress) := resolvePieces tree options chain progress rest
        (result.map (skipMarker path ++ ·), progress)
    else
      let kept := (Piece.require argument).source ++ rest.flatMap Piece.source
      match hc : content tree path with
      | none => (.ok kept, { progress with failures := progress.failures ++ [.notFound path] })
      | some (.error e) =>
        (.ok kept, { progress with failures := progress.failures ++ [.unreadable path e] })
      | some (.ok inner) =>
        have _hlt := unused_lt hc (not_mem_of_not_isRepeat hr)
        let progress := { progress with
          notes := progress.notes ++ [.loading path], seen := progress.seen ++ [path],
          included := progress.included ++ [path] }
        match resolvePieces tree options (chain ++ [path]) progress (pieces inner) with
        | (.error e, progress) => (.error e, progress)
        | (.ok text, progress) =>
          if progress.failures.isEmpty then
            let (result, progress) := resolvePieces tree options chain progress rest
            (result.map (text ++ ·), progress)
          else (.ok (text ++ rest.flatMap Piece.source), progress)
termination_by (unused tree chain, ps.length)
decreasing_by
  all_goals first
    | exact Prod.Lex.right _ (by simp)
    | exact Prod.Lex.left _ _ _hlt

/-- A resolved source. -/
structure Result where
  text : Text
  progress : Progress
  deriving Repr

namespace Result

def failures (r : Result) : List Failure := r.progress.failures

def unresolved (r : Result) : List Text := Inclusion.unresolved r.text

def complete (r : Result) : Bool := r.failures.isEmpty && r.unresolved.isEmpty

end Result

/-- Resolves a source, which may itself come from the file `origin`. The progress is there also
when a repetition ends the resolution. -/
def resolve (tree : FileTree) (options : Options) (origin : Option Text) (source : Text) :
    Except Repetition Result × Progress :=
  let chain := (origin.map (Path.resolve tree.workingDirectory)).toList
  match resolvePieces tree options chain ⟨chain, [], [], [], []⟩ (pieces source) with
  | (.error e, progress) => (.error e, progress)
  | (.ok text, progress) => (.ok ⟨text, progress⟩, progress)

end SigilScript.Inclusion
