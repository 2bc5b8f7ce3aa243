import SigilScript.Inclusion

/-!
The course of a resolution. The files whose texts are being included form a chain: a file is put at its
end when its text is begun, and taken off when its text is done or given up. Here the chain is a part of
the state, and a resolution is followed rule by rule. Every resolution ends, also when files require one
another in circles, because each file that is begun is new to the chain. Each text leaves the chain as it
found it, and unless the policy lets files repeat no file is begun twice.
-/
namespace SigilScript.Inclusion

/-- What changes in the course of a resolution. -/
structure State where
  chain : List AbsolutePath
  progress : Progress

namespace State

/-- A source that comes from a file starts with that file on the chain. -/
def start (tree : FileTree) (origin : Option Text) : State :=
  let chain := (origin.map (Path.resolve tree.workingDirectory)).toList
  ⟨chain, ⟨chain, [], [], [], []⟩⟩

def skip (s : State) (path : AbsolutePath) : State :=
  { s with progress := { s.progress with
      notes := s.progress.notes ++ [.skipping path], skipped := s.progress.skipped ++ [path] } }

def fail (s : State) (failure : Failure) : State :=
  { s with progress := { s.progress with failures := s.progress.failures ++ [failure] } }

/-- The text of a file is begun: the file is included, and put at the end of the chain. -/
def begin (s : State) (path : AbsolutePath) : State :=
  ⟨s.chain ++ [path], { s.progress with
    notes := s.progress.notes ++ [.loading path], seen := s.progress.seen ++ [path],
    included := s.progress.included ++ [path] }⟩

/-- The text of the last file of the chain is done, or given up. -/
def leave (s : State) : State := { s with chain := s.chain.dropLast }

def repeats (s : State) (policy : Policy) (path : AbsolutePath) : Bool :=
  isRepeat policy s.chain s.progress.seen path

/-- A file that is begun is the one that is taken off. -/
theorem leave_of_begin {s s' : State} {path : AbsolutePath} (h : s'.chain = (s.begin path).chain) :
    s'.leave.chain = s.chain := by
  rw [leave, h, begin, List.dropLast_concat]

theorem nodup_begin {s : State} {policy : Policy} {path : AbsolutePath} (hr : ¬ s.repeats policy path)
    (hs : s.chain.Nodup) : (s.begin path).chain.Nodup := by
  have hn : path ∉ s.chain := not_mem_of_not_isRepeat hr
  rw [begin, List.nodup_append]
  refine ⟨hs, by simp, fun a ha b hb => ?_⟩
  rw [List.mem_singleton] at hb
  intro he
  exact hn (hb ▸ he ▸ ha)

end State

/-- A file that was begun, and the chain that it was put at the end of. -/
structure Visit where
  chain : List AbsolutePath
  path : AbsolutePath
  deriving DecidableEq, Repr

/-- The file that a require names. -/
def target (tree : FileTree) (options : Options) (argument : Text) : AbsolutePath :=
  resolvePath tree options.base options.extension argument

/-- The text of a file, or why it cannot be included. -/
def load (tree : FileTree) (path : AbsolutePath) : Except Failure Text :=
  match content tree path with
  | none => .error (.notFound path)
  | some (.error e) => .error (.unreadable path e)
  | some (.ok text) => .ok text

/-- The pieces of a text are resolved from one state to another, with the given result; the visits are the
files that are begun on the way, in order. -/
inductive Resolves (tree : FileTree) (options : Options) :
    State → List Piece → List Visit → Except Repetition Text → State → Prop
  | done (s : State) : Resolves tree options s [] [] (.ok []) s
  | text {s s' : State} {rest : List Piece} {visits : List Visit} {r : Except Repetition Text}
      (value : Text) (h : Resolves tree options s rest visits r s') :
      Resolves tree options s (.text value :: rest) visits (r.map (value ++ ·)) s'
  | refused {s : State} {argument : Text} (rest : List Piece)
      (hr : s.repeats options.policy (target tree options argument)) (hp : options.policy = .error) :
      Resolves tree options s (.require argument :: rest) [] (.error ⟨target tree options argument⟩) s
  | skipped {s s' : State} {argument : Text} {rest : List Piece} {visits : List Visit}
      {r : Except Repetition Text}
      (hr : s.repeats options.policy (target tree options argument)) (hp : options.policy ≠ .error)
      (h : Resolves tree options (s.skip (target tree options argument)) rest visits r s') :
      Resolves tree options s (.require argument :: rest) visits
        (r.map (skipMarker (target tree options argument) ++ ·)) s'
  | failed {s : State} {argument : Text} {failure : Failure} (rest : List Piece)
      (hr : ¬ s.repeats options.policy (target tree options argument))
      (hl : load tree (target tree options argument) = .error failure) :
      Resolves tree options s (.require argument :: rest) []
        (.ok ((Piece.require argument).source ++ rest.flatMap Piece.source)) (s.fail failure)
  | broken {s s' : State} {argument inner : Text} {visits : List Visit} {e : Repetition}
      (rest : List Piece)
      (hr : ¬ s.repeats options.policy (target tree options argument))
      (hl : load tree (target tree options argument) = .ok inner)
      (h : Resolves tree options (s.begin (target tree options argument)) (pieces inner) visits
        (.error e) s') :
      Resolves tree options s (.require argument :: rest)
        (⟨s.chain, target tree options argument⟩ :: visits) (.error e) s'.leave
  | stopped {s s' : State} {argument inner text : Text} {visits : List Visit} (rest : List Piece)
      (hr : ¬ s.repeats options.policy (target tree options argument))
      (hl : load tree (target tree options argument) = .ok inner)
      (h : Resolves tree options (s.begin (target tree options argument)) (pieces inner) visits
        (.ok text) s')
      (hf : s'.progress.failures.isEmpty = false) :
      Resolves tree options s (.require argument :: rest)
        (⟨s.chain, target tree options argument⟩ :: visits)
        (.ok (text ++ rest.flatMap Piece.source)) s'.leave
  | included {s s' s'' : State} {argument inner text : Text} {visits more : List Visit}
      {rest : List Piece} {r : Except Repetition Text}
      (hr : ¬ s.repeats options.policy (target tree options argument))
      (hl : load tree (target tree options argument) = .ok inner)
      (h : Resolves tree options (s.begin (target tree options argument)) (pieces inner) visits
        (.ok text) s')
      (hf : s'.progress.failures.isEmpty = true)
      (hrest : Resolves tree options s'.leave rest more r s'') :
      Resolves tree options s (.require argument :: rest)
        (⟨s.chain, target tree options argument⟩ :: visits ++ more) (r.map (text ++ ·)) s''

section Course

variable {tree : FileTree} {options : Options} {s s' : State} {ps : List Piece} {visits : List Visit}
  {r : Except Repetition Text}

/-- Every text leaves the chain as it found it. -/
theorem Resolves.chain_eq (h : Resolves tree options s ps visits r s') : s'.chain = s.chain := by
  induction h with
  | done => rfl
  | text value h ih => exact ih
  | refused => rfl
  | skipped hr hp h ih => exact ih
  | failed => rfl
  | broken rest hr hl h ih => exact State.leave_of_begin ih
  | stopped rest hr hl h hf ih => exact State.leave_of_begin ih
  | included hr hl h hf hrest ih ihrest => exact ihrest.trans (State.leave_of_begin ih)

/-- A file that is begun is new to the chain. -/
theorem Resolves.nodup (h : Resolves tree options s ps visits r s') (hs : s.chain.Nodup) :
    ∀ v ∈ visits, (v.chain ++ [v.path]).Nodup := by
  induction h with
  | done => simp
  | text value h ih => exact ih hs
  | refused => simp
  | skipped hr hp h ih => exact ih hs
  | failed => simp
  | broken rest hr hl h ih =>
    have hbegun := State.nodup_begin hr hs
    exact List.forall_mem_cons.mpr ⟨hbegun, ih hbegun⟩
  | stopped rest hr hl h hf ih =>
    have hbegun := State.nodup_begin hr hs
    exact List.forall_mem_cons.mpr ⟨hbegun, ih hbegun⟩
  | included hr hl h hf hrest ih ihrest =>
    have hbegun := State.nodup_begin hr hs
    have hback := State.leave_of_begin h.chain_eq
    rw [List.cons_append, List.forall_mem_cons, List.forall_mem_append]
    exact ⟨hbegun, ih hbegun, ihrest (hback ▸ hs)⟩

/-- The files that are included are those that are visited. -/
theorem Resolves.included_eq (h : Resolves tree options s ps visits r s') :
    s'.progress.included = s.progress.included ++ visits.map Visit.path := by
  induction h with
  | done => simp
  | text value h ih => exact ih
  | refused => simp
  | skipped hr hp h ih => exact ih
  | failed => simp [State.fail]
  | broken rest hr hl h ih => simpa [State.leave, State.begin] using ih
  | stopped rest hr hl h hf ih => simpa [State.leave, State.begin] using ih
  | included hr hl h hf hrest ih ihrest => simpa [State.leave, State.begin, ih] using ihrest

/-! Files that are seen once -/

/-- The files of `outside`, and those included so far, are all different, and count as seen. -/
structure State.Fresh (outside : List AbsolutePath) (s : State) : Prop where
  nodup : (outside ++ s.progress.included).Nodup
  seen : outside ++ s.progress.included ⊆ s.progress.seen

theorem State.Fresh.begin {outside : List AbsolutePath} {policy : Policy} {path : AbsolutePath}
    (hs : s.Fresh outside) (hp : policy ≠ .repeated) (hr : ¬ s.repeats policy path) :
    (s.begin path).Fresh outside := by
  have hnew : path ∉ outside ++ s.progress.included := by
    intro hm
    apply hr
    simp [State.repeats, isRepeat, hp, hs.seen hm]
  constructor
  · rw [State.begin, ← List.append_assoc, List.nodup_append]
    refine ⟨hs.nodup, by simp, fun a ha b hb he => ?_⟩
    rw [List.mem_singleton] at hb
    exact hnew (hb ▸ he ▸ ha)
  · intro a ha
    rw [State.begin, ← List.append_assoc, List.mem_append] at ha
    rw [State.begin, List.mem_append]
    exact ha.imp_left fun hm => hs.seen hm

theorem Resolves.fresh {outside : List AbsolutePath} (hp : options.policy ≠ .repeated)
    (h : Resolves tree options s ps visits r s') (hs : s.Fresh outside) : s'.Fresh outside := by
  induction h with
  | done => exact hs
  | text value h ih => exact ih hs
  | refused => exact hs
  | skipped hr he h ih => exact ih ⟨hs.nodup, hs.seen⟩
  | failed => exact ⟨hs.nodup, hs.seen⟩
  | broken rest hr hl h ih =>
    have hinner := ih (hs.begin hp hr)
    exact ⟨hinner.nodup, hinner.seen⟩
  | stopped rest hr hl h hf ih =>
    have hinner := ih (hs.begin hp hr)
    exact ⟨hinner.nodup, hinner.seen⟩
  | included hr hl h hf hrest ih ihrest =>
    have hinner := ih (hs.begin hp hr)
    exact ihrest ⟨hinner.nodup, hinner.seen⟩

end Course

/-! Every resolution ends -/

/-- A require is resolved in the way that its rule says. -/
theorem resolvePieces_require (tree : FileTree) (options : Options) (s : State) (argument : Text)
    (rest : List Piece) :
    resolvePieces tree options s.chain s.progress (.require argument :: rest) =
      if s.repeats options.policy (target tree options argument) then
        if options.policy = .error then (.error ⟨target tree options argument⟩, s.progress)
        else
          let next := resolvePieces tree options s.chain (s.skip (target tree options argument)).progress rest
          (next.1.map (skipMarker (target tree options argument) ++ ·), next.2)
      else
        match load tree (target tree options argument) with
        | .error failure =>
          (.ok ((Piece.require argument).source ++ rest.flatMap Piece.source), (s.fail failure).progress)
        | .ok inner =>
          let begun := s.begin (target tree options argument)
          match resolvePieces tree options begun.chain begun.progress (pieces inner) with
          | (.error e, progress) => (.error e, progress)
          | (.ok text, progress) =>
            if progress.failures.isEmpty then
              let next := resolvePieces tree options s.chain progress rest
              (next.1.map (text ++ ·), next.2)
            else (.ok (text ++ rest.flatMap Piece.source), progress) := by
  rw [resolvePieces]
  by_cases hr : s.repeats options.policy (target tree options argument)
  · rw [if_pos hr]
    exact dif_pos hr
  · rw [if_neg hr]
    refine (dif_neg hr).trans ?_
    dsimp only
    unfold load
    split
    · rename_i hc
      simp only [target, hc]
      rfl
    · rename_i hc
      simp only [target, hc]
      rfl
    · rename_i hc
      simp only [target, hc]
      rfl

section Ends

variable {tree : FileTree} {options : Options}

/-- What the rules allow is what the pieces resolve to. -/
theorem Resolves.eq_resolvePieces {s s' : State} {ps : List Piece} {visits : List Visit}
    {r : Except Repetition Text} (h : Resolves tree options s ps visits r s') :
    resolvePieces tree options s.chain s.progress ps = (r, s'.progress) := by
  induction h with
  | done => rw [resolvePieces]
  | text value h ih => rw [resolvePieces, ih]
  | refused rest hr hp => rw [resolvePieces_require, if_pos hr, if_pos hp]
  | @skipped s s' argument rest visits r hr hp h ih =>
    have hskip : resolvePieces tree options s.chain (s.skip (target tree options argument)).progress rest =
      (r, s'.progress) := ih
    rw [resolvePieces_require, if_pos hr, if_neg hp, hskip]
  | failed rest hr hl => rw [resolvePieces_require, if_neg hr, hl]
  | broken rest hr hl h ih =>
    rw [resolvePieces_require, if_neg hr, hl]
    dsimp only
    rw [ih]
    rfl
  | stopped rest hr hl h hf ih =>
    rw [resolvePieces_require, if_neg hr, hl]
    dsimp only
    rw [ih]
    dsimp only
    rw [hf]
    rfl
  | @included s s' s'' argument inner text visits more rest r hr hl h hf hrest ih ihrest =>
    have hnext : resolvePieces tree options s.chain s'.progress rest = (r, s''.progress) := by
      rw [← State.leave_of_begin h.chain_eq]
      exact ihrest
    rw [resolvePieces_require, if_neg hr, hl]
    dsimp only
    rw [ih]
    dsimp only
    rw [if_pos hf, hnext]

/-- Some rules resolve the pieces, from every state: by induction on the files that are not on the chain,
and on the pieces of one text. -/
theorem resolves_exists (tree : FileTree) (options : Options) (chain : List AbsolutePath)
    (progress : Progress) (ps : List Piece) :
    ∃ visits r s', Resolves tree options ⟨chain, progress⟩ ps visits r s' := by
  induction chain, progress, ps using resolvePieces.induct tree options with
  | case1 chain progress => exact ⟨_, _, _, .done _⟩
  | case2 chain progress value rest result progress' he ih =>
    obtain ⟨visits, r, s', h⟩ := ih
    exact ⟨_, _, _, .text value h⟩
  | case3 chain progress argument rest path hr hp => exact ⟨_, _, _, .refused rest hr hp⟩
  | case4 chain progress argument rest path hr hp skipped result progress' he ih =>
    obtain ⟨visits, r, s', h⟩ := ih
    exact ⟨_, _, _, .skipped hr hp h⟩
  | case5 chain progress argument rest path hr hc =>
    have hl : load tree path = .error (.notFound path) := by simp [load, hc]
    exact ⟨_, _, _, Resolves.failed (s := ⟨chain, progress⟩) rest hr hl⟩
  | case6 chain progress argument rest path hr e hc =>
    have hl : load tree path = .error (.unreadable path e) := by simp [load, hc]
    exact ⟨_, _, _, Resolves.failed (s := ⟨chain, progress⟩) rest hr hl⟩
  | case7 chain progress argument rest path hr inner hc hlt begun e progress' he ih =>
    have hl : load tree path = .ok inner := by simp [load, hc]
    obtain ⟨visits, r, s', h⟩ := ih
    obtain rfl : Except.error e = r := congrArg Prod.fst (he.symm.trans h.eq_resolvePieces)
    exact ⟨_, _, _, Resolves.broken (s := ⟨chain, progress⟩) rest hr hl h⟩
  | case8 chain progress argument rest path hr inner hc hlt begun text progress' he hf result progress''
      hrest ih ihrest =>
    have hl : load tree path = .ok inner := by simp [load, hc]
    obtain ⟨visits, r, s', h⟩ := ih
    obtain ⟨more, r', s'', hmore⟩ := ihrest
    have hback : s'.leave.chain = chain := State.leave_of_begin (s := ⟨chain, progress⟩) h.chain_eq
    obtain ⟨rfl, rfl⟩ := Prod.mk.inj (he.symm.trans h.eq_resolvePieces)
    have hleave : s'.leave = ⟨chain, s'.progress⟩ := by rw [← hback]; rfl
    exact ⟨_, _, _, Resolves.included (s := ⟨chain, progress⟩) hr hl h hf (hleave ▸ hmore)⟩
  | case9 chain progress argument rest path hr inner hc hlt begun text progress' he hf ih =>
    have hl : load tree path = .ok inner := by simp [load, hc]
    obtain ⟨visits, r, s', h⟩ := ih
    obtain ⟨rfl, rfl⟩ := Prod.mk.inj (he.symm.trans h.eq_resolvePieces)
    exact ⟨_, _, _, Resolves.stopped (s := ⟨chain, progress⟩) rest hr hl h (by simpa using hf)⟩

theorem Resolves.resolve_eq {origin : Option Text} {source : Text} {visits : List Visit}
    {result : Except Repetition Text} {final : State}
    (h : Resolves tree options (.start tree origin) (pieces source) visits result final) :
    resolve tree options origin source =
      (result.map fun text => ⟨text, final.progress⟩, final.progress) := by
  have heq := h.eq_resolvePieces
  simp only [State.start] at heq
  simp only [resolve, heq]
  cases result <;> rfl

end Ends

theorem State.nodup_start (tree : FileTree) (origin : Option Text) :
    (State.start tree origin).chain.Nodup := by
  cases origin <;> simp [State.start]

theorem State.fresh_start (tree : FileTree) (origin : Option Text) :
    (State.start tree origin).Fresh (State.start tree origin).chain := by
  constructor
  · simpa [State.start] using State.nodup_start tree origin
  · simp [State.start]

/-- Whatever the files require, a resolution ends under every policy. The files that it includes are those
that it begins; each is new to the chain of those being included, which has no file twice, and every text
leaves the chain as it found it. Unless files may repeat, no file is included twice, and the one that
the source comes from is not included at all. -/
theorem resolve_without_cycles (tree : FileTree) (options : Options) (origin : Option Text)
    (source : Text) :
    (∃ visits result final,
      Resolves tree options (.start tree origin) (pieces source) visits result final) ∧
    (∀ visits result final,
      Resolves tree options (.start tree origin) (pieces source) visits result final →
      resolve tree options origin source =
        (result.map fun text => ⟨text, final.progress⟩, final.progress) ∧
      final.progress.included = visits.map Visit.path ∧
      (∀ v ∈ visits, (v.chain ++ [v.path]).Nodup) ∧
      (options.policy ≠ .repeated → final.progress.included.Nodup ∧
        ∀ file, origin = some file →
          Path.resolve tree.workingDirectory file ∉ final.progress.included)) ∧
    ∀ s ps visits r s', Resolves tree options s ps visits r s' → s'.chain = s.chain := by
  refine ⟨resolves_exists tree options _ _ _, ?_, fun s ps visits r s' h => h.chain_eq⟩
  intro visits result final h
  refine ⟨h.resolve_eq, by simpa [State.start] using h.included_eq, h.nodup (State.nodup_start tree origin), ?_⟩
  intro hp
  have hend := (h.fresh hp (State.fresh_start tree origin)).nodup
  rw [List.nodup_append] at hend
  obtain ⟨-, hincluded, hdisjoint⟩ := hend
  refine ⟨hincluded, fun file ho hm => ?_⟩
  subst ho
  exact hdisjoint _ (by simp [State.start]) _ hm rfl

end SigilScript.Inclusion
