import SigilScript.Proofs.HiddenRequire
import SigilScript.Proofs.InclusionChain
import SigilScript.Proofs.Refusal

/-!
Where a resolution stops. A file that cannot be included ends everything: no file is included after it, and
what follows its require, in its own text and in every text that is being included around it, is kept as
it is written. One text is looked at first. If anything fails in it there is a first require at which it
does, and this names either the file that cannot be included or one whose own text stops. The chain of these
requires leads from the source to the failure.
-/
namespace SigilScript.Inclusion

/-- A require in a text, and the pieces around it. -/
structure Frame where
  before : List Piece
  argument : Text
  after : List Piece
  deriving DecidableEq, Repr

namespace Frame

def pieces (f : Frame) : List Piece := f.before ++ .require f.argument :: f.after

/-- The require as it is written. -/
def directive (f : Frame) : Text := (Piece.require f.argument).source

/-- The text that follows the require. -/
def rest (f : Frame) : Text := f.after.flatMap Piece.source

/-- A text is cut at one of its requires. -/
structure Cuts (f : Frame) (t : Text) : Prop where
  pieces_eq : Inclusion.pieces t = f.pieces
  text_eq : t = f.before.flatMap Piece.source ++ (f.directive ++ f.rest)

theorem cuts_of_pieces {f : Frame} {t : Text} (h : Inclusion.pieces t = f.pieces) : f.Cuts t := by
  have hsource : (Inclusion.pieces t).flatMap Piece.source = t := source_piecesFrom [] [] t
  refine ⟨h, ?_⟩
  rw [← hsource, h, pieces, List.flatMap_append, List.flatMap_cons]
  rfl

end Frame

/-- The require of `f`, the text after it, and the texts after the requires around it, which are given the
outermost first. -/
def keptFrom (frames : List Frame) (f : Frame) : Text :=
  f.directive ++ (f.rest ++ frames.reverse.flatMap Frame.rest)

theorem keptFrom_nil (f : Frame) : keptFrom [] f = f.directive ++ f.rest := by simp [keptFrom]

theorem keptFrom_cons (outer : Frame) (frames : List Frame) (f : Frame) :
    keptFrom (outer :: frames) f = keptFrom frames f ++ outer.rest := by
  simp [keptFrom]

/-- From one state resolution gets to the require of a frame in another, and `lead` is what the text before
it has become. Nothing has failed by then, and the file that is named there is to be included. -/
structure Attempts (tree : FileTree) (options : Options) (s : State) (f : Frame) (lead : Text)
    (s' : State) : Prop where
  before : resolvePieces tree options s.chain s.progress f.before = (.ok lead, s'.progress)
  chain : s'.chain = s.chain
  clear : s'.progress.failures = []
  new : ¬ s'.repeats options.policy (target tree options f.argument)

/-- Resolution of a text comes to the require of `f`, through the requires of `frames`, the outermost of
which stands in the text itself. -/
inductive ComesTo (tree : FileTree) (options : Options) :
    State → Text → List Frame → Frame → Text → State → Prop
  | here {s s' : State} {t lead : Text} {f : Frame} (hcut : f.Cuts t)
      (h : Attempts tree options s f lead s') : ComesTo tree options s t [] f lead s'
  | inside {s s₁ s' : State} {t inner lead more : Text} {outer f : Frame} {frames : List Frame}
      (hcut : outer.Cuts t) (h : Attempts tree options s outer lead s₁)
      (hl : load tree (target tree options outer.argument) = .ok inner)
      (hin : ComesTo tree options (s₁.begin (target tree options outer.argument)) inner frames f more s') :
      ComesTo tree options s t (outer :: frames) f (lead ++ more) s'

section Stops

variable {tree : FileTree} {options : Options} {s s' s'' : State} {ps : List Piece} {visits : List Visit}

theorem resolves_of_eq {r : Except Repetition Text}
    (h : resolvePieces tree options s.chain s.progress ps = (r, s'.progress)) (hchain : s'.chain = s.chain) :
    ∃ visits, Resolves tree options s ps visits r s' := by
  obtain ⟨visits, r', final, hres⟩ := resolves_exists tree options s.chain s.progress ps
  obtain ⟨rfl, hprogress⟩ := Prod.mk.inj (h.symm.trans hres.eq_resolvePieces)
  obtain rfl : s' = final := by
    cases s'
    cases final
    exact congrArg₂ State.mk (hchain.trans hres.chain_eq.symm) hprogress
  exact ⟨visits, hres⟩

theorem of_map_ok {f : Text → Text} {r : Except Repetition Text} {text : Text} (h : r.map f = .ok text) :
    ∃ inner, r = .ok inner ∧ f inner = text := by
  cases r with
  | error e => cases h
  | ok inner => exact ⟨inner, rfl, Except.ok.inj h⟩

theorem map_append_append (first second : Text) (r : Except Repetition Text) :
    r.map (first ++ second ++ ·) = (r.map (second ++ ·)).map (first ++ ·) := by
  cases r with
  | error e => rfl
  | ok text => exact congrArg Except.ok (List.append_assoc first second text)

/-- Pieces that have become a text without a failure go before others. -/
theorem Resolves.append {rest : List Piece} {more : List Visit} {r : Except Repetition Text}
    {lead : Text} (h : Resolves tree options s ps visits (.ok lead) s') (hclear : s'.progress.failures = [])
    (hrest : Resolves tree options s' rest more r s'') :
    Resolves tree options s (ps ++ rest) (visits ++ more) (r.map (lead ++ ·)) s'' := by
  generalize hresult : Except.ok lead = result at h
  induction h generalizing lead with
  | done s =>
    cases hresult
    have hsame : r.map (([] : Text) ++ ·) = r := by cases r <;> rfl
    rw [hsame]
    exact hrest
  | text value h ih =>
    obtain ⟨inner, rfl, rfl⟩ := of_map_ok hresult.symm
    rw [map_append_append]
    exact .text value (ih hclear hrest rfl)
  | refused => cases hresult
  | skipped hr hp h ih =>
    obtain ⟨inner, rfl, rfl⟩ := of_map_ok hresult.symm
    rw [map_append_append]
    exact .skipped hr hp (ih hclear hrest rfl)
  | failed => simp [State.fail] at hclear
  | broken => cases hresult
  | @stopped s s₁ argument inner text visits rest hr hl h hf ih =>
    have hclear : s₁.progress.failures = [] := hclear
    simp [hclear] at hf
  | included hr hl h hf hlater ih ihlater =>
    obtain ⟨later, rfl, rfl⟩ := of_map_ok hresult.symm
    rw [map_append_append, List.append_assoc]
    exact .included hr hl h hf (ihlater hclear hrest rfl)

/-- Nothing has failed before the failure. -/
theorem ComesTo.progress_fail {t lead : Text} {frames : List Frame} {f : Frame}
    (h : ComesTo tree options s t frames f lead s') (failure : Failure) :
    (s'.fail failure).progress = { s'.progress with failures := [failure] } := by
  induction h with
  | here hcut h => rw [State.fail, h.clear, List.nil_append]
  | inside hcut h hl hin ih => exact ih

/-- A text that has come to a file which cannot be included is done: nothing else happens. -/
theorem ComesTo.resolves {t lead : Text} {frames : List Frame} {f : Frame} {failure : Failure}
    (h : ComesTo tree options s t frames f lead s')
    (hl : load tree (target tree options f.argument) = .error failure) :
    ∃ visits s'', Resolves tree options s (pieces t) visits (.ok (lead ++ keptFrom frames f)) s'' ∧
      s''.progress = (s'.fail failure).progress := by
  induction h with
  | @here s s' t lead f hcut h =>
    obtain ⟨visits, hbefore⟩ := resolves_of_eq h.before h.chain
    have hall := hbefore.append h.clear (.failed f.after h.new hl)
    rw [hcut.pieces_eq, keptFrom_nil]
    exact ⟨_, _, hall, rfl⟩
  | @inside s s₁ s' t inner lead more outer f frames hcut h hload hin ih =>
    obtain ⟨inside, s'', hinner, hprogress⟩ := ih hl
    obtain ⟨visits, hbefore⟩ := resolves_of_eq h.before h.chain
    have hfailed : s''.progress.failures.isEmpty = false := by
      rw [hprogress]
      simp [State.fail]
    have hall := hbefore.append h.clear (.stopped outer.after h.new hload hinner hfailed)
    rw [hcut.pieces_eq, keptFrom_cons, List.append_assoc, ← List.append_assoc more]
    exact ⟨_, _, hall, hprogress⟩

/-- Resolution gives up at a require among the pieces: its file cannot be included, or something fails in the
text of its file, in which fewer than `n` files are visited. -/
inductive GivesUp (tree : FileTree) (options : Options) (s : State) :
    List Piece → Nat → Text → Progress → Prop
  | unloaded {s₁ : State} {f : Frame} {lead : Text} {failure : Failure} (n : Nat)
      (h : Attempts tree options s f lead s₁)
      (hl : load tree (target tree options f.argument) = .error failure) :
      GivesUp tree options s f.pieces n (lead ++ (f.directive ++ f.rest)) (s₁.fail failure).progress
  | within {s₁ s₂ : State} {f : Frame} {lead inner text : Text} {visits : List Visit} {n : Nat}
      (h : Attempts tree options s f lead s₁)
      (hl : load tree (target tree options f.argument) = .ok inner)
      (hin : Resolves tree options (s₁.begin (target tree options f.argument)) (pieces inner) visits
        (.ok text) s₂)
      (hfailed : s₂.progress.failures ≠ []) (hlt : visits.length < n) :
      GivesUp tree options s f.pieces n (lead ++ (text ++ f.rest)) s₂.progress

theorem Attempts.cons {f : Frame} {piece : Piece} {start lead : Text}
    (hpiece : Resolves tree options s [piece] visits (.ok start) s') (hclear : s'.progress.failures = [])
    (h : Attempts tree options s' f lead s'') :
    Attempts tree options s { f with before := piece :: f.before } (start ++ lead) s'' := by
  obtain ⟨more, hbefore⟩ := resolves_of_eq h.before h.chain
  exact ⟨(hpiece.append hclear hbefore).eq_resolvePieces, h.chain.trans hpiece.chain_eq, h.clear, h.new⟩

theorem GivesUp.cons {piece : Piece} {n : Nat} {start text : Text} {progress : Progress}
    (hpiece : Resolves tree options s [piece] visits (.ok start) s') (hclear : s'.progress.failures = [])
    (h : GivesUp tree options s' ps n text progress) :
    GivesUp tree options s (piece :: ps) (visits.length + n) (start ++ text) progress := by
  cases h with
  | unloaded _ h hl =>
    rw [← List.append_assoc]
    exact .unloaded _ (h.cons hpiece hclear) hl
  | within h hl hin hfailed hlt =>
    rw [← List.append_assoc]
    exact .within (h.cons hpiece hclear) hl hin hfailed (by omega)

theorem attempts_first {argument : Text} (rest : List Piece) (hs : s.progress.failures = [])
    (hr : ¬ s.repeats options.policy (target tree options argument)) :
    Attempts tree options s ⟨[], argument, rest⟩ [] s :=
  ⟨(Resolves.done s).eq_resolvePieces, rfl, hs, hr⟩

/-- If something fails among pieces, they are given up at one of their requires. -/
theorem Resolves.givesUp {text : Text} (h : Resolves tree options s ps visits (.ok text) s')
    (hs : s.progress.failures = []) (hs' : s'.progress.failures ≠ []) :
    GivesUp tree options s ps visits.length text s'.progress := by
  generalize hresult : Except.ok text = result at h
  induction h generalizing text with
  | done s => exact absurd hs hs'
  | @text s s' rest visits r value h ih =>
    obtain ⟨inner, rfl, rfl⟩ := of_map_ok hresult.symm
    have hpiece : Resolves tree options s [.text value] _ _ s := .text value (.done s)
    simpa [Except.map] using (ih hs hs' rfl).cons hpiece hs
  | refused => cases hresult
  | skipped hr hp h ih =>
    obtain ⟨inner, rfl, rfl⟩ := of_map_ok hresult.symm
    have hpiece := Resolves.skipped hr hp (.done _)
    simpa [Except.map] using (ih hs hs' rfl).cons hpiece hs
  | failed rest hr hl =>
    cases hresult
    exact .unloaded _ (attempts_first rest hs hr) hl
  | broken => cases hresult
  | @stopped s s' argument inner text visits rest hr hl h hf ih =>
    cases hresult
    change GivesUp tree options s _ _ _ s'.progress
    exact .within (attempts_first rest hs hr) hl h hs' (Nat.lt_succ_self visits.length)
  | @included s s' s'' argument inner text visits more rest r hr hl h hf hlater ih ihlater =>
    obtain ⟨later, rfl, rfl⟩ := of_map_ok hresult.symm
    have hclear := List.isEmpty_iff.mp hf
    have hpiece := Resolves.included hr hl h hf (.done _)
    simpa [Except.map, Nat.add_right_comm] using (ihlater hclear hs' rfl).cons hpiece hclear

/-- If something fails in a text, resolution comes to a file that cannot be included, and has ended there: by
induction on the files that it visits. -/
theorem Resolves.comesTo {n : Nat} {t text : Text} (h : Resolves tree options s (pieces t) visits (.ok text) s')
    (hn : visits.length < n) (hs : s.progress.failures = []) (hs' : s'.progress.failures ≠ []) :
    ∃ frames f lead s₁ failure, ComesTo tree options s t frames f lead s₁ ∧
      load tree (target tree options f.argument) = .error failure ∧ text = lead ++ keptFrom frames f ∧
      s'.progress = (s₁.fail failure).progress := by
  induction n generalizing s t visits text s' with
  | zero => exact absurd hn (Nat.not_lt_zero _)
  | succ n ih =>
    have hup := h.givesUp hs hs'
    generalize hps : pieces t = ps at hup
    generalize hlength : visits.length = bound at hup
    generalize hprogress : s'.progress = progress at hup
    cases hup with
    | @unloaded s₁ f lead failure _ hattempts hl =>
      exact ⟨[], f, lead, s₁, failure, .here (Frame.cuts_of_pieces hps) hattempts, hl,
        by rw [keptFrom_nil], rfl⟩
    | @within s₁ s₂ outer lead inner shown visits' _ hattempts hl hin hfailed hlt =>
      have hclear : (s₁.begin (target tree options outer.argument)).progress.failures = [] := hattempts.clear
      obtain ⟨frames, f, more, s₃, failure, hcomes, hload, rfl, hsame⟩ := ih hin (by omega) hclear hfailed
      refine ⟨outer :: frames, f, lead ++ more, s₃, failure,
        .inside (Frame.cuts_of_pieces hps) hattempts hl hcomes, hload, ?_, hsame⟩
      rw [keptFrom_cons, List.append_assoc, List.append_assoc]

end Stops

/-- A resolution has at most one failure. If there is one, resolution has come to a file that cannot be included,
through requires in the texts around it, and what it had done then is all that it has done. The text ends with the
require of that file as it is written, followed by the texts after all these requires, the innermost first. And
whenever resolution comes to such a file, this is how it ends. -/
theorem resolve_stops_at_failure {tree : FileTree} {options : Options} {origin : Option Text} {source : Text}
    {result : Result} (h : (resolve tree options origin source).1 = .ok result) :
    result.failures.length ≤ 1 ∧
    (∀ failure ∈ result.failures, ∃ frames f lead s,
      ComesTo tree options (.start tree origin) source frames f lead s ∧
      load tree (target tree options f.argument) = .error failure ∧
      result.progress = { s.progress with failures := [failure] } ∧
      result.text = lead ++ (f.directive ++ (f.rest ++ frames.reverse.flatMap Frame.rest))) ∧
    ∀ frames f lead s failure, ComesTo tree options (.start tree origin) source frames f lead s →
      load tree (target tree options f.argument) = .error failure →
      result = ⟨lead ++ (f.directive ++ (f.rest ++ frames.reverse.flatMap Frame.rest)),
        { s.progress with failures := [failure] }⟩ := by
  obtain ⟨visits, r, final, hres⟩ := resolves_exists tree options (State.start tree origin).chain
    (State.start tree origin).progress (pieces source)
  rw [hres.resolve_eq] at h
  obtain ⟨text, rfl, rfl⟩ : ∃ text, r = .ok text ∧ Result.mk text final.progress = result := by
    cases r with
    | error e => cases h
    | ok text => exact ⟨text, rfl, Except.ok.inj h⟩
  have hstop : final.progress.failures ≠ [] → ∃ frames f lead s failure,
      ComesTo tree options (.start tree origin) source frames f lead s ∧
      load tree (target tree options f.argument) = .error failure ∧
      final.progress = { s.progress with failures := [failure] } ∧ text = lead ++ keptFrom frames f := by
    intro hfailed
    obtain ⟨frames, f, lead, s, failure, hcomes, hload, htext, hprogress⟩ :=
      hres.comesTo (Nat.lt_succ_self _) rfl hfailed
    rw [hcomes.progress_fail] at hprogress
    exact ⟨frames, f, lead, s, failure, hcomes, hload, hprogress, htext⟩
  refine ⟨?_, ?_, ?_⟩
  · by_cases hfailed : final.progress.failures = []
    · simp [Result.failures, hfailed]
    · obtain ⟨frames, f, lead, s, failure, -, -, hprogress, -⟩ := hstop hfailed
      simp [Result.failures, hprogress]
  · intro failure hmem
    obtain ⟨frames, f, lead, s, failure', hcomes, hload, hprogress, htext⟩ := hstop (List.ne_nil_of_mem hmem)
    obtain rfl : failure = failure' := by simpa [Result.failures, hprogress] using hmem
    exact ⟨frames, f, lead, s, hcomes, hload, hprogress, htext⟩
  · intro frames f lead s failure hcomes hload
    obtain ⟨visits', final', hres', hprogress⟩ := hcomes.resolves hload
    have hsame := congrArg Prod.fst (hres.resolve_eq.symm.trans hres'.resolve_eq)
    rw [hprogress, hcomes.progress_fail] at hsame
    exact Except.ok.inj hsame

/-- A file is missing in a file that is included: of both texts the rest is kept, and a require in it is not looked
at. -/
theorem resolve_stops_at_failure_nested :
    let tree : FileTree := ⟨⟨false, []⟩, [([Text.ofString "a.sgl"],
      .file [49, 194, 167, 114, 101, 113, 117, 105, 114, 101, 91, 98, 93, 50])]⟩
    let options : Options := ⟨none, defaultExtension, .skip⟩
    ∃ result : Result, (resolve tree options none "0§require[a]3§require[c]").1 = .ok result ∧
      result.failures.length ≤ 1 ∧ result.failures = [.notFound ⟨false, ["b.sgl"]⟩] ∧
      result.progress.included = [⟨false, ["a.sgl"]⟩] ∧ result.text = "01§require[b]23§require[c]" := by
  intro tree options
  let outer : Frame := ⟨[.text "0"], "a", [.text "3", .require "c"]⟩
  let f : Frame := ⟨[.text "1"], "b", [.text "2"]⟩
  let s : State := .start tree none
  let begun : State := s.begin (target tree options "a")
  have hcuts : pieces "0§require[a]3§require[c]" = outer.pieces ∧ pieces "1§require[b]2" = f.pieces ∧
      (load tree (target tree options "a")).toOption = some ("1§require[b]2" : Text) ∧
      ¬ s.repeats options.policy (target tree options "a") ∧
      ¬ begun.repeats options.policy (target tree options "b") ∧
      target tree options "b" = ⟨false, ["b.sgl"]⟩ ∧ target tree options "a" = ⟨false, ["a.sgl"]⟩ := by
    decide +kernel
  obtain ⟨houter, hf, hload, hnew, hother, hpath, hincluded⟩ := hcuts
  have hfirst : Attempts tree options s outer "0" s :=
    ⟨(Resolves.text "0" (.done s)).eq_resolvePieces, rfl, rfl, hnew⟩
  have hsecond : Attempts tree options begun f "1" begun :=
    ⟨(Resolves.text "1" (.done begun)).eq_resolvePieces, rfl, rfl, hother⟩
  have hcomes : ComesTo tree options s "0§require[a]3§require[c]" [outer] f "01" begun :=
    .inside (Frame.cuts_of_pieces houter) hfirst (eq_ok_of_toOption hload) (.here (Frame.cuts_of_pieces hf) hsecond)
  have hmissing : load tree (target tree options f.argument) = .error (.notFound ⟨false, ["b.sgl"]⟩) := by
    rw [hpath]
    rfl
  obtain ⟨visits, final, hres, -⟩ := hcomes.resolves hmissing
  have hresult := congrArg Prod.fst hres.resolve_eq
  obtain ⟨hone, -, hends⟩ := resolve_stops_at_failure hresult
  have hresolved := hends [outer] f "01" begun _ hcomes hmissing
  refine ⟨_, hresult, hone, ?_, ?_, ?_⟩
  · rw [hresolved]
    rfl
  · rw [hresolved]
    exact congrArg (fun path => [path]) hincluded
  · rw [hresolved]
    rfl

end SigilScript.Inclusion
