import SigilScript.Proofs.InclusionChain

/-!
The policies compared. A file that the strictest policy does not see as a repetition is none under any
other policy, because all of them go by the same chain and the same files seen. So a resolution that the
strictest policy does not refuse is, rule by rule, a resolution under each of them, and nothing is
skipped in it.
-/
namespace SigilScript.Inclusion

/-- What is no repetition under the strictest policy is none under another. -/
theorem State.not_repeats_of_error {s : State} {path : AbsolutePath} (policy : Policy)
    (h : ¬ s.repeats .error path) : ¬ s.repeats policy path := by
  simp only [State.repeats, isRepeat, Bool.or_eq_true, Bool.and_eq_true, decide_eq_true_eq, not_or,
    not_and] at h ⊢
  exact ⟨h.1, fun _ => h.2 (by decide)⟩

section Agreement

variable {tree : FileTree} {options : Options} {s s' : State} {ps : List Piece} {visits : List Visit}
  {r : Except Repetition Text}

/-- A resolution that is not refused goes by the same rules under every policy. -/
theorem Resolves.of_error (policy : Policy) (hp : options.policy = .error)
    (h : Resolves tree options s ps visits r s') (hr : r.isOk) :
    Resolves tree { options with policy } s ps visits r s' := by
  have hnew {s : State} {path : AbsolutePath} (h : ¬ s.repeats options.policy path) :
      ¬ s.repeats policy path := State.not_repeats_of_error policy (hp ▸ h)
  have hmap {r : Except Repetition Text} {f : Text → Text} (h : (r.map f).isOk) : r.isOk := by
    cases r with
    | error e => exact h
    | ok text => rfl
  induction h with
  | done s => exact .done s
  | text value h ih => exact .text value (ih (hmap hr))
  | refused rest hrep he => cases hr
  | skipped hrep he h ih => exact absurd hp he
  | failed rest hrep hl => exact .failed rest (hnew hrep) hl
  | broken rest hrep hl h ih => cases hr
  | stopped rest hrep hl h hf ih => exact .stopped rest (hnew hrep) hl (ih rfl) hf
  | included hrep hl h hf hrest ih ihrest =>
    exact .included (hnew hrep) hl (ih rfl) hf (ihrest (hmap hr))

/-- The strictest policy skips nothing: it refuses instead. -/
theorem Resolves.skipped_eq (hp : options.policy = .error)
    (h : Resolves tree options s ps visits r s') : s'.progress.skipped = s.progress.skipped := by
  induction h with
  | done => rfl
  | text value h ih => exact ih
  | refused => rfl
  | skipped hrep he h ih => exact absurd hp he
  | failed => rfl
  | broken rest hrep hl h ih => exact ih
  | stopped rest hrep hl h hf ih => exact ih
  | included hrep hl h hf hrest ih ihrest => exact ihrest.trans ih

end Agreement

/-- A source that resolves under the policy that refuses repetitions resolves to the same text under every
policy, with the same failures, the same files included and the same notes, and no file is skipped. -/
theorem resolve_policies_agree {tree : FileTree} {options : Options} {origin : Option Text} {source : Text}
    {result : Result}
    (h : (resolve tree { options with policy := .error } origin source).1 = .ok result) :
    (∀ policy, resolve tree { options with policy } origin source = (.ok result, result.progress)) ∧
      result.progress.skipped = [] := by
  obtain ⟨visits, r, final, hres⟩ :=
    resolves_exists tree { options with policy := .error } (State.start tree origin).chain
      (State.start tree origin).progress (pieces source)
  have heq := hres.resolve_eq
  rw [heq] at h
  obtain ⟨text, rfl, rfl⟩ : ∃ text, r = .ok text ∧ Result.mk text final.progress = result := by
    cases r with
    | error e => cases h
    | ok text => exact ⟨text, rfl, Except.ok.inj h⟩
  refine ⟨fun policy => ?_, hres.skipped_eq rfl⟩
  exact (hres.of_error policy rfl rfl).resolve_eq

/-- One file is included and the next is missing: every policy stops there with the same result. -/
theorem resolve_policies_agree_missing :
    ∃ result : Result,
      (resolve ⟨⟨false, []⟩, [([Text.ofString "a.sgl"], .file [65])]⟩ ⟨none, defaultExtension, .error⟩ none
        "§require[a]§require[b]!").1 = .ok result ∧
      result.text = "A§require[b]!" ∧ result.failures = [.notFound ⟨false, ["b.sgl"]⟩] ∧
      result.progress.included = [⟨false, ["a.sgl"]⟩] ∧
      (∀ policy, resolve ⟨⟨false, []⟩, [([Text.ofString "a.sgl"], .file [65])]⟩
        ⟨none, defaultExtension, policy⟩ none "§require[a]§require[b]!" =
          (.ok result, result.progress)) ∧ result.progress.skipped = [] := by
  let tree : FileTree := ⟨⟨false, []⟩, [([Text.ofString "a.sgl"], .file [65])]⟩
  let options : Options := ⟨none, defaultExtension, .error⟩
  let begun : State := (State.start tree none).begin (target tree options "a")
  have hinner : Resolves tree options begun (pieces "A") [] (.ok "A") begun := by
    rw [show pieces "A" = [.text "A"] by decide +kernel]
    exact .text "A" (.done _)
  have hnew : ¬ (State.start tree none).repeats options.policy (target tree options "a") := by decide +kernel
  have hload : load tree (target tree options "a") = .ok "A" := by
    rw [show target tree options "a" = ⟨false, ["a.sgl"]⟩ by decide +kernel]
    simp [load, content, FileTree.get?, tree, Utf8.decode, Utf8.decodeFrom, Except.map]
    rfl
  have hother : ¬ begun.leave.repeats options.policy (target tree options "b") := by decide +kernel
  have hmissing : load tree (target tree options "b") = .error (.notFound ⟨false, ["b.sgl"]⟩) := by
    rw [show target tree options "b" = ⟨false, ["b.sgl"]⟩ by decide +kernel]
    rfl
  have hsource := Resolves.included hnew hload hinner rfl (Resolves.failed [.text "!"] hother hmissing)
  have hpieces : pieces "§require[a]§require[b]!" = [.require "a", .require "b", .text "!"] := by
    decide +kernel
  rw [← hpieces] at hsource
  have hresult := congrArg Prod.fst hsource.resolve_eq
  exact ⟨_, hresult, rfl, by decide +kernel, by decide +kernel,
    @resolve_policies_agree tree options none _ _ hresult⟩

end SigilScript.Inclusion
