import SigilScript.Proofs.EngineContract
import SigilScript.Proofs.HiddenRequire
import SigilScript.Session

/-!
The contract of a session. Preparation only reports, and what it lets pass is the lines of a text
without problems; it is interrupted only for a policy that nobody knows. A run is then a run of these
lines, from the context that preparation left.
-/
namespace SigilScript

theorem Exec.obeys_forM {α : Type} {I : Context → Prop} {E : Interrupt → Prop} {f : α → Exec Unit}
    {items : List α} (h : ∀ a ∈ items, (f a).Obeys I E) : (items.forM f).Obeys I E := by
  induction items with
  | nil => exact Exec.obeys_pure _
  | cons a items ih =>
    rw [List.forall_mem_cons] at h
    exact h.1.bind fun _ => ih h.2

namespace Session

variable {I : Context → Prop}

/-- The lines of a text without problems. -/
def Passes (s : Session) (lines : List Line) : Prop :=
  ∃ text, Validation.validate text = [] ∧ Program.parse text s.file = .ok lines

theorem obeys_include? (hI : Exec.IgnoresReports I) {E : Interrupt → Prop} (s : Session)
    (policy : Inclusion.Policy) : (s.include? policy).Obeys I E := by
  unfold include?
  refine Exec.Obeys.bind (Exec.obeys_get.bind fun _ => Exec.obeys_pure _) fun tree => ?_
  dsimp only
  refine (Exec.obeys_forM fun note _ => Exec.obeys_trace hI _ _).bind fun _ => ?_
  split
  · exact (Exec.obeys_error hI _ _).bind fun _ => Exec.obeys_pure _
  · refine (Exec.obeys_forM fun f _ => Exec.obeys_error hI _ _).bind fun _ => ?_
    split
    · exact Exec.obeys_pure _
    · split
      · exact (Exec.obeys_error hI _ _).bind fun _ => Exec.obeys_pure _
      · exact Exec.obeys_pure _

theorem obeys_reportProblems (hI : Exec.IgnoresReports I) {E : Interrupt → Prop} (s : Session)
    (problems : List Validation.Problem) : (s.reportProblems problems).Obeys I E :=
  Exec.obeys_forM fun _ _ => (Exec.obeys_report hI _ _ _ _).bind fun _ => Exec.obeys_pure _

theorem meets_prepare (hI : Exec.IgnoresReports I) (s : Session) :
    s.prepare.Meets I (fun lines c => I c ∧ ∀ ls, lines = some ls → s.Passes ls)
      (fun e c => I c ∧ e = .failure (.unknownPolicy s.policy)) := by
  -- what ends without lines is a report
  have hnone : (pure none : Exec (Option (List Line))).Meets I
      (fun lines c => I c ∧ ∀ ls, lines = some ls → s.Passes ls)
      (fun e c => I c ∧ e = .failure (.unknownPolicy s.policy)) :=
    Exec.meets_pure fun _ hc => ⟨hc, fun _ h => absurd h (by simp)⟩
  have herror : ∀ rule message, (Exec.error rule message).Meets I (fun _ => I)
      (fun e c => I c ∧ e = .failure (.unknownPolicy s.policy)) := fun rule message =>
    (Exec.obeys_error hI rule message).uninterrupted
  unfold prepare
  split
  · exact (herror _ _).bind fun _ => hnone
  · split
    · exact Exec.meets_throw fun _ hc => ⟨hc, rfl⟩
    · rename_i policy _
      refine (obeys_include? hI s policy).uninterrupted.bind fun included => ?_
      split
      · exact hnone
      · rename_i text
        split
        · rename_i hv
          split
          · rename_i lines hp
            refine Exec.meets_pure fun _ hc => ⟨hc, fun ls hl => ?_⟩
            cases hl
            exact ⟨text, hv, hp⟩
          · exact (herror _ _).bind fun _ => hnone
        · exact (obeys_reportProblems hI s _).uninterrupted.bind fun _ => hnone

theorem passes_of_prepare {s : Session} {lines : List Line} {c c' : Context}
    (h : s.prepare.runFrom c = (.ok (some lines), c')) : s.Passes lines := by
  have hprepared := meets_prepare (I := fun _ => True) (fun _ _ hc => hc) s c trivial
  rw [h] at hprepared
  exact hprepared.2 lines rfl

/-- A run that has an outcome: nothing passed, or what passed was run. -/
theorem run_eq_ok {s : Session} {log : StepLog} {world : World} {o : Outcome}
    (h : s.run log world = .ok o) :
    (∃ c, s.prepare.runFrom (Context.start s.debug log world) = (.ok none, c) ∧
      o = ⟨false, 0, none, c⟩) ∨
    ∃ lines c, s.prepare.runFrom (Context.start s.debug log world) = (.ok (some lines), c) ∧
      o = s.execute lines c := by
  unfold run at h
  split at h
  · simp at h
  · rename_i c hp
    exact .inl ⟨c, hp, (Except.ok.inj h).symm⟩
  · rename_i lines c hp
    exact .inr ⟨lines, c, hp, (Except.ok.inj h).symm⟩

theorem run_of_prepare {s : Session} {log : StepLog} {world : World} {lines : List Line} {c : Context}
    (h : s.prepare.runFrom (Context.start s.debug log world) = (.ok (some lines), c)) :
    s.run log world = .ok (s.execute lines c) := by
  unfold run
  rw [show s.prepare.run.run (Context.start s.debug log world) = (.ok (some lines), c) from h]

theorem execute_eq (s : Session) (lines : List Line) (c : Context) :
    s.execute lines c =
      match (Execution.program s.registry.dispatcher lines).runFrom c with
      | (.ok _, c) => ⟨true, 0, none, c⟩
      | (.error (.exitRun code), c) => ⟨true, code, none, c⟩
      | (.error e, c) => stopWith (faultOf c.log e) c := rfl

/-- What the run of the lines leaves, and a report does not change, is left by the outcome. -/
theorem execute_context (hI : Exec.IgnoresReports I) {s : Session} {lines : List Line} {c : Context}
    (h : I ((Execution.program s.registry.dispatcher lines).runFrom c).2) :
    I (s.execute lines c).context := by
  rw [execute_eq]
  rcases hr : (Execution.program s.registry.dispatcher lines).runFrom c with ⟨e | _, c'⟩
  · rw [hr] at h
    cases e with
    | exitRun code => exact h
    | breakLoop => exact hI c' _ h
    | continueLoop => exact hI c' _ h
    | fault f => exact hI c' _ h
    | failure f => exact hI c' _ h
  · rw [hr] at h
    exact h

/-- A run of the lines that is not stopped is a success. -/
theorem execute_success {E : Interrupt → Prop} {post : Unit → Context → Prop} {s : Session}
    {lines : List Line} {c : Context}
    (h : ((Execution.program s.registry.dispatcher lines).runFrom c).Satisfies post (Stopped I E)) :
    (s.execute lines c).success = true ∨
      ∃ e c', E e ∧ s.execute lines c = stopWith (faultOf c'.log e) c' := by
  rw [execute_eq]
  rcases hr : (Execution.program s.registry.dispatcher lines).runFrom c with ⟨e | _, c'⟩
  · rw [hr] at h
    rcases h.2 with ⟨code, rfl⟩ | he
    · exact .inl rfl
    · cases e with
      | exitRun code => exact .inl rfl
      | breakLoop => exact .inr ⟨_, c', he, rfl⟩
      | continueLoop => exact .inr ⟨_, c', he, rfl⟩
      | fault f => exact .inr ⟨_, c', he, rfl⟩
      | failure f => exact .inr ⟨_, c', he, rfl⟩
  · exact .inl rfl

/-- A success is a run to the end, or one that a signal ended with its code. -/
theorem execute_code {post : Unit → Context → Prop} {stop : Interrupt → Context → Prop} {s : Session}
    {lines : List Line} {c : Context}
    (h : ((Execution.program s.registry.dispatcher lines).runFrom c).Satisfies post stop)
    (hs : (s.execute lines c).success = true) :
    (s.execute lines c).exitCode = 0 ∧ post () (s.execute lines c).context ∨
      stop (.exitRun (s.execute lines c).exitCode) (s.execute lines c).context := by
  rw [execute_eq] at hs ⊢
  rcases hr : (Execution.program s.registry.dispatcher lines).runFrom c with ⟨e | _, c'⟩
  · rw [hr] at h hs
    cases e with
    | exitRun code => exact .inr h
    | breakLoop => exact absurd hs (by simp [stopWith])
    | continueLoop => exact absurd hs (by simp [stopWith])
    | fault f => exact absurd hs (by simp [stopWith])
    | failure f => exact absurd hs (by simp [stopWith])
  · rw [hr] at h
    exact .inl ⟨rfl, h⟩

/-- A source without requires and problems passes as it is. -/
theorem prepare_of_unresolved {s : Session} {policy : Inclusion.Policy} {lines : List Line}
    (hne : s.source.strip.isEmpty = false)
    (hpolicy : Inclusion.Policy.ofText? s.policy = some policy)
    (hu : Inclusion.unresolved s.source = []) (hv : Validation.validate s.source = [])
    (hp : Program.parse s.source s.file = .ok lines) (log : StepLog) (world : World) :
    s.prepare.runFrom (Context.start s.debug log world) =
      (.ok (some lines), Context.start s.debug log world) := by
  generalize Context.start s.debug log world = c
  have hinclude : (s.include? policy).runFrom c = (.ok (some s.source), c) := by
    obtain ⟨progress, hr, hnotes, hc⟩ := Inclusion.resolve_of_unresolved c.world.files
      ⟨s.base, Inclusion.defaultExtension, policy⟩
      (if s.file = literalName then none else some s.file) hu
    have hfailures : (Inclusion.Result.mk s.source progress).failures = [] := by
      simpa using (Bool.and_eq_true_iff.mp hc).1
    simp only [include?, Exec.files, Exec.runFrom_bind, Exec.runFrom_get, Exec.runFrom_pure,
      Ending.andThen_ok, hr, hnotes, hfailures, hc]
    rfl
  simp only [prepare, hne, Bool.false_eq_true, if_false, hpolicy, Exec.runFrom_bind, hinclude,
    Ending.andThen_ok, hv, hp]
  rfl

end Session

end SigilScript
