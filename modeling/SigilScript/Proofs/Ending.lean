import SigilScript.Context

/-!
How actions end. An action that is run from a context ends with a result or an interrupt, and leaves
a context behind in both cases.
-/
namespace SigilScript

/-- A result or an interrupt, and the context that was left. -/
abbrev Ending (α : Type) := Except Interrupt α × Context

namespace Ending

/-- Goes on after a result; an interrupt stays. -/
def andThen {α β : Type} (r : Ending α) (next : α → Context → Ending β) : Ending β :=
  match r with
  | (.ok a, c) => next a c
  | (.error e, c) => (.error e, c)

@[simp] theorem andThen_ok {α β : Type} (a : α) (c : Context) (next : α → Context → Ending β) :
    andThen (.ok a, c) next = next a c := rfl

@[simp] theorem andThen_error {α β : Type} (e : Interrupt) (c : Context)
    (next : α → Context → Ending β) : andThen (.error e, c) next = (.error e, c) := rfl

theorem andThen_assoc {α β γ : Type} (r : Ending α) (next : α → Context → Ending β)
    (last : β → Context → Ending γ) :
    (r.andThen next).andThen last = r.andThen fun a c => (next a c).andThen last := by
  rcases r with ⟨_ | _, c⟩ <;> rfl

end Ending

namespace Exec

variable {α β : Type}

def runFrom (x : Exec α) (c : Context) : Ending α := x.run.run c

theorem ext {x y : Exec α} (h : ∀ c, x.runFrom c = y.runFrom c) : x = y := funext h

@[simp] theorem runFrom_pure (a : α) (c : Context) : (pure a : Exec α).runFrom c = (.ok a, c) := rfl

@[simp] theorem runFrom_throw (e : Interrupt) (c : Context) :
    (throw e : Exec α).runFrom c = (.error e, c) := rfl

@[simp] theorem runFrom_get (c : Context) : (get : Exec Context).runFrom c = (.ok c, c) := rfl

@[simp] theorem runFrom_modify (f : Context → Context) (c : Context) :
    (modify f : Exec Unit).runFrom c = (.ok (), f c) := rfl

theorem runFrom_files (c : Context) : files.runFrom c = (.ok c.world.files, c) := rfl

@[simp] theorem runFrom_bind (x : Exec α) (f : α → Exec β) (c : Context) :
    (x >>= f).runFrom c = (x.runFrom c).andThen fun a c => (f a).runFrom c := by
  change (ExceptT.bind x f c : Ending β) = Ending.andThen (x c) _
  simp only [ExceptT.bind, ExceptT.mk, bind, StateT.bind]
  cases x c with
  | mk r c => cases r <;> rfl

theorem of_runFrom_bind {x : Exec α} {f : α → Exec β} {c c' : Context} {b : β}
    (h : (x >>= f).runFrom c = (.ok b, c')) :
    ∃ a c₁, x.runFrom c = (.ok a, c₁) ∧ (f a).runFrom c₁ = (.ok b, c') := by
  rw [runFrom_bind] at h
  rcases hx : x.runFrom c with ⟨e | a, c₁⟩
  · rw [hx] at h
    cases h
  · rw [hx] at h
    exact ⟨a, c₁, rfl, h⟩

/-- The ending of an action that gives a result. -/
theorem runFrom_of_toOption {x : Exec α} {c : Context} {a : α} (h : (x.runFrom c).1.toOption = some a) :
    x.runFrom c = (.ok a, (x.runFrom c).2) := by
  rcases hx : x.runFrom c with ⟨e | a', c'⟩
  · rw [hx] at h
    cases h
  · rw [hx] at h
    cases h
    rfl

theorem runFrom_tryCatch (x : Exec α) (handle : Interrupt → Exec α) (c : Context) :
    (tryCatch x handle).runFrom c =
      match x.runFrom c with
      | (.ok a, c) => (.ok a, c)
      | (.error e, c) => (handle e).runFrom c := by
  change (ExceptT.tryCatch x handle c : Ending α) = match (x c : Ending α) with
    | (.ok a, c) => (.ok a, c)
    | (.error e, c) => (handle e c : Ending α)
  simp only [ExceptT.tryCatch, ExceptT.mk, bind, StateT.bind]
  cases x c with
  | mk r c => cases r <;> rfl

end Exec

end SigilScript
