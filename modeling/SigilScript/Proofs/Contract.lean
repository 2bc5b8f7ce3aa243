import SigilScript.Proofs.Ending

/-!
Contracts of actions. A contract says what holds of the context when an action has a result, and when it
is interrupted, if something held before. Contracts compose along sequences and handlers. Of an
action that keeps an invariant and can only be interrupted in certain ways we say that it obeys them;
obedience is the contract that has the invariant in all three places.
-/
namespace SigilScript

/-- What is said of results holds, or what is said of interrupts. -/
def Ending.Satisfies {α : Type} (r : Ending α) (post : α → Context → Prop)
    (stop : Interrupt → Context → Prop) : Prop :=
  match r with
  | (.ok a, c) => post a c
  | (.error e, c) => stop e c

@[simp] theorem Ending.satisfies_ok {α : Type} (a : α) (c : Context) (post : α → Context → Prop)
    (stop : Interrupt → Context → Prop) : Satisfies (.ok a, c) post stop ↔ post a c := .rfl

@[simp] theorem Ending.satisfies_error {α : Type} (e : Interrupt) (c : Context)
    (post : α → Context → Prop) (stop : Interrupt → Context → Prop) :
    Satisfies (.error e, c) post stop ↔ stop e c := .rfl

namespace Exec

variable {α β : Type} {pre pre' : Context → Prop} {post mid : α → Context → Prop}
  {stop : Interrupt → Context → Prop} {x : Exec α}

def Meets (pre : Context → Prop) (x : Exec α) (post : α → Context → Prop)
    (stop : Interrupt → Context → Prop) : Prop :=
  ∀ c, pre c → (x.runFrom c).Satisfies post stop

theorem meets_pure {a : α} (h : ∀ c, pre c → post a c) : (pure a : Exec α).Meets pre post stop := h

theorem meets_throw {e : Interrupt} (h : ∀ c, pre c → stop e c) :
    (throw e : Exec α).Meets pre post stop := h

theorem meets_get {post : Context → Context → Prop} (h : ∀ c, pre c → post c c) :
    (get : Exec Context).Meets pre post stop := h

theorem meets_modify {f : Context → Context} {post : Unit → Context → Prop}
    (h : ∀ c, pre c → post () (f c)) : (modify f : Exec Unit).Meets pre post stop := h

theorem Meets.bind {f : α → Exec β} {post : β → Context → Prop} (hx : x.Meets pre mid stop)
    (hf : ∀ a, (f a).Meets (mid a) post stop) : (x >>= f).Meets pre post stop := by
  intro c hc
  have h := hx c hc
  rw [runFrom_bind]
  rcases hr : x.runFrom c with ⟨e | a, c'⟩
  · simpa [hr] using h
  · rw [hr] at h
    exact hf a c' h

theorem Meets.tryCatch {handle : Interrupt → Exec α} {caught : Interrupt → Context → Prop}
    (hx : x.Meets pre post caught) (hh : ∀ e, (handle e).Meets (caught e) post stop) :
    (tryCatch x handle).Meets pre post stop := by
  intro c hc
  have h := hx c hc
  rw [runFrom_tryCatch]
  rcases hr : x.runFrom c with ⟨e | a, c'⟩
  · rw [hr] at h
    exact hh e c' h
  · simpa [hr] using h

/-- A contract holds of more contexts, and promises less. -/
theorem Meets.weaken {post' : α → Context → Prop} {stop' : Interrupt → Context → Prop}
    (hx : x.Meets pre' post' stop') (hpre : ∀ c, pre c → pre' c)
    (hpost : ∀ a c, post' a c → post a c) (hstop : ∀ e c, stop' e c → stop e c) :
    x.Meets pre post stop := by
  intro c hc
  have h := hx c (hpre c hc)
  rcases hr : x.runFrom c with ⟨e | a, c'⟩
  · rw [hr] at h
    exact hstop e c' h
  · rw [hr] at h
    exact hpost a c' h

theorem Meets.assuming (hx : x.Meets pre' post stop) (h : ∀ c, pre c → pre' c) : x.Meets pre post stop :=
  hx.weaken h (fun _ _ hp => hp) (fun _ _ hs => hs)

theorem Meets.promising (hx : x.Meets pre mid stop) (h : ∀ a c, mid a c → post a c) :
    x.Meets pre post stop :=
  hx.weaken (fun _ hp => hp) h (fun _ _ hs => hs)

/-- What holds of the context that is left, however the action ends. -/
theorem Meets.context {P : Context → Prop} (hx : x.Meets pre post stop) {c : Context} (hc : pre c)
    (hpost : ∀ a c, post a c → P c) (hstop : ∀ e c, stop e c → P c) : P (x.runFrom c).2 := by
  have h := hx c hc
  rcases hr : x.runFrom c with ⟨e | a, c'⟩
  · rw [hr] at h
    exact hstop e c' h
  · rw [hr] at h
    exact hpost a c' h

/-- What is done at last is done after a result and after an interrupt. -/
theorem Meets.ensuring {after : Exec Unit} {caught : Interrupt → Context → Prop}
    (hx : x.Meets pre mid caught) (ha : ∀ a, after.Meets (mid a) (fun _ => post a) stop)
    (hc : ∀ e, after.Meets (caught e) (fun _ => stop e) stop) :
    (Exec.ensuring x after).Meets pre post stop := by
  have hcatch : (MonadExcept.tryCatch x fun e => do after; throw e).Meets pre mid stop :=
    hx.tryCatch fun e => (hc e).bind fun _ => meets_throw fun _ h => h
  exact hcatch.bind fun a => (ha a).bind fun _ => meets_pure fun _ h => h

/-! Obedience -/

/-- Keeps an invariant, and is interrupted only in certain ways. -/
def Obeys (I : Context → Prop) (E : Interrupt → Prop) (x : Exec α) : Prop :=
  x.Meets I (fun _ => I) (fun e c => I c ∧ E e)

variable {I : Context → Prop} {E E' : Interrupt → Prop}

theorem obeys_pure (a : α) : (pure a : Exec α).Obeys I E := meets_pure fun _ h => h

theorem obeys_throw {e : Interrupt} (he : E e) : (throw e : Exec α).Obeys I E :=
  meets_throw fun _ h => ⟨h, he⟩

theorem obeys_get : (get : Exec Context).Obeys I E := meets_get fun _ h => h

theorem obeys_modify {f : Context → Context} (h : ∀ c, I c → I (f c)) :
    (modify f : Exec Unit).Obeys I E := meets_modify h

theorem Obeys.bind {f : α → Exec β} (hx : x.Obeys I E) (hf : ∀ a, (f a).Obeys I E) :
    (x >>= f).Obeys I E := Meets.bind hx hf

theorem Obeys.tryCatch {handle : Interrupt → Exec α} (hx : x.Obeys I E')
    (hh : ∀ e, E' e → (handle e).Obeys I E) : (tryCatch x handle).Obeys I E :=
  Meets.tryCatch hx fun e c hc => hh e hc.2 c hc.1

theorem Obeys.weaken (hx : x.Obeys I E') (h : ∀ e, E' e → E e) : x.Obeys I E :=
  Meets.weaken hx (fun _ hc => hc) (fun _ _ hc => hc) fun e _ hc => ⟨hc.1, h e hc.2⟩

/-- An action that is never interrupted. -/
theorem Obeys.uninterrupted (hx : x.Obeys I fun _ => False) : x.Meets I (fun _ => I) stop :=
  Meets.weaken hx (fun _ h => h) (fun _ _ h => h) fun _ _ h => h.2.elim

theorem obeys_of_kept (hx : ∀ c, I c → I (x.runFrom c).2) : x.Obeys I fun _ => True := by
  intro c hc
  have h := hx c hc
  rcases hr : x.runFrom c with ⟨e | a, c'⟩
  · rw [hr] at h
    exact ⟨h, trivial⟩
  · rw [hr] at h
    exact h

/-- An action after which the context stands in some relation to the one before may be run wherever the
relation holds already. -/
theorem obeys_of_related {K : Context → Context → Prop} (htrans : ∀ a b c, K a b → K b c → K a c)
    (hx : ∀ c, K c (x.runFrom c).2) (start : Context) : x.Obeys (K start) fun _ => True :=
  obeys_of_kept fun c hc => htrans _ _ _ hc (hx c)

theorem related_of_obeys {K : Context → Context → Prop} (hrefl : ∀ c, K c c)
    (hx : ∀ c, x.Obeys (K c) fun _ => True) (c : Context) : K c (x.runFrom c).2 :=
  Meets.context (hx c) (hrefl c) (fun _ _ h => h) fun _ _ h => h.1

/-! Reports -/

/-- Kept by reports. -/
def IgnoresReports (I : Context → Prop) : Prop :=
  ∀ c d, I c → I { c with events := c.events.push (.diagnostic d) }

theorem obeys_report (hI : IgnoresReports I) (rule message : String) (severity : Severity)
    (location : Option Location) : (report rule message severity location).Obeys I E :=
  obeys_get.bind fun _ => (obeys_modify fun c hc => hI c _ hc).bind fun _ => obeys_pure _

theorem obeys_error (hI : IgnoresReports I) (rule message : String) : (error rule message).Obeys I E :=
  (obeys_report hI _ _ _ _).bind fun _ => obeys_pure _

theorem obeys_warn (hI : IgnoresReports I) (rule message : String) : (warn rule message).Obeys I E :=
  (obeys_report hI _ _ _ _).bind fun _ => obeys_pure _

theorem obeys_trace (hI : IgnoresReports I) (rule message : String) :
    (trace rule message).Obeys I E := by
  refine obeys_get.bind fun c => ?_
  split
  · exact (obeys_report hI _ _ _ _).bind fun _ => obeys_pure _
  · exact obeys_pure _

end Exec

end SigilScript
