import SigilScript.Json.Path
import SigilScript.Proofs.JsonReading

/-!
Paths into documents. Setting a value goes down one part at a time, and what it leaves at each part is the container
with one child changed; from this follows that the value is found at the path it was set at, however the parts are
written, and that the document stays sound.
-/
namespace SigilScript.Json

theorem lookup_insert (name : Text) (value : Json) (members : List (Text × Json)) :
    (insert name value members).lookup name = some value := by
  induction members with
  | nil => rw [insert, List.lookup_cons_self]
  | cons m members ih =>
    obtain ⟨n, v⟩ := m
    rw [insert]
    split
    · rename_i hn
      rw [hn, List.lookup_cons_self]
    · rename_i hn
      rw [List.lookup_cons, beq_false_of_ne (Ne.symm hn), ih]

theorem lt_of_index? {length i : Nat} {part : Text} (h : index? length part = .ok (some i)) : i < length := by
  rw [index?] at h
  split at h
  · cases h
  split at h
  · cases h
  split at h
  · split at h
    · cases h
      omega
    · cases h
  · split at h
    · cases h
      omega
    · cases h

/-- What setting a value leaves, from the first part on. -/
theorem setIn_cases {container value changed : Json} {part : Text} {parts : List Text}
    (h : setIn container value (part :: parts) = (changed, none)) :
    (∃ members child, container = .object members ∧
      setIn (asContainer (members.lookup part)) value parts = (child, none) ∧
      changed = .object (insert part child members)) ∨
    (∃ items i child, container = .array items ∧ index? items.length part = .ok (some i) ∧
      setIn (asContainer items[i]?) value parts = (child, none) ∧ changed = .array (items.set i child)) := by
  cases container with
  | object members =>
    cases parts with
    | nil =>
      cases h
      exact .inl ⟨members, value, rfl, rfl, rfl⟩
    | cons next parts =>
      rw [setIn] at h
      obtain ⟨hchanged, hnone⟩ := Prod.mk.inj h
      exact .inl ⟨members, _, rfl, Prod.ext rfl hnone, hchanged.symm⟩
  | array items =>
    rw [setIn] at h
    split at h
    · cases h
    · cases h
    · rename_i i hi
      cases parts with
      | nil =>
        cases h
        exact .inr ⟨items, i, value, rfl, hi, rfl, rfl⟩
      | cons next parts =>
        obtain ⟨hchanged, hnone⟩ := Prod.mk.inj h
        exact .inr ⟨items, i, _, rfl, hi, Prod.ext rfl hnone, hchanged.symm⟩
  | _ => cases h

/-- A value is found where it was set. -/
theorem get?_setIn {container value changed : Json} {parts : List Text}
    (h : setIn container value parts = (changed, none)) : changed.get? parts = .ok (some value) := by
  induction parts generalizing container changed with
  | nil =>
    cases h
    rfl
  | cons part parts ih =>
    rcases setIn_cases h with ⟨members, child, -, hchild, rfl⟩ | ⟨items, i, child, -, hi, hchild, rfl⟩
    · simp only [get?, lookup_insert]
      exact ih hchild
    · -- the length is as before, so the part is the same index
      have hindex : index? (items.set i child).length part = .ok (some i) := by rw [List.length_set, hi]
      have hitem : (items.set i child)[i]? = some child := List.getElem?_set_self (lt_of_index? hi)
      simp only [get?, hindex, bind, Except.bind, Option.bind, hitem]
      exact ih hchild

theorem get?_setPath {document value changed : Json} {key : Text} (h : document.setPath key value = (changed, none))
    (hkey : key ≠ []) : changed.get? (pathParts key) = .ok (some value) := by
  rw [setPath, if_neg hkey] at h
  exact get?_setIn h

/-! Sound documents stay sound. -/

theorem sound_asContainer {child : Option Json} (h : ∀ document, child = some document → document.Sound) :
    (asContainer child).Sound := by
  unfold asContainer
  split
  · exact h _ rfl
  · exact h _ rfl
  · exact .object List.nodup_nil nofun

theorem sound_setIn {container value changed : Json} {parts : List Text} (hcontainer : container.Sound)
    (hvalue : value.Sound) (h : setIn container value parts = (changed, none)) : changed.Sound := by
  induction parts generalizing container changed with
  | nil =>
    cases h
    exact hvalue
  | cons part parts ih =>
    rcases setIn_cases h with ⟨members, child, rfl, hchild, rfl⟩ | ⟨items, i, child, rfl, -, hchild, rfl⟩
    · refine sound_insert hcontainer (ih (sound_asContainer fun document hdocument => ?_) hchild)
      obtain ⟨_, _, hsplit, -⟩ := List.lookup_eq_some_iff.mp hdocument
      cases hcontainer with
      | object hnames h => exact h (part, document) (hsplit ▸ List.mem_append_right _ List.mem_cons_self)
    · cases hcontainer with
      | array hitems =>
        have hsound : child.Sound :=
          ih (sound_asContainer fun document hdocument => hitems _ (List.mem_of_getElem? hdocument)) hchild
        exact .array fun item hitem => (List.mem_or_eq_of_mem_set hitem).elim (hitems item) (· ▸ hsound)

theorem sound_setPath {document value changed : Json} {key : Text} (hdocument : document.Sound) (hvalue : value.Sound)
    (h : document.setPath key value = (changed, none)) : changed.Sound := by
  rw [setPath] at h
  split at h
  · cases h
    exact hvalue
  · exact sound_setIn (sound_asContainer fun d hd => Option.some.inj hd ▸ hdocument) hvalue h

end SigilScript.Json
