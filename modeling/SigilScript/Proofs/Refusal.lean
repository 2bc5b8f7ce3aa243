import SigilScript.Files.Tree
import SigilScript.Json.Path

/-!
Refusals: what a path, a text or an index is like if an operation on files or documents refuses it for its
own sake. Whether a path can be opened does not depend on the tree, and whether a text can be written or an
index be converted depends on nothing else.
-/
namespace SigilScript

theorem bind_eq_error {ε α β : Type} {x : Except ε α} {f : α → Except ε β} {e : ε}
    (h : (x >>= f) = .error e) : x = .error e ∨ ∃ a, x = .ok a ∧ f a = .error e := by
  cases x with
  | ok a => exact .inr ⟨a, rfl, h⟩
  | error e' => exact .inl (congrArg Except.error (Except.error.inj h))

theorem bind_eq_ok {ε α β : Type} {x : Except ε α} {f : α → Except ε β} {b : β} (h : (x >>= f) = .ok b) :
    ∃ a, x = .ok a ∧ f a = .ok b := by
  cases x with
  | ok a => exact ⟨a, rfl, h⟩
  | error e => cases h

theorem eq_ok_of_toOption {ε α : Type} {x : Except ε α} {a : α} (h : x.toOption = some a) : x = .ok a := by
  cases x with
  | error e => cases h
  | ok a' =>
    cases h
    rfl

namespace FileTree

/-- What the tree refuses is not the path itself. -/
theorem walk_error {tree : FileTree} {here parts : List Text} {e : FileError}
    (h : tree.walk here parts = .error e) : e.isBadPath = false := by
  fun_induction walk tree here parts with
  | case1 => simp at h
  | case2 here part rest hp ih => exact ih h
  | case3 here rest hp ih => exact ih h
  | case4 => exact Except.error.inj h ▸ rfl
  | case5 => exact Except.error.inj h ▸ rfl
  | case6 here part rest hp hd hl hg ih => exact ih h
  | case7 => simp at h
  | case8 => exact Except.error.inj h ▸ rfl

variable {tree : FileTree} {path content : Text} {e : FileError}

theorem openPath_of_read (h : tree.read path = .error e) (he : e.isBadPath) :
    openPath path = .error e := by
  unfold read at h
  split at h
  · rename_i hl
    rw [Except.error.inj h] at hl
    refine (bind_eq_error hl).resolve_right ?_
    rintro ⟨opened, -, hw⟩
    simp [walk_error hw] at he
  · exact nomatch (Except.error.inj h ▸ he :)
  · exact nomatch h

theorem openPath_of_target (h : tree.target path = .error e) (he : e.isBadPath) :
    openPath path = .error e := by
  refine (bind_eq_error h).resolve_right ?_
  rintro ⟨opened, -, h⟩
  split at h
  · exact nomatch h
  · obtain hw | ⟨⟨here, entry⟩, -, h⟩ := bind_eq_error h
    · simp [walk_error hw] at he
    · cases entry with
      | file bytes => exact nomatch (Except.error.inj h ▸ he :)
      | directory =>
        simp only at h
        split at h
        · exact nomatch h
        · split at h
          · exact nomatch (Except.error.inj h ▸ he :)
          · split at h
            · exact nomatch (Except.error.inj h ▸ he :)
            · exact nomatch h

theorem openPath_of_create (h : tree.create path = .error e) (he : e.isBadPath) :
    openPath path = .error e := by
  unfold create at h
  split at h
  · rename_i ht
    exact openPath_of_target (ht.trans (congrArg _ (Except.error.inj h))) he
  · exact nomatch (Except.error.inj h ▸ he :)
  · exact nomatch h

theorem openPath_of_write (h : tree.write path content = .error e) (he : e.isBadPath) :
    openPath path = .error e := by
  unfold write at h
  split at h
  · rename_i ht
    rw [Except.error.inj h] at ht
    unfold truncate at ht
    split at ht
    · rename_i hp
      exact openPath_of_target (hp.trans (congrArg _ (Except.error.inj ht))) he
    · exact nomatch (Except.error.inj ht ▸ he :)
    · exact nomatch ht
  · split at h <;> exact nomatch h

theorem encode_of_write {written : FileTree} {refusal : Utf8.EncodeError}
    (h : tree.write path content = .ok (written, some refusal)) : Utf8.encode content = .error refusal := by
  unfold write at h
  split at h
  · simp at h
  · split at h
    · simp_all
    · simp at h

end FileTree

namespace Json

/-- A text that looks like an index, but is no integer. -/
def BadIndex (e : IntegerError) : Prop := ∃ part : Text, part.isInteger ∧ part.toInteger = .error e

theorem badIndex_of_index? {length : Nat} {part : Text} {e : IntegerError}
    (h : index? length part = .error (.badIndex e)) : BadIndex e := by
  unfold index? at h
  split at h
  · exact nomatch h
  · rename_i hp
    split at h
    · rename_i he
      cases h
      exact ⟨part, by simpa using hp, he⟩
    · split at h <;> exact nomatch h

theorem badIndex_of_get? {document : Json} {parts : List Text} {e : IntegerError}
    (h : document.get? parts = .error (.badIndex e)) : BadIndex e := by
  induction parts generalizing document with
  | nil => exact nomatch h
  | cons part parts ih =>
    unfold get? at h
    split at h
    · split at h
      · exact nomatch h
      · exact ih h
    · obtain hi | ⟨i, -, h⟩ := bind_eq_error h
      · exact badIndex_of_index? hi
      · split at h
        · exact nomatch h
        · exact ih h
    · exact nomatch h

theorem badIndex_of_setIn {container value : Json} {parts : List Text} {e : IntegerError}
    (h : (setIn container value parts).2 = some (.badIndex e)) : BadIndex e := by
  induction parts generalizing container with
  | nil => exact nomatch h
  | cons part parts ih =>
    unfold setIn at h
    split at h
    · cases parts with
      | nil => exact nomatch h
      | cons second others => exact ih h
    · split at h
      · rename_i hi
        exact badIndex_of_index? (hi.trans (congrArg _ (Option.some.inj h)))
      · exact nomatch h
      · cases parts with
        | nil => exact nomatch h
        | cons second others => exact ih h
    · exact nomatch h

theorem badIndex_of_setPath {document value : Json} {key : Text} {e : IntegerError}
    (h : (document.setPath key value).2 = some (.badIndex e)) : BadIndex e := by
  unfold setPath at h
  split at h
  · exact nomatch h
  · exact badIndex_of_setIn h

end Json

end SigilScript
