import SigilScript.Text.CodePoint

/-!
The variables of a run, in the order of their first assignment.
-/
namespace SigilScript

abbrev Store := List (Text × Text)

namespace Store

/-- Sets a variable in place, or adds it at the end. -/
def assign (name value : Text) : Store → Store
  | [] => [(name, value)]
  | (n, v) :: rest => if n = name then (n, value) :: rest else (n, v) :: assign name value rest

@[simp] theorem lookup_assign_self (name value : Text) (s : Store) :
    (assign name value s).lookup name = some value := by
  induction s with
  | nil => simp [assign]
  | cons p s ih =>
    obtain ⟨n, v⟩ := p
    by_cases h : n = name
    · simp [assign, h]
    · have h' : (name == n) = false := by simpa using fun he : name = n => h he.symm
      simp [assign, h, List.lookup_cons, h', ih]

theorem lookup_assign_other {name other : Text} (value : Text) (s : Store) (h : other ≠ name) :
    (assign name value s).lookup other = s.lookup other := by
  have hb : (other == name) = false := by simpa using h
  induction s with
  | nil => simp [assign, List.lookup_cons, hb]
  | cons p s ih =>
    obtain ⟨n, v⟩ := p
    by_cases hn : n = name
    · subst hn
      simp [assign, List.lookup_cons, hb]
    · simp only [assign, hn, if_false, List.lookup_cons, ih]

end Store

end SigilScript
