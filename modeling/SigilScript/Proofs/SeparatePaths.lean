import SigilScript.Proofs.JsonPath

/-!
Paths that part ways. Up to the part at which two paths first differ, setting a value at one of them goes the way
of the other, and may put objects where there was nothing to go through, in which the other path finds as little as
before. At that part it changes one child of a container, and the other path goes on to a different one.
-/
namespace SigilScript.Json

/-- Two paths of which neither leads through the other. Where they first differ in an array, they lead to
different items of it. -/
structure PartWays (document : Json) (path other : List Text) : Prop where
  left : ¬ path <+: other
  right : ¬ other <+: path
  items : ∀ common part rest part' rest' items, path = common ++ part :: rest → other = common ++ part' :: rest' →
    part ≠ part' → document.get? common = .ok (some (.array items)) →
    ∀ i, index? items.length part = .ok (some i) → index? items.length part' ≠ .ok (some i)

theorem exists_fork {path other : List Text} (hleft : ¬ path <+: other) (hright : ¬ other <+: path) :
    ∃ common part rest part' rest', path = common ++ part :: rest ∧ other = common ++ part' :: rest' ∧
      part ≠ part' := by
  induction path generalizing other with
  | nil => exact absurd List.nil_prefix hleft
  | cons part path ih =>
    cases other with
    | nil => exact absurd List.nil_prefix hright
    | cons part' other =>
      by_cases hpart : part = part'
      · subst hpart
        rw [List.prefix_cons_inj] at hleft hright
        obtain ⟨common, next, rest, next', rest', rfl, rfl, hne⟩ := ih hleft hright
        exact ⟨part :: common, next, rest, next', rest', rfl, rfl, hne⟩
      · exact ⟨[], part, path, part', other, rfl, rfl, hpart⟩

theorem lookup_insert_of_ne {name other : Text} (h : other ≠ name) (value : Json) (members : List (Text × Json)) :
    (insert name value members).lookup other = members.lookup other := by
  induction members with
  | nil => simp [insert, List.lookup_cons, beq_false_of_ne h]
  | cons m members ih =>
    obtain ⟨n, v⟩ := m
    rw [insert]
    split
    · rename_i hn
      rw [List.lookup_cons, List.lookup_cons, hn, beq_false_of_ne h]
    · rw [List.lookup_cons, List.lookup_cons, ih]

/-! One part of a path -/

/-- The child that a part of a path leads to. -/
def child? (document : Json) (part : Text) : Except PathError (Option Json) :=
  match document with
  | .object members => .ok (members.lookup part)
  | .array items => (index? items.length part).map fun found => found.bind (items[·]?)
  | _ => .ok none

theorem get?_cons (document : Json) (part : Text) (parts : List Text) :
    document.get? (part :: parts) =
      (document.child? part).bind fun child => child.elim (.ok none) (·.get? parts) := by
  cases document with
  | object members =>
    rw [get?, child?]
    cases members.lookup part <;> rfl
  | array items =>
    rw [get?, child?]
    cases index? items.length part with
    | error e => rfl
    | ok found => cases hfound : found.bind (items[·]?) <;> simp [bind, Except.bind, Except.map, hfound, pure, Except.pure]
  | _ => rfl

/-- A container in place of a child leads nowhere that the child does not lead to. -/
theorem get?_asContainer (child : Option Json) {parts : List Text} (h : parts ≠ []) :
    (asContainer child).get? parts = child.elim (.ok none) (·.get? parts) := by
  cases parts with
  | nil => exact absurd rfl h
  | cons part parts =>
    cases child with
    | none => rfl
    | some child => cases child <;> rfl

theorem get?_of_asContainer {child : Option Json} {parts : List Text} {items : List Json}
    (h : (asContainer child).get? parts = .ok (some (.array items))) :
    child.elim (.ok none) (·.get? parts) = .ok (some (.array items)) := by
  cases parts with
  | nil =>
    -- an object that was put there is no array
    cases child with
    | none => cases h
    | some child =>
      cases child with
      | array => exact h
      | _ => cases h
  | cons part parts => rwa [get?_asContainer child (List.cons_ne_nil part parts)] at h

/-- What setting a value does to the children of a container: it goes on in the one that the first part leads to,
and changes none that another part leads to. -/
theorem child?_of_setIn {container value changed : Json} {part : Text} {parts : List Text}
    (h : setIn container value (part :: parts) = (changed, none)) :
    (∃ found child, container.child? part = .ok found ∧ setIn (asContainer found) value parts = (child, none) ∧
      changed.child? part = .ok (some child)) ∧
    ∀ other, part ≠ other →
      (∀ items, container = .array items → ∀ i, index? items.length part = .ok (some i) →
        index? items.length other ≠ .ok (some i)) → changed.child? other = container.child? other := by
  rcases setIn_cases h with ⟨members, child, rfl, hchild, rfl⟩ | ⟨items, i, child, rfl, hi, hchild, rfl⟩
  · refine ⟨⟨_, child, rfl, hchild, ?_⟩, fun other hne _ => ?_⟩
    · rw [child?, lookup_insert]
    · rw [child?, child?, lookup_insert_of_ne hne.symm]
  · have hlength : (items.set i child).length = items.length := List.length_set
    refine ⟨⟨items[i]?, child, ?_, hchild, ?_⟩, fun other _ hitems => ?_⟩
    · rw [child?, hi]
      rfl
    · rw [child?, hlength, hi]
      exact congrArg Except.ok (List.getElem?_set_self (lt_of_index? hi))
    · rw [child?, child?, hlength]
      cases hother : index? items.length other with
      | error e => rfl
      | ok found =>
        cases found with
        | none => rfl
        | some j =>
          have hj : i ≠ j := fun hij => hitems items rfl i hi (hij ▸ hother)
          exact congrArg Except.ok (List.getElem?_set_ne hj)

/-- Setting a value changes nothing for a path that turns off to another child. -/
theorem get?_setIn_fork {container value changed : Json} {common rest rest' : List Text} {part part' : Text}
    (hne : part ≠ part')
    (hitems : ∀ items, container.get? common = .ok (some (.array items)) →
      ∀ i, index? items.length part = .ok (some i) → index? items.length part' ≠ .ok (some i))
    (h : setIn container value (common ++ part :: rest) = (changed, none)) :
    changed.get? (common ++ part' :: rest') = container.get? (common ++ part' :: rest') := by
  induction common generalizing container changed with
  | nil =>
    have hother := (child?_of_setIn h).2 part' hne fun items hcontainer => hitems items (by rw [hcontainer]; rfl)
    rw [List.nil_append, get?_cons, get?_cons, hother]
  | cons first common ih =>
    obtain ⟨⟨found, child, hfound, hchild, hself⟩, -⟩ := child?_of_setIn h
    have hsame : child.get? (common ++ part' :: rest') = (asContainer found).get? (common ++ part' :: rest') := by
      refine ih (fun items harray => hitems items ?_) hchild
      rw [get?_cons, hfound]
      exact get?_of_asContainer harray
    rw [get?_asContainer found (List.append_ne_nil_of_right_ne_nil _ (List.cons_ne_nil _ _))] at hsame
    rw [List.cons_append, get?_cons, get?_cons, hself, hfound]
    exact hsame

/-- A value that is set at a path is found there, and what is found at a path that parts ways with it is what was
found there before. -/
theorem get?_of_setPath_apart {document value changed : Json} {key other : Text} (hkey : key ≠ [])
    (hways : document.PartWays (pathParts key) (pathParts other))
    (h : document.setPath key value = (changed, none)) :
    changed.get? (pathParts key) = .ok (some value) ∧
      changed.get? (pathParts other) = document.get? (pathParts other) := by
  refine ⟨get?_setPath h hkey, ?_⟩
  obtain ⟨common, part, rest, part', rest', hpath, hother, hne⟩ := exists_fork hways.left hways.right
  have hitems : ∀ items, (asContainer (some document)).get? common = .ok (some (.array items)) →
      ∀ i, index? items.length part = .ok (some i) → index? items.length part' ≠ .ok (some i) := by
    intro items harray
    have hreached : document.get? common = .ok (some (.array items)) := get?_of_asContainer harray
    exact hways.items common part rest part' rest' items hpath hother hne hreached
  have hcontainer : (asContainer (some document)).get? (common ++ part' :: rest') =
      document.get? (common ++ part' :: rest') :=
    get?_asContainer (some document) (List.append_ne_nil_of_right_ne_nil _ (List.cons_ne_nil _ _))
  rw [setPath, if_neg hkey, hpath] at h
  rw [hother, get?_setIn_fork hne hitems h, hcontainer]

/-- A scalar on the way to a new member makes way for an object, and an index that is written with a blank and a
sign leads to the item that it led to. -/
theorem get?_of_setPath_apart_negative :
    let document : Json := .array [.object [("a", .integer 5)], .integer 7]
    ∃ changed, document.setPath "-2.a.b" .null = (changed, none) ∧
      changed.get? (pathParts "-2.a.b") = .ok (some .null) ∧
      changed.get? (pathParts " +1") = document.get? (pathParts " +1") ∧
      document.get? (pathParts " +1") = .ok (some (.integer 7)) := by
  intro document
  have hpath : pathParts "-2.a.b" = [Text.ofString "-2", Text.ofString "a", Text.ofString "b"] := by decide
  have hother : pathParts " +1" = [Text.ofString " +1"] := by decide
  have hfirst : index? 2 "-2" = .ok (some 0) := rfl
  have hsecond : index? 2 " +1" = .ok (some 1) := rfl
  have hways : document.PartWays (pathParts "-2.a.b") (pathParts " +1") := by
    rw [hpath, hother]
    refine ⟨by decide, by decide, ?_⟩
    intro common part rest part' rest' items hleft hright _ harray i hi hi'
    cases common with
    | nil =>
      cases hleft
      cases hright
      have hlength : 2 = items.length :=
        congrArg List.length (Json.array.inj (Option.some.inj (Except.ok.inj harray)))
      rw [← hlength] at hi hi'
      cases hfirst.symm.trans hi
      cases hsecond.symm.trans hi'
    | cons first common => cases common <;> cases hright
  obtain ⟨hself, hsame⟩ := get?_of_setPath_apart (by decide) hways rfl
  exact ⟨_, rfl, hself, hsame, rfl⟩

end SigilScript.Json
