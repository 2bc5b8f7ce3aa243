import SigilScript.Proofs.Ending
import SigilScript.Registry

/-!
Substitution is one pass from the left. `Substituted` says what the pass does to a text, place by place: a variable mark
gives way with the longest variable name after it, and all else is copied. It looks at the variables only by their
values, so that the order of their assignments cannot matter. The names of a pattern are sorted by their length alone,
which is enough for the first name that is found to be the longest one; and a pattern that is kept was made from the
same names, whatever happened since.
-/
namespace SigilScript

/-- A text, and what substitution makes of it. -/
inductive Substituted (store : Store) : Text → Text → Prop
  | nil : Substituted store [] []
  | copy {c : CodePoint} {rest result : Text}
      (hplace : c = variableMark → ∀ name, name <+: rest → store.lookup name = none)
      (hrest : Substituted store rest result) : Substituted store (c :: rest) (c :: result)
  | replace {name value rest result : Text} (hvalue : store.lookup name = some value)
      (hlongest : ∀ other, other <+: name ++ rest → store.lookup other ≠ none → other.length ≤ name.length)
      (hrest : Substituted store rest result) : Substituted store (variableMark :: (name ++ rest)) (value ++ result)

theorem Substituted.congr {store other : Store} (h : ∀ name, other.lookup name = store.lookup name) {t r : Text}
    (ht : Substituted store t r) : Substituted other t r := by
  induction ht with
  | nil => exact .nil
  | copy hplace _ ih => exact .copy (fun hc name hn => (h name).trans (hplace hc name hn)) ih
  | replace hvalue hlongest _ ih =>
    exact .replace ((h _).trans hvalue) (fun name hn hd => hlongest name hn (h name ▸ hd)) ih

theorem Store.mem_names {store : Store} {name : Text} : name ∈ store.names ↔ store.lookup name ≠ none := by
  rw [← Option.isSome_iff_ne_none, List.lookup_isSome_iff, names, List.mem_map]
  simp only [beq_iff_eq]
  exact exists_congr fun _ => and_congr_right fun _ => eq_comm

namespace Substitution

/-! Patterns -/

namespace Pattern

variable {names : List Text} {t name : Text}

theorem mem_insertName {other : Text} : other ∈ insertName name names ↔ other = name ∨ other ∈ names := by
  induction names with
  | nil => exact List.mem_cons
  | cons first rest ih =>
    rw [insertName]
    split
    · exact List.mem_cons
    · rw [List.mem_cons, ih, List.mem_cons, or_left_comm]

theorem mem_ofNames : name ∈ (ofNames names).names ↔ name ∈ names := by
  rw [ofNames]
  induction names with
  | nil => exact Iff.rfl
  | cons first rest ih => rw [List.foldr_cons, mem_insertName, ih, List.mem_cons]

theorem pairwise_insertName (h : names.Pairwise fun a b => b.length ≤ a.length) (name : Text) :
    (insertName name names).Pairwise fun a b => b.length ≤ a.length := by
  induction names with
  | nil => exact List.pairwise_singleton _ _
  | cons first rest ih =>
    obtain ⟨hfirst, hrest⟩ := List.pairwise_cons.mp h
    rw [insertName]
    split
    · rename_i hle
      refine List.pairwise_cons.mpr ⟨List.forall_mem_cons.mpr ⟨hle, fun other hother => ?_⟩, h⟩
      exact Nat.le_trans (hfirst other hother) hle
    · rename_i hlt
      refine List.pairwise_cons.mpr ⟨fun other hother => ?_, ih hrest⟩
      rcases mem_insertName.mp hother with rfl | hother
      · omega
      · exact hfirst other hother

/-- No name of a pattern is longer than one before it. -/
theorem pairwise_ofNames (names : List Text) : (ofNames names).names.Pairwise fun a b => b.length ≤ a.length := by
  rw [ofNames]
  induction names with
  | nil => exact .nil
  | cons name names ih => exact pairwise_insertName ih name

theorem match?_eq_none : (ofNames names).match? t = none ↔ ∀ name ∈ names, ¬ name <+: t := by
  simp only [match?, List.find?_eq_none, mem_ofNames, List.isPrefixOf_iff_prefix]

/-- What is found first is the longest name that there is. -/
theorem longest_of_match? (h : (ofNames names).match? t = some name) :
    name ∈ names ∧ name <+: t ∧ ∀ other ∈ names, other <+: t → other.length ≤ name.length := by
  obtain ⟨hfound, before, after, hnames, hbefore⟩ := List.find?_eq_some_iff_append.mp h
  refine ⟨mem_ofNames.mp (hnames ▸ List.mem_append_right before List.mem_cons_self),
    List.isPrefixOf_iff_prefix.mp hfound, fun other hother hstarts => ?_⟩
  have hsorted := pairwise_ofNames names
  have hmem := mem_ofNames.mpr hother
  rw [hnames] at hsorted hmem
  rcases List.mem_append.mp hmem with hmem | hmem
  · -- those before it were tried, and do not start the text
    have hnot := hbefore other hmem
    rw [List.isPrefixOf_iff_prefix.mpr hstarts] at hnot
    cases hnot
  · rcases List.mem_cons.mp hmem with rfl | hmem
    · exact Nat.le_refl _
    · exact (List.pairwise_cons.mp (List.pairwise_append.mp hsorted).2.1).1 other hmem

theorem match?_of_longest (hname : name ∈ names) (hstarts : name <+: t)
    (hlongest : ∀ other ∈ names, other <+: t → other.length ≤ name.length) : (ofNames names).match? t = some name := by
  cases hfound : (ofNames names).match? t with
  | none => exact absurd hstarts (match?_eq_none.mp hfound name hname)
  | some found =>
    obtain ⟨hmem, hprefix, hmax⟩ := longest_of_match? hfound
    have hle : found.length ≤ name.length := hlongest found hmem hprefix
    have hge : name.length ≤ found.length := hmax name hname hstarts
    have heq : found = name := (List.prefix_of_prefix_length_le hprefix hstarts hle).eq_of_length (by omega)
    rw [heq]

/-! The pass -/

theorem replaceFrom_drop (p : Pattern) (store : Store) (skip : Nat) (t : Text) :
    p.replaceFrom store skip t = p.replaceFrom store 0 (t.drop skip) := by
  induction t generalizing skip with
  | nil => cases skip <;> rfl
  | cons c t ih =>
    cases skip with
    | zero => rfl
    | succ skip =>
      rw [replaceFrom, List.drop_succ_cons]
      exact ih skip

theorem replaceFrom_found {p : Pattern} {store : Store} {rest value : Text} (h : p.match? (name ++ rest) = some name)
    (hvalue : store.lookup name = some value) :
    p.replaceFrom store 0 (variableMark :: (name ++ rest)) = value ++ p.replaceFrom store 0 rest := by
  rw [replaceFrom, if_pos rfl, h]
  dsimp only
  rw [hvalue, replaceFrom_drop, List.drop_left]
  rfl

theorem replaceFrom_copy {p : Pattern} {store : Store} {c : CodePoint} {rest : Text}
    (h : c = variableMark → p.match? rest = none) :
    p.replaceFrom store 0 (c :: rest) = c :: p.replaceFrom store 0 rest := by
  rw [replaceFrom]
  split
  · rename_i hc
    rw [h hc]
  · rfl

/-- The pass does what it is to do, by induction on what is left of the text. -/
theorem substituted_replaceFrom (store : Store) (t : Text) :
    Substituted store t ((ofNames store.names).replaceFrom store 0 t) := by
  induction hlength : t.length using Nat.strongRecOn generalizing t with
  | ind n ih =>
    subst hlength
    cases t with
    | nil => exact .nil
    | cons c rest =>
      by_cases hplace : c = variableMark → (ofNames store.names).match? rest = none
      · rw [replaceFrom_copy hplace]
        refine .copy (fun hc name hstarts => ?_) (ih rest.length (Nat.lt_succ_self _) rest rfl)
        have hnone := match?_eq_none.mp (hplace hc) name
        rw [Store.mem_names] at hnone
        exact Classical.byContradiction fun hdefined => hnone hdefined hstarts
      · obtain ⟨rfl, hfound⟩ := Classical.not_imp.mp hplace
        obtain ⟨name, hfound⟩ := Option.ne_none_iff_exists'.mp hfound
        obtain ⟨hname, ⟨after, rfl⟩, hlongest⟩ := longest_of_match? hfound
        obtain ⟨value, hvalue⟩ := Option.ne_none_iff_exists'.mp (Store.mem_names.mp hname)
        rw [replaceFrom_found hfound hvalue]
        refine .replace hvalue (fun other hstarts hdefined => hlongest other (Store.mem_names.mpr hdefined) hstarts) ?_
        refine ih after.length ?_ after rfl
        rw [List.length_cons, List.length_append]
        omega

/-- Nothing else does. -/
theorem eq_replaceFrom {store : Store} {t r : Text} (h : Substituted store t r) :
    (ofNames store.names).replaceFrom store 0 t = r := by
  induction h with
  | nil => rfl
  | copy hplace _ ih =>
    rw [replaceFrom_copy fun hc => match?_eq_none.mpr fun name hname hstarts =>
      Store.mem_names.mp hname (hplace hc name hstarts), ih]
  | replace hvalue hlongest _ ih =>
    have hdefined := Store.mem_names.mpr (Option.ne_none_iff_exists'.mpr ⟨_, hvalue⟩)
    rw [replaceFrom_found (match?_of_longest hdefined (List.prefix_append _ _)
      fun other hother hstarts => hlongest other hstarts (Store.mem_names.mp hother)) hvalue, ih]

end Pattern

/-! Patterns that are kept -/

/-- A pattern that is kept is the one for its names. -/
def Sound (kept : Option Compiled) : Prop := ∀ made ∈ kept, made = .ofNames made.names

variable {kept : Option Compiled} {store : Store} {t : Text}

theorem Sound.compile_eq (h : Sound kept) {names : List Text} (hnames : names ≠ []) :
    compile kept names = some (.ofNames names) := by
  unfold compile
  rw [if_neg (by simpa using hnames)]
  cases kept with
  | none => rfl
  | some made =>
    dsimp only
    split
    · rename_i hmade
      rw [h made rfl, hmade]
    · rfl

/-- Without a mark or without variables, the pass would copy the text. -/
theorem substituted_self (h : variableMark ∈ t → store.names = []) : Substituted store t t := by
  induction t with
  | nil => exact .nil
  | cons c t ih =>
    refine .copy (fun hc name _ => ?_) (ih fun hm => h (List.mem_cons_of_mem c hm))
    have hnames := h (hc ▸ List.mem_cons_self)
    rw [← Option.not_isSome_iff_eq_none, Option.isSome_iff_ne_none, ← Store.mem_names, hnames]
    exact List.not_mem_nil

/-- Whatever is kept, the text is the one of the pass, and a pattern for the names of the variables is kept. -/
theorem Sound.substituteKeeping_spec (h : Sound kept) (store : Store) (t : Text) :
    Substituted store t (substituteKeeping kept store t).1 ∧ Sound (substituteKeeping kept store t).2 := by
  unfold substituteKeeping
  split
  · by_cases hnames : store.names = []
    · rw [hnames]
      exact ⟨substituted_self fun _ => hnames, h⟩
    · rw [h.compile_eq hnames]
      refine ⟨Pattern.substituted_replaceFrom store t, ?_⟩
      rintro made hmade
      cases hmade
      rfl
  · rename_i hmark
    exact ⟨substituted_self fun hm => absurd hm hmark, h⟩

theorem sound_none : Sound none := by
  rintro made hmade
  cases hmade

theorem substitute_eq_iff {r : Text} : substitute store t = r ↔ Substituted store t r := by
  have hpass : Substituted store t (substitute store t) := (sound_none.substituteKeeping_spec store t).1
  constructor
  · rintro rfl
    exact hpass
  · intro h
    rw [← Pattern.eq_replaceFrom hpass, Pattern.eq_replaceFrom h]

/-- A variable that stands alone gives way to its value, whatever other names there are. -/
theorem substitute_variable {name value : Text} (h : store.lookup name = some value) :
    substitute store (variableMark :: name) = value := by
  have hpass : Substituted store (variableMark :: (name ++ [])) (value ++ []) := by
    refine .replace h (fun other hother _ => ?_) .nil
    rw [List.append_nil] at hother
    exact hother.length_le
  rw [List.append_nil, List.append_nil] at hpass
  exact substitute_eq_iff.mpr hpass

/-! Histories -/

/-- What is done with variables. -/
inductive Use where
  | assign (name value : Text)
  | substitute (t : Text)

/-- The context and the pattern that is kept after something was done. -/
def Use.after (s : Context × Option Compiled) : Use → Context × Option Compiled
  | .assign name value => (((Exec.setVariable name value).runFrom s.1).2, s.2)
  | .substitute t => (((Dispatcher.substitute t).runFrom s.1).2, (substituteKeeping s.2 s.1.store t).2)

theorem Use.sound_after {s : Context × Option Compiled} (h : Sound s.2) (use : Use) : Sound (use.after s).2 := by
  cases use with
  | assign name value => exact h
  | substitute t => exact (h.substituteKeeping_spec s.1.store t).2

theorem Use.sound_foldl {s : Context × Option Compiled} (h : Sound s.2) (uses : List Use) :
    Sound (uses.foldl Use.after s).2 := by
  induction uses generalizing s with
  | nil => exact h
  | cons use uses ih => exact ih (use.sound_after h)

/-- Substitution is one pass from the left that takes the longest name: what it gives is what such a pass over the text
makes of it, and no value is looked at again. The order of the variables does not matter, and after any uses the pattern
that was kept gives what a new one would. -/
theorem substitute_longest (c : Context) (t : Text) :
    (∀ r, (Dispatcher.substitute t).runFrom c = (.ok r, c) ↔ Substituted c.store t r) ∧
      (∀ other : Store, (∀ name, other.lookup name = c.store.lookup name) →
        substitute other t = substitute c.store t) ∧
      ∀ uses : List Use, let s := uses.foldl Use.after (c, none)
        (Dispatcher.substitute t).runFrom s.1 = (.ok (substituteKeeping s.2 s.1.store t).1, s.1) := by
  have hrun : ∀ c : Context, (Dispatcher.substitute t).runFrom c = (.ok (substitute c.store t), c) := fun _ => rfl
  refine ⟨fun r => ?_, fun other hsame => ?_, fun uses => ?_⟩
  · rw [hrun, Prod.mk.injEq, Except.ok.injEq, substitute_eq_iff]
    exact and_iff_left rfl
  · exact substitute_eq_iff.mpr ((substitute_eq_iff.mp rfl).congr hsame)
  · intro s
    have hsound : Sound s.2 := Use.sound_foldl sound_none uses
    rw [hrun, substitute_eq_iff.mpr (hsound.substituteKeeping_spec s.1.store t).1]

/-- Between two substitutions a longer name is added, and a variable that its value mentions changes. -/
theorem substitute_longest_history :
    let world : World := ⟨⟨⟨false, []⟩, []⟩, [], fun _ low _ => low, 0, .one, ⟨2024, 1, 2, 3, 4, 5⟩⟩
    let uses : List Use := [.assign "to" "1", .substitute "$to", .assign "total" "$to", .assign "2x" "-",
      .substitute "$total", .assign "to" "2"]
    let s := uses.foldl Use.after (Context.start false (.empty false) world, none)
    let t : Text := "$total$to$t"
    s.2 = some (.ofNames ["to", "total"]) ∧ (substituteKeeping s.2 s.1.store t).1 = "$to2$t" ∧
      Substituted s.1.store t "$to2$t" ∧ substitute [("total", "$to"), ("to", "2")] t = "$to2$t" := by
  intro world uses s t
  have hrun : s.1.store = [(Text.ofString "to", Text.ofString "2"), ("total", "$to")] ∧
      ((Dispatcher.substitute t).runFrom s.1).1.toOption = some ("$to2$t" : Text) ∧
      s.2 = some (.ofNames ["to", "total"]) := by
    decide +kernel
  obtain ⟨hstore, hresult, hcache⟩ := hrun
  have hgives : (Dispatcher.substitute t).runFrom s.1 = (.ok ("$to2$t" : Text), s.1) :=
    Exec.runFrom_of_toOption hresult
  have hkept := (substitute_longest (Context.start false (.empty false) world) t).2.2 uses
  obtain ⟨hpass, horder, -⟩ := substitute_longest s.1 t
  have hsame : ∀ name, List.lookup name [(("total" : Text), ("$to" : Text)), ("to", "2")] = s.1.store.lookup name := by
    intro name
    rw [hstore]
    simp only [List.lookup_cons, List.lookup_nil]
    by_cases hto : name = "to"
    · subst hto
      rfl
    · by_cases htotal : name = "total"
      · subst htotal
        rfl
      · rw [beq_eq_false_iff_ne.mpr hto, beq_eq_false_iff_ne.mpr htotal]
  refine ⟨hcache, ?_, (hpass _).mp hgives, (horder _ hsame).trans ?_⟩
  · exact Except.ok.inj (Prod.mk.inj (hkept.symm.trans hgives)).1
  · exact Except.ok.inj (Prod.mk.inj hgives).1

end Substitution

end SigilScript
