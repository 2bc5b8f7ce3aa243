import SigilScript.Directive.Files
import SigilScript.Proofs.Ending
import SigilScript.Proofs.JsonPath

/-!
Values in files. What `§jsonSet` has stored at a key, `§jsonGet` gives back, for every document that was in the file
before and every spelling of the key: the document that was written is the one that is read, and the value stands in
it where it is looked for.
-/
namespace SigilScript.Directive

/-- The file at a path is the text of a document. -/
def Holds (tree : FileTree) (path : Text) (document : Json) : Prop :=
  ∃ bytes content, tree.read path = .ok bytes ∧ Utf8.decode bytes = .ok content ∧
    Json.parse content.normalizeNewlines = .ok document

theorem runFrom_readJson {c : Context} {path : Text} {document : Json} (h : Holds c.world.files path document)
    (rule : String) : (readJson rule path).runFrom c = (.ok (some document), c) := by
  obtain ⟨bytes, content, hread, hdecode, hparse⟩ := h
  rw [readJson, Exec.runFrom_bind, Exec.runFrom_files, Ending.andThen_ok, hread]
  dsimp only
  rw [hdecode]
  dsimp only
  rw [hparse]
  rfl

theorem holds_of_readJson {c c' : Context} {path : Text} {document : Json} {rule : String}
    (h : (readJson rule path).runFrom c = (.ok (some document), c')) : Holds c.world.files path document := by
  obtain ⟨tree, c₁, hfiles, h⟩ := Exec.of_runFrom_bind h
  cases hfiles
  split at h
  · obtain ⟨_, _, -, h⟩ := Exec.of_runFrom_bind h
    cases h
  · split at h
    all_goals
      obtain ⟨_, _, -, h⟩ := Exec.of_runFrom_bind h
      cases h
  · rename_i bytes hread
    split at h
    · obtain ⟨_, _, -, h⟩ := Exec.of_runFrom_bind h
      cases h
    · rename_i content hdecode
      split at h
      · cases h
      · obtain ⟨_, _, -, h⟩ := Exec.of_runFrom_bind h
        cases h
      · rename_i d hparse
        cases h
        exact ⟨bytes, content, hread, hdecode, hparse⟩

theorem written_of_writeContent {c c' : Context} {rule : String} {path content : Text}
    (h : (writeContent rule path content).runFrom c = (.ok "true", c')) :
    c.world.files.write path content = .ok (c'.world.files, none) := by
  obtain ⟨tree, c₁, hfiles, h⟩ := Exec.of_runFrom_bind h
  cases hfiles
  split at h
  · obtain ⟨_, _, -, h⟩ := Exec.of_runFrom_bind h
    exact absurd (Except.ok.inj (Prod.mk.inj h).1) (by decide)
  · rename_i written failure hwrite
    obtain ⟨_, _, hset, h⟩ := Exec.of_runFrom_bind h
    cases hset
    split at h
    · cases h
    · obtain ⟨-, rfl⟩ := Prod.mk.inj h
      exact hwrite

/-- A document that was written is in the file. -/
theorem holds_of_writeJson {c c' : Context} {rule : String} {path : Text} {document : Json} (hsound : document.Sound)
    (h : (writeJson rule path document).runFrom c = (.ok "true", c')) : Holds c'.world.files path document := by
  rw [writeJson] at h
  split at h
  · rename_i hdepth
    obtain ⟨bytes, hread, hdecode⟩ := FileTree.decode_of_write (written_of_writeContent h)
    exact ⟨bytes, _, hread, hdecode, Json.parse_normalizeNewlines_render rfl hsound hdepth⟩
  · obtain ⟨result, c₁, -, h⟩ := Exec.of_runFrom_bind h
    split at h
    · obtain ⟨_, _, hfail, -⟩ := Exec.of_runFrom_bind h
      cases hfail
    · rename_i hresult
      exact absurd (Except.ok.inj (Prod.mk.inj h).1) hresult

/-- What a stored text is shown as: the string or the compact text of the document that it is, or the text itself
if it is none. -/
def shownAs (t : Text) : Text :=
  match Json.parse t with
  | .ok (.string s) => s
  | .ok document => document.compact
  | .error _ => t

theorem sound_of_valueOf {c c' : Context} {t : Text} {value : Json}
    (h : (valueOf t).runFrom c = (.ok value, c')) : value.Sound ∧ showValue value = shownAs t := by
  rw [valueOf] at h
  rw [shownAs]
  cases hparse : Json.parse t with
  | ok document =>
    rw [hparse] at h
    cases h
    exact ⟨Json.sound_of_parse hparse, by cases value <;> rfl⟩
  | error e =>
    rw [hparse] at h
    cases e with
    | recursionLimit => cases h
    | _ =>
      cases h
      exact ⟨.string t, rfl⟩

theorem Holds.sound {tree : FileTree} {path : Text} {document : Json} (h : Holds tree path document) :
    document.Sound := by
  obtain ⟨_, _, -, -, hparse⟩ := h
  exact Json.sound_of_parse hparse

theorem sound_of_documentOrNew {c c' : Context} {path : Text} {document : Json}
    (h : (documentOrNew path).runFrom c = (.ok (some document), c')) : document.Sound := by
  obtain ⟨tree, c₁, -, h⟩ := Exec.of_runFrom_bind h
  split at h
  · exact (holds_of_readJson h).sound
  · cases h
    exact .object List.nodup_nil nofun

/-- A value that was set is in the document that is in the file then. -/
theorem holds_of_setValue {c c' : Context} {path key t : Text}
    (h : (setValue path key t).runFrom c = (.ok "true", c')) :
    ∃ document value changed : Json, document.setPath key value = (changed, none) ∧ showValue value = shownAs t ∧
      Holds c'.world.files path changed := by
  obtain ⟨document, c₁, hdocument, h⟩ := Exec.of_runFrom_bind h
  cases document with
  | none => exact absurd (Except.ok.inj (Prod.mk.inj h).1) (by decide)
  | some document =>
    have hsound := sound_of_documentOrNew hdocument
    obtain ⟨value, c₂, hvalue, h⟩ := Exec.of_runFrom_bind h
    obtain ⟨hvalueSound, hshown⟩ := sound_of_valueOf hvalue
    split at h
    · cases h
    · obtain ⟨_, _, -, h⟩ := Exec.of_runFrom_bind h
      exact absurd (Except.ok.inj (Prod.mk.inj h).1) (by decide)
    · rename_i changed hset
      exact ⟨document, value, changed, hset, hshown,
        holds_of_writeJson (Json.sound_setPath hsound hvalueSound hset) h⟩

/-- A value that is in the document in a file is what is given for its key. -/
theorem runFrom_getValue {c : Context} {path key : Text} {document value changed : Json}
    (hset : document.setPath key value = (changed, none)) (h : Holds c.world.files path changed) :
    (getValue path key).runFrom c = (.ok (showValue value), c) := by
  rw [getValue, Exec.runFrom_bind, runFrom_readJson h, Ending.andThen_ok]
  dsimp only
  by_cases hkey : key = []
  · subst hkey
    cases hset
    rfl
  · have hget := Json.get?_setPath hset hkey
    rw [if_neg (by rwa [List.isEmpty_iff]), hget]
    rfl

/-- The parts of the arguments of `§jsonSet` come out as a path, a key and a text. -/
def SetterParts (d : Dispatcher) (args : Text) (c : Context) (path key t : Text) (c' : Context) : Prop :=
  ∃ first second third others c₁ c₂, Argument.split args = first :: second :: third :: others ∧
    (d.argument first).runFrom c = (.ok path, c₁) ∧ (d.argument second).runFrom c₁ = (.ok key, c₂) ∧
    (d.argument (Text.join ";" (third :: others))).runFrom c₂ = (.ok t, c')

theorem SetterParts.runFrom {d : Dispatcher} {args path key t : Text} {c c' : Context}
    (h : SetterParts d args c path key t c') : (jsonSet d args).runFrom c =
      ((setValue path key t).runFrom c').andThen fun result c => (.ok (.text result), c) := by
  obtain ⟨first, second, third, others, c₁, c₂, hsplit, hpath, hkey, ht⟩ := h
  simp only [jsonSet, hsplit, Exec.runFrom_bind, hpath, hkey, ht, Ending.andThen_ok, Exec.runFrom_pure]

/-- What was set at a key is what is got for it, and nothing is reported. -/
theorem jsonGet_of_jsonSet {d : Dispatcher} {setArgs getArgs path key t : Text} {others : List Text}
    {c c₁ c₂ c₃ : Context} (hparts : SetterParts d setArgs c path key t c₁)
    (hset : (jsonSet d setArgs).runFrom c = (.ok (.text "true"), c₂))
    (hget : (d.arguments getArgs).runFrom c₂ = (.ok (path :: others), c₃)) (hkey : others.headD [] = key)
    (hfiles : c₃.world.files = c₂.world.files) :
    (jsonGet d getArgs).runFrom c₂ = (.ok (.text (shownAs t)), c₃) := by
  have hstored : (setValue path key t).runFrom c₁ = (.ok "true", c₂) := by
    rw [hparts.runFrom] at hset
    rcases hrun : (setValue path key t).runFrom c₁ with ⟨e | result, c'⟩
    · rw [hrun] at hset
      cases hset
    · rw [hrun] at hset
      cases hset
      rfl
  obtain ⟨document, value, changed, hchanged, hshown, hholds⟩ := holds_of_setValue hstored
  rw [← hfiles] at hholds
  rw [jsonGet, Exec.runFrom_bind, hget, Ending.andThen_ok]
  dsimp only
  rw [Exec.runFrom_bind, hkey, runFrom_getValue hchanged hholds, hshown]
  rfl

/-- The last item of `[7,8]` makes way for an object, which a text is put into. -/
theorem jsonGet_of_jsonSet_last :
    let c := Context.start false (.empty false) ⟨⟨⟨false, []⟩, [(["f"], .file [91, 55, 44, 56, 93])]⟩, [],
      fun _ low _ => low, 0, .one, ⟨2024, 1, 2, 3, 4, 5⟩⟩
    let d : Dispatcher := ⟨fun _ => false, fun _ _ => pure none⟩
    ∃ c₂ c₃, (jsonSet d "f;-1.k;x;y").runFrom c = (.ok (.text "true"), c₂) ∧
      (jsonGet d "f;-1.k").runFrom c₂ = (.ok (.text "x;y"), c₃) ∧ c₃.diagnostics = [] := by
  intro c d
  have hparts : SetterParts d "f;-1.k;x;y" c "f" "-1.k" "x;y" _ :=
    ⟨"f", "-1.k", "x", ["y"], _, _, by decide +kernel, Exec.runFrom_of_toOption (by decide +kernel),
      Exec.runFrom_of_toOption (by decide +kernel), Exec.runFrom_of_toOption (by decide +kernel)⟩
  have hset : (jsonSet d "f;-1.k;x;y").runFrom c = (.ok (.text "true"), _) :=
    Exec.runFrom_of_toOption (by decide +kernel)
  have hget : (d.arguments "f;-1.k").runFrom ((jsonSet d "f;-1.k;x;y").runFrom c).2 = (.ok ["f", "-1.k"], _) :=
    Exec.runFrom_of_toOption (by decide +kernel)
  have hshown : shownAs "x;y" = "x;y" := by decide +kernel
  have hresult := jsonGet_of_jsonSet hparts hset hget rfl (by decide +kernel)
  rw [hshown] at hresult
  exact ⟨_, _, hset, hresult, by decide +kernel⟩

end SigilScript.Directive
