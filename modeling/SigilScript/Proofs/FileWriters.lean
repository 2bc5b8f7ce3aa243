import SigilScript.Proofs.StoredValue
import SigilScript.Proofs.WrittenEffects

/-!
Writing files. The directives that write a file resolve their operands, the first of which is the path, and find out
what is to be stored. Whatever goes wrong until then, or in following the path, leaves every file as it was; and what is
stored changes no file but the one that the path names. But the file is emptied before its content becomes bytes. A
content without bytes, which is a text with a surrogate or a document that is nested too deep, is refused only then, and
the file stays empty.
-/
namespace SigilScript

namespace FileTree

/-- The files after the one at a path was emptied, as far as the path leads to one. -/
def emptied (tree : FileTree) (path : Text) : FileTree :=
  match tree.truncate path with
  | .error _ => tree
  | .ok (_, emptied) => emptied

/-- No place has changed but that of a file, which the path leads to. -/
def ChangesOnly (tree : FileTree) (path : Text) (after : FileTree) : Prop :=
  ∀ place, after.get? place ≠ tree.get? place → ∃ bytes, after.locate path = .ok (place, .file bytes)

/-- What writing leaves of the files: at most the file at the path changes if it is done, and nothing if it is not; but
a content that cannot be stored leaves the file empty. -/
structure AllOrNothing (tree : FileTree) (path : Text) (storable done : Prop) (after : FileTree) : Prop where
  changes : done → tree.ChangesOnly path after
  keeps : storable → ¬ done → after = tree
  empties : ¬ storable → ¬ done ∧ after = tree.emptied path

variable {tree : FileTree} {path : Text}

theorem ChangesOnly.refl (tree : FileTree) (path : Text) : tree.ChangesOnly path tree :=
  fun _ hplace => absurd rfl hplace

/-- A new or changed file is the only change, and the path leads to it. -/
theorem Target.changesOnly {here : List Text} {last : Text} (h : Target tree path here last)
    (hdirectory : tree.get? (here ++ [last]) ≠ some .directory) (bytes : List UInt8) :
    tree.ChangesOnly path (tree.put (here ++ [last]) (.file bytes)) := by
  intro place hplace
  have hsame : place = here ++ [last] := by
    by_contra hother
    exact hplace (get?_put_other hother)
  rw [hsame]
  exact ⟨bytes, h.locate hdirectory bytes⟩

end FileTree

namespace Directive

open FileTree (AllOrNothing)

/-! Refusing to write -/

/-- However it ends, the action leaves the files as they were before, and it is not done. -/
def Declines (before : Context) (x : Exec Text) : Prop :=
  x.Meets (Aspect.files.Kept before) (fun result c => result ≠ "true" ∧ Aspect.files.Kept before c)
    fun _ c => Aspect.files.Kept before c

namespace Declines

variable {α : Type} {before : Context} {x : Exec Text}

theorem fail (f : Failure) : Declines before (Exec.fail f) := Exec.meets_throw fun _ h => h

theorem fail_bind {f : Failure} {g : α → Exec Text} : Declines before (Exec.fail f >>= g) := by
  have hfail : (Exec.fail f : Exec α).Meets (Aspect.files.Kept before) (fun _ _ => False)
      fun _ c => Aspect.files.Kept before c := Exec.meets_throw fun _ h => h
  exact hfail.bind fun _ _ h => h.elim

theorem answer : Declines before (pure "false") := Exec.meets_pure fun _ h => ⟨by decide, h⟩

/-- After something that leaves the files alone. -/
theorem after {y : Exec α} {f : α → Exec Text} (hy : y.Spares .files before) (hf : ∀ a, Declines before (f a)) :
    Declines before (y >>= f) :=
  (Exec.Meets.weaken hy (fun _ h => h) (fun _ _ h => h) fun _ _ h => h.1).bind hf

theorem reported (rule message : String) : Declines before (Exec.error rule message >>= fun _ => pure "false") :=
  .after (Exec.obeys_error Exec.ignoresReports_kept rule message) fun _ => .answer

theorem not_done {c : Context} (h : Declines c x) :
    (x.runFrom c).1.toOption ≠ some ("true" : Text) ∧ (x.runFrom c).2.world.files = c.world.files := by
  have hx := h c (Aspect.files.kept_refl c)
  rcases hrun : x.runFrom c with ⟨e | result, c'⟩
  · rw [hrun] at hx
    exact ⟨nofun, hx⟩
  · rw [hrun] at hx
    exact ⟨fun hresult => hx.1 (Option.some.inj hresult), hx.2⟩

/-- Nothing is stored and nothing changes, whatever could be stored, if there is no file to be emptied. -/
theorem allOrNothing {c : Context} (h : Declines c x) (path : Text) {storable : Prop}
    (hstorable : storable ∨ c.world.files.emptied path = c.world.files) :
    AllOrNothing c.world.files path storable ((x.runFrom c).1.toOption = some ("true" : Text))
      (x.runFrom c).2.world.files := by
  obtain ⟨hdone, hfiles⟩ := h.not_done
  refine ⟨fun hd => absurd hd hdone, fun _ _ => hfiles, fun hs => ⟨hdone, ?_⟩⟩
  exact hfiles.trans (hstorable.resolve_left hs).symm

end Declines

/-! Storing a content -/

/-- What is to be stored in a file. -/
inductive Content where
  | text (t : Text)
  | document (json : Json)

namespace Content

/-- The bytes of a content. A text without an encoding has none, nor has a document that is nested too deep. -/
def bytes? : Content → Option (List UInt8)
  | .text t => (Utf8.encode t).toOption
  | .document json => if json.depth ≤ maxRecursion then (Utf8.encode (json.render Json.fileStyle)).toOption else none

def store (rule : String) (path : Text) : Content → Exec Text
  | .text t => writeContent rule path t
  | .document json => writeJson rule path json

end Content

theorem spares_refuse {before : Context} (rule action : String) (path : Text) (e : FileError) :
    (refuse rule action path e).Spares .files before := by
  unfold refuse
  split
  · exact (Exec.obeys_throw trivial).bind fun _ => Exec.obeys_error Exec.ignoresReports_kept _ _
  · exact Exec.obeys_error Exec.ignoresReports_kept _ _

section

variable {c before : Context} {rule : String} {path t : Text} {place : List Text} {emptied : FileTree}

theorem declines_writeContent {e : FileError} (h : before.world.files.truncate path = .error e) :
    Declines before (writeContent rule path t) := by
  intro c hc
  have hwrite : c.world.files.write path t = .error e := by
    rw [show c.world.files = before.world.files from hc, FileTree.write, h]
  rw [writeContent, Exec.runFrom_bind, Exec.runFrom_files, Ending.andThen_ok, hwrite]
  exact Declines.after (spares_refuse _ _ _ _) (fun _ => Declines.answer) c hc

theorem runFrom_writeContent_error {e : Utf8.EncodeError} (h : c.world.files.truncate path = .ok (place, emptied))
    (hencode : Utf8.encode t = .error e) : (writeContent rule path t).runFrom c =
      (.error (.failure (.unencodable e)), { c with world := { c.world with files := emptied } }) := by
  have hwrite : c.world.files.write path t = .ok (emptied, some e) := by rw [FileTree.write, h, hencode]
  rw [writeContent, Exec.runFrom_bind, Exec.runFrom_files, Ending.andThen_ok, hwrite]
  rfl

theorem runFrom_writeContent_ok {bytes : List UInt8} (h : c.world.files.truncate path = .ok (place, emptied))
    (hencode : Utf8.encode t = .ok bytes) : (writeContent rule path t).runFrom c =
      (.ok "true", { c with world := { c.world with files := emptied.put place (.file bytes) } }) := by
  have hwrite : c.world.files.write path t = .ok (emptied.put place (.file bytes), none) := by
    rw [FileTree.write, h, hencode]
  rw [writeContent, Exec.runFrom_bind, Exec.runFrom_files, Ending.andThen_ok, hwrite]
  rfl

namespace Content

variable {content : Content}

/-- A path that leads to no file is refused, whatever the content is. -/
theorem declines_store {e : FileError} (h : before.world.files.truncate path = .error e) :
    Declines before (content.store rule path) := by
  cases content with
  | text t => exact declines_writeContent h
  | document json =>
    rw [store, writeJson]
    split
    · exact declines_writeContent h
    · -- the document is refused only after its file was written, which it is not here
      refine Exec.Meets.bind (declines_writeContent h) fun result => ?_
      split
      · rename_i hresult
        exact fun c hc => absurd hresult hc.1
      · exact Exec.meets_pure fun c hc => hc

/-- The file is empty by the time that the content turns out to have no bytes. -/
theorem runFrom_store_of_none (h : c.world.files.truncate path = .ok (place, emptied))
    (hbytes : content.bytes? = none) :
    ∃ e, (content.store rule path).runFrom c = (.error e, { c with world := { c.world with files := emptied } }) := by
  cases content with
  | text t =>
    cases hencode : Utf8.encode t with
    | error e => exact ⟨_, runFrom_writeContent_error h hencode⟩
    | ok bytes =>
      rw [bytes?, hencode] at hbytes
      cases hbytes
  | document json =>
    rw [bytes?] at hbytes
    rw [store, writeJson]
    split
    · rename_i hdepth
      rw [if_pos hdepth] at hbytes
      cases hencode : Utf8.encode (json.render Json.fileStyle) with
      | error e => exact ⟨_, runFrom_writeContent_error h hencode⟩
      | ok bytes =>
        rw [hencode] at hbytes
        cases hbytes
    · -- nothing is stored in place of the document, which leaves the file as it was emptied
      obtain ⟨-, -, -, -, -, rfl⟩ := FileTree.target_of_truncate h
      rw [Exec.runFrom_bind, runFrom_writeContent_ok h rfl, Ending.andThen_ok, FileTree.put_put]
      exact ⟨_, rfl⟩

theorem runFrom_store_of_some {bytes : List UInt8} (h : c.world.files.truncate path = .ok (place, emptied))
    (hbytes : content.bytes? = some bytes) : (content.store rule path).runFrom c =
      (.ok "true", { c with world := { c.world with files := emptied.put place (.file bytes) } }) := by
  cases content with
  | text t => exact runFrom_writeContent_ok h (eq_ok_of_toOption hbytes)
  | document json =>
    rw [bytes?] at hbytes
    rw [store, writeJson]
    split
    · rename_i hdepth
      rw [if_pos hdepth] at hbytes
      exact runFrom_writeContent_ok h (eq_ok_of_toOption hbytes)
    · rename_i hdepth
      rw [if_neg hdepth] at hbytes
      cases hbytes

theorem allOrNothing_store (content : Content) (rule : String) (path : Text) (c : Context) :
    AllOrNothing c.world.files path (content.bytes? ≠ none)
      (((content.store rule path).runFrom c).1.toOption = some ("true" : Text))
      ((content.store rule path).runFrom c).2.world.files := by
  cases htruncate : c.world.files.truncate path with
  | error e =>
    have hemptied : c.world.files.emptied path = c.world.files := by rw [FileTree.emptied, htruncate]
    exact (declines_store htruncate).allOrNothing path (.inr hemptied)
  | ok target =>
    obtain ⟨place, emptied⟩ := target
    have hemptied : c.world.files.emptied path = emptied := by rw [FileTree.emptied, htruncate]
    cases hbytes : content.bytes? with
    | none =>
      obtain ⟨e, hrun⟩ := runFrom_store_of_none htruncate hbytes
      rw [hrun]
      exact ⟨nofun, fun h => absurd rfl h, fun _ => ⟨nofun, hemptied.symm⟩⟩
    | some bytes =>
      obtain ⟨here, last, rfl, htarget, hdirectory, hput⟩ := FileTree.target_of_truncate htruncate
      rw [runFrom_store_of_some htruncate hbytes, hput, FileTree.put_put]
      exact ⟨fun _ => htarget.changesOnly hdirectory bytes, fun _ h => absurd rfl h, fun h => absurd nofun h⟩

end Content

end

/-! New files -/

/-- A new file is where nothing was. -/
theorem runFrom_newFile (path : Text) (c : Context) :
    ((newFile path).runFrom c).2.world.files = c.world.files ∨
      ((newFile path).runFrom c).1 = .ok "true" ∧ ∃ here last, c.world.files.Target path here last ∧
        c.world.files.get? (here ++ [last]) = none ∧
        ((newFile path).runFrom c).2.world.files = c.world.files.put (here ++ [last]) (.file []) := by
  rw [newFile, Exec.runFrom_bind, Exec.runFrom_files, Ending.andThen_ok]
  split
  · exact .inl rfl
  · split
    · rename_i tree hcreate
      rw [FileTree.create] at hcreate
      split at hcreate
      · cases hcreate
      · cases hcreate
      · rename_i place htarget
        cases hcreate
        obtain ⟨here, last, rfl, hto, hget⟩ := FileTree.target_of_target htarget nofun
        exact .inr ⟨rfl, here, last, hto, hget, rfl⟩
    · rename_i e hcreate
      have hdeclines : Declines c (refuse "CREATEFILE" "create" path e >>= fun _ => pure "false") :=
        .after (spares_refuse _ _ _ _) fun _ => .answer
      exact .inl hdeclines.not_done.2

theorem allOrNothing_newFile (path : Text) (c : Context) {storable : Prop} (hstorable : storable) :
    AllOrNothing c.world.files path storable (((newFile path).runFrom c).1.toOption = some ("true" : Text))
      ((newFile path).runFrom c).2.world.files := by
  obtain hfiles | ⟨hdone, here, last, htarget, hnone, hfiles⟩ := runFrom_newFile path c
  · rw [hfiles]
    exact ⟨fun _ => .refl _ _, fun _ _ => rfl, fun h => absurd hstorable h⟩
  · rw [hfiles]
    refine ⟨fun _ => htarget.changesOnly (by rw [hnone]; nofun) [], fun _ h => ?_, fun h => absurd hstorable h⟩
    rw [hdone] at h
    exact absurd rfl h

theorem get?_newFile {path : Text} {c : Context} {place : List Text} {bytes : List UInt8}
    (h : c.world.files.get? place = some (.file bytes)) :
    ((newFile path).runFrom c).2.world.files.get? place = some (.file bytes) := by
  obtain hfiles | ⟨-, here, last, -, hnone, hfiles⟩ := runFrom_newFile path c
  · rw [hfiles, h]
  · have hother : place ≠ here ++ [last] := by
      rintro rfl
      rw [hnone] at h
      cases h
    rw [hfiles, FileTree.get?_put_other hother, h]

/-! Documents with a value set -/

/-- The document in a file. -/
def documentIn? (tree : FileTree) (path : Text) : Option Json := do
  let bytes ← (tree.read path).toOption
  let content ← (Utf8.decode bytes).toOption
  (Json.parse content.normalizeNewlines).toOption

theorem documentIn?_eq_some_iff {tree : FileTree} {path : Text} {document : Json} :
    documentIn? tree path = some document ↔ Holds tree path document := by
  constructor
  · intro h
    obtain ⟨bytes, hread, h⟩ := Option.bind_eq_some_iff.mp h
    obtain ⟨content, hdecode, h⟩ := Option.bind_eq_some_iff.mp h
    exact ⟨bytes, content, eq_ok_of_toOption hread, eq_ok_of_toOption hdecode, eq_ok_of_toOption h⟩
  · rintro ⟨bytes, content, hread, hdecode, hparse⟩
    simp only [documentIn?, hread, hdecode, hparse, Except.toOption, Option.bind_eq_bind, Option.bind_some]

/-- The document that a value is set in: a new one if the path leads nowhere. -/
def documentAt? (tree : FileTree) (path : Text) : Option Json :=
  if tree.exists? path then documentIn? tree path else some (.object [])

/-- The value that a text stands for, unless it is nested too deep. -/
def value? (t : Text) : Option Json :=
  match Json.parse t with
  | .ok document => some document
  | .error .recursionLimit => none
  | .error _ => some (.string t)

theorem runFrom_documentOrNew {c : Context} {path : Text} {document : Json}
    (h : documentAt? c.world.files path = some document) :
    (documentOrNew path).runFrom c = (.ok (some document), c) := by
  rw [documentAt?] at h
  rw [documentOrNew, Exec.runFrom_bind, Exec.runFrom_files, Ending.andThen_ok]
  split at h
  · rename_i hexists
    rw [if_pos hexists]
    exact runFrom_readJson (documentIn?_eq_some_iff.mp h) _
  · rename_i hexists
    cases h
    rw [if_neg hexists]
    rfl

theorem documentAt?_of_documentOrNew {c c' : Context} {path : Text} {document : Json}
    (h : (documentOrNew path).runFrom c = (.ok (some document), c')) :
    documentAt? c.world.files path = some document := by
  rw [documentOrNew, Exec.runFrom_bind, Exec.runFrom_files, Ending.andThen_ok] at h
  rw [documentAt?]
  split at h
  · rename_i hexists
    rw [if_pos hexists]
    exact documentIn?_eq_some_iff.mpr (holds_of_readJson h)
  · rename_i hexists
    rw [if_neg hexists]
    cases h
    rfl

theorem meets_documentOrNew (before : Context) (path : Text) :
    (documentOrNew path).Meets (Aspect.files.Kept before)
      (fun document c => document = documentAt? before.world.files path ∧ Aspect.files.Kept before c)
      fun _ c => Aspect.files.Kept before c := by
  intro c hc
  rw [← show c.world.files = before.world.files from hc]
  cases hdocument : documentAt? c.world.files path with
  | some document =>
    rw [runFrom_documentOrNew hdocument]
    exact ⟨rfl, hc⟩
  | none =>
    -- the file is read, so it stays as it is; had this given a document, the path would lead to one
    have hspares := (@acts_documentOrNew (fun _ => False) path).spares (not_false : ¬ False) c hc
    rcases hrun : (documentOrNew path).runFrom c with ⟨e | document, c'⟩
    · rw [hrun] at hspares
      exact hspares.1
    · rw [hrun] at hspares
      refine ⟨?_, hspares⟩
      cases document with
      | none => rfl
      | some document => exact (documentAt?_of_documentOrNew hrun).symm.trans hdocument

theorem valueOf_eq (t : Text) :
    valueOf t = (value? t).elim (Exec.fail (.json .recursionLimit)) pure := by
  unfold valueOf value?
  cases Json.parse t with
  | ok document => rfl
  | error e => cases e <;> rfl

/-- The document in a file with a value set, if it can be. -/
def changed? (tree : FileTree) (path key t : Text) : Option Json := do
  let document ← documentAt? tree path
  let value ← value? t
  match document.setPath key value with
  | (changed, none) => some changed
  | (_, some _) => none

theorem runFrom_setValue {c : Context} {path key t : Text} {changed : Json}
    (h : changed? c.world.files path key t = some changed) :
    (setValue path key t).runFrom c = (writeJson "JSONSET" path changed).runFrom c := by
  obtain ⟨document, hdocument, h⟩ := Option.bind_eq_some_iff.mp h
  obtain ⟨value, hvalue, h⟩ := Option.bind_eq_some_iff.mp h
  split at h
  · rename_i hset
    cases h
    rw [setValue, Exec.runFrom_bind, runFrom_documentOrNew hdocument, Ending.andThen_ok, valueOf_eq, hvalue]
    dsimp only [Option.elim]
    rw [Exec.runFrom_bind, Exec.runFrom_pure, Ending.andThen_ok, hset]
  · cases h

theorem declines_setValue {before : Context} {path key t : Text}
    (h : changed? before.world.files path key t = none) : Declines before (setValue path key t) := by
  refine (meets_documentOrNew before path).bind fun document => ?_
  rintro c ⟨hdocument, hc⟩
  refine (?_ : Declines before _) c hc
  cases document with
  | none => exact .answer
  | some document =>
    rw [changed?, ← hdocument] at h
    rw [valueOf_eq]
    cases hvalue : value? t with
    | none => exact .fail_bind
    | some value =>
      rw [hvalue] at h
      dsimp only [Option.elim]
      rw [pure_bind]
      cases hset : document.setPath key value with
      | mk changed refusal =>
        cases refusal with
        | none =>
          simp only [Option.bind_eq_bind, Option.bind_some, hset] at h
          cases h
        | some refusal =>
          cases refusal with
          | badIndex e => exact .fail _
          | missing part => exact .reported _ _

theorem declines_writeDocument {before : Context} {path t : Text} (h : (Json.parse t).toOption = none) :
    Declines before (writeDocument path t) := by
  rw [writeDocument]
  split
  · exact .fail _
  · exact .reported _ _
  · rename_i hparse
    rw [hparse] at h
    cases h

/-! The writers -/

/-- The directives that write a file. -/
inductive Writer where
  | createFile
  | writeFile
  | jsonWrite
  | jsonSet

namespace Writer

def word : Writer → String
  | .createFile => "createFile"
  | .writeFile => "writeFile"
  | .jsonWrite => "jsonWrite"
  | .jsonSet => "jsonSet"

def handler : Writer → Handler
  | .createFile => Directive.createFile
  | .writeFile => Directive.writeFile
  | .jsonWrite => Directive.jsonWrite
  | .jsonSet => Directive.jsonSet

/-- The parts of the arguments that are resolved, in order. The first one is the path; there are none if there are too
few arguments. -/
def operands (args : Text) : Writer → List Text
  | .createFile => [args]
  | .writeFile =>
    match Argument.split args with
    | first :: others => [first, Text.join ";" others]
    | _ => []
  | .jsonWrite =>
    match Argument.split args with
    | first :: second :: others => [first, Text.join ";" (second :: others)]
    | _ => []
  | .jsonSet =>
    match Argument.split args with
    | first :: second :: third :: others => [first, second, Text.join ";" (third :: others)]
    | _ => []

/-- What is done with the values of the operands; if there are too few, this is reported. -/
def act (rule message : String) : Writer → List Text → Exec Text
  | .createFile, [path] => newFile path
  | .writeFile, [path, t] => writeContent "WRITEFILE" path t
  | .jsonWrite, [path, t] => writeDocument path t
  | .jsonSet, [path, key, t] => setValue path key t
  | _, _ => do
    Exec.error rule message
    return "false"

/-- What is to be stored, if the values of the operands have a meaning. -/
def content? (tree : FileTree) : Writer → List Text → Option Content
  | .writeFile, [_, t] => some (.text t)
  | .jsonWrite, [_, t] => (Json.parse t).toOption.map .document
  | .jsonSet, [path, key, t] => (changed? tree path key t).map .document
  | _, _ => none

/-- What is to be stored has bytes. -/
def Storable (w : Writer) (tree : FileTree) (values : List Text) : Prop :=
  ∀ content ∈ w.content? tree values, content.bytes? ≠ none

variable {w : Writer} {values : List Text} {rule message : String}

theorem runFrom_act_of_some {c : Context} {content : Content} (h : w.content? c.world.files values = some content) :
    ∃ rule', (w.act rule message values).runFrom c = (content.store rule' (values.headD [])).runFrom c := by
  unfold content? at h
  split at h
  · cases h
    exact ⟨_, rfl⟩
  · obtain ⟨document, hparse, rfl⟩ := Option.map_eq_some_iff.mp h
    refine ⟨"JSONWRITE", ?_⟩
    rw [act, writeDocument, eq_ok_of_toOption hparse]
    rfl
  · obtain ⟨changed, hchanged, rfl⟩ := Option.map_eq_some_iff.mp h
    exact ⟨_, runFrom_setValue hchanged⟩
  · cases h

theorem declines_act_of_none {before : Context} (hw : w ≠ .createFile)
    (h : w.content? before.world.files values = none) : Declines before (w.act rule message values) := by
  unfold act
  split
  · exact absurd rfl hw
  · cases h
  · exact declines_writeDocument (Option.map_eq_none_iff.mp h)
  · exact declines_setValue (Option.map_eq_none_iff.mp h)
  · exact .reported _ _

theorem allOrNothing_act (w : Writer) (rule message : String) (values : List Text) (c : Context) :
    AllOrNothing c.world.files (values.headD []) (w.Storable c.world.files values)
      (((w.act rule message values).runFrom c).1.toOption = some ("true" : Text))
      ((w.act rule message values).runFrom c).2.world.files := by
  cases hcontent : w.content? c.world.files values with
  | some content =>
    have hstorable : w.Storable c.world.files values ↔ content.bytes? ≠ none := by
      simp only [Storable, hcontent, Option.mem_def, Option.some.injEq, forall_eq']
    obtain ⟨rule', hrun⟩ := @runFrom_act_of_some w values rule message c content hcontent
    rw [hrun, propext hstorable]
    exact content.allOrNothing_store rule' _ c
  | none =>
    have hstorable : w.Storable c.world.files values := by simp [Storable, hcontent]
    by_cases hw : w = .createFile
    · subst hw
      rcases values with _ | ⟨path, _ | ⟨other, values⟩⟩
      · exact (Declines.reported rule message).allOrNothing _ (.inl hstorable)
      · exact allOrNothing_newFile path c hstorable
      · exact (Declines.reported rule message).allOrNothing _ (.inl hstorable)
    · exact (declines_act_of_none hw hcontent).allOrNothing _ (.inl hstorable)

/-- Creating a file changes none that is there. -/
theorem get?_createFile {c : Context} {place : List Text} {bytes : List UInt8}
    (h : c.world.files.get? place = some (.file bytes)) :
    ((Writer.createFile.act rule message values).runFrom c).2.world.files.get? place = some (.file bytes) := by
  rcases values with _ | ⟨path, _ | ⟨other, values⟩⟩
  · exact (congrArg (FileTree.get? · place) (Declines.reported rule message).not_done.2).trans h
  · exact get?_newFile h
  · exact (congrArg (FileTree.get? · place) (Declines.reported rule message).not_done.2).trans h

theorem act_nil (w : Writer) (d : Dispatcher) (rule message : String) :
    ((([] : List Text).mapM d.argument >>= w.act rule message) >>= fun t => pure (Reply.text t)) =
      Exec.error rule message >>= fun _ => pure (.text "false") := by
  cases w <;> simp [act]

/-- A writer resolves its operands, and then acts on their values. -/
theorem handler_eq (w : Writer) (d : Dispatcher) (args : Text) : ∃ rule message, w.handler d args =
    ((w.operands args).mapM d.argument >>= w.act rule message) >>= fun t => pure (.text t) := by
  cases w with
  | createFile => exact ⟨"", "", by simp [handler, Directive.createFile, operands, act]⟩
  | writeFile =>
    rw [handler, Directive.writeFile]
    rcases hs : Argument.split args with _ | ⟨first, others⟩
    · simp only [operands, hs, act_nil]
      exact ⟨_, _, rfl⟩
    · exact ⟨"", "", by simp [operands, act, hs]⟩
  | jsonWrite =>
    rw [handler, Directive.jsonWrite]
    rcases hs : Argument.split args with _ | ⟨first, _ | ⟨second, others⟩⟩
    · simp only [operands, hs, act_nil]
      exact ⟨_, _, rfl⟩
    · simp only [operands, hs, act_nil]
      exact ⟨_, _, rfl⟩
    · exact ⟨"", "", by simp [operands, act, hs]⟩
  | jsonSet =>
    rw [handler, Directive.jsonSet]
    rcases hs : Argument.split args with _ | ⟨first, _ | ⟨second, _ | ⟨third, others⟩⟩⟩
    · simp only [operands, hs, act_nil]
      exact ⟨_, _, rfl⟩
    · simp only [operands, hs, act_nil]
      exact ⟨_, _, rfl⟩
    · simp only [operands, hs, act_nil]
      exact ⟨_, _, rfl⟩
    · exact ⟨"", "", by simp [operands, act, hs]⟩

theorem get?_word (w : Writer) : ∃ served, (install Registry.empty).get? w.word = some served ∧
    served.handler = w.handler := by
  cases w <;> exact ⟨_, rfl, rfl⟩

end Writer

end Directive

/-! Calling a writer -/

/-- A call gives the text that its directive gives, or is interrupted with it; the context is the same. -/
theorem Registry.runFrom_invoke {r : Registry} {levels : Nat} {name args : Text} {served : Directive}
    (hget : r.get? name = some served) {x : Exec Text}
    (hx : served.handler ⟨r.contains, r.invoke levels⟩ args = x >>= fun t => pure (.text t)) (c : Context) :
    let called : Context := { c with events := c.events.push (.call name args) }
    ((r.invoke (levels + 1) name args).runFrom c).1.toOption = (x.runFrom called).1.toOption.map some ∧
      ((r.invoke (levels + 1) name args).runFrom c).2 = (x.runFrom called).2 := by
  intro called
  have hemit : (Exec.emit (.call name args)).runFrom c = (.ok (), called) := rfl
  rw [invoke, Exec.runFrom_bind, hemit, Ending.andThen_ok, Exec.runFrom_bind, blame, Exec.runFrom_tryCatch, hget]
  dsimp only
  rw [hx, Exec.runFrom_bind]
  rcases x.runFrom called with ⟨e | t, c'⟩
  · cases e <;> exact ⟨rfl, rfl⟩
  · exact ⟨rfl, rfl⟩

namespace Directive

open FileTree (AllOrNothing)

/-- A call of a directive that writes a file resolves its operands, and if this is interrupted, nothing more is done.
Otherwise the call is done if and only if its result is `true`. Then it has changed at most the file that the value
of the first operand leads to, and else none at all; but if there is something to be stored that has no bytes, the call
is not done, and this file is empty. A file that exists is never changed by creating one. -/
theorem Writer.allOrNothing_invoke (w : Writer) (levels : Nat) (args : Text) (c : Context) :
    let r := install Registry.empty
    let d : Dispatcher := ⟨r.contains, r.invoke levels⟩
    let resolved := ((w.operands args).mapM d.argument).runFrom { c with events := c.events.push (.call w.word args) }
    let tree := resolved.2.world.files
    let ending := (r.invoke (levels + 1) w.word args).runFrom c
    let after := ending.2.world.files
    (resolved.1.toOption = none → ending.1.toOption = none ∧ after = tree) ∧
      ∀ values, resolved.1.toOption = some values →
        AllOrNothing tree (values.headD []) (w.Storable tree values)
          (ending.1.toOption = some (some ("true" : Text))) after ∧
        (w = .createFile → ∀ place bytes, tree.get? place = some (.file bytes) →
          after.get? place = some (.file bytes)) := by
  intro r d resolved tree ending after
  obtain ⟨served, hget, hserved⟩ := w.get?_word
  obtain ⟨rule, message, hhandler⟩ := w.handler_eq d args
  obtain ⟨hresult, hcontext⟩ := Registry.runFrom_invoke hget (hserved ▸ hhandler) c
  rw [Exec.runFrom_bind] at hresult hcontext
  rcases hresolved : resolved with ⟨e | values, c₁⟩
  · rw [show Exec.runFrom _ _ = (.error e, c₁) from hresolved] at hresult hcontext
    have htree : tree = c₁.world.files := congrArg (fun ending => ending.2.world.files) hresolved
    rw [htree]
    exact ⟨fun _ => ⟨hresult, congrArg (·.world.files) hcontext⟩, nofun⟩
  · rw [show Exec.runFrom _ _ = (.ok values, c₁) from hresolved] at hresult hcontext
    have htree : tree = c₁.world.files := congrArg (fun ending => ending.2.world.files) hresolved
    have hafter : after = ((w.act rule message values).runFrom c₁).2.world.files :=
      congrArg (·.world.files) hcontext
    have hdone : ending.1.toOption = some (some ("true" : Text)) ↔
        ((w.act rule message values).runFrom c₁).1.toOption = some ("true" : Text) := by
      rw [show ending.1.toOption = _ from hresult, Ending.andThen_ok, Option.map_eq_some_iff]
      simp only [Option.some.injEq, exists_eq_right]
    rw [htree, hafter, propext hdone]
    refine ⟨nofun, fun _ hvalues => ?_⟩
    cases hvalues
    refine ⟨w.allOrNothing_act rule message values c₁, ?_⟩
    rintro rfl place bytes hget
    exact Writer.get?_createFile hget

/-- The value is resolved, which writes a file, and then there is no item to set it in; this changes nothing more. -/
theorem Writer.allOrNothing_invoke_nested :
    let c := Context.start false (.empty false) ⟨⟨⟨false, []⟩, [(["f"], .file [0x5b, 0x31, 0x5d])]⟩, [],
      fun _ low _ => low, 0, .one, ⟨2024, 1, 2, 3, 4, 5⟩⟩
    let ending := ((install Registry.empty).invoke 2 "jsonSet" "f;9.x;§writeFile[g;x]").runFrom c
    ending.1.toOption = some (some ("false" : Text)) ∧
      ending.2.world.files = c.world.files.put ["g"] (.file [0x78]) := by
  intro c ending
  let d : Dispatcher := ⟨(install Registry.empty).contains, (install Registry.empty).invoke 1⟩
  let resolved := ((Writer.jsonSet.operands "f;9.x;§writeFile[g;x]").mapM d.argument).runFrom
    { c with events := c.events.push (.call "jsonSet" "f;9.x;§writeFile[g;x]") }
  have hrun : ending.1.toOption = some (some ("false" : Text)) ∧
      resolved.1.toOption = some [Text.ofString "f", "9.x", "true"] ∧
      (Writer.jsonSet.content? resolved.2.world.files ["f", "9.x", "true"]).isNone ∧
      resolved.2.world.files = c.world.files.put ["g"] (.file [0x78]) := by
    decide +kernel
  obtain ⟨hresult, hvalues, hnone, hfiles⟩ := hrun
  obtain ⟨hwritten, -⟩ := (Writer.jsonSet.allOrNothing_invoke 1 "f;9.x;§writeFile[g;x]" c).2 _ hvalues
  have hstorable : Writer.jsonSet.Storable resolved.2.world.files ["f", "9.x", "true"] := by
    intro content hcontent
    rw [Option.isNone_iff_eq_none.mp hnone] at hcontent
    cases hcontent
  have hdone : ¬ ending.1.toOption = some (some ("true" : Text)) := by
    rw [hresult]
    decide
  exact ⟨hresult, (hwritten.keeps hstorable hdone).trans hfiles⟩

/-- A document with a surrogate is a document, and it is refused only when the file is already empty. -/
theorem Writer.jsonWrite_empties :
    let c := Context.start false (.empty false) ⟨⟨⟨false, []⟩, [(["f"], .file [0x6f, 0x6c, 0x64])]⟩, [],
      fun _ low _ => low, 0, .one, ⟨2024, 1, 2, 3, 4, 5⟩⟩
    let ending := ((install Registry.empty).dispatcher.invoke "jsonWrite" "f;[\"\\ud800\"]").runFrom c
    ending.1.toOption = none ∧ c.world.files.get? ["f"] = some (.file [0x6f, 0x6c, 0x64]) ∧
      ending.2.world.files.get? ["f"] = some (.file []) := by
  decide +kernel

end Directive

end SigilScript
