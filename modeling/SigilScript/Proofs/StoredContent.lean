import SigilScript.Proofs.NestedArguments
import SigilScript.Proofs.StoredValue

/-!
Contents of files. A directive that writes a file gets the path and the content in one text, which is cut at the
separators and, behind the path, joined again. The content comes back from this whole, but for one separator at its
end, which separates it from nothing. What is written then is what is read: a document as a document, and any other
text code point by code point.
-/
namespace SigilScript

namespace Argument

/-- A text in which nothing opens, separates or starts a call. -/
def IsPlain (t : Text) : Prop := ∀ c ∈ t, ¬ isQuote c ∧ c ≠ '[' ∧ c ≠ ']' ∧ c ≠ ';' ∧ c ≠ sigil

instance (t : Text) : Decidable (IsPlain t) := inferInstanceAs (Decidable (∀ c ∈ t, _))

/-- A text that is read from a place on, without the separator at its end if there is one. -/
def withoutLast (s : Nesting) (t : Text) : Text :=
  if t.getLast?.any (separates (t.dropLast.foldl Nesting.next s)) then t.dropLast else t

theorem withoutLast_cons_cons (s : Nesting) (c c' : CodePoint) (rest : Text) :
    withoutLast s (c :: c' :: rest) = c :: withoutLast (s.next c) (c' :: rest) := by
  simp only [withoutLast, List.getLast?_cons_cons, List.dropLast_cons_cons, List.foldl_cons]
  split <;> rfl

/-- Cutting a text and joining the pieces again loses nothing but a separator at its end. -/
theorem join_splitFrom (s : Nesting) (current t : Text) :
    Text.join ";" (splitFrom s current t) = current.reverse ++ withoutLast s t := by
  induction t generalizing s current with
  | nil => cases current <;> simp [splitFrom, withoutLast, Text.join, List.intercalate]
  | cons c rest ih =>
    cases rest with
    | nil =>
      by_cases hc : separates s c
      · simp [splitFrom, withoutLast, hc, Text.join, List.intercalate]
      · simp [splitFrom, withoutLast, hc, Text.join, List.intercalate]
    | cons c' rest =>
      rw [withoutLast_cons_cons, splitFrom]
      by_cases hc : separates s c
      · obtain ⟨first, others, ho⟩ := splitFrom_begun (s.next c) (t := c' :: rest) (by simp)
        have hjoin := ih (s.next c) []
        rw [ho] at hjoin
        rw [if_pos hc, ho, Text.join_cons_cons, hjoin, eq_of_separates hc]
        rfl
      · rw [if_neg hc, ih]
        simp

theorem join_split (t : Text) : Text.join ";" (split t) = withoutLast .outside t := join_splitFrom .outside [] t

theorem foldl_next_plain {p : Text} (h : IsPlain p) : p.foldl Nesting.next .outside = .outside := by
  induction p with
  | nil => rfl
  | cons c p ih =>
    have hc := h c List.mem_cons_self
    have hnext : Nesting.outside.next c = .outside := by
      simp only [Nesting.next, Nesting.outside, if_neg hc.1, if_neg hc.2.1, if_neg hc.2.2.1]
    rw [List.foldl_cons, hnext]
    exact ih fun c hm => h c (List.mem_cons_of_mem _ hm)

/-- A plain text in front of a separator is an argument of its own. -/
theorem split_plain_append {p : Text} (h : IsPlain p) (content : Text) :
    split (p ++ (';' : CodePoint) :: content) = p :: split content := by
  have hp : (';' : CodePoint) ∉ p := fun hm => (h _ hm).2.2.2.1 rfl
  rw [split, splitFrom_of_not_mem hp, foldl_next_plain h, splitFrom, if_pos (by decide)]
  simp [split, Nesting.next, Nesting.outside, isQuote]

theorem unquote_plain {p : Text} (h : IsPlain p) : unquote p = p.strip := by
  apply unquote_of_not_inQuotes
  rintro ⟨q, inner, hq, hs⟩
  have hm : q ∈ p := p.strip_isInfix.subset (hs ▸ List.mem_cons_self)
  exact (h q hm).1 hq

end Argument

theorem readNodes_of_not_mem {levels : Nat} {run t : Text} (h : sigil ∉ t) :
    readNodes levels run t = .ok (literal (t.reverse ++ run)) := by
  induction t generalizing run with
  | nil => rw [readNodes]; rfl
  | cons c t ih =>
    rw [List.mem_cons, not_or] at h
    rw [readNodes, if_neg (Ne.symm h.1), ih h.2]
    simp

namespace Dispatcher

/-- Without a sigil in it, a text is only substituted in. -/
theorem runFrom_resolve_of_not_mem (d : Dispatcher) {t : Text} (h : sigil ∉ t) (c : Context) :
    (d.resolve t).runFrom c = (.ok (Substitution.substitute c.store t), c) := by
  rw [resolve, expandWith, Fragment.parse, readNodes_of_not_mem h, literal]
  cases t with
  | nil => rfl
  | cons c' t =>
    rw [if_neg (by simp), List.append_nil, List.reverse_reverse]
    change (Except.ok (Substitution.substitute c.store (c' :: t) ++ []), c) = _
    rw [List.append_nil]

theorem runFrom_argument_plain (d : Dispatcher) {p : Text} (h : Argument.IsPlain p) (c : Context) :
    (d.argument p).runFrom c = (.ok (Substitution.substitute c.store p.strip), c) := by
  have hp : sigil ∉ p.strip := fun hm => (h _ (p.strip_isInfix.subset hm)).2.2.2.2 rfl
  rw [argument, Argument.unquote_plain h, d.runFrom_resolve_of_not_mem hp]

end Dispatcher

namespace Directive

/-- The arguments of a directive that writes a file come out as a path and a text. -/
def WriterParts (d : Dispatcher) (args : Text) (c : Context) (path t : Text) (c' : Context) : Prop :=
  ∃ first others c₁, Argument.split args = first :: others ∧ (d.argument first).runFrom c = (.ok path, c₁) ∧
    (d.argument (Text.join ";" others)).runFrom c₁ = (.ok t, c')

/-! Documents -/

theorem WriterParts.runFrom_jsonWrite {d : Dispatcher} {args path t : Text} {document : Json} {c c₁ c₂ : Context}
    (h : WriterParts d args c path t c₁) (hparse : Json.parse t = .ok document)
    (hwrite : (jsonWrite d args).runFrom c = (.ok (.text "true"), c₂)) :
    (writeJson "JSONWRITE" path document).runFrom c₁ = (.ok "true", c₂) := by
  obtain ⟨first, others, c', hsplit, hpath, ht⟩ := h
  rw [jsonWrite, hsplit] at hwrite
  cases others with
  | nil =>
    obtain ⟨_, _, -, hwrite⟩ := Exec.of_runFrom_bind hwrite
    exact absurd (Reply.text.inj (Except.ok.inj (Prod.mk.inj hwrite).1)) (by decide)
  | cons second others =>
    simp only [Exec.runFrom_bind, hpath, ht, writeDocument, hparse, Ending.andThen_ok] at hwrite
    rcases hrun : (writeJson "JSONWRITE" path document).runFrom c₁ with ⟨e | result, c'⟩
    · rw [hrun] at hwrite
      cases hwrite
    · rw [hrun] at hwrite
      cases hwrite
      rfl

theorem contents_of_writeJson {c c' : Context} {rule : String} {path : Text} {document : Json}
    (hdepth : document.depth ≤ maxRecursion) (h : (writeJson rule path document).runFrom c = (.ok "true", c')) :
    ∃ bytes, c'.world.files.read path = .ok bytes ∧ Utf8.decode bytes = .ok (document.render Json.fileStyle) := by
  rw [writeJson, if_pos hdepth] at h
  exact FileTree.decode_of_write (written_of_writeContent h)

/-- For a text that is a document, the lines that go to the file and the one line that is shown are both the same
document again. So once it is written to a path, the file there holds the lines, and reading it shows the one line. -/
theorem jsonRead_of_jsonWrite {t : Text} {document : Json} (hparse : Json.parse t = .ok document) :
    Json.parse (document.render Json.fileStyle).normalizeNewlines = .ok document ∧
      Json.parse document.compact = .ok document ∧
      ∀ {d : Dispatcher} {writeArgs readArgs path : Text} {c c₁ c₂ c₃ : Context},
        WriterParts d writeArgs c path t c₁ → (jsonWrite d writeArgs).runFrom c = (.ok (.text "true"), c₂) →
        (d.argument readArgs).runFrom c₂ = (.ok path, c₃) → c₃.world.files = c₂.world.files →
        (∃ bytes, c₂.world.files.read path = .ok bytes ∧
          Utf8.decode bytes = .ok (document.render Json.fileStyle)) ∧
        (jsonRead d readArgs).runFrom c₂ = (.ok (.text document.compact), c₃) := by
  have hsound := Json.sound_of_parse hparse
  have hdepth := Json.depth_le_of_parse hparse
  have hfile : Json.parse (document.render Json.fileStyle).normalizeNewlines = .ok document :=
    Json.parse_normalizeNewlines_render rfl hsound hdepth
  refine ⟨hfile, Json.parse_render rfl hsound hdepth, ?_⟩
  intro d writeArgs readArgs path c c₁ c₂ c₃ hparts hwrite hread hfiles
  obtain ⟨bytes, hbytes, hdecode⟩ := contents_of_writeJson hdepth (hparts.runFrom_jsonWrite hparse hwrite)
  have hholds : Holds c₃.world.files path document := by
    rw [hfiles]
    exact ⟨bytes, _, hbytes, hdecode, hfile⟩
  refine ⟨⟨bytes, hbytes, hdecode⟩, ?_⟩
  rw [jsonRead, Exec.runFrom_bind, hread, Ending.andThen_ok, Exec.runFrom_bind, runFrom_readJson hholds]
  rfl

/-- A repeated name, a trailing zero, a negative zero, a number that is none, a long integer and an escape. -/
theorem jsonRead_of_jsonWrite_repeated :
    let c := Context.start false (.empty false) ⟨⟨⟨false, []⟩, []⟩, [], fun _ low _ => low, 0, .one,
      ⟨2024, 1, 2, 3, 4, 5⟩⟩
    let d : Dispatcher := ⟨fun _ => false, fun _ _ => pure none⟩
    let t : Text := "\x7b\"b\": 1, \"a\": [1.50, -0.0, NaN, 123456789012345678901, \"\\r;\\u00e9\"], \"b\": null\x7d"
    let shown : Text := "\x7b\"b\":null,\"a\":[1.5,-0.0,NaN,123456789012345678901,\"\\r;é\"]\x7d"
    ∃ document c₂ c₃, Json.parse t = .ok document ∧
      (jsonWrite d ("f;" ++ t)).runFrom c = (.ok (.text "true"), c₂) ∧
      (jsonRead d "f").runFrom c₂ = (.ok (.text shown), c₃) ∧ Json.parse shown = .ok document := by
  intro c d t shown
  have hok : (Json.parse t).isOk := by decide +kernel
  obtain ⟨document, hparse⟩ : ∃ document, Json.parse t = .ok document := by
    cases h : Json.parse t with
    | ok document => exact ⟨document, rfl⟩
    | error e =>
      rw [h] at hok
      cases hok
  have hparts : WriterParts d ("f;" ++ t) c "f" t _ :=
    ⟨"f", Argument.split t, _, by decide +kernel, Exec.runFrom_of_toOption (by decide +kernel),
      Exec.runFrom_of_toOption (by decide +kernel)⟩
  have hwrite : (jsonWrite d ("f;" ++ t)).runFrom c = (.ok (.text "true"), _) :=
    Exec.runFrom_of_toOption (by decide +kernel)
  have hpath : (d.argument "f").runFrom ((jsonWrite d ("f;" ++ t)).runFrom c).2 = (.ok "f", _) :=
    d.runFrom_argument_plain (by decide) _
  have hshown : ((jsonRead d "f").runFrom ((jsonWrite d ("f;" ++ t)).runFrom c).2).1.toOption = some (.text shown) := by
    decide +kernel
  obtain ⟨-, hcompact, hstored⟩ := jsonRead_of_jsonWrite hparse
  obtain ⟨-, hread⟩ := hstored hparts hwrite hpath rfl
  rw [hread] at hshown
  obtain hshown : document.compact = shown := Reply.text.inj (Option.some.inj hshown)
  rw [hshown] at hread hcompact
  exact ⟨document, _, _, hparse, hwrite, hread, hcompact⟩

/-! Texts -/

theorem runFrom_readFile {d : Dispatcher} {args path content : Text} {bytes : List UInt8} {c c' : Context}
    (hargs : (d.argument args).runFrom c = (.ok path, c')) (hread : c'.world.files.read path = .ok bytes)
    (hdecode : Utf8.decode bytes = .ok content) : (readFile d args).runFrom c = (.ok (.text content), c') := by
  rw [readFile, Exec.runFrom_bind, hargs, Ending.andThen_ok, Exec.runFrom_bind, Exec.runFrom_files, Ending.andThen_ok,
    hread]
  dsimp only
  rw [hdecode]
  rfl

/-- The value of the content, but for a separator at its end, goes to the file that the path names. -/
theorem contents_of_writeFile {d : Dispatcher} {p content : Text} {c c₂ : Context} (hp : Argument.IsPlain p)
    (h : (writeFile d (p ++ (';' : CodePoint) :: content)).runFrom c = (.ok (.text "true"), c₂)) :
    ∃ t c₁ bytes, (d.argument (Argument.withoutLast .outside content)).runFrom c = (.ok t, c₁) ∧
      c₂.world.files.read (Substitution.substitute c.store p.strip) = .ok bytes ∧ Utf8.decode bytes = .ok t := by
  rw [writeFile, Argument.split_plain_append hp] at h
  dsimp only at h
  rw [Exec.runFrom_bind, d.runFrom_argument_plain hp, Ending.andThen_ok, Argument.join_split] at h
  obtain ⟨t, c₁, ht, h⟩ := Exec.of_runFrom_bind h
  obtain ⟨result, c', hresult, h⟩ := Exec.of_runFrom_bind h
  cases h
  obtain ⟨bytes, hread, hdecode⟩ := FileTree.decode_of_write (written_of_writeContent hresult)
  exact ⟨t, c₁, bytes, ht, hread, hdecode⟩

/-- After a text was written behind a plain path, reading gives its value as it was then, code point by code point,
as long as the files are the same and the path has the same value; but a separator at the end of the text is not part
of what was written. -/
theorem readFile_of_writeFile {d : Dispatcher} {p content : Text} {c c₂ : Context} (hp : Argument.IsPlain p)
    (hwrite : (writeFile d (p ++ (';' : CodePoint) :: content)).runFrom c = (.ok (.text "true"), c₂)) :
    ∃ t c₁, (d.argument (Argument.withoutLast .outside content)).runFrom c = (.ok t, c₁) ∧
      ∀ c₃ : Context, c₃.world.files = c₂.world.files →
        ((d.argument p).runFrom c₃).1.toOption = ((d.argument p).runFrom c).1.toOption →
        (readFile d p).runFrom c₃ = (.ok (.text t), c₃) := by
  obtain ⟨t, c₁, bytes, ht, hread, hdecode⟩ := contents_of_writeFile hp hwrite
  refine ⟨t, c₁, ht, fun c₃ hfiles hpath => ?_⟩
  have hargs := d.runFrom_argument_plain hp c₃
  rw [hargs, d.runFrom_argument_plain hp c] at hpath
  have hsame : Substitution.substitute c₃.store p.strip = Substitution.substitute c.store p.strip :=
    Option.some.inj hpath
  rw [hsame] at hargs
  exact runFrom_readFile hargs (hfiles ▸ hread) hdecode

/-- Separators in brackets, in quotes and outside of both are written, and the one at the end is not. -/
theorem readFile_of_writeFile_call :
    let c := Context.start false (.empty false) ⟨⟨⟨false, []⟩, []⟩, [], fun _ low _ => low, 0, .one,
      ⟨2024, 1, 2, 3, 4, 5⟩⟩
    let d : Dispatcher := ⟨fun _ => true, fun _ args => pure (some args)⟩
    ∃ c₂, (writeFile d "f;§x[1;2]; 'it;s';").runFrom c = (.ok (.text "true"), c₂) ∧
      (readFile d "f").runFrom c₂ = (.ok (.text "1;2; 'it;s'"), c₂) := by
  intro c d
  have hwrite : (writeFile d "f;§x[1;2]; 'it;s';").runFrom c = (.ok (.text "true"), _) :=
    Exec.runFrom_of_toOption (by decide +kernel)
  obtain ⟨t, c₁, ht, hread⟩ := @readFile_of_writeFile d "f" "§x[1;2]; 'it;s';" c _ (by decide) hwrite
  have hvalue : ((d.argument (Argument.withoutLast .outside "§x[1;2]; 'it;s';")).runFrom c).1.toOption =
      some "1;2; 'it;s'" := by
    decide +kernel
  rw [ht] at hvalue
  cases hvalue
  exact ⟨_, hwrite, hread _ rfl (by decide +kernel)⟩

/-- A separator at the end of the content has a value like any other code point, but it is not written. -/
theorem readFile_without_separator :
    let d := (install .empty).dispatcher
    let c := Context.start false (.empty false) ⟨⟨⟨false, []⟩, []⟩, [], fun _ low _ => low, 0, .one,
      ⟨2024, 1, 2, 3, 4, 5⟩⟩
    let written := (d.invoke "writeFile" "f;abc;").runFrom c
    written.1.toOption = (some (some "true") : Option (Option Text)) ∧
      ((d.argument "abc;").runFrom c).1.toOption = some "abc;" ∧
      ((d.invoke "readFile" "f").runFrom written.2).1.toOption = (some (some "abc") : Option (Option Text)) := by
  decide +kernel

end Directive

end SigilScript
