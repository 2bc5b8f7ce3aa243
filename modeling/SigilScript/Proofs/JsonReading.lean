import SigilScript.Block
import SigilScript.Proofs.FileContents
import SigilScript.Proofs.JsonText
import SigilScript.Proofs.Refusal

/-!
What the reader gives. A document that was read is sound, so it can be written and read again; and no text that a
document is written to has a carriage return, so it also comes through a reader that normalizes line ends.
-/
namespace SigilScript.Json

/-! Scalars -/

theorem lt_ten_of_takeWhole? {t rest : Text} {whole : List Nat} (h : takeWhole? t = some (whole, rest)) :
    ∀ d ∈ whole, d < 10 := by
  cases t with
  | nil => cases h
  | cons c t =>
    rw [takeWhole?] at h
    split at h
    · cases h
      decide
    · split at h
      · cases h
        intro d hd
        obtain ⟨c, hc, rfl⟩ := List.mem_map.mp hd
        have hdigit : c.isAsciiDigit = true := List.all_eq_true.mp List.all_takeWhile c hc
        simp only [CodePoint.isAsciiDigit, Bool.and_eq_true, decide_eq_true_eq] at hdigit
        omega
      · cases h

theorem natAbs_value (n : IntegerNumeral) : n.value.natAbs = ofDigits n.digits := by
  rw [IntegerNumeral.value]
  split <;> omega

theorem sound_of_readNumber {t : Text} {r : Json × Text} (h : readNumber t = .ok r) : r.1.Sound := by
  simp only [readNumber] at h
  split at h
  · cases h
  · rename_i whole rest hwhole
    split at h
    · split at h
      · cases h
      · rename_i hlength
        cases h
        refine .integer ?_
        rw [natAbs_value, length_decimalDigits_le_iff (by decide)]
        exact Nat.lt_of_lt_of_le (ofDigits_lt (lt_ten_of_takeWhole? hwhole))
          (Nat.pow_le_pow_right (by omega) (Nat.le_of_not_lt hlength))
    · cases h
      exact .number _

theorem sound_of_literals {m : Text × Json} (h : m ∈ literals) : m.2.Sound := by
  simp only [literals, List.mem_cons, List.not_mem_nil, or_false] at h
  rcases h with rfl | rfl | rfl | rfl | rfl | rfl
  · exact .null
  · exact .bool true
  · exact .bool false
  all_goals exact .number _

theorem sound_of_readScalar {t : Text} {r : Json × Text} (h : readScalar t = .ok r) : r.1.Sound := by
  rw [readScalar] at h
  split at h
  · rename_i word value hfind
    cases h
    exact sound_of_literals (List.mem_of_find?_eq_some hfind)
  · exact sound_of_readNumber h

/-! Items and members -/

section Inside

variable {P : Json → Prop} {read : Text → Except Refusal (Json × Text)} (hread : ∀ t r, read t = .ok r → P r.1)
include hread

theorem forall_of_readItems {fuel : Nat} {t : Text} {r : List Json × Text} (h : readItems read fuel t = .ok r) :
    ∀ item ∈ r.1, P item := by
  induction fuel generalizing t r with
  | zero => cases h
  | succ fuel ih =>
    rw [readItems] at h
    obtain ⟨⟨item, rest⟩, hitem, h⟩ := bind_eq_ok h
    obtain ⟨⟨closed, rest⟩, -, h⟩ := bind_eq_ok h
    cases closed with
    | true =>
      cases h
      exact List.forall_mem_singleton.mpr (hread _ _ hitem)
    | false =>
      obtain ⟨⟨items, rest⟩, hitems, h⟩ := bind_eq_ok h
      cases h
      exact List.forall_mem_cons.mpr ⟨hread _ _ hitem, ih hitems⟩

theorem forall_of_readMembers {fuel : Nat} {t : Text} {r : List (Text × Json) × Text}
    (h : readMembers read fuel t = .ok r) : ∀ m ∈ r.1, P m.2 := by
  induction fuel generalizing t r with
  | zero => cases h
  | succ fuel ih =>
    rw [readMembers] at h
    obtain ⟨⟨name, rest⟩, -, h⟩ := bind_eq_ok h
    obtain ⟨⟨value, rest⟩, hvalue, h⟩ := bind_eq_ok h
    obtain ⟨⟨closed, rest⟩, -, h⟩ := bind_eq_ok h
    cases closed with
    | true =>
      cases h
      exact List.forall_mem_singleton.mpr (hread _ _ hvalue)
    | false =>
      obtain ⟨⟨members, rest⟩, hmembers, h⟩ := bind_eq_ok h
      cases h
      exact List.forall_mem_cons.mpr ⟨hread _ _ hvalue, ih hmembers⟩

end Inside

theorem eq_or_of_readInside {α : Type} {close : CodePoint} {none : α} {read : Nat → Text → Except Refusal (α × Text)}
    {t : Text} {r : α × Text} (h : readInside close none read t = .ok r) :
    r.1 = none ∨ ∃ fuel t, read fuel t = .ok r := by
  rw [readInside] at h
  split at h
  · exact .inr ⟨_, _, h⟩
  · split at h
    · cases h
      exact .inl rfl
    · exact .inr ⟨_, _, h⟩

/-! Members of an object -/

theorem map_fst_insert {name : Text} {value : Json} {members : List (Text × Json)} (h : name ∈ members.map Prod.fst) :
    (insert name value members).map Prod.fst = members.map Prod.fst := by
  induction members with
  | nil => cases h
  | cons m members ih =>
    obtain ⟨n, v⟩ := m
    rw [insert]
    split
    · rfl
    · rename_i hne
      have hmem : name ∈ members.map Prod.fst := (List.mem_cons.mp h).resolve_left (Ne.symm hne)
      rw [List.map_cons, ih hmem, List.map_cons]

theorem eq_or_mem_of_mem_insert {name : Text} {value : Json} {members : List (Text × Json)} {m : Text × Json}
    (h : m ∈ insert name value members) : m.2 = value ∨ m ∈ members := by
  induction members with
  | nil =>
    rw [insert, List.mem_singleton] at h
    exact .inl (h ▸ rfl)
  | cons first members ih =>
    obtain ⟨n, v⟩ := first
    rw [insert] at h
    split at h
    · rcases List.mem_cons.mp h with rfl | h
      · exact .inl rfl
      · exact .inr (List.mem_cons_of_mem _ h)
    · rcases List.mem_cons.mp h with rfl | h
      · exact .inr List.mem_cons_self
      · exact (ih h).imp_right (List.mem_cons_of_mem _)

theorem sound_insert {name : Text} {value : Json} {members : List (Text × Json)} (hmembers : Sound (.object members))
    (hvalue : value.Sound) : Sound (.object (insert name value members)) := by
  cases hmembers with
  | object hnames h =>
    refine .object ?_ fun m hm => ?_
    · by_cases hmem : name ∈ members.map Prod.fst
      · rwa [map_fst_insert hmem]
      · rw [insert_of_not_mem hmem, List.map_append, List.nodup_append]
        refine ⟨hnames, List.pairwise_singleton _ _, fun a ha b hb hab => hmem ?_⟩
        obtain rfl : b = name := List.mem_singleton.mp hb
        rwa [← hab]
    · rcases eq_or_mem_of_mem_insert hm with hm | hm
      · rwa [hm]
      · exact h m hm

theorem sound_ofMembers {members : List (Text × Json)} (h : ∀ m ∈ members, m.2.Sound) : (ofMembers members).Sound := by
  have hfold : ∀ done, Sound (.object done) →
      Sound (.object (members.foldl (fun done m => insert m.1 m.2 done) done)) := by
    induction members with
    | nil => exact fun _ hdone => hdone
    | cons m members ih =>
      exact fun done hdone => ih (fun m hm => h m (List.mem_cons_of_mem _ hm)) _
        (sound_insert hdone (h m List.mem_cons_self))
  exact hfold [] (.object List.nodup_nil nofun)

/-! Documents -/

/-- What a value is read as: a string, the inside of brackets one level down, or a scalar. -/
theorem readValue_cases {levels : Nat} {c : CodePoint} {t : Text} {r : Json × Text}
    (h : readValue levels (c :: t) = .ok r) :
    (∃ s, r.1 = .string s) ∨
    (∃ n p, levels = n + 1 ∧ readInside ']' [] (readItems (readValue n)) t = .ok p ∧ (.array p.1, p.2) = r) ∨
    (∃ n p, levels = n + 1 ∧ readInside '}' [] (readMembers (readValue n)) t = .ok p ∧ (ofMembers p.1, p.2) = r) ∨
    readScalar (c :: t) = .ok r := by
  rw [readValue.eq_def] at h
  dsimp only at h
  split at h
  · obtain ⟨p, -, rfl⟩ := map_eq_ok h
    exact .inl ⟨p.1, rfl⟩
  · split at h
    · cases levels with
      | zero => cases h
      | succ n =>
        obtain ⟨p, hp, rfl⟩ := map_eq_ok h
        exact .inr (.inl ⟨n, p, rfl, hp, rfl⟩)
    · split at h
      · cases levels with
        | zero => cases h
        | succ n =>
          obtain ⟨p, hp, rfl⟩ := map_eq_ok h
          exact .inr (.inr (.inl ⟨n, p, rfl, hp, rfl⟩))
      · exact .inr (.inr (.inr h))

theorem sound_of_readValue {levels : Nat} {t : Text} {r : Json × Text} (h : readValue levels t = .ok r) :
    r.1.Sound := by
  induction levels using Nat.strongRecOn generalizing t r with
  | ind levels ih =>
    obtain ⟨c, t, rfl, -⟩ := starts_of_readValue h
    rcases readValue_cases h with ⟨s, hs⟩ | ⟨n, p, rfl, hp, rfl⟩ | ⟨n, p, rfl, hp, rfl⟩ | h
    · exact hs ▸ .string s
    · refine .array ?_
      rcases eq_or_of_readInside hp with hp | ⟨fuel, t, hp⟩
      · exact hp ▸ nofun
      · exact forall_of_readItems (fun t r hr => ih n (Nat.lt_succ_self n) hr) hp
    · refine sound_ofMembers ?_
      rcases eq_or_of_readInside hp with hp | ⟨fuel, t, hp⟩
      · exact hp ▸ nofun
      · exact forall_of_readMembers (fun t r hr => ih n (Nat.lt_succ_self n) hr) hp
    · exact sound_of_readScalar h

theorem readValue_of_parse {t : Text} {document : Json} (h : parse t = .ok document) :
    ∃ rest, readValue maxRecursion (skipSpace t) = .ok (document, rest) := by
  have hread : readDocument t = .ok document := by
    rw [parse] at h
    cases hd : readDocument t with
    | error e =>
      rw [hd] at h
      cases h
    | ok d =>
      rw [hd] at h
      obtain rfl : d = document := Except.ok.inj h
      rfl
  rw [readDocument] at hread
  split at hread
  · obtain ⟨_, hthrow, -⟩ := bind_eq_ok hread
    cases hthrow
  · obtain ⟨⟨value, rest⟩, hvalue, hread⟩ := bind_eq_ok hread
    dsimp only at hread
    split at hread
    · cases hread
      exact ⟨rest, hvalue⟩
    · cases hread

theorem sound_of_parse {t : Text} {document : Json} (h : parse t = .ok document) : document.Sound := by
  obtain ⟨rest, hread⟩ := readValue_of_parse h
  exact sound_of_readValue hread

/-! Levels of brackets -/

theorem depth_of_readNumber {t : Text} {r : Json × Text} (h : readNumber t = .ok r) : r.1.depth = 0 := by
  simp only [readNumber] at h
  split at h
  · cases h
  · split at h
    · split at h
      · cases h
      · cases h
        rfl
    · cases h
      rfl

theorem depth_of_readScalar {t : Text} {r : Json × Text} (h : readScalar t = .ok r) : r.1.depth = 0 := by
  rw [readScalar] at h
  split at h
  · rename_i word value hfind
    cases h
    have hflat : ∀ m ∈ literals, m.2.depth = 0 := by decide
    exact hflat _ (List.mem_of_find?_eq_some hfind)
  · exact depth_of_readNumber h

theorem depthOfItems_le {items : List Json} {n : Nat} (h : ∀ item ∈ items, item.depth ≤ n) :
    depthOfItems items ≤ n := by
  induction items with
  | nil => exact Nat.zero_le n
  | cons item items ih =>
    rw [List.forall_mem_cons] at h
    exact Nat.max_le.mpr ⟨h.1, ih h.2⟩

theorem depthOfMembers_le {members : List (Text × Json)} {n : Nat} (h : ∀ m ∈ members, m.2.depth ≤ n) :
    depthOfMembers members ≤ n := by
  induction members with
  | nil => exact Nat.zero_le n
  | cons m members ih =>
    rw [List.forall_mem_cons] at h
    exact Nat.max_le.mpr ⟨h.1, ih h.2⟩

theorem depth_ofMembers_le {members : List (Text × Json)} {n : Nat} (h : ∀ m ∈ members, m.2.depth ≤ n) :
    (ofMembers members).depth ≤ n + 1 := by
  have hfold : ∀ done : List (Text × Json), (∀ m ∈ done, m.2.depth ≤ n) →
      ∀ m ∈ members.foldl (fun done m => insert m.1 m.2 done) done, m.2.depth ≤ n := by
    induction members with
    | nil => exact fun _ hdone => hdone
    | cons first members ih =>
      rw [List.forall_mem_cons] at h
      refine fun done hdone => ih h.2 _ fun m hm => ?_
      rcases eq_or_mem_of_mem_insert hm with hm | hm
      · exact hm ▸ h.1
      · exact hdone m hm
  exact Nat.succ_le_succ (depthOfMembers_le (hfold [] nofun))

/-- What is read with so many levels left has no more of them. -/
theorem depth_le_of_readValue {levels : Nat} {t : Text} {r : Json × Text} (h : readValue levels t = .ok r) :
    r.1.depth ≤ levels := by
  induction levels using Nat.strongRecOn generalizing t r with
  | ind levels ih =>
    obtain ⟨c, t, rfl, -⟩ := starts_of_readValue h
    rcases readValue_cases h with ⟨s, hs⟩ | ⟨n, p, rfl, hp, rfl⟩ | ⟨n, p, rfl, hp, rfl⟩ | h
    · exact hs ▸ Nat.zero_le levels
    · refine Nat.succ_le_succ (depthOfItems_le ?_)
      rcases eq_or_of_readInside hp with hp | ⟨fuel, t, hp⟩
      · exact hp ▸ nofun
      · exact forall_of_readItems (P := (·.depth ≤ n)) (fun t r hr => ih n (Nat.lt_succ_self n) hr) hp
    · refine depth_ofMembers_le ?_
      rcases eq_or_of_readInside hp with hp | ⟨fuel, t, hp⟩
      · exact hp ▸ nofun
      · exact forall_of_readMembers (P := (·.depth ≤ n)) (fun t r hr => ih n (Nat.lt_succ_self n) hr) hp
    · exact depth_of_readScalar h ▸ Nat.zero_le levels

theorem depth_le_of_parse {t : Text} {document : Json} (h : parse t = .ok document) :
    document.depth ≤ maxRecursion := by
  obtain ⟨rest, hread⟩ := readValue_of_parse h
  exact depth_le_of_readValue hread

/-! Line ends -/

theorem not_mem_digitText {digits : List Nat} (h : ∀ d ∈ digits, d < 10) : ('\r' : CodePoint) ∉ digitText digits :=
  fun hc => absurd (isAsciiDigit_of_mem h _ hc) (by decide)

theorem not_mem_signText (negative : Bool) : ('\r' : CodePoint) ∉ signText negative := by
  cases negative <;> decide

theorem not_mem_text {s : Spelling} (hs : s.Regular) : ('\r' : CodePoint) ∉ s.text := by
  rw [Spelling.text, List.mem_append, List.mem_append, not_or, not_or]
  refine ⟨not_mem_digitText hs.whole, ?_, ?_⟩
  · rw [Spelling.fractionText]
    split
    · exact List.not_mem_nil
    · exact List.not_mem_cons_of_ne_of_not_mem (by decide) (not_mem_digitText hs.fraction)
  · cases hexponent : s.exponent with
    | none => exact List.not_mem_nil
    | some p =>
      obtain ⟨negative, digits⟩ := p
      have hdigits := not_mem_digitText (hs.exponent negative digits hexponent).2
      refine List.not_mem_cons_of_ne_of_not_mem (by decide) (List.not_mem_cons_of_ne_of_not_mem ?_ hdigits)
      cases negative <;> decide

theorem not_mem_writeNumber (x : Binary64) : ('\r' : CodePoint) ∉ writeNumber x := by
  cases x with
  | nan => decide
  | infinite negative => cases negative <;> decide
  | finite negative units hfits =>
    obtain ⟨s, hs, htext, -⟩ := Binary64.spelled_render negative hfits
    have hwrite : writeNumber (.finite negative units hfits) = signText negative ++ s.text := htext
    rw [hwrite, List.mem_append, not_or]
    exact ⟨not_mem_signText negative, not_mem_text hs⟩

theorem Escaped.not_mem {c : CodePoint} {t : Text} (h : Escaped c t) : ('\r' : CodePoint) ∉ t := by
  cases h with
  | simple he h =>
    rename_i e
    have hletter : ('\r' : CodePoint) ≠ e := by
      rintro rfl
      cases h
    exact List.not_mem_cons_of_ne_of_not_mem (by decide) (fun hr => hletter (List.mem_singleton.mp hr))
  | unicode h =>
    have hall : ∀ n < 0x20, ('\r' : CodePoint) ∉ unicodeEscape n := by decide
    exact hall _ h
  | plain hquote hescape hcontrol =>
    intro hr
    obtain rfl := List.mem_singleton.mp hr
    exact hcontrol (by decide)

theorem not_mem_writeString {style : Style} (hstyle : style.asciiOnly = false) (t : Text) :
    ('\r' : CodePoint) ∉ writeString style t := by
  have hinside : ('\r' : CodePoint) ∉ t.flatMap (escapePoint style) := fun h => by
    obtain ⟨c, -, hc⟩ := List.mem_flatMap.mp h
    exact (escaped_escapePoint hstyle c).not_mem hc
  rw [writeString, List.mem_append, not_or]
  exact ⟨List.not_mem_cons_of_ne_of_not_mem (by decide) hinside, by decide⟩

theorem not_mem_lineBreak (style : Style) (depth : Nat) : ('\r' : CodePoint) ∉ lineBreak style depth := by
  rw [lineBreak]
  split
  · exact List.not_mem_cons_of_ne_of_not_mem (by decide) fun h => absurd (List.mem_replicate.mp h).2 (by decide)
  · exact List.not_mem_nil

theorem not_mem_colon (style : Style) : ('\r' : CodePoint) ∉ colon style := by
  rw [colon]
  split <;> decide

section Inside

variable {style : Style} {depth : Nat}

theorem not_mem_writeItems {items : List Json} (h : ∀ item ∈ items, ('\r' : CodePoint) ∉ write style depth item) :
    ('\r' : CodePoint) ∉ writeItems style depth items := by
  induction items with
  | nil => exact List.not_mem_nil
  | cons item items ih =>
    obtain ⟨hitem, hitems⟩ := List.forall_mem_cons.mp h
    rw [← List.append_nil (writeItems _ _ _), writeItems_cons]
    simp only [List.mem_cons, List.mem_append, not_or, List.append_nil]
    exact ⟨by decide, not_mem_lineBreak style depth, hitem, ih hitems⟩

theorem not_mem_writeMembers (hstyle : style.asciiOnly = false) {members : List (Text × Json)}
    (h : ∀ m ∈ members, ('\r' : CodePoint) ∉ write style depth m.2) :
    ('\r' : CodePoint) ∉ writeMembers style depth members := by
  induction members with
  | nil => exact List.not_mem_nil
  | cons m members ih =>
    obtain ⟨name, value⟩ := m
    obtain ⟨hvalue, hmembers⟩ := List.forall_mem_cons.mp h
    rw [← List.append_nil (writeMembers _ _ _), writeMembers_cons]
    simp only [List.mem_cons, List.mem_append, not_or, List.append_nil]
    exact ⟨by decide, not_mem_lineBreak style depth, not_mem_writeString hstyle name, not_mem_colon style, hvalue,
      ih hmembers⟩

theorem not_mem_write_array {items : List Json}
    (h : ∀ item ∈ items, ('\r' : CodePoint) ∉ write style (depth + 1) item) :
    ('\r' : CodePoint) ∉ write style depth (.array items) := by
  cases items with
  | nil =>
    rw [write]
    decide
  | cons item items =>
    obtain ⟨hitem, hitems⟩ := List.forall_mem_cons.mp h
    rw [← List.append_nil (write _ _ _), write_array]
    simp only [List.mem_cons, List.mem_append, not_or]
    exact ⟨by decide, not_mem_lineBreak _ _, hitem, not_mem_writeItems hitems, not_mem_lineBreak _ _, by decide,
      List.not_mem_nil⟩

theorem not_mem_write_object (hstyle : style.asciiOnly = false) {members : List (Text × Json)}
    (h : ∀ m ∈ members, ('\r' : CodePoint) ∉ write style (depth + 1) m.2) :
    ('\r' : CodePoint) ∉ write style depth (.object members) := by
  cases members with
  | nil =>
    rw [write]
    decide
  | cons m members =>
    obtain ⟨name, value⟩ := m
    obtain ⟨hvalue, hmembers⟩ := List.forall_mem_cons.mp h
    rw [← List.append_nil (write _ _ _), write_object]
    simp only [List.mem_cons, List.mem_append, not_or]
    exact ⟨by decide, not_mem_lineBreak _ _, not_mem_writeString hstyle name, not_mem_colon style, hvalue,
      not_mem_writeMembers hstyle hmembers, not_mem_lineBreak _ _, by decide, List.not_mem_nil⟩

end Inside

theorem not_mem_write {style : Style} (hstyle : style.asciiOnly = false) {document : Json} (hsound : document.Sound)
    (depth : Nat) : ('\r' : CodePoint) ∉ write style depth document := by
  induction hsound generalizing depth with
  | null =>
    rw [write]
    decide
  | bool value => cases value <;> rw [write] <;> decide
  | integer h =>
    rw [write, ofString_toString, List.mem_append, not_or]
    exact ⟨not_mem_signText _, not_mem_digitText (lt_ten_of_mem_decimalDigits _)⟩
  | number x =>
    rw [write]
    exact not_mem_writeNumber x
  | string t =>
    rw [write]
    exact not_mem_writeString hstyle t
  | array h ih => exact not_mem_write_array fun item hitem => ih item hitem (depth + 1)
  | object hnames h ih => exact not_mem_write_object hstyle fun m hm => ih m hm (depth + 1)

/-- A document comes back through a file, whatever is done to line ends. -/
theorem parse_normalizeNewlines_render {style : Style} (hstyle : style.asciiOnly = false) {document : Json}
    (hsound : document.Sound) (hdepth : document.depth ≤ maxRecursion) :
    parse (document.render style).normalizeNewlines = .ok document := by
  rw [render, Text.normalizeNewlines_of_not_mem (not_mem_write hstyle hsound 0)]
  exact parse_render hstyle hsound hdepth

end SigilScript.Json
