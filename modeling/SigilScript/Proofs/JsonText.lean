import SigilScript.Proofs.JsonScalar

/-!
Documents as texts. A document that is sound, in that no integer has too many digits and no object two members
of one name, is read back from the text that it is written to, on one line or on many.
-/
namespace SigilScript.Json

/-! Sound documents -/

/-- Integers can be converted, and the names of an object are different. -/
inductive Sound : Json → Prop
  | null : Sound .null
  | bool (value : Bool) : Sound (.bool value)
  | integer {n : Int} (h : (decimalDigits n.natAbs).length ≤ IntegerNumeral.maxDigits) : Sound (.integer n)
  | number (x : Binary64) : Sound (.number x)
  | string (t : Text) : Sound (.string t)
  | array {items : List Json} (h : ∀ item ∈ items, Sound item) : Sound (.array items)
  | object {members : List (Text × Json)} (hnames : (members.map Prod.fst).Nodup)
      (h : ∀ m ∈ members, Sound m.2) : Sound (.object members)

theorem depth_le_of_mem_items {items : List Json} {item : Json} (h : item ∈ items) :
    item.depth ≤ depthOfItems items := by
  induction items with
  | nil => cases h
  | cons first items ih =>
    rw [depthOfItems]
    rcases List.mem_cons.mp h with rfl | h
    · exact Nat.le_max_left _ _
    · exact Nat.le_trans (ih h) (Nat.le_max_right _ _)

theorem depth_le_of_mem_members {members : List (Text × Json)} {m : Text × Json} (h : m ∈ members) :
    m.2.depth ≤ depthOfMembers members := by
  induction members with
  | nil => cases h
  | cons first members ih =>
    obtain ⟨name, value⟩ := first
    rw [depthOfMembers]
    rcases List.mem_cons.mp h with rfl | h
    · exact Nat.le_max_left _ _
    · exact Nat.le_trans (ih h) (Nat.le_max_right _ _)

/-! Scalars -/

theorem readValue_scalar (levels : Nat) {c : CodePoint} (hquote : c ≠ '"') (hbracket : c ≠ '[') (hbrace : c ≠ '{')
    (rest : Text) : readValue levels (c :: rest) = readScalar (c :: rest) := by
  rw [readValue.eq_def]
  dsimp only
  rw [if_neg hquote, if_neg hbracket, if_neg hbrace]

theorem head_of_isPrefixOf {word t : Text} {c : CodePoint} (hne : word ≠ []) (h : word.isPrefixOf (c :: t)) :
    word.head? = some c ∧ word.tail.isPrefixOf t := by
  cases word with
  | nil => exact absurd rfl hne
  | cons d word =>
    rw [List.isPrefixOf, Bool.and_eq_true] at h
    exact ⟨congrArg some (eq_of_beq h.1), h.2⟩

/-- No word for a value has a digit at its start, or after a minus there. -/
theorem literals_letters : ∀ word ∈ literals.map Prod.fst, word ≠ [] ∧ word.tail ≠ [] ∧
    word.head?.all (!·.isAsciiDigit) ∧
    (word.head? = some ('-' : CodePoint) → word.tail.head?.all (!·.isAsciiDigit)) := by
  decide

theorem readScalar_digit (negative : Bool) {c : CodePoint} (hc : c.isAsciiDigit) (rest : Text) :
    readScalar (signText negative ++ c :: rest) = readNumber (signText negative ++ c :: rest) := by
  unfold readScalar
  split
  · rename_i word value hfind
    have hmem : word ∈ literals.map Prod.fst := List.mem_map_of_mem (List.mem_of_find?_eq_some hfind)
    obtain ⟨hne, htail, hfirst, hsecond⟩ := literals_letters word hmem
    have hprefix := List.find?_some hfind
    dsimp only at hprefix
    cases negative with
    | false =>
      obtain ⟨hhead, -⟩ := head_of_isPrefixOf hne hprefix
      simp [hhead, hc] at hfirst
    | true =>
      obtain ⟨hhead, hmore⟩ := head_of_isPrefixOf hne hprefix
      obtain ⟨hnext, -⟩ := head_of_isPrefixOf htail hmore
      simp [hnext, hc] at hsecond
      exact absurd hhead hsecond
  · rfl

/-- The first code point of a number is a digit, but for a minus. -/
theorem readValue_digits (levels : Nat) (negative : Bool) {digits : List Nat} (h : ∀ d ∈ digits, d < 10)
    (hfirst : digits = [0] ∨ ∃ d ds, digits = d :: ds ∧ d ≠ 0) (rest : Text) :
    readValue levels (signText negative ++ (digitText digits ++ rest)) =
      readNumber (signText negative ++ (digitText digits ++ rest)) := by
  obtain ⟨c, more, hcons, hc⟩ : ∃ c more, digitText digits ++ rest = c :: more ∧ c.isAsciiDigit := by
    obtain ⟨d, ds, rfl⟩ : ∃ d ds, digits = d :: ds := by
      rcases hfirst with rfl | ⟨d, ds, rfl, -⟩
      · exact ⟨0, [], rfl⟩
      · exact ⟨d, ds, rfl⟩
    exact ⟨_, _, rfl, isAsciiDigit_of_mem h _ List.mem_cons_self⟩
  rw [hcons, ← readScalar_digit negative hc]
  have hne (d : CodePoint) (hd : d.isAsciiDigit = false) : c ≠ d := fun he => by
    rw [he, hd] at hc
    cases hc
  cases negative with
  | false => exact readValue_scalar levels (hne _ (by decide)) (hne _ (by decide)) (hne _ (by decide)) _
  | true => exact readValue_scalar levels (by decide) (by decide) (by decide) _

theorem readValue_integer (levels : Nat) {n : Int} (h : (decimalDigits n.natAbs).length ≤ IntegerNumeral.maxDigits)
    {rest : Text} (hrest : Stops rest) :
    readValue levels (Text.ofString (toString n) ++ rest) = .ok (.integer n, rest) := by
  have hten := lt_ten_of_mem_decimalDigits n.natAbs
  have hfirst : decimalDigits n.natAbs = [0] ∨ ∃ d ds, decimalDigits n.natAbs = d :: ds ∧ d ≠ 0 := by
    by_cases hzero : n.natAbs = 0
    · exact .inl (by rw [hzero]; rfl)
    · exact .inr (head_decimalDigits (Nat.pos_of_ne_zero hzero))
  have hvalue : IntegerNumeral.value ⟨n < 0, decimalDigits n.natAbs⟩ = n := by
    simp only [IntegerNumeral.value, ofDigits_decimalDigits, decide_eq_true_eq]
    split <;> omega
  rw [ofString_toString, List.append_assoc, readValue_digits levels _ hten hfirst,
    readNumber_digits _ hten hfirst h hrest, hvalue]

theorem readValue_number (levels : Nat) (x : Binary64) {rest : Text} (hrest : Stops rest) :
    readValue levels (writeNumber x ++ rest) = .ok (.number x, rest) := by
  cases x with
  | nan => exact readValue_scalar levels (by decide) (by decide) (by decide) _
  | infinite negative =>
    cases negative <;> exact readValue_scalar levels (by decide) (by decide) (by decide) _
  | finite negative units hfits =>
    obtain ⟨s, hs, htext, hparts, hvalue⟩ := Binary64.spelled_render negative hfits
    have hwrite : writeNumber (.finite negative units hfits) = signText negative ++ s.text := htext
    have hread := readNumber_text negative hs hparts hrest
    rw [Spelling.text, List.append_assoc] at hread
    rw [hwrite, List.append_assoc, Spelling.text, List.append_assoc,
      readValue_digits levels negative hs.whole hs.first, hread, hvalue]

theorem readValue_string (levels : Nat) {style : Style} (hstyle : style.asciiOnly = false) (t rest : Text) :
    readValue levels (writeString style t ++ rest) = .ok (.string t, rest) := by
  rw [writeString, List.append_assoc, List.cons_append, readValue.eq_def]
  dsimp only
  rw [if_pos rfl, List.singleton_append, readString_written _ hstyle]
  rfl

/-! Items and members -/

theorem skipSpace_of_head {c : CodePoint} (h : isSpace c = false) (t : Text) : skipSpace (c :: t) = c :: t := by
  rw [skipSpace, List.dropWhile_cons, h, if_neg Bool.false_ne_true]

theorem skipSpace_lineBreak (style : Style) (depth : Nat) {c : CodePoint} (h : isSpace c = false) (t : Text) :
    skipSpace (lineBreak style depth ++ c :: t) = c :: t := by
  refine dropWhile_run ?_ ?_
  · intro d hd
    rw [lineBreak] at hd
    split at hd
    · rcases List.mem_cons.mp hd with rfl | hd
      · decide
      · rw [(List.mem_replicate.mp hd).2]
        decide
    · cases hd
  · intro d hd
    obtain rfl : c = d := Option.some.inj hd
    exact h

/-- How a value can start: with no space, and with nothing that closes brackets. -/
def Starts (t : Text) : Prop :=
  ∃ c more, t = c :: more ∧ isSpace c = false ∧ c ≠ ']' ∧ c ≠ '}' ∧ c ≠ CodePoint.ofNat 0xfeff

/-- A text that a value can be read from starts with the value. -/
theorem starts_of_readValue {levels : Nat} {t : Text} {r : Json × Text} (h : readValue levels t = .ok r) :
    Starts t := by
  cases t with
  | nil =>
    rw [readValue.eq_def] at h
    cases h
  | cons c t =>
    have hrefused (d : CodePoint) (hquote : d ≠ '"') (hbracket : d ≠ '[') (hbrace : d ≠ '{')
        (hscalar : readScalar (d :: t) = .error (.fault .value (t.length + 1))) : c ≠ d := by
      rintro rfl
      rw [readValue_scalar levels hquote hbracket hbrace, hscalar] at h
      cases h
    have hspace : isSpace c = false := by
      simp only [isSpace, Bool.or_eq_false_iff, decide_eq_false_iff_not]
      exact ⟨⟨⟨hrefused _ (by decide) (by decide) (by decide) rfl, hrefused _ (by decide) (by decide) (by decide) rfl⟩,
        hrefused _ (by decide) (by decide) (by decide) rfl⟩, hrefused _ (by decide) (by decide) (by decide) rfl⟩
    exact ⟨c, t, rfl, hspace, hrefused _ (by decide) (by decide) (by decide) rfl,
      hrefused _ (by decide) (by decide) (by decide) rfl, hrefused _ (by decide) (by decide) (by decide) rfl⟩

theorem Starts.skipSpace_eq {t : Text} (h : Starts t) (style : Style) (depth : Nat) :
    skipSpace (lineBreak style depth ++ t) = t := by
  obtain ⟨c, more, rfl, hspace, -⟩ := h
  exact skipSpace_lineBreak style depth hspace more

section Inside

variable {close : CodePoint} (style : Style) (depth : Nat)

theorem afterItem_close (hspace : isSpace close = false) (rest : Text) :
    afterItem close (lineBreak style depth ++ close :: rest) = .ok (true, rest) := by
  rw [afterItem, skipSpace_lineBreak style depth hspace]
  exact if_pos rfl

theorem afterItem_comma (hclose : close ≠ ',') {t : Text} (ht : Starts t) :
    afterItem close ((',' : CodePoint) :: (lineBreak style depth ++ t)) = .ok (false, t) := by
  rw [afterItem, skipSpace_of_head (by decide)]
  dsimp only
  rw [if_neg hclose.symm, if_pos rfl, ht.skipSpace_eq]

theorem stops_close (hclose : close = ']' ∨ close = '}') (rest : Text) :
    Stops (lineBreak style depth ++ close :: rest) := by
  intro c hc
  rw [lineBreak] at hc
  split at hc
  · exact .inr (.inr (.inr (Option.some.inj hc).symm))
  · obtain rfl : close = c := Option.some.inj hc
    exact hclose.elim (fun h => .inr (.inl h)) fun h => .inr (.inr (.inl h))

theorem stops_comma (t : Text) : Stops ((',' : CodePoint) :: t) := fun _ hc => .inl (Option.some.inj hc).symm

end Inside

/-- A value is read back from its text, and starts it. -/
def ReadsBack (read : Text → Except Refusal (Json × Text)) (style : Style) (depth : Nat) (document : Json) : Prop :=
  ∀ rest, Stops rest → read (write style depth document ++ rest) = .ok (document, rest) ∧
    Starts (write style depth document ++ rest)

theorem writeItems_cons (style : Style) (depth : Nat) (item : Json) (items : List Json) (tail : Text) :
    writeItems style depth (item :: items) ++ tail =
      (',' : CodePoint) :: (lineBreak style depth ++
        (write style depth item ++ (writeItems style depth items ++ tail))) := by
  simp only [writeItems, List.cons_append, List.append_assoc]

theorem writeMembers_cons (style : Style) (depth : Nat) (name : Text) (value : Json) (members : List (Text × Json))
    (tail : Text) : writeMembers style depth ((name, value) :: members) ++ tail =
      (',' : CodePoint) :: (lineBreak style depth ++ (writeString style name ++ (colon style ++
        (write style depth value ++ (writeMembers style depth members ++ tail))))) := by
  simp only [writeMembers, List.cons_append, List.append_assoc]

theorem write_array (style : Style) (depth : Nat) (item : Json) (items : List Json) (rest : Text) :
    write style depth (.array (item :: items)) ++ rest =
      ('[' : CodePoint) :: (lineBreak style (depth + 1) ++ (write style (depth + 1) item ++
        (writeItems style (depth + 1) items ++ (lineBreak style depth ++ (']' : CodePoint) :: rest)))) := by
  simp only [write, List.cons_append, List.append_assoc, List.nil_append]

theorem write_object (style : Style) (depth : Nat) (name : Text) (value : Json) (members : List (Text × Json))
    (rest : Text) : write style depth (.object ((name, value) :: members)) ++ rest =
      ('{' : CodePoint) :: (lineBreak style (depth + 1) ++ (writeString style name ++ (colon style ++
        (write style (depth + 1) value ++ (writeMembers style (depth + 1) members ++
          (lineBreak style depth ++ ('}' : CodePoint) :: rest)))))) := by
  simp only [write, List.cons_append, List.append_assoc, List.nil_append]

theorem stops_items (style : Style) (depth : Nat) (items : List Json) {tail : Text} (h : Stops tail) :
    Stops (writeItems style depth items ++ tail) := by
  cases items with
  | nil => exact h
  | cons item items =>
    rw [writeItems_cons]
    exact stops_comma _

theorem stops_members (style : Style) (depth : Nat) (members : List (Text × Json)) {tail : Text} (h : Stops tail) :
    Stops (writeMembers style depth members ++ tail) := by
  cases members with
  | nil => exact h
  | cons m members =>
    rw [writeMembers_cons]
    exact stops_comma _

theorem readItems_written {read : Text → Except Refusal (Json × Text)} {style : Style} {depth : Nat} (outer : Nat)
    {item : Json} {items : List Json} (h : ∀ i ∈ item :: items, ReadsBack read style depth i) (rest : Text)
    {fuel : Nat} (hfuel : items.length < fuel) :
    readItems read fuel (write style depth item ++ (writeItems style depth items ++
      (lineBreak style outer ++ (']' : CodePoint) :: rest))) = .ok (item :: items, rest) := by
  have htail : Stops (lineBreak style outer ++ (']' : CodePoint) :: rest) := stops_close style outer (.inl rfl) rest
  induction items generalizing item fuel with
  | nil =>
    obtain ⟨fuel, rfl⟩ := Nat.exists_eq_succ_of_ne_zero (Nat.ne_of_gt hfuel)
    have hread := (h item List.mem_cons_self _ htail).1
    have hclose := afterItem_close style outer (by decide : isSpace ']' = false) rest
    rw [writeItems, List.nil_append, readItems, hread]
    simp only [bind, Except.bind, hclose]
    rfl
  | cons next items ih =>
    obtain ⟨fuel, rfl⟩ := Nat.exists_eq_succ_of_ne_zero (Nat.ne_of_gt (Nat.zero_lt_of_lt hfuel))
    have hnext : ∀ i ∈ next :: items, ReadsBack read style depth i := fun i hi => h i (List.mem_cons_of_mem _ hi)
    have hread := (h item List.mem_cons_self _ (stops_items style depth (next :: items) htail)).1
    have hstarts := (hnext next List.mem_cons_self _ (stops_items style depth items htail)).2
    have hcomma := afterItem_comma style depth (by decide : (']' : CodePoint) ≠ ',') hstarts
    rw [readItems, hread]
    simp only [bind, Except.bind, writeItems_cons, hcomma, ih hnext (Nat.lt_of_succ_lt_succ hfuel)]
    rfl

theorem starts_writeString (style : Style) (name t : Text) : Starts (writeString style name ++ t) :=
  ⟨'"', _, rfl, by decide, by decide, by decide, by decide⟩

/-- The name of a member, up to its value. -/
theorem readName_written {style : Style} (hstyle : style.asciiOnly = false) (name : Text) {t : Text} (ht : Starts t) :
    readName (writeString style name ++ (colon style ++ t)) = .ok (name, t) := by
  have hcolon : ∃ after, colon style ++ t = (':' : CodePoint) :: after ∧ skipSpace after = t := by
    obtain ⟨c, more, rfl, hspace, -⟩ := ht
    have hskip := skipSpace_of_head hspace more
    rw [colon]
    split
    · exact ⟨(' ' : CodePoint) :: c :: more, rfl, hskip⟩
    · exact ⟨c :: more, rfl, hskip⟩
  obtain ⟨after, hafter, hskip⟩ := hcolon
  rw [writeString, List.append_assoc, List.cons_append, hafter, List.singleton_append, readName]
  simp only [ne_eq, not_true_eq_false, if_false, bind, Except.bind, readString_written _ hstyle,
    skipSpace_of_head (by decide : isSpace ':' = false), hskip]
  rfl

theorem readMembers_written {read : Text → Except Refusal (Json × Text)} {style : Style}
    (hstyle : style.asciiOnly = false) {depth : Nat} (outer : Nat) {name : Text} {value : Json}
    {members : List (Text × Json)} (h : ∀ m ∈ (name, value) :: members, ReadsBack read style depth m.2) (rest : Text)
    {fuel : Nat} (hfuel : members.length < fuel) :
    readMembers read fuel (writeString style name ++ (colon style ++ (write style depth value ++
      (writeMembers style depth members ++ (lineBreak style outer ++ ('}' : CodePoint) :: rest))))) =
      .ok ((name, value) :: members, rest) := by
  have htail : Stops (lineBreak style outer ++ ('}' : CodePoint) :: rest) := stops_close style outer (.inr rfl) rest
  induction members generalizing name value fuel with
  | nil =>
    obtain ⟨fuel, rfl⟩ := Nat.exists_eq_succ_of_ne_zero (Nat.ne_of_gt hfuel)
    obtain ⟨hread, hstarts⟩ := h (name, value) List.mem_cons_self _ htail
    have hclose := afterItem_close style outer (by decide : isSpace '}' = false) rest
    rw [writeMembers, List.nil_append, readMembers, readName_written hstyle name hstarts]
    simp only [bind, Except.bind, hread, hclose]
    rfl
  | cons next members ih =>
    obtain ⟨fuel, rfl⟩ := Nat.exists_eq_succ_of_ne_zero (Nat.ne_of_gt (Nat.zero_lt_of_lt hfuel))
    obtain ⟨nextName, nextValue⟩ := next
    have hnext : ∀ m ∈ (nextName, nextValue) :: members, ReadsBack read style depth m.2 := fun m hm =>
      h m (List.mem_cons_of_mem _ hm)
    obtain ⟨hread, hstarts⟩ := h (name, value) List.mem_cons_self _
      (stops_members style depth ((nextName, nextValue) :: members) htail)
    have hcomma (t : Text) := afterItem_comma style depth (by decide : ('}' : CodePoint) ≠ ',')
      (starts_writeString style nextName t)
    rw [readMembers, readName_written hstyle name hstarts]
    simp only [bind, Except.bind, hread]
    rw [writeMembers_cons, hcomma]
    simp only [ih hnext (Nat.lt_of_succ_lt_succ hfuel)]
    rfl

theorem length_le_writeItems (style : Style) (depth : Nat) (items : List Json) :
    items.length ≤ (writeItems style depth items).length := by
  induction items with
  | nil => exact Nat.zero_le _
  | cons item items ih =>
    simp only [writeItems, List.length_append, List.length_cons]
    omega

theorem length_le_writeMembers (style : Style) (depth : Nat) (members : List (Text × Json)) :
    members.length ≤ (writeMembers style depth members).length := by
  induction members with
  | nil => exact Nat.zero_le _
  | cons m members ih =>
    obtain ⟨name, value⟩ := m
    simp only [writeMembers, List.length_append, List.length_cons]
    omega

theorem readInside_written {α : Type} {close : CodePoint} (hclose : close = ']' ∨ close = '}') (none : α)
    (read : Nat → Text → Except Refusal (α × Text)) (style : Style) (depth : Nat) {t : Text} (ht : Starts t) :
    readInside close none read (lineBreak style depth ++ t) = read (t.length + 1) t := by
  rw [readInside, ht.skipSpace_eq]
  obtain ⟨c, more, rfl, -, hbracket, hbrace, -⟩ := ht
  exact if_neg fun hc => hclose.elim (fun h => hbracket (hc.trans h)) fun h => hbrace (hc.trans h)

/-! Documents -/

theorem insert_of_not_mem {name : Text} {value : Json} {members : List (Text × Json)}
    (h : name ∉ members.map Prod.fst) : insert name value members = members ++ [(name, value)] := by
  induction members with
  | nil => rfl
  | cons m members ih =>
    obtain ⟨n, v⟩ := m
    rw [List.map_cons, List.mem_cons, not_or] at h
    rw [insert, if_neg (Ne.symm h.1), ih h.2, List.cons_append]

theorem foldl_insert_of_nodup {done members : List (Text × Json)} (h : ((done ++ members).map Prod.fst).Nodup) :
    members.foldl (fun done m => insert m.1 m.2 done) done = done ++ members := by
  induction members generalizing done with
  | nil => rw [List.foldl_nil, List.append_nil]
  | cons m members ih =>
    have hnew : m.1 ∉ done.map Prod.fst := by
      rw [List.map_append, List.nodup_append] at h
      exact fun hm => h.2.2 m.1 hm m.1 List.mem_cons_self rfl
    rw [List.foldl_cons, insert_of_not_mem hnew, ih (by rwa [List.append_assoc]), List.append_assoc]
    rfl

theorem ofMembers_of_nodup {members : List (Text × Json)} (h : (members.map Prod.fst).Nodup) :
    ofMembers members = .object members :=
  congrArg Json.object (@foldl_insert_of_nodup [] members h)

theorem readsBack_of_readValue {levels : Nat} {style : Style} {depth : Nat} {document : Json}
    (h : ∀ rest, Stops rest → readValue levels (write style depth document ++ rest) = .ok (document, rest)) :
    ReadsBack (readValue levels) style depth document := fun rest hrest =>
  ⟨h rest hrest, starts_of_readValue (h rest hrest)⟩

theorem readsBack_scalar (levels : Nat) {style : Style} (hstyle : style.asciiOnly = false) (depth : Nat)
    {document : Json} (hsound : document.Sound) (hscalar : document.isContainer = false) :
    ReadsBack (readValue levels) style depth document := by
  refine readsBack_of_readValue fun rest hrest => ?_
  cases hsound with
  | null =>
    rw [write]
    exact readValue_scalar levels (by decide) (by decide) (by decide) _
  | bool value =>
    cases value <;> rw [write] <;> exact readValue_scalar levels (by decide) (by decide) (by decide) _
  | integer h =>
    rw [write]
    exact readValue_integer levels h hrest
  | number x =>
    rw [write]
    exact readValue_number levels x hrest
  | string t =>
    rw [write]
    exact readValue_string levels hstyle t rest
  | array h => cases hscalar
  | object hnames h => cases hscalar

theorem readValue_bracket (levels : Nat) (t : Text) : readValue (levels + 1) (('[' : CodePoint) :: t) =
    (readInside ']' [] (readItems (readValue levels)) t).map fun p => (.array p.1, p.2) := by
  rw [readValue.eq_def]
  dsimp only
  rw [if_neg (by decide), if_pos rfl]

theorem readValue_brace (levels : Nat) (t : Text) : readValue (levels + 1) (('{' : CodePoint) :: t) =
    (readInside '}' [] (readMembers (readValue levels)) t).map fun p => (ofMembers p.1, p.2) := by
  rw [readValue.eq_def]
  dsimp only
  rw [if_neg (by decide), if_neg (by decide), if_pos rfl]

theorem readsBack_array {levels : Nat} {style : Style} {depth : Nat} {items : List Json}
    (h : ∀ item ∈ items, ReadsBack (readValue levels) style (depth + 1) item) :
    ReadsBack (readValue (levels + 1)) style depth (.array items) := by
  refine readsBack_of_readValue fun rest hrest => ?_
  cases items with
  | nil =>
    rw [write]
    exact readValue_bracket levels ((']' : CodePoint) :: rest)
  | cons item items =>
    have htail : Stops (lineBreak style depth ++ (']' : CodePoint) :: rest) := stops_close style depth (.inl rfl) rest
    have hstarts := (h item List.mem_cons_self _ (stops_items style (depth + 1) items htail)).2
    have hfuel := length_le_writeItems style (depth + 1) items
    rw [write_array, readValue_bracket, readInside_written (.inl rfl) _ _ _ _ hstarts,
      readItems_written depth h rest (by simp only [List.length_append]; omega)]
    rfl

theorem readsBack_object {levels : Nat} {style : Style} (hstyle : style.asciiOnly = false) {depth : Nat}
    {members : List (Text × Json)} (hnames : (members.map Prod.fst).Nodup)
    (h : ∀ m ∈ members, ReadsBack (readValue levels) style (depth + 1) m.2) :
    ReadsBack (readValue (levels + 1)) style depth (.object members) := by
  refine readsBack_of_readValue fun rest hrest => ?_
  cases members with
  | nil =>
    rw [write]
    exact readValue_brace levels (('}' : CodePoint) :: rest)
  | cons m members =>
    obtain ⟨name, value⟩ := m
    have hfuel := length_le_writeMembers style (depth + 1) members
    rw [write_object, readValue_brace, readInside_written (.inr rfl) _ _ _ _ (starts_writeString style name _),
      readMembers_written hstyle depth h rest (by simp only [List.length_append]; omega), Except.map,
      ofMembers_of_nodup hnames]

/-- A document is read back from its text, if the reader goes down as many levels as it has. -/
theorem readValue_write {style : Style} (hstyle : style.asciiOnly = false) {levels : Nat} {document : Json}
    (hsound : document.Sound) (hdepth : document.depth ≤ levels) (depth : Nat) :
    ReadsBack (readValue levels) style depth document := by
  induction levels generalizing document depth with
  | zero =>
    refine readsBack_scalar 0 hstyle depth hsound ?_
    cases document with
    | array items => exact absurd hdepth (Nat.not_succ_le_zero _)
    | object members => exact absurd hdepth (Nat.not_succ_le_zero _)
    | _ => rfl
  | succ levels ih =>
    by_cases hscalar : document.isContainer = false
    · exact readsBack_scalar _ hstyle depth hsound hscalar
    cases hsound with
    | array h =>
      rw [Json.depth] at hdepth
      exact readsBack_array fun item hitem =>
        ih (h item hitem) (Nat.le_trans (depth_le_of_mem_items hitem) (Nat.le_of_succ_le_succ hdepth)) (depth + 1)
    | object hnames h =>
      rw [Json.depth] at hdepth
      exact readsBack_object hstyle hnames fun m hm =>
        ih (h m hm) (Nat.le_trans (depth_le_of_mem_members hm) (Nat.le_of_succ_le_succ hdepth)) (depth + 1)
    | _ => exact absurd rfl hscalar

/-- Reading undoes writing. -/
theorem parse_render {style : Style} (hstyle : style.asciiOnly = false) {document : Json} (hsound : document.Sound)
    (hdepth : document.depth ≤ maxRecursion) : parse (document.render style) = .ok document := by
  obtain ⟨hread, hstarts⟩ := readValue_write hstyle hsound hdepth 0 [] nofun
  rw [List.append_nil] at hread hstarts
  obtain ⟨c, more, hcons, hspace, -, -, hmark⟩ := hstarts
  rw [hcons] at hread
  have hhead : ¬(c :: more).head? = some (CodePoint.ofNat 0xfeff) := fun h => hmark (Option.some.inj h)
  have hdocument : readDocument (c :: more) = .ok document := by
    rw [readDocument, if_neg hhead, skipSpace_of_head hspace, hread]
    rfl
  rw [render, hcons, parse, hdocument]
  rfl

end SigilScript.Json
