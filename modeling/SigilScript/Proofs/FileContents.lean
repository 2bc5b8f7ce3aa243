import SigilScript.Proofs.Refusal

/-!
Files give back what was written to them. The bytes of a text decode to the text; and a path that a file
was written to leads to this file, since on the way to it only directories are passed, which the new file
does not replace.
-/
namespace SigilScript

namespace Utf8

/-! Bytes of a text -/

theorem toNat_toUInt8 {n : Nat} (h : n < 256) : n.toUInt8.toNat = n := by
  simp [Nat.toUInt8, Nat.mod_eq_of_lt h]

theorem follow_succ {k low high bits : Nat} {b : UInt8} {rest : List UInt8} {r : Nat × List UInt8}
    (hlow : low ≤ b.toNat) (hhigh : b.toNat ≤ high)
    (h : follow k 0x80 0xbf (bits * 64 + (b.toNat - 0x80)) rest = .ok r) :
    follow (k + 1) low high bits (b :: rest) = .ok r := by
  rw [follow, if_pos ⟨hlow, hhigh⟩, h]

theorem ofNat_val (c : CodePoint) : CodePoint.ofNat c.val = c := dif_pos c.val_lt

theorem decodeFrom_lead {b : UInt8} {rest rest' : List UInt8} {lead : Lead} {c : CodePoint}
    (hb : 0x80 ≤ b.toNat) (hlead : Lead.of? b = some lead)
    (hfollow : follow lead.following lead.low lead.high lead.bits rest = .ok (c.val, rest')) (position : Nat) :
    decodeFrom position (b :: rest) =
      (decodeFrom (position + 1 + lead.following) rest').map (c :: ·) := by
  rw [decodeFrom, if_neg (by omega)]
  split
  · rename_i hnone
    rw [hlead] at hnone
    cases hnone
  · rename_i lead' hlead'
    rw [hlead] at hlead'
    cases hlead'
    split
    · rename_i herror
      rw [hfollow] at herror
      cases herror
    · rename_i point rest'' hok
      rw [hfollow] at hok
      cases hok
      rw [ofNat_val]

/-- What the first of two bytes promises. -/
theorem lead_two {n : Nat} (hlow : 0x80 ≤ n) (hhigh : n < 0x800) :
    Lead.of? (0xc0 + n / 64).toUInt8 = some ⟨1, 0x80, 0xbf, n / 64⟩ := by
  have hbyte : (0xc0 + n / 64).toUInt8.toNat = 0xc0 + n / 64 := toNat_toUInt8 (by omega)
  simp only [Lead.of?, hbyte]
  rw [if_neg (by omega), if_pos (by omega), Nat.add_sub_cancel_left]

/-- What the first of three bytes promises: the shortest form, and no surrogate. -/
theorem lead_three {n : Nat} (hlow : 0x800 ≤ n) (hhigh : n < 0x10000) (hs : n < 0xd800 ∨ 0xdfff < n) :
    ∃ low high, Lead.of? (0xe0 + n / 4096).toUInt8 = some ⟨2, low, high, n / 4096⟩ ∧
      low ≤ 0x80 + n / 64 % 64 ∧ 0x80 + n / 64 % 64 ≤ high := by
  have hbyte : (0xe0 + n / 4096).toUInt8.toNat = 0xe0 + n / 4096 := toNat_toUInt8 (by omega)
  simp only [Lead.of?, hbyte]
  rw [if_neg (by omega), if_neg (by omega)]
  by_cases hfirst : n / 4096 = 0
  · exact ⟨0xa0, 0xbf, by simp [hfirst], by omega, by omega⟩
  · by_cases hlast : n / 4096 = 13
    · exact ⟨0x80, 0x9f, by simp [hlast], by omega, by omega⟩
    · refine ⟨0x80, 0xbf, ?_, by omega, by omega⟩
      rw [if_neg (by omega), if_neg (by omega), if_pos (by omega), Nat.add_sub_cancel_left]

/-- What the first of four bytes promises: the shortest form, up to the last code point. -/
theorem lead_four {n : Nat} (hlow : 0x10000 ≤ n) (hhigh : n < 0x110000) :
    ∃ low high, Lead.of? (0xf0 + n / 262144).toUInt8 = some ⟨3, low, high, n / 262144⟩ ∧
      low ≤ 0x80 + n / 4096 % 64 ∧ 0x80 + n / 4096 % 64 ≤ high := by
  have hbyte : (0xf0 + n / 262144).toUInt8.toNat = 0xf0 + n / 262144 := toNat_toUInt8 (by omega)
  simp only [Lead.of?, hbyte]
  rw [if_neg (by omega), if_neg (by omega), if_neg (by omega), if_neg (by omega), if_neg (by omega)]
  by_cases hfirst : n / 262144 = 0
  · exact ⟨0x90, 0xbf, by simp [hfirst], by omega, by omega⟩
  · by_cases hlast : n / 262144 = 4
    · exact ⟨0x80, 0x8f, by simp [hlast], by omega, by omega⟩
    · refine ⟨0x80, 0xbf, ?_, by omega, by omega⟩
      rw [if_neg (by omega), if_pos (by omega), Nat.add_sub_cancel_left]

theorem decodeFrom_encodePoint {c : CodePoint} (hc : c.isSurrogate = false) (position : Nat)
    (rest : List UInt8) :
    ∃ next, decodeFrom position (encodePoint c ++ rest) = (decodeFrom next rest).map (c :: ·) := by
  have hs : c.val < 0xd800 ∨ 0xdfff < c.val := by
    simp only [CodePoint.isSurrogate, Bool.and_eq_false_iff, decide_eq_false_iff_not] at hc
    omega
  have hlt : c.val < 0x110000 := c.val_lt
  have hlast : (0x80 + c.val % 64).toUInt8.toNat = 0x80 + c.val % 64 := toNat_toUInt8 (by omega)
  have hthird : (0x80 + c.val / 64 % 64).toUInt8.toNat = 0x80 + c.val / 64 % 64 := toNat_toUInt8 (by omega)
  have hsecond : (0x80 + c.val / 4096 % 64).toUInt8.toNat = 0x80 + c.val / 4096 % 64 :=
    toNat_toUInt8 (by omega)
  simp only [encodePoint]
  split
  · have hone : c.val.toUInt8.toNat = c.val := toNat_toUInt8 (by omega)
    exact ⟨position + 1, by rw [List.singleton_append, decodeFrom, if_pos (by omega), hone, ofNat_val]⟩
  · split
    · rename_i h1 h2
      have hfirst : (0xc0 + c.val / 64).toUInt8.toNat = 0xc0 + c.val / 64 := toNat_toUInt8 (by omega)
      have hpoint : c.val / 64 * 64 + c.val % 64 = c.val := by omega
      refine ⟨_, decodeFrom_lead (by omega) (lead_two (by omega) h2) ?_ position⟩
      dsimp only
      apply follow_succ (by omega) (by omega)
      rw [hlast, Nat.add_sub_cancel_left, hpoint]
      rfl
    · split
      · rename_i h1 h2 h3
        have hfirst : (0xe0 + c.val / 4096).toUInt8.toNat = 0xe0 + c.val / 4096 := toNat_toUInt8 (by omega)
        have hpoint : (c.val / 4096 * 64 + c.val / 64 % 64) * 64 + c.val % 64 = c.val := by omega
        obtain ⟨low, high, hlead, hlow, hhigh⟩ := lead_three (by omega) h3 hs
        refine ⟨_, decodeFrom_lead (by omega) hlead ?_ position⟩
        dsimp only
        apply follow_succ (by omega) (by omega)
        rw [hthird, Nat.add_sub_cancel_left]
        apply follow_succ (by omega) (by omega)
        rw [hlast, Nat.add_sub_cancel_left, hpoint]
        rfl
      · have hfirst : (0xf0 + c.val / 262144).toUInt8.toNat = 0xf0 + c.val / 262144 := toNat_toUInt8 (by omega)
        have hpoint : ((c.val / 262144 * 64 + c.val / 4096 % 64) * 64 + c.val / 64 % 64) * 64 + c.val % 64 =
            c.val := by omega
        obtain ⟨low, high, hlead, hlow, hhigh⟩ := lead_four (by omega) hlt
        refine ⟨_, decodeFrom_lead (by omega) hlead ?_ position⟩
        dsimp only
        apply follow_succ (by omega) (by omega)
        rw [hsecond, Nat.add_sub_cancel_left]
        apply follow_succ (by omega) (by omega)
        rw [hthird, Nat.add_sub_cancel_left]
        apply follow_succ (by omega) (by omega)
        rw [hlast, Nat.add_sub_cancel_left, hpoint]
        rfl

theorem decodeFrom_encoded {t : Text} (h : ∀ c ∈ t, c.isSurrogate = false) (position : Nat) :
    decodeFrom position (t.flatMap encodePoint) = .ok t := by
  induction t generalizing position with
  | nil => rw [List.flatMap_nil, decodeFrom]
  | cons c t ih =>
    obtain ⟨next, hpoint⟩ := decodeFrom_encodePoint (h c List.mem_cons_self) position (t.flatMap encodePoint)
    rw [List.flatMap_cons, hpoint, ih fun c hc => h c (List.mem_cons_of_mem _ hc)]
    rfl

/-- A text that can be encoded is decoded from its bytes. -/
theorem decode_of_encode {t : Text} {bytes : List UInt8} (h : encode t = .ok bytes) : decode bytes = .ok t := by
  unfold encode refusal? at h
  cases hfind : t.findIdx? CodePoint.isSurrogate with
  | some i =>
    rw [hfind] at h
    cases h
  | none =>
    rw [hfind] at h
    cases h
    exact decodeFrom_encoded (List.findIdx?_eq_none_iff.mp hfind) 0

end Utf8

/-- Line ends that are line feeds already are left as they are. -/
theorem Text.normalizeNewlines_of_not_mem {t : Text} (h : ('\r' : CodePoint) ∉ t) : t.normalizeNewlines = t := by
  induction t with
  | nil => rfl
  | cons c t ih =>
    rw [List.mem_cons, not_or] at h
    rw [normalizeNewlines, if_neg (Ne.symm h.1), ih h.2]

/-! Paths and entries -/

theorem Text.getLast?_splitOn {sep : CodePoint} {t : Text} (h : (t.splitOn sep).getLast? = some []) :
    t = [] ∨ t.getLast? = some sep := by
  induction t with
  | nil => exact .inl rfl
  | cons c t ih =>
    rw [splitOn] at h
    split at h
    · rename_i hnil
      exact absurd hnil (splitOn_ne_nil sep t)
    · rename_i piece pieces hsplit
      rw [hsplit] at ih
      split at h
      · rename_i hc
        rw [List.getLast?_cons_cons] at h
        obtain rfl | hlast := ih h
        · exact .inr (congrArg some hc)
        · exact .inr (by rw [List.getLast?_cons, hlast]; rfl)
      · cases pieces with
        | nil => cases h
        | cons next pieces =>
          rw [List.getLast?_cons_cons] at h
          obtain rfl | hlast := ih (by rwa [List.getLast?_cons_cons])
          · cases hsplit
          · exact .inr (by rw [List.getLast?_cons, hlast]; rfl)

namespace FileTree

theorem splitOn_of_splitLast {path last : Text} {before : List Text} (h : splitLast path = some (before, last))
    (hend : path.getLast? ≠ some ('/' : CodePoint)) :
    path.splitOn '/' = before ++ [last] ∧ last ≠ [] := by
  unfold splitLast at h
  cases hsplit : (path.splitOn '/').reverse with
  | nil => exact absurd (List.reverse_eq_nil_iff.mp hsplit) (Text.splitOn_ne_nil _ _)
  | cons piece pieces =>
    have hpath : path.splitOn '/' = pieces.reverse ++ [piece] := by
      rw [← List.reverse_reverse (path.splitOn '/'), hsplit, List.reverse_cons]
    rw [hsplit] at h
    cases piece with
    | nil =>
      obtain rfl | hslash := Text.getLast?_splitOn (hpath ▸ List.getLast?_concat)
      · cases hsplit
        cases h
      · exact absurd hslash hend
    | cons c piece =>
      cases h
      exact ⟨hpath, nofun⟩

theorem lookup_setEntry_self (parts : List Text) (entry : Entry) (entries : List (List Text × Entry)) :
    (setEntry parts entry entries).lookup parts = some entry := by
  induction entries with
  | nil => simp [setEntry]
  | cons p entries ih =>
    obtain ⟨q, e⟩ := p
    by_cases h : q = parts
    · simp [setEntry, h]
    · have hb : (parts == q) = false := by simpa using fun he : parts = q => h he.symm
      simp [setEntry, h, List.lookup_cons, hb, ih]

theorem lookup_setEntry_other {parts other : List Text} (entry : Entry) (entries : List (List Text × Entry))
    (h : other ≠ parts) : (setEntry parts entry entries).lookup other = entries.lookup other := by
  have hb : (other == parts) = false := by simpa using h
  induction entries with
  | nil => simp [setEntry, List.lookup_cons, hb]
  | cons p entries ih =>
    obtain ⟨q, e⟩ := p
    by_cases hq : q = parts
    · subst hq
      simp [setEntry, List.lookup_cons, hb]
    · simp only [setEntry, hq, if_false, List.lookup_cons, ih]

variable {tree : FileTree} {parts : List Text} {entry : Entry}

theorem get?_put_self (h : parts ≠ []) : (tree.put parts entry).get? parts = some entry := by
  rw [get?, if_neg h]
  exact lookup_setEntry_self parts entry tree.entries

theorem get?_put_other {other : List Text} (h : other ≠ parts) :
    (tree.put parts entry).get? other = tree.get? other := by
  unfold get?
  split
  · rfl
  · exact lookup_setEntry_other entry tree.entries h

/-- One part of a path, from one directory to the next. -/
inductive Enters (tree : FileTree) (here : List Text) : Text → List Text → Prop
  | stay {part : Text} (h : part = [] ∨ part = ".") : Enters tree here part here
  | up : Enters tree here ".." here.dropLast
  | down {part : Text} (hname : ¬(part = [] ∨ part = ".")) (hup : part ≠ "..")
      (hshort : ¬maxNameBytes < byteLength part) (hget : tree.get? (here ++ [part]) = some .directory) :
      Enters tree here part (here ++ [part])

theorem Enters.walk {here next : List Text} {part : Text} (h : Enters tree here part next) (rest : List Text) :
    tree.walk here (part :: rest) = tree.walk next rest := by
  cases h with
  | stay h => rw [FileTree.walk, if_pos h]
  | up => rw [FileTree.walk, if_neg (by decide), if_pos rfl]
  | down hname hup hshort hget => rw [FileTree.walk, if_neg hname, if_neg hup, if_neg hshort, hget]

theorem enters_of_walk {here there rest : List Text} {part : Text}
    (h : tree.walk here (part :: rest) = .ok (there, .directory)) :
    ∃ next, Enters tree here part next ∧ tree.walk next rest = .ok (there, .directory) := by
  rw [walk] at h
  split at h
  · rename_i hstay
    exact ⟨here, .stay hstay, h⟩
  · rename_i hname
    split at h
    · rename_i hup
      exact ⟨here.dropLast, hup ▸ .up, h⟩
    · rename_i hup
      split at h
      · cases h
      · rename_i hshort
        split at h
        · cases h
        · rename_i hget
          exact ⟨here ++ [part], .down hname hup hshort hget, h⟩
        · rename_i entry hentry hget
          split at h
          · cases h
            exact absurd rfl hentry
          · cases h

/-- A new entry that does not replace a directory does not change the way to one. -/
theorem Enters.put (hparts : tree.get? parts ≠ some .directory) {here next : List Text} {part : Text}
    (h : Enters tree here part next) : Enters (tree.put parts entry) here part next := by
  cases h with
  | stay h => exact .stay h
  | up => exact .up
  | down hname hup hshort hget =>
    have hother : _ ≠ parts := fun he => hparts (he ▸ hget)
    exact .down hname hup hshort (by rwa [get?_put_other hother])

theorem walk_put (hparts : tree.get? parts ≠ some .directory) {here there before : List Text}
    (h : tree.walk here before = .ok (there, .directory)) :
    (tree.put parts entry).walk here before = .ok (there, .directory) := by
  induction before generalizing here with
  | nil => exact h
  | cons part before ih =>
    obtain ⟨next, henters, hwalk⟩ := enters_of_walk h
    rw [(henters.put hparts).walk]
    exact ih hwalk

theorem walk_append {here there before : List Text} (h : tree.walk here before = .ok (there, .directory))
    (more : List Text) : tree.walk here (before ++ more) = tree.walk there more := by
  induction before generalizing here with
  | nil =>
    cases h
    rfl
  | cons part before ih =>
    obtain ⟨next, henters, hwalk⟩ := enters_of_walk h
    rw [List.cons_append, henters.walk]
    exact ih hwalk

/-- A file to be written: its name, in a directory that the path leads to. -/
structure Target (tree : FileTree) (path : Text) (here : List Text) (last : Text) : Prop where
  opened : ∃ opened before, openPath path = .ok opened ∧ opened.splitOn '/' = before ++ [last] ∧
    tree.walk (tree.start opened) before = .ok (here, .directory)
  name : ¬(last = [] ∨ last = ".")
  up : last ≠ ".."
  short : ¬maxNameBytes < byteLength last

theorem target_of_target {path : Text} {found : Option Entry} (h : tree.target path = .ok (parts, found))
    (hfound : found ≠ some .directory) :
    ∃ here last, parts = here ++ [last] ∧ Target tree path here last ∧ tree.get? parts = found := by
  obtain ⟨opened, hopened, h⟩ := bind_eq_ok h
  split at h
  · cases h
    exact absurd rfl hfound
  · rename_i before last hlast
    obtain ⟨⟨here, passed⟩, hwalk, h⟩ := bind_eq_ok h
    cases passed with
    | file bytes => cases h
    | directory =>
      dsimp only at h
      split at h
      · cases h
        exact absurd rfl hfound
      · rename_i hname
        split at h
        · cases h
        · rename_i hslash
          split at h
          · cases h
          · rename_i hshort
            cases h
            obtain ⟨hsplit, hne⟩ := splitOn_of_splitLast hlast hslash
            refine ⟨here, last, rfl, ⟨⟨opened, before, hopened, hsplit, hwalk⟩, ?_, ?_, hshort⟩, rfl⟩
            · rintro (rfl | rfl)
              · exact hne rfl
              · exact hname (.inl rfl)
            · rintro rfl
              exact hname (.inr rfl)

theorem target_of_truncate {path : Text} {emptied : FileTree} (h : tree.truncate path = .ok (parts, emptied)) :
    ∃ here last, parts = here ++ [last] ∧ Target tree path here last ∧ tree.get? parts ≠ some .directory ∧
      emptied = tree.put parts (.file []) := by
  unfold truncate at h
  split at h
  · cases h
  · cases h
  · rename_i found hfound htarget
    cases h
    obtain ⟨here, last, hparts, hto, hget⟩ := target_of_target htarget fun h => hfound h
    exact ⟨here, last, hparts, hto, fun hdirectory => hfound (hget.symm.trans hdirectory), rfl⟩

/-- A file is found where it was put. -/
theorem Target.locate {path last : Text} {here : List Text} (h : Target tree path here last)
    (hdirectory : tree.get? (here ++ [last]) ≠ some .directory) (bytes : List UInt8) :
    (tree.put (here ++ [last]) (.file bytes)).locate path = .ok (here ++ [last], .file bytes) := by
  obtain ⟨⟨opened, before, hopened, hsplit, hwalk⟩, hname, hup, hshort⟩ := h
  have hget : (tree.put (here ++ [last]) (.file bytes)).get? (here ++ [last]) = some (.file bytes) :=
    get?_put_self (by simp)
  have hlast : (tree.put (here ++ [last]) (.file bytes)).walk here [last] =
      .ok (here ++ [last], .file bytes) := by
    rw [walk, if_neg hname, if_neg hup, if_neg hshort, hget]
    rfl
  rw [FileTree.locate, hopened]
  exact (congrArg _ hsplit).trans ((walk_append (walk_put hdirectory hwalk) [last]).trans hlast)

theorem Target.read {path last : Text} {here : List Text} (h : Target tree path here last)
    (hdirectory : tree.get? (here ++ [last]) ≠ some .directory) (bytes : List UInt8) :
    (tree.put (here ++ [last]) (.file bytes)).read path = .ok bytes := by
  rw [FileTree.read, h.locate hdirectory bytes]

theorem setEntry_setEntry (parts : List Text) (entry entry' : Entry) (entries : List (List Text × Entry)) :
    setEntry parts entry' (setEntry parts entry entries) = setEntry parts entry' entries := by
  induction entries with
  | nil => simp [setEntry]
  | cons p entries ih =>
    obtain ⟨q, e⟩ := p
    by_cases h : q = parts
    · simp [setEntry, h]
    · simp [setEntry, h, ih]

theorem put_put (tree : FileTree) (place : List Text) (entry entry' : Entry) :
    (tree.put place entry).put place entry' = tree.put place entry' := by
  simp only [put, setEntry_setEntry]

/-- Reading after writing: the bytes of the file decode to the text that was written. -/
theorem decode_of_write {path content : Text} {written : FileTree}
    (h : tree.write path content = .ok (written, none)) :
    ∃ bytes, written.read path = .ok bytes ∧ Utf8.decode bytes = .ok content := by
  unfold write at h
  split at h
  · cases h
  · rename_i parts emptied htruncate
    split at h
    · cases h
    · rename_i bytes hencode
      cases h
      obtain ⟨here, last, rfl, htarget, hdirectory, rfl⟩ := target_of_truncate htruncate
      rw [put_put]
      exact ⟨bytes, htarget.read hdirectory bytes, Utf8.decode_of_encode hencode⟩

end FileTree

end SigilScript
