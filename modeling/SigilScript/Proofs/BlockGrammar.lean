import Mathlib.Data.List.TakeWhile
import SigilScript.Validation

/-!
The grammar of blocks, and the sources that pass validation. A source passes exactly when the
brackets of its directives are balanced, no opening directive lacks them, and its directives derive
from the grammar. The stack of open blocks stands for a partial derivation: `Follows` says which
directives may come after a stack, and every directive moves the stack along.
-/
namespace SigilScript

/-- No part from the start closes more brackets than it opens, and as many are closed as opened. -/
structure Text.Balanced (t : Text) : Prop where
  upTo : ∀ start, start <+: t → start.count (']' : CodePoint) ≤ start.count ('[' : CodePoint)
  total : t.count (']' : CodePoint) = t.count ('[' : CodePoint)

theorem imbalanceFrom_eq_none_iff (depth column : Nat) (t : Text) :
    imbalanceFrom depth column t = none ↔
      (∀ start, start <+: t →
        start.count (']' : CodePoint) ≤ depth + start.count ('[' : CodePoint)) ∧
      t.count (']' : CodePoint) = depth + t.count ('[' : CodePoint) := by
  have hne : (']' : CodePoint) ≠ ('[' : CodePoint) := by decide
  induction t generalizing depth column with
  | nil => simp [imbalanceFrom, eq_comm]
  | cons c rest ih =>
    have hcons : ∀ p : Text → Prop, (∀ start, start <+: c :: rest → p start) ↔
        p [] ∧ ∀ start, start <+: rest → p (c :: start) := by
      intro p
      simp only [List.prefix_cons_iff]
      constructor
      · intro h
        exact ⟨h [] (.inl rfl), fun start hs => h _ (.inr ⟨start, rfl, hs⟩)⟩
      · rintro ⟨h₀, h⟩ start (rfl | ⟨start, rfl, hs⟩)
        · exact h₀
        · exact h start hs
    rw [hcons]
    by_cases ho : c = ('[' : CodePoint)
    · subst ho
      simp only [imbalanceFrom, if_pos, ih, List.count_nil, List.count_cons_self,
        List.count_cons_of_ne hne.symm, Nat.zero_le, true_and, Nat.add_zero]
      simp only [Nat.add_assoc, Nat.add_comm 1]
    · by_cases hc : c = (']' : CodePoint)
      · subst hc
        simp only [imbalanceFrom, if_neg hne, if_pos, List.count_nil, List.count_cons_self,
          List.count_cons_of_ne hne, Nat.add_zero, Nat.zero_le, true_and]
        cases depth with
        | zero =>
          simp only [if_pos, reduceCtorEq, false_iff, not_and]
          intro h
          have h₁ := h [] List.nil_prefix
          simp at h₁
        | succ depth =>
          simp only [if_neg (Nat.succ_ne_zero depth), Nat.add_sub_cancel, ih]
          constructor
          · rintro ⟨h₁, h₂⟩
            exact ⟨fun start hs => by have := h₁ start hs; omega, by omega⟩
          · rintro ⟨h₁, h₂⟩
            exact ⟨fun start hs => by have := h₁ start hs; omega, by omega⟩
      · simp only [imbalanceFrom, if_neg ho, if_neg hc, ih, List.count_nil,
          List.count_cons_of_ne ho, List.count_cons_of_ne hc, Nat.add_zero,
          Nat.zero_le, true_and]

theorem imbalance_eq_none_iff (t : Text) : imbalance t = none ↔ t.Balanced := by
  rw [imbalance, imbalanceFrom_eq_none_iff]
  simp only [Nat.zero_add]
  exact ⟨fun h => ⟨h.1, h.2⟩, fun h => ⟨h.upTo, h.total⟩⟩

namespace Text

theorem isName_cons (c : CodePoint) (rest : Text) :
    isName (c :: rest) = true ↔
      c.isIdentifierStart = true ∧ ∀ d ∈ rest, d.isIdentifierPart = true := by
  unfold isName takeIdentifier
  by_cases hc : c.isIdentifierStart = true
  · simp [hc, List.dropWhile_eq_nil_iff]
  · simp [hc]

theorem takeIdentifier_eq_iff {name : Text} (hn : name ≠ []) (t after : Text) :
    t.takeIdentifier = (name, after) ↔
      t = name ++ after ∧ name.isName = true ∧
        ∀ c, after.head? = some c → c.isIdentifierPart = false := by
  constructor
  · intro h
    have ht := t.takeIdentifier_append
    rw [h] at ht
    cases t with
    | nil =>
      simp only [List.append_eq_nil_iff] at ht
      exact absurd ht.1 hn
    | cons c rest =>
      simp only [takeIdentifier] at h
      split at h
      · rename_i hc
        simp only [Prod.mk.injEq] at h
        obtain ⟨rfl, rfl⟩ := h
        refine ⟨ht.symm, (isName_cons _ _).mpr ⟨hc, fun d hd => List.mem_takeWhile_imp hd⟩, ?_⟩
        intro d hd
        have hnot := List.head?_dropWhile_not CodePoint.isIdentifierPart rest
        rw [hd] at hnot
        exact hnot
      · simp only [Prod.mk.injEq] at h
        exact absurd h.1.symm hn
  · rintro ⟨rfl, hname, hlong⟩
    cases name with
    | nil => exact absurd rfl hn
    | cons c name =>
      obtain ⟨hc, hp⟩ := (isName_cons c name).mp hname
      have hd : after.takeWhile CodePoint.isIdentifierPart = [] ∧
          after.dropWhile CodePoint.isIdentifierPart = after := by
        cases after with
        | nil => simp
        | cons d after => simp [hlong d rfl]
      simp only [List.cons_append, takeIdentifier, if_pos hc]
      rw [List.takeWhile_append_of_pos hp, List.dropWhile_append_of_pos hp, hd.1, hd.2,
        List.append_nil]

end Text

namespace Grammar

mutual

/-- The directives of a block, in order. -/
inductive Block : List LineKind → Prop where
  | empty : Block []
  | statement {rest : List LineKind} : Block rest → Block (.directive :: rest)
  | conditional {body others rest : List LineKind} : Block body → Branches others → Block rest →
      Block (.ifHead :: (body ++ (others ++ .endIf :: rest)))
  | whileLoop {body rest : List LineKind} : Block body → Block rest →
      Block (.whileHead :: (body ++ .endWhile :: rest))
  | forLoop {body rest : List LineKind} : Block body → Block rest →
      Block (.forHead :: (body ++ .endFor :: rest))

/-- The directives of a conditional after its first body: further conditions with their bodies, and
then perhaps a last body without one. -/
inductive Branches : List LineKind → Prop where
  | none : Branches []
  | otherwise {body : List LineKind} : Block body → Branches (.elseHead :: body)
  | elseIf {body others : List LineKind} : Block body → Branches others →
      Branches (.elseIf :: (body ++ others))

end

end Grammar

open Grammar

namespace Validation

/-! Partial derivations -/

/-- What a block may go on with before it is closed: only a conditional without an `else` so far has
further branches. -/
def OpenBlock.Continues (b : OpenBlock) (others : List LineKind) : Prop :=
  if b.kind = .ifHead ∧ b.seenElse = false then Branches others else others = []

/-- The directives that may come after the innermost of the open blocks has been filled. -/
def Closes : List OpenBlock → List LineKind → Prop
  | [], kinds => kinds = []
  | b :: stack, kinds => ∃ others closer body rest,
      kinds = others ++ closer :: (body ++ rest) ∧ b.Continues others ∧
        closer.opener? = some b.kind ∧ Block body ∧ Closes stack rest

/-- The directives that may come inside the open blocks. -/
def Follows (stack : List OpenBlock) (kinds : List LineKind) : Prop :=
  ∃ body rest, kinds = body ++ rest ∧ Block body ∧ Closes stack rest

theorem continues_cons {b : OpenBlock} {kind : LineKind} {others : List LineKind}
    (h : b.Continues (kind :: others)) :
    b.kind = .ifHead ∧ b.seenElse = false ∧ Branches (kind :: others) := by
  unfold OpenBlock.Continues at h
  split at h
  · rename_i hb
    exact ⟨hb.1, hb.2, h⟩
  · simp at h

theorem continues_nil (b : OpenBlock) : b.Continues [] := by
  unfold OpenBlock.Continues
  split
  · exact .none
  · rfl

/-- A block that has been filled goes on with a branch or is closed. -/
theorem closes_cons {stack : List OpenBlock} {kind : LineKind} {kinds : List LineKind}
    (h : Closes stack (kind :: kinds)) :
    kind = .elseIf ∨ kind = .elseHead ∨ kind.isCloser = true := by
  cases stack with
  | nil => simp [Closes] at h
  | cons b stack =>
    obtain ⟨others, closer, body, rest, he, hb, hc, -, -⟩ := h
    cases others with
    | nil =>
      simp only [List.nil_append, List.cons.injEq] at he
      obtain ⟨rfl, -⟩ := he
      cases kind <;> simp_all [LineKind.opener?, LineKind.isCloser]
    | cons other others =>
      simp only [List.cons_append, List.cons.injEq] at he
      obtain ⟨rfl, -⟩ := he
      obtain ⟨-, -, hb⟩ := continues_cons hb
      cases hb with
      | otherwise => exact .inr (.inl rfl)
      | elseIf => exact .inl rfl

theorem follows_nil (stack : List OpenBlock) : Follows stack [] ↔ stack = [] := by
  constructor
  · rintro ⟨body, rest, he, -, hc⟩
    obtain ⟨-, rfl⟩ := List.append_eq_nil_iff.mp he.symm
    cases stack with
    | nil => rfl
    | cons b stack =>
      obtain ⟨others, closer, body, rest, he, -⟩ := hc
      simp at he
  · rintro rfl
    exact ⟨[], [], rfl, .empty, rfl⟩

theorem follows_directive (stack : List OpenBlock) (kinds : List LineKind) :
    Follows stack (.directive :: kinds) ↔ Follows stack kinds := by
  constructor
  · rintro ⟨body, rest, he, hb, hc⟩
    cases body with
    | nil =>
      simp only [List.nil_append] at he
      subst he
      have := closes_cons hc
      simp [LineKind.isCloser] at this
    | cons kind body =>
      simp only [List.cons_append, List.cons.injEq] at he
      obtain ⟨rfl, rfl⟩ := he
      cases hb with
      | statement hb => exact ⟨body, rest, rfl, hb, hc⟩
  · rintro ⟨body, rest, rfl, hb, hc⟩
    exact ⟨.directive :: body, rest, rfl, .statement hb, hc⟩

/-- An opener starts a block of its own: what may follow it is what may follow inside that block. -/
theorem follows_opener (stack : List OpenBlock) (number : Nat) {kind : LineKind}
    (h : kind.isOpener = true) (kinds : List LineKind) :
    Follows stack (kind :: kinds) ↔ Follows (⟨kind, number, false⟩ :: stack) kinds := by
  constructor
  · rintro ⟨body, rest, he, hb, hc⟩
    cases body with
    | nil =>
      simp only [List.nil_append] at he
      subst he
      have := closes_cons hc
      cases kind <;> simp_all [LineKind.isCloser, LineKind.isOpener]
    | cons first body =>
      simp only [List.cons_append, List.cons.injEq] at he
      obtain ⟨rfl, rfl⟩ := he
      cases hb with
      | statement => simp [LineKind.isOpener] at h
      | @conditional inner others after hi ho ha =>
        exact ⟨inner, others ++ .endIf :: (after ++ rest), by simp, hi,
          others, .endIf, after, rest, rfl, by simpa [OpenBlock.Continues] using ho, rfl, ha, hc⟩
      | @whileLoop inner after hi ha =>
        exact ⟨inner, .endWhile :: (after ++ rest), by simp, hi,
          [], .endWhile, after, rest, rfl, continues_nil _, rfl, ha, hc⟩
      | @forLoop inner after hi ha =>
        exact ⟨inner, .endFor :: (after ++ rest), by simp, hi,
          [], .endFor, after, rest, rfl, continues_nil _, rfl, ha, hc⟩
  · rintro ⟨inner, rest, rfl, hi, others, closer, after, rest, rfl, ho, hk, ha, hc⟩
    cases kind <;> simp [LineKind.isOpener] at h
    · cases closer <;> simp [LineKind.opener?] at hk
      have hb : Branches others := by simpa [OpenBlock.Continues] using ho
      exact ⟨_, rest, by simp, .conditional hi hb ha, hc⟩
    · cases closer <;> simp [LineKind.opener?] at hk
      have hn : others = [] := by simpa [OpenBlock.Continues] using ho
      subst hn
      exact ⟨_, rest, by simp, .whileLoop hi ha, hc⟩
    · cases closer <;> simp [LineKind.opener?] at hk
      have hn : others = [] := by simpa [OpenBlock.Continues] using ho
      subst hn
      exact ⟨_, rest, by simp, .forLoop hi ha, hc⟩

/-- A block never starts with a closer or a branch, so such a directive belongs to the innermost open
block. -/
theorem follows_of_not_starter {stack : List OpenBlock} {kind : LineKind} {kinds : List LineKind}
    (hk : kind = .elseIf ∨ kind = .elseHead ∨ kind.isCloser = true) :
    Follows stack (kind :: kinds) ↔ Closes stack (kind :: kinds) := by
  constructor
  · rintro ⟨body, rest, he, hb, hc⟩
    cases body with
    | nil =>
      simp only [List.nil_append] at he
      exact he ▸ hc
    | cons first body =>
      simp only [List.cons_append, List.cons.injEq] at he
      obtain ⟨rfl, -⟩ := he
      cases hb <;> simp [LineKind.isCloser] at hk
  · intro hc
    exact ⟨[], _, rfl, .empty, hc⟩

theorem not_follows_outside {kind : LineKind} {kinds : List LineKind}
    (hk : kind = .elseIf ∨ kind = .elseHead ∨ kind.isCloser = true) :
    ¬ Follows [] (kind :: kinds) := by
  rw [follows_of_not_starter hk]
  simp [Closes]

theorem follows_closer (b : OpenBlock) (stack : List OpenBlock) {kind : LineKind}
    (h : kind.isCloser = true) (kinds : List LineKind) :
    Follows (b :: stack) (kind :: kinds) ↔ kind.opener? = some b.kind ∧ Follows stack kinds := by
  rw [follows_of_not_starter (.inr (.inr h))]
  constructor
  · rintro ⟨others, closer, body, rest, he, ho, hk, hb, hc⟩
    cases others with
    | nil =>
      simp only [List.nil_append, List.cons.injEq] at he
      obtain ⟨rfl, rfl⟩ := he
      exact ⟨hk, body, rest, rfl, hb, hc⟩
    | cons other others =>
      simp only [List.cons_append, List.cons.injEq] at he
      obtain ⟨rfl, -⟩ := he
      obtain ⟨-, -, ho⟩ := continues_cons ho
      cases ho <;> simp [LineKind.isCloser] at h
  · rintro ⟨hk, body, rest, rfl, hb, hc⟩
    exact ⟨[], kind, body, rest, rfl, continues_nil b, hk, hb, hc⟩

theorem follows_elseIf (b : OpenBlock) (stack : List OpenBlock) (kinds : List LineKind) :
    Follows (b :: stack) (.elseIf :: kinds) ↔
      b.kind = .ifHead ∧ b.seenElse = false ∧ Follows (b :: stack) kinds := by
  rw [follows_of_not_starter (.inl rfl)]
  constructor
  · rintro ⟨others, closer, body, rest, he, ho, hk, hb, hc⟩
    cases others with
    | nil =>
      simp only [List.nil_append, List.cons.injEq] at he
      obtain ⟨rfl, -⟩ := he
      simp [LineKind.opener?] at hk
    | cons other others =>
      simp only [List.cons_append, List.cons.injEq] at he
      obtain ⟨rfl, rfl⟩ := he
      obtain ⟨hi, hs, ho⟩ := continues_cons ho
      cases ho with
      | @elseIf inner others hn hm =>
        exact ⟨hi, hs, inner, _, by simp, hn,
          others, closer, body, rest, rfl, by simpa [OpenBlock.Continues, hi, hs] using hm, hk, hb, hc⟩
  · rintro ⟨hi, hs, inner, rest, rfl, hn, others, closer, body, rest, rfl, ho, hk, hb, hc⟩
    have ho : Branches others := by simpa [OpenBlock.Continues, hi, hs] using ho
    exact ⟨.elseIf :: (inner ++ others), closer, body, rest, by simp,
      by simpa [OpenBlock.Continues, hi, hs] using Branches.elseIf hn ho, hk, hb, hc⟩

theorem follows_elseHead (b : OpenBlock) (stack : List OpenBlock) (kinds : List LineKind) :
    Follows (b :: stack) (.elseHead :: kinds) ↔
      b.kind = .ifHead ∧ b.seenElse = false ∧
        Follows ({ b with seenElse := true } :: stack) kinds := by
  rw [follows_of_not_starter (.inr (.inl rfl))]
  constructor
  · rintro ⟨others, closer, body, rest, he, ho, hk, hb, hc⟩
    cases others with
    | nil =>
      simp only [List.nil_append, List.cons.injEq] at he
      obtain ⟨rfl, -⟩ := he
      simp [LineKind.opener?] at hk
    | cons other others =>
      simp only [List.cons_append, List.cons.injEq] at he
      obtain ⟨rfl, rfl⟩ := he
      obtain ⟨hi, hs, ho⟩ := continues_cons ho
      cases ho with
      | otherwise hn =>
        exact ⟨hi, hs, others, _, rfl, hn, [], closer, body, rest, rfl, continues_nil _, hk, hb, hc⟩
  · rintro ⟨hi, hs, inner, rest, rfl, hn, others, closer, body, rest, rfl, ho, hk, hb, hc⟩
    have ho : others = [] := by simpa [OpenBlock.Continues] using ho
    subst ho
    exact ⟨.elseHead :: inner, closer, body, rest, by simp,
      by simpa [OpenBlock.Continues, hi, hs] using Branches.otherwise hn, hk, hb, hc⟩

/-! Directives -/

/-- A line that starts with the sigil and a name, taken as long as it goes; `after` is the rest. -/
structure StartsWith (line name after : Text) : Prop where
  line_eq : line = sigil :: (name ++ after)
  isName : name.isName = true
  longest : ∀ c, after.head? = some c → c.isIdentifierPart = false

theorem head?_eq_some_iff (line name : Text) (bracketed : Bool) :
    head? line = some (name, bracketed) ↔
      ∃ after, StartsWith line name after ∧
        bracketed = decide (after.head? = some ('[' : CodePoint)) := by
  constructor
  · intro h
    cases line with
    | nil => simp [head?] at h
    | cons c rest =>
      simp only [head?] at h
      split at h
      · rename_i hc
        split at h
        · simp at h
        · rename_i name' after hn he
          simp only [Option.some.injEq, Prod.mk.injEq] at h
          obtain ⟨rfl, hb⟩ := h
          obtain ⟨ht, hname, hlong⟩ := (Text.takeIdentifier_eq_iff hn rest after).mp he
          exact ⟨after, ⟨by rw [hc, ht], hname, hlong⟩, hb.symm⟩
      · simp at h
  · rintro ⟨after, ⟨rfl, hname, hlong⟩, rfl⟩
    have hn : name ≠ [] := by
      rintro rfl
      simp [Text.isName] at hname
    have he := (Text.takeIdentifier_eq_iff hn (name ++ after) after).mpr ⟨rfl, hname, hlong⟩
    simp only [head?, if_pos, he]

/-- The kind of the directive that starts a raw line. -/
def directiveKind? (raw : Text) : Option LineKind :=
  (head? raw.strip).map fun (name, bracketed) => .ofDirective name bracketed

/-- The kinds of the directives of a source, in order. -/
def directiveKinds (source : Text) : List LineKind :=
  (source.splitOn '\n').filterMap directiveKind?

theorem ofClosing?_ne_text (name : Text) : LineKind.ofClosing? name ≠ some .text := by
  unfold LineKind.ofClosing?
  repeat' split
  all_goals simp

theorem ofOpening?_ne_text (name : Text) : LineKind.ofOpening? name ≠ some .text := by
  unfold LineKind.ofOpening?
  repeat' split
  all_goals simp

theorem ofDirective_ne_text (name : Text) (bracketed : Bool) :
    LineKind.ofDirective name bracketed ≠ .text := by
  unfold LineKind.ofDirective
  cases hc : LineKind.ofClosing? name with
  | some kind =>
    rintro rfl
    exact ofClosing?_ne_text name hc
  | none =>
    cases bracketed with
    | false => simp
    | true =>
      cases ho : LineKind.ofOpening? name with
      | none => simp
      | some kind =>
        rintro rfl
        exact ofOpening?_ne_text name ho

/-- One directive moves the stack along: it is let through exactly when it may come next, and then
the new stack stands for what may come after it. -/
theorem enter_follows (number : Nat) (name : Text) (bracketed : Bool) (stack : List OpenBlock)
    (kinds : List LineKind) (h : bracketed = false → LineKind.ofOpening? name = none) :
    ((enter number name bracketed stack).2 = none ∧
      Follows (enter number name bracketed stack).1 kinds) ↔
      Follows stack (.ofDirective name bracketed :: kinds) := by
  have hb : ((LineKind.ofOpening? name).isSome && !bracketed) = false := by
    cases bracketed with
    | true => simp
    | false => simp [h rfl]
  have ht := ofDirective_ne_text name bracketed
  simp only [enter, hb, Bool.false_eq_true, if_false]
  generalize LineKind.ofDirective name bracketed = kind at ht ⊢
  by_cases ho : kind.isOpener = true
  · simp only [if_pos ho, true_and]
    exact (follows_opener stack number ho kinds).symm
  · by_cases hc : kind.isCloser = true
    · simp only [if_neg ho, if_pos hc]
      cases stack with
      | nil => simp [not_follows_outside (.inr (.inr hc))]
      | cons top rest =>
        rw [follows_closer top rest hc]
        by_cases hk : kind.opener? = some top.kind <;> simp [hk]
    · cases kind with
      | text => exact absurd rfl ht
      | directive => simp [LineKind.isOpener, LineKind.isCloser, follows_directive]
      | elseIf =>
        cases stack with
        | nil => simp [LineKind.isOpener, LineKind.isCloser, not_follows_outside]
        | cons top rest =>
          obtain ⟨opener, line, seen⟩ := top
          rw [follows_elseIf]
          by_cases hi : opener = .ifHead <;> cases seen <;>
            simp [LineKind.isOpener, LineKind.isCloser, hi]
      | elseHead =>
        cases stack with
        | nil => simp [LineKind.isOpener, LineKind.isCloser, not_follows_outside]
        | cons top rest =>
          obtain ⟨opener, line, seen⟩ := top
          rw [follows_elseHead]
          by_cases hi : opener = .ifHead <;> cases seen <;>
            simp [LineKind.isOpener, LineKind.isCloser, hi]
      | ifHead | whileHead | forHead => simp [LineKind.isOpener] at ho
      | endIf | endWhile | endFor => simp [LineKind.isCloser] at hc

/-- What a raw line has to have besides its place among the blocks. -/
def WellBracketed (raw : Text) : Prop :=
  ∀ directive, head? raw.strip = some directive →
    raw.strip.Balanced ∧ (directive.2 = false → LineKind.ofOpening? directive.1 = none)

theorem checkLine_follows (number : Nat) (raw : Text) (stack : List OpenBlock)
    (kinds : List LineKind) :
    ((checkLine number raw stack).2 = [] ∧ Follows (checkLine number raw stack).1 kinds) ↔
      WellBracketed raw ∧ Follows stack ((directiveKind? raw).toList ++ kinds) := by
  unfold WellBracketed directiveKind?
  cases hd : head? raw.strip with
  | none => simp [checkLine, hd]
  | some directive =>
    obtain ⟨name, bracketed⟩ := directive
    simp only [checkLine, hd, List.map_eq_nil_iff, List.append_eq_nil_iff, Option.toList_eq_nil_iff,
      Option.map_eq_none_iff, imbalance_eq_none_iff, Option.map_some, Option.toList_some,
      Option.some.injEq, forall_eq', List.singleton_append]
    by_cases ho : bracketed = false → LineKind.ofOpening? name = none
    · rw [← enter_follows number name bracketed stack kinds ho]
      constructor
      · rintro ⟨⟨hb, hf⟩, hs⟩
        exact ⟨⟨hb, ho⟩, hf, hs⟩
      · rintro ⟨⟨hb, -⟩, hf, hs⟩
        exact ⟨⟨hb, hf⟩, hs⟩
    · have hf : (enter number name bracketed stack).2 ≠ none := by
        cases bracketed with
        | true => simp at ho
        | false => simp_all [enter, Option.isSome_iff_ne_none]
      simp [ho, hf]

theorem checkLines_eq_nil_iff (raws : List Text) (number : Nat) (stack : List OpenBlock) :
    checkLines number stack raws = [] ↔
      (∀ raw ∈ raws, WellBracketed raw) ∧ Follows stack (raws.filterMap directiveKind?) := by
  induction raws generalizing number stack with
  | nil => simp [checkLines, follows_nil]
  | cons raw rest ih =>
    have hk : (raw :: rest).filterMap directiveKind? =
        (directiveKind? raw).toList ++ rest.filterMap directiveKind? := by
      cases hd : directiveKind? raw <;> simp [hd]
    have hl := checkLine_follows number raw stack (rest.filterMap directiveKind?)
    simp only [checkLines, List.append_eq_nil_iff, ih, List.forall_mem_cons, hk]
    constructor
    · rintro ⟨hp, hr, hf⟩
      obtain ⟨hw, hf⟩ := hl.mp ⟨hp, hf⟩
      exact ⟨⟨hw, hr⟩, hf⟩
    · rintro ⟨⟨hw, hr⟩, hf⟩
      obtain ⟨hp, hf⟩ := hl.mpr ⟨hw, hf⟩
      exact ⟨hp, hr, hf⟩

theorem follows_outside (kinds : List LineKind) : Follows [] kinds ↔ Block kinds := by
  constructor
  · rintro ⟨body, rest, rfl, hb, rfl⟩
    simpa using hb
  · intro h
    exact ⟨kinds, [], by simp, h, rfl⟩

/-- The names of the directives that only count with brackets. -/
def openingNames : List Text := ["if", "elseif", "while", "for"]

theorem ofOpening?_eq_none_iff (name : Text) :
    LineKind.ofOpening? name = none ↔ name ∉ openingNames := by
  unfold LineKind.ofOpening? openingNames
  repeat' split
  all_goals simp_all

theorem wellBracketed_iff (raw : Text) :
    WellBracketed raw ↔ ∀ name after, StartsWith raw.strip name after →
      raw.strip.Balanced ∧ (name ∈ openingNames → after.head? = some ('[' : CodePoint)) := by
  unfold WellBracketed
  constructor
  · intro h name after hs
    obtain ⟨hb, ho⟩ := h (name, _) ((head?_eq_some_iff _ _ _).mpr ⟨after, hs, rfl⟩)
    refine ⟨hb, fun hn => ?_⟩
    by_contra hc
    exact (ofOpening?_eq_none_iff name).mp (ho (by simpa using hc)) hn
  · rintro h ⟨name, bracketed⟩ hd
    obtain ⟨after, hs, rfl⟩ := (head?_eq_some_iff _ _ _).mp hd
    obtain ⟨hb, ho⟩ := h name after hs
    refine ⟨hb, fun hc => (ofOpening?_eq_none_iff name).mpr fun hn => ?_⟩
    simp [ho hn] at hc

theorem validate_eq_nil_iff (source : Text) :
    validate source = [] ↔
      (∀ raw ∈ source.splitOn '\n', WellBracketed raw) ∧ Block (directiveKinds source) := by
  rw [validate, checkLines_eq_nil_iff, follows_outside, directiveKinds]

/-- Validation accepts exactly the grammar of blocks, over lines whose brackets are in order. -/
theorem validate_accepts_iff (source : Text) :
    validate source = [] ↔
      (∀ raw ∈ source.splitOn '\n', ∀ name after, StartsWith raw.strip name after →
        raw.strip.Balanced) ∧
      (∀ raw ∈ source.splitOn '\n', ∀ name after, StartsWith raw.strip name after →
        name ∈ openingNames → after.head? = some ('[' : CodePoint)) ∧
      Block (directiveKinds source) := by
  rw [validate_eq_nil_iff]
  simp only [wellBracketed_iff]
  constructor
  · rintro ⟨hw, hk⟩
    exact ⟨fun raw hr name after hs => (hw raw hr name after hs).1,
      fun raw hr name after hs => (hw raw hr name after hs).2, hk⟩
  · rintro ⟨hb, ho, hk⟩
    exact ⟨fun raw hr name after hs => ⟨hb raw hr name after hs, ho raw hr name after hs⟩, hk⟩

end Validation

end SigilScript
