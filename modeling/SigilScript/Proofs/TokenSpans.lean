import Mathlib.Data.List.Induction
import SigilScript.Proofs.TokenGrammar

/-!
Where the tokens of a text stand. Each token has a span of the text that spells it, the spans follow one another, and
what lies outside of them is blank or in a comment, so nothing is lost. The line of a token is counted by the newlines
before its span and its column from the last of these, however many newlines the tokens before it contain.
-/
namespace SigilScript

namespace Position

/-- The position of a code point by its index: the line by the newlines before it, and the column by the code points
since the last of them. -/
def ofIndex (t : Text) (i : Nat) : Position :=
  ⟨1 + (t.take i).count ('\n' : CodePoint),
    1 + ((t.take i).reverse.takeWhile fun c : CodePoint => c ≠ '\n').length⟩

theorem after_start (t : Text) : start.after t = ofIndex t t.length := by
  rw [ofIndex, List.take_length]
  induction t using List.reverseRecOn with
  | nil => rfl
  | append_singleton t c ih =>
    rw [after_append, ih, after_cons, after_nil, next, List.reverse_append, List.reverse_singleton,
      List.singleton_append, List.takeWhile_cons, List.count_append]
    split
    · rename_i hc
      simp [hc, Nat.add_assoc]
    · rename_i hc
      simp [hc, Nat.add_assoc, Nat.add_comm 1]

theorem after_start_append (before after : Text) : start.after before = ofIndex (before ++ after) before.length := by
  rw [after_start, ofIndex, ofIndex, List.take_left, List.take_length]

end Position

namespace Token

/-- The code points of a text from one index up to another. -/
structure Span where
  start : Nat
  stop : Nat
  deriving DecidableEq, Repr

namespace Span

def Contains (s : Span) (i : Nat) : Prop := s.start ≤ i ∧ i < s.stop

def Apart (s other : Span) : Prop := s.stop ≤ other.start ∨ other.stop ≤ s.start

def text (s : Span) (t : Text) : Text := (t.take s.stop).drop s.start

/-- The span runs from the mark of a comment to before the next newline, or to the end. -/
structure IsComment (s : Span) (t : Text) : Prop where
  text_eq : ∃ body, s.text t = commentMark :: body ∧ ∀ c ∈ body, c ≠ ('\n' : CodePoint)
  ends : s.stop = t.length ∨ t[s.stop]? = some ('\n' : CodePoint)

/-- The span of a stretch that comes after another. -/
def next (before stretch : Text) : Span := ⟨before.length, (before ++ stretch).length⟩

theorem text_next (before stretch after : Text) : (next before stretch).text (before ++ (stretch ++ after)) = stretch := by
  rw [text, next, ← List.append_assoc, List.take_left, List.drop_left]

theorem drop_next (before stretch after : Text) :
    (before ++ (stretch ++ after)).drop (next before stretch).stop = after := by
  rw [next, ← List.append_assoc, List.drop_left]

end Span

/-- From an index on, the spans of tokens cover a text. -/
structure Covers (t : Text) (k : Nat) (placed : List (Span × Token)) : Prop where
  spelled : ∀ p ∈ placed, Spells p.2.kind p.2.value (p.1.text t) (t.drop p.1.stop)
  position : ∀ p ∈ placed, p.2.position = .ofIndex t p.1.start
  ordered : placed.Pairwise fun p q => p.1.stop ≤ q.1.start
  within : ∀ p ∈ placed, k ≤ p.1.start ∧ p.1.start < p.1.stop ∧ p.1.stop ≤ t.length
  outside : ∀ i, k ≤ i → i < t.length → (∀ p ∈ placed, ¬ p.1.Contains i) →
    (∃ c, t[i]? = some c ∧ IsGap c) ∨
      ∃ comment : Span, comment.Contains i ∧ k ≤ comment.start ∧ comment.IsComment t ∧
        ∀ p ∈ placed, comment.Apart p.1

variable {t : Text} {placed : List (Span × Token)}

theorem covers_end (t : Text) : Covers t t.length [] where
  spelled := by simp
  position := by simp
  ordered := .nil
  within := by simp
  outside i hi hlt := absurd hi (Nat.not_le.mpr hlt)

/-- A blank or a comment before spans. -/
theorem Covers.skip {s : Span} (h : Covers t s.stop placed) (hle : s.start ≤ s.stop)
    (hskip : ∀ i, s.Contains i → (∃ c, t[i]? = some c ∧ IsGap c) ∨ s.IsComment t) :
    Covers t s.start placed where
  spelled := h.spelled
  position := h.position
  ordered := h.ordered
  within p hp := ⟨hle.trans (h.within p hp).1, (h.within p hp).2⟩
  outside i hi hlt hout := by
    by_cases hstop : s.stop ≤ i
    · rcases h.outside i hstop hlt hout with hgap | ⟨comment, hmem, hstart, hcomment, hapart⟩
      · exact .inl hgap
      · exact .inr ⟨comment, hmem, hle.trans hstart, hcomment, hapart⟩
    · have hmem : s.Contains i := ⟨hi, Nat.lt_of_not_le hstop⟩
      exact (hskip i hmem).imp_right fun hcomment =>
        ⟨s, hmem, Nat.le_refl _, hcomment, fun p hp => .inl (h.within p hp).1⟩

/-- A token before spans. -/
theorem Covers.cons {s : Span} {token : Token} (h : Covers t s.stop placed) (hlt : s.start < s.stop)
    (hstop : s.stop ≤ t.length) (hspelled : Spells token.kind token.value (s.text t) (t.drop s.stop))
    (hposition : token.position = .ofIndex t s.start) : Covers t s.start ((s, token) :: placed) where
  spelled := List.forall_mem_cons.mpr ⟨hspelled, h.spelled⟩
  position := List.forall_mem_cons.mpr ⟨hposition, h.position⟩
  ordered := List.pairwise_cons.mpr ⟨fun p hp => (h.within p hp).1, h.ordered⟩
  within := List.forall_mem_cons.mpr ⟨⟨Nat.le_refl _, hlt, hstop⟩, fun p hp =>
    ⟨hlt.le.trans (h.within p hp).1, (h.within p hp).2⟩⟩
  outside i hi hlength hout := by
    rw [List.forall_mem_cons] at hout
    have hafter : s.stop ≤ i := Nat.le_of_not_lt fun hlt => hout.1 ⟨hi, hlt⟩
    rcases h.outside i hafter hlength hout.2 with hgap | ⟨comment, hmem, hstart, hcomment, hapart⟩
    · exact .inl hgap
    · exact .inr ⟨comment, hmem, hlt.le.trans hstart, hcomment, List.forall_mem_cons.mpr ⟨.inr hstart, hapart⟩⟩

theorem Spells.ne_nil {kind : TokenKind} {value stretch after : Text} (h : Spells kind value stretch after) :
    stretch ≠ [] := by
  cases h <;> exact List.cons_ne_nil _ _

theorem isComment_next {before body after : Text} (hline : ∀ c ∈ body, c ≠ ('\n' : CodePoint))
    (hends : Ends (fun c : CodePoint => c ≠ '\n') after) :
    (Span.next before (commentMark :: body)).IsComment (before ++ ((commentMark :: body) ++ after)) := by
  refine ⟨⟨body, Span.text_next before (commentMark :: body) after, hline⟩, ?_⟩
  cases after with
  | nil => exact .inl (by rw [List.append_nil]; rfl)
  | cons c after =>
    right
    rw [← List.head?_drop, Span.drop_next]
    simpa using hends c rfl

/-- The tokens of a text, before the one for its end, have spans that cover it. Each span is written as the class and
the value of its token say, and the token has the position at which the span starts. -/
theorem scan_covers (t : Text) :
    ∃ placed : List (Span × Token),
      scan t = placed.map Prod.snd ++ [⟨.endOfInput, [], .ofIndex t t.length⟩] ∧ Covers t 0 placed := by
  -- what has been scanned counts for the positions, so it stays part of the text
  refine scanFrom_induction (P := fun p t tokens => ∀ before, p = Position.start.after before →
    ∃ placed : List (Span × Token),
      tokens = placed.map Prod.snd ++ [⟨.endOfInput, [], .ofIndex (before ++ t) (before ++ t).length⟩] ∧
      Covers (before ++ t) before.length placed) ?_ ?_ ?_ ?_ .start t [] rfl
  · intro p before hp
    rw [hp, Position.after_start, List.append_nil]
    exact ⟨[], rfl, covers_end before⟩
  · intro p c after hgap ih before hp
    obtain ⟨placed, htokens, hcovers⟩ := ih (before ++ [c]) (by rw [hp, Position.after_append]; rfl)
    rw [List.append_assoc, List.singleton_append] at htokens hcovers
    refine ⟨placed, htokens, Covers.skip (s := .next before [c]) hcovers (by simp [Span.next]) fun i hi =>
      .inl ⟨c, ?_, hgap⟩⟩
    obtain rfl : i = before.length := by
      simp only [Span.Contains, Span.next, List.length_append, List.length_singleton] at hi
      omega
    simp
  · intro p body after hline hends ih before hp
    obtain ⟨placed, htokens, hcovers⟩ := ih (before ++ commentMark :: body) (by rw [hp, Position.after_append])
    rw [List.append_assoc] at htokens hcovers
    exact ⟨placed, htokens, Covers.skip (s := .next before (commentMark :: body)) hcovers (by simp [Span.next])
      fun i hi => .inr (isComment_next hline hends)⟩
  · intro p kind value stretch after hspells ih before hp
    obtain ⟨placed, htokens, hcovers⟩ := ih (before ++ stretch) (by rw [hp, Position.after_append])
    rw [List.append_assoc] at htokens hcovers
    have hlength : 0 < stretch.length := List.length_pos_iff.mpr hspells.ne_nil
    refine ⟨(.next before stretch, ⟨kind, value, p⟩) :: placed, by rw [htokens]; rfl,
      Covers.cons (s := .next before stretch) hcovers ?_ ?_ ?_ ?_⟩
    · simpa [Span.next] using hlength
    · simp [Span.next]
    · rwa [Span.text_next, Span.drop_next]
    · rw [hp]
      exact Position.after_start_append before (stretch ++ after)

end Token

end SigilScript
