/-!
Code points and texts. A `CodePoint` is any Unicode code point, surrogates included: a lone
surrogate cannot stand in a file, yet an escape in a JSON string can name one, so texts have to
hold it. A `Text` is a plain list of code points, and every count or position in this library is
a number of code points.
-/
namespace SigilScript

structure CodePoint where
  val : Nat
  val_lt : val < 0x110000
  deriving DecidableEq, Repr

namespace CodePoint

@[ext] theorem ext {a b : CodePoint} (h : a.val = b.val) : a = b := by
  cases a; cases b; cases h; rfl

instance : LT CodePoint := ⟨fun a b => a.val < b.val⟩

instance : DecidableLT CodePoint := fun a b => inferInstanceAs (Decidable (a.val < b.val))

instance : Inhabited CodePoint := ⟨⟨0, by decide⟩⟩

def ofChar (c : Char) : CodePoint :=
  ⟨c.toNat, by
    have h := c.valid
    rcases h with h | ⟨_, h⟩
    · exact Nat.lt_trans h (by decide)
    · exact h⟩

instance : Coe Char CodePoint := ⟨ofChar⟩

@[simp] theorem ofChar_val (c : Char) : (ofChar c).val = c.toNat := rfl

@[simp] theorem ofChar_inj {a b : Char} : ofChar a = ofChar b ↔ a = b := by
  constructor
  · intro h
    have hv : a.toNat = b.toNat := congrArg CodePoint.val h
    exact Char.ext (UInt32.toNat_inj.mp hv)
  · rintro rfl; rfl

/-- The point with the given number; numbers out of range give U+FFFD. -/
def ofNat (n : Nat) : CodePoint :=
  if h : n < 0x110000 then ⟨n, h⟩ else ⟨0xfffd, by decide⟩

def isSurrogate (c : CodePoint) : Bool :=
  0xd800 ≤ c.val && c.val ≤ 0xdfff

/-- The character to print; a lone surrogate has none and is shown as U+FFFD. -/
def toChar (c : CodePoint) : Char :=
  if c.isSurrogate then Char.ofNat 0xfffd else Char.ofNat c.val

end CodePoint

abbrev Text := List CodePoint

namespace Text

def ofString (s : String) : Text := s.toList.map CodePoint.ofChar

instance : Coe String Text := ⟨ofString⟩

def toString (t : Text) : String := String.ofList (t.map CodePoint.toChar)

instance : ToString Text := ⟨Text.toString⟩

end Text

/-- Membership in a table of closed ranges, sorted upwards. -/
def inRanges : List (Nat × Nat) → Nat → Bool
  | [], _ => false
  | (low, high) :: rest, n => if n < low then false else if n ≤ high then true else inRanges rest n

end SigilScript
