import SigilScript.Text.CodePoint

/-!
Blanks: white space, line and paragraph separators, and the information separators U+001C to
U+001F. The zero-width space and the byte order mark are not among them.
-/
namespace SigilScript

def blankRanges : List (Nat × Nat) :=
  [(0x9, 0xd), (0x1c, 0x20), (0x85, 0x85), (0xa0, 0xa0), (0x1680, 0x1680), (0x2000, 0x200a),
   (0x2028, 0x2029), (0x202f, 0x202f), (0x205f, 0x205f), (0x3000, 0x3000)]

def CodePoint.isBlank (c : CodePoint) : Bool :=
  inRanges blankRanges c.val

/-- A blank that is not an information separator. -/
def CodePoint.isMargin (c : CodePoint) : Bool :=
  c.isBlank && !(0x1c ≤ c.val && c.val ≤ 0x1f)

namespace Text

def stripStart (t : Text) : Text := t.dropWhile CodePoint.isBlank

def stripEnd (t : Text) : Text := (t.reverse.dropWhile CodePoint.isBlank).reverse

def strip (t : Text) : Text := stripEnd (stripStart t)

/-- Without any blank, inside or at the ends. -/
def removeBlanks (t : Text) : Text := t.filter fun c => !c.isBlank

end Text

end SigilScript
