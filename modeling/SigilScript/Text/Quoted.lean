import SigilScript.Text.Printable

/-!
Quoted texts, as messages show them: between single quotes, or between double quotes when the text
has a single quote and no double quote. A backslash and the quote itself are escaped, and so is
everything that is not printable.
-/
namespace SigilScript

def hexDigit (n : Nat) : Char :=
  if n < 10 then Char.ofNat (48 + n) else Char.ofNat (87 + n)

/-- The lowest `width` hexadecimal digits, in small letters. -/
def hexDigits : Nat → Nat → List Char
  | 0, _ => []
  | width + 1, n => hexDigits width (n / 16) ++ [hexDigit (n % 16)]

namespace CodePoint

/-- Numeric escape of the least width that fits: `\xNN`, `\uNNNN` or `\UNNNNNNNN`. -/
def escape (c : CodePoint) : String :=
  if c.val < 0x100 then String.ofList ('\\' :: 'x' :: hexDigits 2 c.val)
  else if c.val < 0x10000 then String.ofList ('\\' :: 'u' :: hexDigits 4 c.val)
  else String.ofList ('\\' :: 'U' :: hexDigits 8 c.val)

def quotedIn (quote : Char) (c : CodePoint) : String :=
  if c = '\\' then "\\\\"
  else if c = quote then String.ofList ['\\', quote]
  else if c = '\t' then "\\t"
  else if c = '\n' then "\\n"
  else if c = '\r' then "\\r"
  else if c.isPrintable then String.singleton c.toChar
  else c.escape

end CodePoint

namespace Text

def quoteMark (t : Text) : Char :=
  if ('\'' : CodePoint) ∈ t ∧ ('"' : CodePoint) ∉ t then '"' else '\''

def quoted (t : Text) : String :=
  let quote := quoteMark t
  quote.toString ++ String.join (t.map (CodePoint.quotedIn quote)) ++ quote.toString

end Text

end SigilScript
