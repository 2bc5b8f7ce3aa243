import SigilScript.Json.Basic
import SigilScript.Number.Notation
import SigilScript.Text.Quoted

/-!
Writing JSON. A `Style` says whether everything stands on one line without blanks or each item on a
line of its own, indented by two blanks a level, and whether code points outside ASCII are escaped.
-/
namespace SigilScript

namespace Json

structure Style where
  indented : Bool
  asciiOnly : Bool
  deriving DecidableEq, Repr

/-- One line, and every code point as itself. -/
def compactStyle : Style := ⟨false, false⟩

/-- A line an item, and every code point as itself. -/
def fileStyle : Style := ⟨true, false⟩

/-- A line an item, with escapes outside ASCII. -/
def reportStyle : Style := ⟨true, true⟩

def unicodeEscape (n : Nat) : Text := Text.ofString (String.ofList ('\\' :: 'u' :: hexDigits 4 n))

def escapePoint (style : Style) (c : CodePoint) : Text :=
  if c = '"' then "\\\""
  else if c = '\\' then "\\\\"
  else if c = '\n' then "\\n"
  else if c = '\r' then "\\r"
  else if c = '\t' then "\\t"
  else if c = '\x0c' then "\\f"
  else if c = '\x08' then "\\b"
  else if c.val < 0x20 then unicodeEscape c.val
  else if style.asciiOnly ∧ 0x7f ≤ c.val then
    if c.val < 0x10000 then unicodeEscape c.val
    else
      let n := c.val - 0x10000
      unicodeEscape (0xd800 + n / 1024) ++ unicodeEscape (0xdc00 + n % 1024)
  else [c]

def writeString (style : Style) (t : Text) : Text :=
  ('"' : CodePoint) :: t.flatMap (escapePoint style) ++ [('"' : CodePoint)]

def writeNumber (x : Binary64) : Text := if x.isFinite then x.render else x.format

/-- The end of a line and the indentation of the next one. -/
def lineBreak (style : Style) (depth : Nat) : Text :=
  if style.indented then ('\n' : CodePoint) :: List.replicate (2 * depth) ' ' else []

def colon (style : Style) : Text := if style.indented then ": " else ":"

mutual

/-- The text of a document whose first line is indented by `depth` levels. -/
def write (style : Style) (depth : Nat) : Json → Text
  | .null => "null"
  | .bool true => "true"
  | .bool false => "false"
  | .integer n => toString n
  | .number x => writeNumber x
  | .string t => writeString style t
  | .array [] => "[]"
  | .array (item :: items) =>
    ('[' : CodePoint) :: lineBreak style (depth + 1) ++ write style (depth + 1) item ++
      writeItems style (depth + 1) items ++ lineBreak style depth ++ [(']' : CodePoint)]
  | .object [] => "\x7b\x7d"
  | .object ((name, value) :: members) =>
    ('{' : CodePoint) :: lineBreak style (depth + 1) ++ writeString style name ++ colon style ++
      write style (depth + 1) value ++ writeMembers style (depth + 1) members ++
      lineBreak style depth ++ [('}' : CodePoint)]

def writeItems (style : Style) (depth : Nat) : List Json → Text
  | [] => []
  | item :: items =>
    (',' : CodePoint) :: lineBreak style depth ++ write style depth item ++
      writeItems style depth items

def writeMembers (style : Style) (depth : Nat) : List (Text × Json) → Text
  | [] => []
  | (name, value) :: members =>
    (',' : CodePoint) :: lineBreak style depth ++ writeString style name ++ colon style ++
      write style depth value ++ writeMembers style depth members

end

def render (style : Style) (document : Json) : Text := write style 0 document

/-- The document on one line. -/
def compact (document : Json) : Text := document.render compactStyle

end Json

end SigilScript
