import SigilScript.Text.LetterTable

/-!
Upper and lower case of whole texts. A letter may grow (`ß` becomes `SS`). A capital sigma at the
end of a word becomes the final small sigma: a cased letter comes before it and none after it,
looking through marks and modifiers on both sides.
-/
namespace SigilScript

namespace CodePoint

def mapCase (specials : List (Nat × List Nat)) (rows : List CaseRow) (c : CodePoint) : Text :=
  match specials.lookup c.val with
  | some image => image.map ofNat
  | none => [(rows.findSome? (·.image? c.val)).elim c ofNat]

def upper (c : CodePoint) : Text := mapCase upperSpecials upperRows c

def lower (c : CodePoint) : Text := mapCase lowerSpecials lowerRows c

def isCaseIgnorable (c : CodePoint) : Bool := inRanges caseIgnorableRanges c.val

def isCased (c : CodePoint) : Bool := inRanges casedRanges c.val

end CodePoint

namespace Text

def upper (t : Text) : Text := t.flatMap CodePoint.upper

/-- The nearest code point that the sigma rule does not look through is cased. -/
def meetsCased (t : Text) : Bool :=
  match t.dropWhile CodePoint.isCaseIgnorable with
  | [] => false
  | c :: _ => c.isCased

def smallSigma (before rest : Text) : CodePoint :=
  if meetsCased before && !meetsCased rest then 'ς' else 'σ'

/-- Lower case of a text, where `before` is what comes before it, nearest first. -/
def lowerAfter (before : Text) : Text → Text
  | [] => []
  | c :: rest =>
    (if c = 'Σ' then [smallSigma before rest] else c.lower) ++ lowerAfter (c :: before) rest

def lower (t : Text) : Text := lowerAfter [] t

end Text

end SigilScript
