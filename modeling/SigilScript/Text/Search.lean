import SigilScript.Text.CodePoint

/-!
Finding, cutting and replacing inside texts, each by one pass from the left.
-/
namespace SigilScript.Text

/-- The pieces between the separators; there is always one piece more than separators. -/
def splitOn (sep : CodePoint) : Text → List Text
  | [] => [[]]
  | c :: rest =>
    match splitOn sep rest with
    | [] => [[]]
    | piece :: pieces => if c = sep then [] :: piece :: pieces else (c :: piece) :: pieces

theorem splitOn_ne_nil (sep : CodePoint) (t : Text) : splitOn sep t ≠ [] := by
  induction t with
  | nil => simp [splitOn]
  | cons c rest ih =>
    simp only [splitOn]
    split
    · simp
    · split <;> simp

def join (sep : Text) (pieces : List Text) : Text := List.intercalate sep pieces

def occursIn (needle : Text) : Text → Bool
  | [] => needle.isEmpty
  | c :: rest => needle.isPrefixOf (c :: rest) || occursIn needle rest

/-- Replaces the matches of `search` from the left, none overlapping another; `skip` counts the
code points of a match that are still to be passed over. -/
def replaceFrom (search replacement : Text) : Nat → Text → Text
  | _, [] => []
  | skip + 1, _ :: rest => replaceFrom search replacement skip rest
  | 0, c :: rest =>
    if search.isPrefixOf (c :: rest) then
      replacement ++ replaceFrom search replacement (search.length - 1) rest
    else c :: replaceFrom search replacement 0 rest

/-- Replaces every match of a search text that is not empty. -/
def replaceAll (search replacement t : Text) : Text := replaceFrom search replacement 0 t

/-- Replaces the first match of a search text that is not empty. -/
def replaceFirst (search replacement : Text) : Text → Text
  | [] => []
  | c :: rest =>
    if search.isPrefixOf (c :: rest) then replacement ++ (c :: rest).drop search.length
    else c :: replaceFirst search replacement rest

/-- Order by code points, the shorter of two first where one starts the other. -/
def le (a b : Text) : Bool := !decide (b < a)

def sort (ts : List Text) : List Text := ts.mergeSort le

end SigilScript.Text
