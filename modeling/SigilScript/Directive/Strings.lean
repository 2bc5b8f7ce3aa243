import SigilScript.Registry
import SigilScript.Text.Search

/-!
Directives on texts.
-/
namespace SigilScript.Directive

/-- A directive with one text and a text as its result. -/
def onText (f : Text → Text) : Handler := fun d args => do
  return .text (f (← d.argument args))

def upper : Handler := onText Text.upper

def lower : Handler := onText Text.lower

/-- `§trim[text]` takes out all blanks, those inside too. -/
def trim : Handler := onText Text.removeBlanks

/-- The number of code points, or of the parts between semicolons if there are any. -/
def measure (t : Text) : Nat :=
  if (';' : CodePoint) ∈ t then (t.splitOn ';').length else t.length

def len : Handler := onText fun t => toString (measure t)

/-- A directive with two texts and a truth value as its result; it is false of fewer. -/
def onTwoTexts (f : Text → Text → Bool) : Handler := fun d args => do
  match ← d.arguments args with
  | a :: b :: _ => return .text (boolString (f a b))
  | _ => return .text "false"

/-- `§contains[text; part]` -/
def contains : Handler := onTwoTexts fun t part => part.occursIn t

def equalsIgnoreCase : Handler := onTwoTexts fun a b => a.lower = b.lower

/-- `§replace[text; search; replacement]` replaces every match; nothing is replaced for an empty
search text. -/
def replace : Handler := fun d args => do
  match ← d.arguments args with
  | t :: search :: others =>
    if search.isEmpty then return .text t
    return .text (Text.replaceAll search (others.headD []) t)
  | parts =>
    Exec.error "REPLACE" s!"§replace expects [text; search; replacement], got: §replace[{args}]"
    return .text (parts.headD [])

end SigilScript.Directive
