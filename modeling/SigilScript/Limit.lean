/-!
Limits of the language that are not part of any one grammar.
-/
namespace SigilScript

/-- Nested input is followed this many levels down; below that every reader and the evaluator give
up with `recursionMessage`. -/
def maxRecursion : Nat := 1000

def recursionMessage : String := "maximum recursion depth exceeded"

end SigilScript
