import SigilScript.Bracket
import SigilScript.Identifier
import SigilScript.Text.Blank
import SigilScript.Text.Search

/-!
Statements and programs. A line of a program is plain text or starts with a directive, whose name
and brackets decide what the line does to the block structure. Blank lines and comment lines are
dropped.
-/
namespace SigilScript

inductive LineKind where
  | text | directive
  | ifHead | elseIf | elseHead | endIf
  | whileHead | endWhile
  | forHead | endFor
  deriving DecidableEq, Repr

namespace LineKind

def label : LineKind → String
  | .text => "TEXT"
  | .directive => "DIRECTIVE"
  | .ifHead => "IF"
  | .elseIf => "ELSEIF"
  | .elseHead => "ELSE"
  | .endIf => "ENDIF"
  | .whileHead => "WHILE"
  | .endWhile => "ENDWHILE"
  | .forHead => "FOR"
  | .endFor => "ENDFOR"

def isOpener : LineKind → Bool
  | .ifHead | .whileHead | .forHead => true
  | _ => false

def isCloser : LineKind → Bool
  | .endIf | .endWhile | .endFor => true
  | _ => false

/-- The opener that a closer ends. -/
def opener? : LineKind → Option LineKind
  | .endIf => some .ifHead
  | .endWhile => some .whileHead
  | .endFor => some .forHead
  | _ => none

/-- The kind of a directive that only counts with brackets. -/
def ofOpening? (name : Text) : Option LineKind :=
  if name = "if" then some .ifHead
  else if name = "elseif" then some .elseIf
  else if name = "while" then some .whileHead
  else if name = "for" then some .forHead
  else none

/-- The kind of a directive that counts with and without brackets. -/
def ofClosing? (name : Text) : Option LineKind :=
  if name = "else" then some .elseHead
  else if name = "endif" then some .endIf
  else if name = "endwhile" then some .endWhile
  else if name = "endfor" then some .endFor
  else none

def ofDirective (name : Text) (bracketed : Bool) : LineKind :=
  match ofClosing? name with
  | some kind => kind
  | none => if bracketed then (ofOpening? name).getD .directive else .directive

end LineKind

/-- The directive that starts a line; `args` is missing without brackets. -/
structure Statement where
  name : Text
  args : Option Text
  trailing : Text
  deriving DecidableEq, Repr

namespace Statement

def kind (s : Statement) : LineKind := .ofDirective s.name s.args.isSome

/-- The brackets after a directive never close. -/
structure Unclosed where
  name : Text
  deriving DecidableEq, Repr

def Unclosed.message (e : Unclosed) : String :=
  s!"Missing closing bracket ']' for '§{e.name}'"

/-- Reads a line without blanks around it; a line of plain text has no statement. -/
def parse (line : Text) : Except Unclosed (Option Statement) :=
  match line with
  | [] => .ok none
  | c :: rest =>
    if c = sigil then
      match Text.takeIdentifier rest with
      | ([], _) => .ok none
      | (name, []) => .ok (some ⟨name, none, []⟩)
      | (name, d :: after) =>
        if d = '[' then
          match closingFrom 1 after with
          | none => .error ⟨name⟩
          | some n => .ok (some ⟨name, some (after.take n), Text.strip (after.drop (n + 1))⟩)
        else .ok (some ⟨name, none, Text.strip (d :: after)⟩)
    else .ok none

end Statement

/-- A place in a source file, with the statement that stands there. -/
structure Location where
  file : Text
  line : Nat
  column : Nat
  statement : Text
  deriving DecidableEq, Repr

/-- A line of a program. -/
structure Line where
  location : Location
  statement : Option Statement
  deriving DecidableEq, Repr

namespace Line

def number (l : Line) : Nat := l.location.line

def text (l : Line) : Text := l.location.statement

def kind (l : Line) : LineKind := l.statement.elim .text Statement.kind

def name (l : Line) : Text := l.statement.elim [] Statement.name

def args (l : Line) : Text := (l.statement.bind Statement.args).getD []

def trailing (l : Line) : Text := l.statement.elim [] Statement.trailing

def isOpener (l : Line) : Bool := l.kind.isOpener

def isCloser (l : Line) : Bool := l.kind.isCloser

/-- The line with the given number, unless it is blank or a comment. -/
def ofRaw? (file : Text) (number : Nat) (raw : Text) : Except Statement.Unclosed (Option Line) :=
  let stripped := raw.strip
  if stripped.isEmpty ∨ stripped.head? = some commentMark then .ok none
  else
    let column := raw.length - raw.stripStart.length + 1
    (Statement.parse stripped).map fun statement =>
      some ⟨⟨file, number, column, stripped⟩, statement⟩

end Line

/-- The lines of a program, from the line with the given number on. -/
def Program.linesFrom (file : Text) : Nat → List Text → Except Statement.Unclosed (List Line)
  | _, [] => .ok []
  | number, raw :: rest =>
    match Line.ofRaw? file number raw with
    | .error e => .error e
    | .ok line => (linesFrom file (number + 1) rest).map (line.toList ++ ·)

def Program.parse (source file : Text) : Except Statement.Unclosed (List Line) :=
  Program.linesFrom file 1 (source.splitOn '\n')

end SigilScript
