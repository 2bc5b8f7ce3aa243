import SigilScript.Json.Basic
import SigilScript.Identifier
import SigilScript.Limit

/-!
Reading JSON. The reader accepts the standard grammar and the numbers `NaN`, `Infinity` and
`-Infinity`. An escape may name a lone surrogate. Each reading function takes the text that is left
and gives back what is left after it; a refusal carries the number of code points that were left at
the fault, from which its place in the whole text follows.
-/
namespace SigilScript

namespace Json

inductive Fault where
  | byteOrderMark | value | extraData | name | colon | comma
  | unterminated | controlCharacter | badEscape | badUnicodeEscape
  deriving DecidableEq, Repr

def Fault.message : Fault → String
  | .byteOrderMark => "Unexpected UTF-8 BOM (decode using utf-8-sig)"
  | .value => "Expecting value"
  | .extraData => "Extra data"
  | .name => "Expecting property name enclosed in double quotes"
  | .colon => "Expecting ':' delimiter"
  | .comma => "Expecting ',' delimiter"
  | .unterminated => "Unterminated string starting at"
  | .controlCharacter => "Invalid control character at"
  | .badEscape => "Invalid \\escape"
  | .badUnicodeEscape => "Invalid \\uXXXX escape"

/-- A refusal while reading: a fault with so many code points left, an integer with too many
digits, or too many levels of nesting. -/
inductive Refusal where
  | fault (fault : Fault) (left : Nat)
  | tooManyDigits (count : Nat)
  | recursionLimit
  deriving DecidableEq, Repr

def isSpace (c : CodePoint) : Bool := c = ' ' || c = '\t' || c = '\n' || c = '\r'

def skipSpace (t : Text) : Text := t.dropWhile isSpace

def hexValue? (c : CodePoint) : Option Nat :=
  if 48 ≤ c.val ∧ c.val ≤ 57 then some (c.val - 48)
  else if 97 ≤ c.val ∧ c.val ≤ 102 then some (c.val - 87)
  else if 65 ≤ c.val ∧ c.val ≤ 70 then some (c.val - 55)
  else none

/-- The number that four hexadecimal digits at the start of a text make; at least one more code
point has to follow them. -/
def hexQuad? : Text → Option Nat
  | a :: b :: c :: d :: _ :: _ => do
    let a ← hexValue? a
    let b ← hexValue? b
    let c ← hexValue? c
    let d ← hexValue? d
    return ((a * 16 + b) * 16 + c) * 16 + d
  | _ => none

def simpleEscape? (c : CodePoint) : Option CodePoint :=
  if c = '"' ∨ c = '\\' ∨ c = '/' then some c
  else if c = 'b' then some ('\x08' : CodePoint)
  else if c = 'f' then some ('\x0c' : CodePoint)
  else if c = 'n' then some ('\n' : CodePoint)
  else if c = 'r' then some ('\r' : CodePoint)
  else if c = 't' then some ('\t' : CodePoint)
  else none

/-- What follows the four digits of a high surrogate: the low surrogate of an escape that stands
there, if it is one. -/
inductive Pairing where
  | alone
  | low (value : Nat)
  | bad
  deriving DecidableEq, Repr

def pairing (rest : Text) : Pairing :=
  match rest with
  | a :: b :: digits =>
    if 6 < rest.length ∧ a = '\\' ∧ b = 'u' then
      match hexQuad? digits with
      | none => .bad
      | some n => if 0xdc00 ≤ n ∧ n ≤ 0xdfff then .low n else .alone
    else .alone
  | _ => .alone

/-- Reads a string after its opening quote, with `start` code points left at that quote. -/
def readString (start : Nat) (t : Text) : Except Refusal (Text × Text) :=
  match t with
  | [] => .error (.fault .unterminated start)
  | c :: rest =>
    if c = '"' then .ok ([], rest)
    else if c = '\\' then
      match rest with
      | [] => .error (.fault .unterminated start)
      | e :: after =>
        if e = 'u' then
          match hexQuad? after with
          | none => .error (.fault .badUnicodeEscape (after.length + 1))
          | some n =>
            let high := 0xd800 ≤ n && n ≤ 0xdbff
            match if high then pairing (after.drop 4) else .alone with
            | .bad => .error (.fault .badUnicodeEscape ((after.drop 4).length - 1))
            | .low m =>
              let point := CodePoint.ofNat (0x10000 + (n - 0xd800) * 1024 + (m - 0xdc00))
              (readString start (after.drop 10)).map fun (value, rest) => (point :: value, rest)
            | .alone =>
              (readString start (after.drop 4)).map fun (value, rest) =>
                (CodePoint.ofNat n :: value, rest)
        else
          match simpleEscape? e with
          | none => .error (.fault .badEscape t.length)
          | some point =>
            (readString start after).map fun (value, rest) => (point :: value, rest)
    else if c.val < 0x20 then .error (.fault .controlCharacter t.length)
    else (readString start rest).map fun (value, rest) => (c :: value, rest)
termination_by t.length
decreasing_by all_goals simp only [List.length_cons, List.length_drop]; omega

def digitValues (t : Text) : List Nat := t.map fun c => c.val - 48

/-- The digits of a whole number at the start of a text: a zero alone, or any that do not start
with zero. -/
def takeWhole? (t : Text) : Option (List Nat × Text) :=
  match t with
  | [] => none
  | c :: rest =>
    if c = '0' then some ([0], rest)
    else if c.isAsciiDigit then
      some (digitValues (t.takeWhile CodePoint.isAsciiDigit), t.dropWhile CodePoint.isAsciiDigit)
    else none

/-- A point with at least one digit after it. -/
def takeFraction? (t : Text) : Option (List Nat × Text) :=
  match t with
  | [] => none
  | c :: rest =>
    let digits := rest.takeWhile CodePoint.isAsciiDigit
    if c = '.' ∧ digits ≠ [] then
      some (digitValues digits, rest.dropWhile CodePoint.isAsciiDigit)
    else none

/-- An exponent with at least one digit. -/
def takeExponent? (t : Text) : Option (Int × Text) :=
  match t with
  | [] => none
  | c :: rest =>
    let (negative, rest) := takeSign rest
    let digits := rest.takeWhile CodePoint.isAsciiDigit
    if (c = 'e' ∨ c = 'E') ∧ digits ≠ [] then
      let n : Int := ofDigits (digitValues digits)
      some (if negative then -n else n, rest.dropWhile CodePoint.isAsciiDigit)
    else none

/-- A number without a fraction and an exponent is a whole number. -/
def readNumber (t : Text) : Except Refusal (Json × Text) :=
  let (negative, unsigned) :=
    match t with
    | c :: rest => if c = '-' then (true, rest) else (false, t)
    | [] => (false, t)
  match takeWhole? unsigned with
  | none => .error (.fault .value t.length)
  | some (whole, rest) =>
    let fraction := takeFraction? rest
    let rest := fraction.elim rest Prod.snd
    let exponent := takeExponent? rest
    let rest := exponent.elim rest Prod.snd
    if fraction.isNone ∧ exponent.isNone then
      if IntegerNumeral.maxDigits < whole.length then .error (.tooManyDigits whole.length)
      else .ok (.integer (IntegerNumeral.value ⟨negative, whole⟩), rest)
    else
      let numeral : Numeral :=
        ⟨negative, whole, fraction.elim [] Prod.fst, exponent.elim 0 Prod.fst⟩
      .ok (.number numeral.value, rest)

def literals : List (Text × Json) :=
  [("null", .null), ("true", .bool true), ("false", .bool false), ("NaN", .number .nan),
    ("Infinity", .number (.infinite false)), ("-Infinity", .number (.infinite true))]

def readScalar (t : Text) : Except Refusal (Json × Text) :=
  match literals.find? fun (word, _) => word.isPrefixOf t with
  | some (word, value) => .ok (value, t.drop word.length)
  | none => readNumber t

/-- After an item: the rest if the closing mark stands there, or what follows a comma. -/
def afterItem (close : CodePoint) (t : Text) : Except Refusal (Bool × Text) :=
  match skipSpace t with
  | [] => .error (.fault .comma 0)
  | c :: rest =>
    if c = close then .ok (true, rest)
    else if c = ',' then .ok (false, skipSpace rest)
    else .error (.fault .comma (rest.length + 1))

/-- Reads items with commas between them, up to the closing bracket; there is at least one. Each
item takes a code point, so `fuel` at least the length of the text suffices. -/
def readItems (read : Text → Except Refusal (Json × Text)) : Nat → Text → Except Refusal (List Json × Text)
  | 0, t => .error (.fault .value t.length)
  | fuel + 1, t => do
    let (item, rest) ← read t
    let (closed, rest) ← afterItem ']' rest
    if closed then return ([item], rest)
    let (items, rest) ← readItems read fuel rest
    return (item :: items, rest)

/-- A name in quotes, a colon, and what follows it. -/
def readName (t : Text) : Except Refusal (Text × Text) :=
  match t with
  | [] => .error (.fault .name 0)
  | c :: rest => do
    if c ≠ '"' then throw (.fault .name t.length)
    let (name, rest) ← readString t.length rest
    match skipSpace rest with
    | [] => throw (.fault .colon 0)
    | d :: after =>
      if d ≠ ':' then throw (.fault .colon (after.length + 1))
      return (name, skipSpace after)

def readMembers (read : Text → Except Refusal (Json × Text)) : Nat → Text → Except Refusal (List (Text × Json) × Text)
  | 0, t => .error (.fault .name t.length)
  | fuel + 1, t => do
    let (name, rest) ← readName t
    let (value, rest) ← read rest
    let (closed, rest) ← afterItem '}' rest
    if closed then return ([(name, value)], rest)
    let (members, rest) ← readMembers read fuel rest
    return ((name, value) :: members, rest)

/-- What is inside brackets: nothing if the closing one follows, or else what `read` reads. -/
def readInside {α : Type} (close : CodePoint) (none : α) (read : Nat → Text → Except Refusal (α × Text))
    (t : Text) : Except Refusal (α × Text) :=
  match skipSpace t with
  | [] => read 1 []
  | c :: rest =>
    if c = close then .ok (none, rest) else read (rest.length + 2) (c :: rest)

/-- Reads a value that starts here, with at most `levels` levels of brackets. -/
def readValue : Nat → Text → Except Refusal (Json × Text)
  | _, [] => .error (.fault .value 0)
  | levels, c :: rest =>
    if c = '"' then (readString (rest.length + 1) rest).map fun (s, rest) => (.string s, rest)
    else if c = '[' then
      match levels with
      | 0 => .error .recursionLimit
      | levels + 1 =>
        (readInside ']' [] (readItems (readValue levels)) rest).map fun (items, rest) =>
          (.array items, rest)
    else if c = '{' then
      match levels with
      | 0 => .error .recursionLimit
      | levels + 1 =>
        (readInside '}' [] (readMembers (readValue levels)) rest).map fun (members, rest) =>
          (ofMembers members, rest)
    else readScalar (c :: rest)

def readDocument (t : Text) : Except Refusal Json := do
  if t.head? = some (CodePoint.ofNat 0xfeff) then throw (.fault .byteOrderMark t.length)
  let (value, rest) ← readValue maxRecursion (skipSpace t)
  match skipSpace rest with
  | [] => return value
  | rest => throw (.fault .extraData rest.length)

inductive ReadError where
  | malformed (fault : Fault) (line column index : Nat)
  | tooManyDigits (count : Nat)
  | recursionLimit
  deriving DecidableEq, Repr

def ReadError.message : ReadError → String
  | .malformed fault line column index =>
    s!"{fault.message}: line {line} column {column} (char {index})"
  | .tooManyDigits count => (IntegerError.tooManyDigits count).message
  | .recursionLimit => recursionMessage

/-- The refusal, with its place in the whole text. -/
def Refusal.locate (t : Text) : Refusal → ReadError
  | .fault f left =>
    let before := t.take (t.length - left)
    let column := (before.reverse.takeWhile fun c : CodePoint => c ≠ '\n').length + 1
    .malformed f (before.count ('\n' : CodePoint) + 1) column before.length
  | .tooManyDigits count => .tooManyDigits count
  | .recursionLimit => .recursionLimit

/-- The document that a text is. -/
def parse (t : Text) : Except ReadError Json := (readDocument t).mapError (Refusal.locate t)

end Json

end SigilScript
