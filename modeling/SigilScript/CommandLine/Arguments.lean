import SigilScript.Inclusion
import SigilScript.Number.Numeral

/-!
Arguments of the command line. Each word is first told apart: a value, the separator after which
all words are values, or an option, which may be shortened as long as it is clear. Then the words
are read from left to right; the first value is the program.
-/
namespace SigilScript.CommandLine

inductive Setting where
  | help | source | debug | extension | tokens | check | policy | seed | tracebackJson | plugins
  deriving DecidableEq, Repr

namespace Setting

def all : List Setting :=
  [.help, .source, .debug, .extension, .tokens, .check, .policy, .seed, .tracebackJson, .plugins]

def spellings : Setting → List Text
  | .help => ["-h", "--help"]
  | .source => ["-source", "--source"]
  | .debug => ["-debug", "--debug"]
  | .extension => ["-ext", "--ext"]
  | .tokens => ["--tokens"]
  | .check => ["--check"]
  | .policy => ["--require-policy"]
  | .seed => ["--seed"]
  | .tracebackJson => ["--traceback-json"]
  | .plugins => ["--plugins"]

def takesValue : Setting → Bool
  | .extension | .policy | .seed => true
  | _ => false

def title (s : Setting) : Text := Text.join "/" s.spellings

/-- All spellings in order, each with its setting. -/
def table : List (Text × Setting) := all.flatMap fun s => s.spellings.map fun t => (t, s)

end Setting

inductive UsageError where
  | ambiguous (word : Text) (matching : List Text)
  | noValue (setting : Setting)
  | unexpectedValue (setting : Setting) (value : Text)
  | badSeed (value : Text)
  | badPolicy (value : Text)
  | unrecognized (words : List Text)
  | noProgram
  deriving DecidableEq, Repr

def UsageError.message : UsageError → String
  | .ambiguous word matching =>
    let shown := Text.join ", " matching
    s!"ambiguous option: {word} could match {shown}"
  | .noValue s => s!"argument {s.title}: expected one argument"
  | .unexpectedValue s value => s!"argument {s.title}: ignored explicit argument {value.quoted}"
  | .badSeed value => s!"argument {Setting.seed.title}: invalid int value: {value.quoted}"
  | .badPolicy value =>
    let known := ", ".intercalate (Inclusion.Policy.all.map fun p => (p.label : Text).quoted)
    s!"argument {Setting.policy.title}: invalid choice: {value.quoted} (choose from {known})"
  | .unrecognized words =>
    let shown := Text.join " " words
    s!"unrecognized arguments: {shown}"
  | .noProgram => "the following arguments are required: program"

/-! Words -/

/-- A use of an option: the spelling that was meant, and the value that is attached to it. -/
structure OptionUse where
  spelling : Text
  setting : Setting
  attached : Option Text
  deriving DecidableEq, Repr

inductive Word where
  | value (t : Text)
  | separator
  | option (use : OptionUse)
  | unknown (t : Text)
  deriving DecidableEq, Repr

def dash : CodePoint := '-'

def separatorText : Text := "--"

/-- The parts of a word around its first equals sign. -/
def splitEquals (t : Text) : Option (Text × Text) :=
  match t.dropWhile (fun c : CodePoint => c ≠ '=') with
  | [] => none
  | _ :: value => some (t.takeWhile (fun c : CodePoint => c ≠ '='), value)

/-- The option that a word spells out. -/
def exactUse (t : Text) : Option OptionUse :=
  match Setting.table.lookup t with
  | some s => some ⟨t, s, none⟩
  | none =>
    match splitEquals t with
    | none => none
    | some (spelling, value) =>
      (Setting.table.lookup spelling).map fun s => ⟨spelling, s, some value⟩

/-- The options that a word may be short for. After one dash also a letter with a value attached
counts. -/
def possibleUses (t : Text) : List OptionUse :=
  if separatorText.isPrefixOf t then
    let (start, attached) := match splitEquals t with
      | some (start, value) => (start, some value)
      | none => (t, none)
    (Setting.table.filter fun (spelling, _) => start.isPrefixOf spelling).map
      fun (spelling, s) => ⟨spelling, s, attached⟩
  else
    Setting.table.filterMap fun (spelling, s) =>
      if spelling = t.take 2 then some ⟨spelling, s, some (t.drop 2)⟩
      else if t.isPrefixOf spelling then some ⟨spelling, s, none⟩
      else none

/-- A text without the line feed that may end it. -/
def chomp (t : Text) : Text :=
  if t.getLast? = some ('\n' : CodePoint) then t.dropLast else t

/-- A minus, digits, and perhaps a point before the last of them; a line feed may follow. -/
def isNegativeNumber (t : Text) : Bool :=
  match chomp t with
  | [] => false
  | c :: rest =>
    let whole := List.takeWhile CodePoint.isDecimal rest
    c = dash &&
      match List.dropWhile CodePoint.isDecimal rest with
      | [] => !whole.isEmpty
      | d :: fraction => d = '.' && !fraction.isEmpty && List.all fraction CodePoint.isDecimal

/-- Tells a word apart. -/
def Word.of (t : Text) : Except UsageError Word :=
  if t.head? ≠ some dash then .ok (.value t)
  else
    match exactUse t with
    | some use => .ok (.option use)
    | none =>
      if t.length = 1 then .ok (.value t)
      else
        match possibleUses t with
        | [use] => .ok (.option use)
        | use :: other :: more => .error (.ambiguous t ((use :: other :: more).map (·.spelling)))
        | [] =>
          if isNegativeNumber t || (' ' : CodePoint) ∈ t then .ok (.value t) else .ok (.unknown t)

def words : List Text → Except UsageError (List Word)
  | [] => .ok []
  | t :: rest =>
    if t = separatorText then .ok (.separator :: rest.map .value)
    else do
      let first ← Word.of t
      return first :: (← words rest)

/-! Reading -/

structure Arguments where
  program : Option Text
  literal : Bool
  debug : Bool
  extensions : List Text
  tokens : Bool
  check : Bool
  policy : Inclusion.Policy
  seed : Option Int
  tracebackJson : Bool
  plugins : Bool
  deriving Repr

def Arguments.default : Arguments :=
  ⟨none, false, false, [], false, false, .skip, none, false, false⟩

/-- Help was asked for, or the words are wrong. -/
inductive Refusal where
  | help
  | usage (error : UsageError)
  deriving DecidableEq, Repr

def commandName : String := "sigla"

def Refusal.message : Refusal → String
  | .help =>
    let known := " ".intercalate (Setting.all.map fun s => s!"[{s.title}]")
    s!"usage: {commandName} {known} [program]"
  | .usage e => s!"{commandName}: error: {e.message}"

/-- The code that a refused call ends with. -/
def Refusal.code : Refusal → UInt32
  | .help => 0
  | .usage _ => 2

/-- Switches on an option that takes no value. -/
def Arguments.switch (a : Arguments) : Setting → Except Refusal Arguments
  | .help => .error .help
  | .source => .ok { a with literal := true }
  | .debug => .ok { a with debug := true }
  | .tokens => .ok { a with tokens := true }
  | .check => .ok { a with check := true }
  | .tracebackJson => .ok { a with tracebackJson := true }
  | .plugins => .ok { a with plugins := true }
  | .extension | .policy | .seed => .ok a

/-- Gives an option its value. -/
def Arguments.assign (a : Arguments) (s : Setting) (value : Text) : Except Refusal Arguments :=
  match s with
  | .extension => .ok { a with extensions := a.extensions ++ [value] }
  | .policy =>
    match Inclusion.Policy.ofText? value with
    | none => .error (.usage (.badPolicy value))
    | some policy => .ok { a with policy }
  | .seed =>
    match value.toInteger with
    | .error _ => .error (.usage (.badSeed value))
    | .ok seed => .ok { a with seed := some seed }
  | _ => .ok a

/-- What a value attached to an option without one leads to: after one dash, a further letter `h`
still asks for help. -/
def attachedSwitch (s : Setting) : Text → Except Refusal Unit
  | [] => if s = .help then .error .help else .ok ()
  | c :: rest =>
    if c = 'h' then attachedSwitch .help rest
    else .error (.usage (.unexpectedValue s (c :: rest)))

/-- One dash starts the spelling. -/
def isShort (spelling : Text) : Bool := !separatorText.isPrefixOf spelling

/-- Uses an option; it may take the next word as its value. -/
def Arguments.use (a : Arguments) (use : OptionUse) (rest : List Word) :
    Except Refusal (Arguments × List Word) :=
  if use.setting.takesValue then
    match use.attached, rest with
    | some value, rest => (a.assign use.setting value).map fun a => (a, rest)
    | none, .value t :: rest => (a.assign use.setting t).map fun a => (a, rest)
    | none, _ => .error (.usage (.noValue use.setting))
  else
    match use.attached with
    | none => (a.switch use.setting).map fun a => (a, rest)
    | some value =>
      if isShort use.spelling && !value.isEmpty then do
        attachedSwitch use.setting value
        return (← a.switch use.setting, rest)
      else .error (.usage (.unexpectedValue use.setting value))

theorem use_length {a b : Arguments} {use : OptionUse} {rest after : List Word}
    (h : a.use use rest = .ok (b, after)) : after.length ≤ rest.length := by
  have mapped : ∀ {x : Except Refusal Arguments} {l : List Word},
      x.map (fun a => (a, l)) = .ok (b, after) → after = l := by
    intro x l hx
    cases x with
    | error e => simp [Except.map] at hx
    | ok c =>
      simp only [Except.map, Except.ok.injEq, Prod.mk.injEq] at hx
      exact hx.2.symm
  unfold Arguments.use at h
  split at h
  · split at h
    · exact Nat.le_of_eq (congrArg List.length (mapped h))
    · have := congrArg List.length (mapped h)
      simp only [List.length_cons]
      omega
    · simp at h
  · split at h
    · exact Nat.le_of_eq (congrArg List.length (mapped h))
    · split at h
      · simp only [bind, Except.bind, pure, Except.pure] at h
        split at h
        · simp at h
        · split at h
          · simp at h
          · simp only [Except.ok.injEq, Prod.mk.injEq] at h
            exact Nat.le_of_eq (congrArg List.length h.2.symm)
      · simp at h

/-- Whether the program has been read, and whether by the word before. -/
inductive Place where
  | before | at | after
  deriving DecidableEq, Repr

/-- Reads words; `extra` collects those that have no place. A separator next to the program
belongs to it. -/
def readWords (a : Arguments) (place : Place) (extra : List Text) (ws : List Word) :
    Except Refusal (Arguments × List Text) :=
  match ws with
  | [] => .ok (a, extra)
  | .value t :: rest =>
    if place = .before then readWords { a with program := some t } .at extra rest
    else readWords a .after (extra ++ [t]) rest
  | .separator :: rest =>
    if place = .after then readWords a .after (extra ++ [separatorText]) rest
    else if place = .at then readWords a .after extra rest
    else readWords a .before extra rest
  | .unknown t :: rest =>
    readWords a (if place = .before then .before else .after) (extra ++ [t]) rest
  | .option use :: rest =>
    match h : a.use use rest with
    | .error e => .error e
    | .ok (a, after) =>
      have _hlt := use_length h
      readWords a (if place = .before then .before else .after) extra after
termination_by ws.length
decreasing_by all_goals simp only [List.length_cons]; omega

/-- Reads the arguments of a command line. -/
def Arguments.read (argv : List Text) : Except Refusal Arguments :=
  match words argv with
  | .error e => .error (.usage e)
  | .ok ws =>
    match readWords .default .before [] ws with
    | .error e => .error e
    | .ok (a, []) => .ok a
    | .ok (_, extra) => .error (.usage (.unrecognized extra))

end SigilScript.CommandLine
