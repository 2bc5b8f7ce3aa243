import SigilScript.Json.Reader
import SigilScript.Plugin

/-!
The plugins that come with the language: greetings, and styles for a terminal.
-/
namespace SigilScript.Bundled

/-- `§greet[name]` -/
def greet : Handler := fun d args => do
  let name ← d.argument args
  let name : Text := if name.isEmpty then "World" else name
  return .text ("Hello " ++ name ++ [('!' : CodePoint)])

/-- `§countProperties[json]` is the number of members of an object; anything else has none. -/
def countProperties : Handler := fun d args => do
  match Json.parse (← d.argument args) with
  | .error .recursionLimit => Exec.fail (.json .recursionLimit)
  | .error e =>
    Exec.error "COUNTPROPERTIES" s!"Invalid JSON: {e.message}"
    return .text "0"
  | .ok (.object members) => return .text (toString members.length)
  | .ok _ => return .text "0"

def greeting : Module where
  name := some (.text "greeting")
  version := some (.text "1.0.0")
  description := some (.text "Greeting and JSON property helpers")
  author := some (.text "Sigla contributors")
  api := some (.integer supportedApi)
  functions := .given [("greet", some greet), ("countProperties", some countProperties)]
  registrations := .missing

def resetCode : Text := "\x1b[0m"

/-- Puts a text between the code of a style and the code that ends it. -/
def styled (code : Text) : Handler := fun d args => do
  let t ← d.argument args
  return .text (code ++ t ++ resetCode)

def color : Module where
  name := some (.text "color")
  version := some (.text "1.0.0")
  description := some (.text "ANSI colour and weight for terminal output")
  author := none
  api := some (.integer supportedApi)
  functions := .missing
  registrations := .given [("red", some (styled "\x1b[31m")), ("green", some (styled "\x1b[32m")),
    ("bold", some (styled "\x1b[1m"))]

/-- The bundled modules by the stem of their file name. -/
def catalog : Catalog := fun path =>
  let stem := ((path.parts.getLastD []).splitOn '.').headD []
  if stem = "greeting" then some (.module greeting)
  else if stem = "color" then some (.module color)
  else none

end SigilScript.Bundled
