import SigilScript.Directive.Table
import SigilScript.Files.Tree

/-!
Plugins: named sets of directives that modules declare. A `Module` is what a module file declares,
right or wrong; a `Plugin` is one whose declarations were accepted. The directives of a plugin win
over those of the language, and those of a later plugin over those of an earlier one.
-/
namespace SigilScript

/-- A simple value that a module declares. -/
inductive Scalar where
  | null
  | bool (b : Bool)
  | integer (n : Int)
  | number (x : Binary64)
  | text (t : Text)
  deriving DecidableEq

namespace Scalar

def spelling : Scalar → Text
  | .null => "None"
  | .bool true => "True"
  | .bool false => "False"
  | .integer n => toString n
  | .number x => x.render
  | .text t => t

/-- A value as it stands in a message about itself; only a text is quoted. -/
def quoted : Scalar → String
  | .text t => t.quoted
  | other => other.spelling.toString

/-- The value is the number `n`, true counting as one and false as zero. -/
def isNumber (n : Int) : Scalar → Bool
  | .null | .text _ => false
  | .bool b => n = if b then 1 else 0
  | .integer m => m = n
  | .number x => x.equals (.ofInt n)

end Scalar

/-- A part of a module: left out, of a wrong kind, or given. -/
inductive Part (α : Type) where
  | missing
  | wrong
  | given (value : α)

/-- What a module declares. Of the handlers, a missing one stands for something that is not a
handler. The registrations are made one after the other, after those of the functions. -/
structure Module where
  name : Option Scalar
  version : Option Scalar
  description : Option Scalar
  author : Option Scalar
  api : Option Scalar
  functions : Part (List (Text × Option Handler))
  registrations : Part (List (Text × Option Handler))

structure Plugin where
  name : Text
  version : Text
  description : Text
  author : Text
  api : Scalar
  path : Option AbsolutePath
  functions : List (Text × Handler)

inductive PluginError where
  | noName (place : Text)
  | wrongApi (place : Text) (api : Scalar)
  | nothingDeclared (place : Text)
  | functionsNoTable (place : Text)
  | registerNotCallable (place : Text)
  | invalidName (name plugin : Text)
  | notCallable (name plugin : Text)
  | notFound (path : Text)
  | notLoadable (path : Text)
  | failed (path : Text) (message : String)
  | refused (message : String)
  deriving DecidableEq

/-- The version of the interface that modules are written for. -/
def supportedApi : Int := 1

def PluginError.message : PluginError → String
  | .noName place => s!"Extension {place} must define SIGLA_EXTENSION_NAME"
  | .wrongApi place api => s!"Extension {place} requires API {api.spelling}, host supports {supportedApi}"
  | .nothingDeclared place =>
    s!"Extension {place} must define SIGLA_FUNCTIONS or callable sigla_register(ext)"
  | .functionsNoTable place => s!"SIGLA_FUNCTIONS in {place} must be a mapping of name to handler"
  | .registerNotCallable place => s!"sigla_register in {place} must be callable"
  | .invalidName name plugin => s!"Invalid directive name {name.quoted} in extension '{plugin}'"
  | .notCallable name plugin => s!"Directive '{name}' in extension '{plugin}' is not callable"
  | .notFound path => s!"Extension not found: {path}"
  | .notLoadable path => s!"Failed to load extension module: {path}"
  | .failed path message => s!"Extension {path} failed to import: {message}"
  | .refused message => message

namespace Plugin

/-- Sets a function in place, or adds it at the end. -/
def setFunction (name : Text) (handler : Handler) :
    List (Text × Handler) → List (Text × Handler)
  | [] => [(name, handler)]
  | (n, h) :: rest =>
    if n = name then (n, handler) :: rest else (n, h) :: setFunction name handler rest

def addFunction (p : Plugin) (name : Text) (handler : Option Handler) :
    Except PluginError Plugin :=
  if !name.isName then .error (.invalidName name p.name)
  else
    match handler with
    | none => .error (.notCallable name p.name)
    | some h => .ok { p with functions := setFunction name h p.functions }

def addFunctions (p : Plugin) : List (Text × Option Handler) → Except PluginError Plugin
  | [] => .ok p
  | (name, handler) :: rest =>
    match p.addFunction name handler with
    | .error e => .error e
    | .ok p => p.addFunctions rest

/-- Adds the functions of one part of a module. -/
def addPart (p : Plugin) (error : PluginError) :
    Part (List (Text × Option Handler)) → Except PluginError Plugin
  | .missing => .ok p
  | .wrong => .error error
  | .given functions => p.addFunctions functions

/-- The path that a module was read from, unless it is empty. -/
def givenPath (path : Option Text) : Option Text := path.filter (!·.isEmpty)

/-- The plugin that a module declares. -/
def ofModule (workingDirectory : AbsolutePath) (m : Module) (path : Option Text) :
    Except PluginError Plugin := do
  let path := givenPath path
  let place := path.getD "<module>"
  let name ← match m.name with
    | some (.text t) => if t.strip.isEmpty then throw (.noName place) else pure t.strip
    | _ => throw (.noName place)
  let api := m.api.getD (.integer supportedApi)
  if !api.isNumber supportedApi then throw (.wrongApi place api)
  let plugin : Plugin :=
    { name, api
      version := m.version.elim "1.0.0" Scalar.spelling
      description := m.description.elim [] Scalar.spelling
      author := m.author.elim "Unknown" Scalar.spelling
      path := path.map (Path.resolve workingDirectory)
      functions := [] }
  match m.functions, m.registrations with
  | .missing, .missing => throw (.nothingDeclared place)
  | functions, registrations =>
    let plugin ← plugin.addPart (.functionsNoTable place) functions
    plugin.addPart (.registerNotCallable place) registrations

def functionNames (p : Plugin) : List Text := p.functions.map (·.1)

end Plugin

/-! Module files -/

/-- What is found in a module file. -/
inductive ModuleFile where
  | module (m : Module)
  | failing (message : String)
  | refusing (message : String)

/-- The module files that can be loaded. -/
abbrev Catalog := AbsolutePath → Option ModuleFile

namespace Plugin

/-- Loads the plugin in a module file. -/
def load (tree : FileTree) (catalog : Catalog) (path : Text) : Except PluginError Plugin :=
  if !tree.exists? path then .error (.notFound path)
  else
    match catalog (Path.resolve tree.workingDirectory path) with
    | none => .error (.notLoadable path)
    | some (.failing message) => .error (.failed path message)
    | some (.refusing message) => .error (.refused message)
    | some (.module m) => ofModule tree.workingDirectory m (some path)

/-- Loads plugins in order, by their absolute paths. -/
def loadAll (tree : FileTree) (catalog : Catalog) (paths : List Text) :
    Except PluginError (List Plugin) :=
  paths.mapM fun path => load tree catalog (Path.resolve tree.workingDirectory path).toText

end Plugin

namespace Registry

def pluginPriority : Int := 100

def addPlugin (r : Registry) (p : Plugin) : Registry :=
  p.functions.foldl (fun r (name, handler) => r.add name handler p.name pluginPriority) r

/-- The directives of the language and of plugins. -/
def ofPlugins (plugins : List Plugin) : Registry :=
  plugins.foldl addPlugin (Directive.install empty)

/-- Registers under a declared value, which is a name only if it is a text. -/
def registerAs (r : Registry) (name : Scalar) (handler : Option Handler) (origin : Text)
    (priority : Int) : Except Refusal Registry :=
  match name with
  | .text t => r.register t handler origin priority
  | other => .error (.invalidName other.quoted)

end Registry

end SigilScript
