import SigilScript.Json.Path
import SigilScript.Json.Writer
import SigilScript.Registry

/-!
Directives on files and JSON documents. What the tree of files refuses is reported; a path that no
tree could have, or a text that no file could hold, fails.
-/
namespace SigilScript.Directive

/-- `§isFileExist[path]` -/
def isFileExist : Handler := fun d args => do
  let path ← d.argument args
  return .text (boolString ((← Exec.files).isFile path))

/-- Reports what the tree refuses; a bad path fails. -/
def refuse (rule action : String) (path : Text) (e : FileError) : Exec Unit := do
  if e.isBadPath then Exec.fail (.file path e)
  Exec.error rule s!"Failed to {action} {path}: {e.message path}"

/-- Makes an empty file; an existing one is left as it is. -/
def newFile (path : Text) : Exec Text := do
  let tree ← Exec.files
  if tree.isFile path then return "true"
  match tree.create path with
  | .ok tree =>
    Exec.setFiles tree
    return "true"
  | .error e =>
    refuse "CREATEFILE" "create" path e
    return "false"

/-- `§createFile[path]` -/
def createFile : Handler := fun d args => do
  return .text (← newFile (← d.argument args))

/-- `§readFile[path]` is the content of a file, line ends as they are. -/
def readFile : Handler := fun d args => do
  let path ← d.argument args
  match (← Exec.files).read path with
  | .error .notFound =>
    Exec.error "READFILE" s!"File not found: {path}"
    return .text []
  | .error e =>
    refuse "READFILE" "read" path e
    return .text []
  | .ok bytes =>
    match Utf8.decode bytes with
    | .error e =>
      Exec.error "READFILE" s!"Failed to read {path}: {e.message}"
      return .text []
    | .ok content => return .text content

/-- Writes a whole file. A content that cannot be encoded fails, after the file was emptied. -/
def writeContent (rule : String) (path content : Text) : Exec Text := do
  match (← Exec.files).write path content with
  | .error e =>
    refuse rule "write" path e
    return "false"
  | .ok (tree, failure) =>
    Exec.setFiles tree
    match failure with
    | some e => Exec.fail (.unencodable e)
    | none => return "true"

/-- `§writeFile[path; content]` -/
def writeFile : Handler := fun d args => do
  match Argument.split args with
  | [] =>
    Exec.error "WRITEFILE" "§writeFile expects [path; content]"
    return .text "false"
  | first :: others =>
    let path ← d.argument first
    let content ← d.argument (Text.join ";" others)
    return .text (← writeContent "WRITEFILE" path content)

/-- The document in a file; none after a report. -/
def readJson (rule : String) (path : Text) : Exec (Option Json) := do
  match (← Exec.files).read path with
  | .error .notFound =>
    Exec.error rule s!"File not found: {path}"
    return none
  | .error e =>
    if e.isBadPath then Exec.error rule s!"Invalid JSON in {path}: {e.message path}"
    else Exec.error rule s!"Failed to read {path}: {e.message path}"
    return none
  | .ok bytes =>
    match Utf8.decode bytes with
    | .error e =>
      Exec.error rule s!"Invalid JSON in {path}: {e.message}"
      return none
    | .ok content =>
      match Json.parse content.normalizeNewlines with
      | .error .recursionLimit => Exec.fail (.json .recursionLimit)
      | .error e =>
        Exec.error rule s!"Invalid JSON in {path}: {e.message}"
        return none
      | .ok document => return some document

/-- Writes a document to a file. One that is nested too deep fails, after the file was emptied. -/
def writeJson (rule : String) (path : Text) (document : Json) : Exec Text := do
  if document.depth ≤ maxRecursion then
    writeContent rule path (document.render Json.fileStyle)
  else
    let result ← writeContent rule path []
    if result = "true" then Exec.fail (.json .recursionLimit)
    return result

/-- `§jsonRead[path]` is the document in a file, on one line. -/
def jsonRead : Handler := fun d args => do
  match ← readJson "JSONREAD" (← d.argument args) with
  | none => return .text []
  | some document => return .text document.compact

/-- Writes the document that a text is. -/
def writeDocument (path t : Text) : Exec Text := do
  match Json.parse t with
  | .error .recursionLimit => Exec.fail (.json .recursionLimit)
  | .error e =>
    Exec.error "JSONWRITE" s!"Invalid JSON: {e.message}"
    return "false"
  | .ok document => writeJson "JSONWRITE" path document

/-- `§jsonWrite[path; json]` -/
def jsonWrite : Handler := fun d args => do
  match Argument.split args with
  | first :: second :: others =>
    let path ← d.argument first
    let t ← d.argument (Text.join ";" (second :: others))
    return .text (← writeDocument path t)
  | _ =>
    Exec.error "JSONWRITE" s!"§jsonWrite expects [path; json], got: §jsonWrite[{args}]"
    return .text "false"

/-- A string is shown as it is, and anything else as JSON. -/
def showValue : Json → Text
  | .string t => t
  | other => other.compact

/-- The value at a key of the document in a file, or the whole document for an empty key. -/
def getValue (path key : Text) : Exec Text := do
  match ← readJson "JSONGET" path with
  | none => return []
  | some document =>
    if key.isEmpty then return showValue document
    match document.get? (Json.pathParts key) with
    | .error (.badIndex e) => Exec.fail (.integer e)
    | .error (.missing _) | .ok none =>
      Exec.trace "JSONGET" s!"Key '{key}' not found in {path}"
      return []
    | .ok (some value) => return showValue value

/-- `§jsonGet[path; key]` -/
def jsonGet : Handler := fun d args => do
  match ← d.arguments args with
  | [] =>
    Exec.error "JSONGET" "§jsonGet expects [path; key]"
    return .text []
  | path :: others => return .text (← getValue path (others.headD []))

/-- The value that a text stands for: the document that it is, or else the text itself. -/
def valueOf (t : Text) : Exec Json :=
  match Json.parse t with
  | .ok document => return document
  | .error .recursionLimit => Exec.fail (.json .recursionLimit)
  | .error _ => return .string t

/-- The document in a file, or an empty object if there is no file. -/
def documentOrNew (path : Text) : Exec (Option Json) := do
  if (← Exec.files).exists? path then readJson "JSONSET" path else return some (.object [])

/-- Sets the value at a key of the document in a file, or of a new one if there is no file. -/
def setValue (path key t : Text) : Exec Text := do
  match ← documentOrNew path with
  | none => return "false"
  | some document =>
    match document.setPath key (← valueOf t) with
    | (_, some (.badIndex e)) => Exec.fail (.integer e)
    | (_, some (.missing part)) =>
      Exec.error "JSONSET" s!"Cannot set '{key}' in {path}: no such index {part.quoted}"
      return "false"
    | (changed, none) => writeJson "JSONSET" path changed

/-- `§jsonSet[path; key; value]` -/
def jsonSet : Handler := fun d args => do
  match Argument.split args with
  | first :: second :: third :: others =>
    let path ← d.argument first
    let key ← d.argument second
    let t ← d.argument (Text.join ";" (third :: others))
    return .text (← setValue path key t)
  | _ =>
    Exec.error "JSONSET" s!"§jsonSet expects [path; key; value], got: §jsonSet[{args}]"
    return .text "false"

/-- `§getPath[path]` is the normal form of a path. -/
def getPath : Handler := fun d args => do
  let path ← d.argument args
  let tree ← Exec.files
  return .text (Path.resolve tree.workingDirectory (if path.isEmpty then "." else path)).toText

end SigilScript.Directive
