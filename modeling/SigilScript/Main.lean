import SigilScript.Bundled
import SigilScript.CommandLine
import Std.Time.Zoned

/-!
The program: takes the world as it is, makes one call of the command line, and then shows and
writes what came of it. The files are those below the current directory.
-/
namespace SigilScript.Shell

/-- The entries at and below an entry of a directory, whose parts are given. -/
partial def entriesAt (parts : List Text) (entry : IO.FS.DirEntry) :
    IO (List (List Text × Entry)) := do
  let parts := parts ++ [(entry.fileName : Text)]
  if ← entry.path.isDir then
    let inner ← (← entry.path.readDir).toList.mapM (entriesAt parts)
    return (parts, .directory) :: inner.flatten
  let bytes ← IO.FS.readBinFile entry.path
  return [(parts, .file bytes.toList)]

/-- The directories from the root to a path. -/
def directoriesTo (parts : List Text) : List (List Text × Entry) :=
  (List.range parts.length).map fun n => (parts.take (n + 1), .directory)

def readTree : IO FileTree := do
  let current ← IO.currentDir
  let directory := Path.normalize current.toString
  let inner ← (← current.readDir).toList.mapM (entriesAt directory.parts)
  return ⟨directory, directoriesTo directory.parts ++ inner.flatten⟩

/-- Writes the files that are new or changed. -/
def writeChanges (before after : FileTree) : IO Unit :=
  after.entries.forM fun (parts, entry) => do
    match entry with
    | .directory => return
    | .file bytes =>
      if before.get? parts ≠ some entry then
        IO.FS.writeBinFile (AbsolutePath.toText ⟨false, parts⟩).toString ⟨bytes.toArray⟩

/-- The number after some steps of a generator. -/
def drawn : Nat → StdGen → Nat
  | 0, g => (stdNext g).1
  | n + 1, g => drawn n (stdNext g).2

/-- The parts of one draw, put together to one large number. -/
def largeDraw (g : StdGen) (k : Nat) : Nat :=
  (drawn (3 * k) g * Nat.pow 2 31 + drawn (3 * k + 1) g) * Nat.pow 2 31 + drawn (3 * k + 2) g

def randomFrom (seed k : Nat) (low high : Int) : Int :=
  low + (largeDraw (mkStdGen seed) k : Int) % (high - low + 1)

def readClock : IO (Binary64 × DateTime) := do
  let seconds := (Binary64.ofInt (← Std.Time.Timestamp.now).toNanosecondsSinceUnixEpoch.val).div
    (.ofInt (Int.pow 10 9))
  let now ← Std.Time.PlainDateTime.now
  return (seconds, ⟨now.date.year.toInt.toNat, now.date.month.val.toNat, now.date.day.val.toNat,
    now.time.hour.val.toNat, now.time.minute.val.toNat, now.time.second.val.toNat⟩)

partial def readAll (stream : IO.FS.Stream) (done : Text) : IO Text := do
  let line ← stream.getLine
  if line.isEmpty then return done
  readAll stream (done ++ (line : Text))

def readWorld (seed : Nat) : IO World := do
  let files ← readTree
  let (time, now) ← readClock
  let input ← readAll (← IO.getStdin) []
  return { files, time, now
           inputs := (CommandLine.inputLines input).map some
           random := randomFrom seed
           drawn := 0 }

def showChunk : CommandLine.Chunk → IO Unit
  | .output t => do
    let stream ← IO.getStdout
    stream.putStr t.toString
    stream.flush
  | .error t => do (← IO.getStderr).putStr t.toString
  | .pause seconds => IO.sleep (((seconds.mul (.ofInt 1000)).truncate?.getD 0).toNat.toUInt32)

def seedOf (argv : List Text) : IO Nat :=
  match (CommandLine.Arguments.read argv).toOption.bind (·.seed) with
  | some seed => return seed.natAbs
  | none => IO.rand 0 (Nat.pow 2 31)

end SigilScript.Shell

open SigilScript in
def main (args : List String) : IO UInt32 := do
  let argv := args.map Text.ofString
  let world ← Shell.readWorld (← Shell.seedOf argv)
  match CommandLine.call Bundled.catalog argv world with
  | .ok result =>
    result.chunks.forM Shell.showChunk
    Shell.writeChanges world.files result.files
    return (result.code % 256).toNat.toUInt32
  | .error abort =>
    IO.eprintln abort.message
    return abort.code
