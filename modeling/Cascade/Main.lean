/-
  Cascade.Main
  ────────────────────────────────
  **THE PROGRAM.**

  Reads from the system what a run will look at (variables, users, working
  directory, the env files that could be found, the preference document)
  into a world, runs the pure program on it, writes what it says, and puts a
  changed preference document back.  Nothing is decided here.

  No server is spoken to: a push of log lines counts as one that failed.
-/
import Cascade.CommandLine.Run

namespace Cascade.Main

/-! ## §1. Reading the system into a world. -/

/-- The variables with one more, written `name=value`; any other text is none. -/
def withEntry (e : Environment) (entry : Text) : Environment :=
  match Text.cut '=' entry with
  | (name, some value) => (e.set name value).toOption.getD e
  | (_, none) => e

/-- The variables of the process. -/
def readEnvironment : IO Environment := do
  try
    let content ← IO.FS.readBinFile "/proc/self/environ"
    let entries := Text.splitAt '\x00' (Text.Utf8.decodeName content.toList)
    return entries.foldl withEntry .empty
  catch _ => return .empty

/-- The users with one more, from an entry of the list of users: the name is its first field, the
number the third and the home directory the sixth.  The first entry of a name or number stands. -/
def withUser (number : Text) (users : Users) (entry : Text) : Users :=
  match Text.splitAt ':' entry with
  | [name, _, itsNumber, _, _, home, _] =>
    { own := if itsNumber = number then users.own.or (some home) else users.own
      homes := if users.homes.contains name then users.homes else users.homes.insert name home }
  | _ => users

/-- The number of the user of a process, from its status. -/
def userNumber (status : Text) : Text :=
  ((Text.splitAt '\n' status).findSome? fun line =>
    match Text.splitAt '\t' line with
    | name :: number :: _ => if name = "Uid:" then some number else none
    | _ => none).getD []

/-- The users of the system. -/
def readUsers : IO Users := do
  try
    let status ← IO.FS.readBinFile "/proc/self/status"
    let number := userNumber (Text.Utf8.decodeName status.toList)
    let content ← IO.FS.readBinFile "/etc/passwd"
    let entries := Text.splitAt '\n' (Text.Utf8.decodeName content.toList)
    return entries.foldl (withUser number) .none
  catch _ => return .none

/-- A number of two digits. -/
def twoDigits (n : Int) : Text :=
  let t := Text.ofNat (n % 100).toNat
  if t.length < 2 then '0' :: t else t

/-- The time of day of a number of seconds since midnight of some day. -/
def timeOfDay (seconds : Int) : Text :=
  twoDigits (seconds / 3600 % 24) ++ ":" ++ twoDigits (seconds / 60 % 60) ++ ":" ++
    twoDigits (seconds % 60)

/-- The time of day, taken from an entry the system makes for each process. -/
def readTime : IO Text := do
  try
    let entry ← IO.FS.realPath "/proc/self/environ"
    return timeOfDay (← entry.metadata).modified.sec
  catch _ => return timeOfDay 0

/-- The file system with directories at a place and all places above it. -/
def withDirectories (fs : FileSystem) (l : Location) : FileSystem :=
  (List.range l.length).foldl
    (fun fs n =>
      let place := l.take (n + 1)
      if (fs.node? place).isSome then fs else fs.put place (.directory 0))
    fs

/-- The physical place and the node at a place below a physical one, if anything is there.
A link is told from a directory or file by the place it leads to. -/
def readEntry (fs : FileSystem) (l : Location) : IO (FileSystem × Option Location) := do
  try
    let real ← IO.FS.realPath (Path.ofLocation l).text.toString
    let place := (Path.ofText real.toString).parts
    let fs := if place = l then fs else (withDirectories fs place.dropLast).put l
      (.link (Path.ofLocation place).text)
    if ← real.isDir then return (withDirectories fs place, some place)
    else
      let content ← IO.FS.readBinFile real
      return (fs.put place (.file content.toList 0), some place)
  catch _ => return (fs, none)

/-- Reads what parts lead to from a place. -/
def readParts (fs : FileSystem) : Location → List Text → IO FileSystem
  | _, [] => return fs
  | place, part :: rest => do
    if part = Path.up then readParts fs place.dropLast rest
    else
      match ← readEntry fs (place ++ [part]) with
      | (fs, none) => return fs
      | (fs, some place) => readParts fs place rest

/-- The world with what a path leads to read into it. -/
def readPath (w : World) (p : Path) : IO World := do
  let start := if p.anchor = .relative then w.cwd.place else []
  return { w with files := ← readParts w.files start p.parts }

/-- The world with paths read into it. -/
def readPaths (w : World) (ps : List Path) : IO World := ps.foldlM readPath w

/-- The world around the process, before any file is read. -/
def readSurroundings : IO World := do
  let environ ← readEnvironment
  let users ← readUsers
  let here ← IO.currentDir
  let place := (Path.ofText here.toString).parts
  return {
    files := withDirectories ⟨.empty⟩ place
    cwd := ⟨place, 0⟩
    environ
    users
    now := 0 }

/-- The document of a store. -/
def documentOf : Preferences → List Path
  | .memory _ => []
  | .document p => [p]

/-- The world with everything read into it that a resolver may look at. -/
def readForResolver (w : World) (r : Resolver) : IO World := do
  let w ← readPaths w (documentOf r.preferences)
  match r.pinned with
  | some p => readPath w p
  | none =>
    match r.searchDir w >>= w.expandHome with
    | .error _ => return w
    | .ok start =>
      let w ← readPath w start
      match EnvFile.searchDirs w start with
      | .error _ => return w
      | .ok dirs => readPaths w (dirs.map fun d => d.append (Path.ofText r.filename))

/-- The document the commands for preferences work on. -/
def preferenceDocument (w : World) (argv : List Text) : List Path :=
  match CommandLine.Pref.Arguments.parse argv with
  | .error _ => []
  | .ok a =>
    match CommandLine.Pref.storeOf w a with
    | .error _ => []
    | .ok s => documentOf s

/-- The world with everything read into it that a run may look at, and the documents the
run may change. -/
def readForRun (w : World) (argv : List Text) : IO (World × List Path) := do
  match argv with
  | [] => return (w, [])
  | first :: rest =>
    if first = "pref" then
      let documents := preferenceDocument w rest
      return (← readPaths w documents, documents)
    else
      match CommandLine.Arguments.parse argv with
      | .error _ => return (w, [])
      | .ok a =>
        match a.build w with
        | .error _ => return (w, [])
        | .ok built => return (← readForResolver w built.resolver, [])

/-! ## §2. Writing back. -/

/-- Writes the file at a path of a world, when it is not the one of an earlier world. -/
def writeBack (before after : World) (p : Path) : IO Unit := do
  match after.read p with
  | .error _ => return ()
  | .ok content =>
    if (before.read p).toOption = some content then return ()
    else
      let target := p.text.toString
      let draft := target ++ ".tmp"
      IO.FS.createDirAll p.parent.text.toString
      IO.FS.writeBinFile draft ⟨content.toArray⟩
      IO.FS.rename draft target

/-- Runs the program with its arguments; the result is its exit status. -/
def runProgram (arguments : List String) : IO UInt32 := do
  let argv := arguments.map Text.ofString
  let (w, documents) ← readForRun (← readSurroundings) argv
  let (answer, after) := CommandLine.run w (← readTime) argv
  for p in documents do writeBack w after p
  match answer with
  | .ok finished =>
    IO.print finished.output.toString
    IO.eprint finished.errors.toString
    return UInt32.ofNat finished.status
  | .error failure =>
    IO.eprintln failure.message.toString
    return 1

end Cascade.Main

/-- The entry point of the program. -/
def main (arguments : List String) : IO UInt32 := Cascade.Main.runProgram arguments
