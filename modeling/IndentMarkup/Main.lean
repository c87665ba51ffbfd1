import IndentMarkup.Program
import IndentMarkup.Yaml.Load

/-!
# The executable

The program itself works on a picture of the files. This outer layer takes the picture, runs the
program on it, prints the log, and does on disk what the program did to the picture. Modified files
are found by looking at the watched files once a second.

The picture shows the working directory and all below it, the build file and the sources. Other
directories are in it only as far as they lead to these files. A file whose name is not UTF-8 cannot
be reached.
-/
namespace IndentMarkup.Disk

def fileName (l : Location) : IO String :=
  match (Location.path l).text.text? with
  | some name => return String.ofList name
  | none => throw (IO.userError "A file name is not UTF-8.")

def content? (l : Location) : IO (Option Utf8.Bytes) := do
  try
    return some (← IO.FS.readBinFile (← fileName l)).toList
  catch _ =>
    return none

/-- All that stands below a directory, files without their content. Links are not followed. -/
partial def survey (l : Location) : IO (List (Location × Entry)) := do
  let dir ← IO.FS.realPath (← fileName l)
  let mut found := []
  for e in ← dir.readDir do
    let here := l ++ [Text.codes e.fileName.toList]
    if (← e.path.symlinkMetadata).type == .dir then
      found := (here, .dir) :: (← survey here) ++ found
    else
      found := (here, .file []) :: found
  return found

def addFile (t : FileTree) (p : Path) : IO FileTree := do
  match ← content? (p.resolve t.workingDir) with
  | some content => return t.plant p (.file content)
  | none => return t

/-- The picture for a build file, and the configuration that is in it. -/
def picture (config : Path) : IO (FileTree × Except ConfigProblem BuildConfig) := do
  let workingDir := (Path.ofText (← IO.currentDir).toString).parts
  let empty := FileTree.empty workingDir
  let t := { empty with entries := empty.entries ++ (← survey workingDir) }
  let t ← addFile t config
  match loadConfig Yaml.loader t config with
  | .error p => return (t, .error p)
  | .ok c => return (← c.pairs.keys.foldlM addFile t, .ok c)

/-- The entries that are new or changed. What was there before has kept its place. -/
def changes : List (Location × Entry) → List (Location × Entry) → List (Location × Entry)
  | _, [] => []
  | [], after => after
  | b :: before, a :: after => if b = a then changes before after else a :: changes before after

/-- Do on disk what was done to a picture. -/
def carryOut (before after : FileTree) : IO Unit := do
  for (l, e) in changes before.entries after.entries do
    match e with
    | .dir => IO.FS.createDirAll (← fileName l)
    | .file content => IO.FS.writeBinFile (← fileName l) ⟨content.toArray⟩

/-- Messages show halves of surrogate pairs as escapes. -/
def printed (message : Codes) : String :=
  String.ofList (message.flatMap fun
    | .char c => [c]
    | .half n => '\\' :: 'u' :: Text.hexDigits 4 (Code.half n).toNat)

def printLog (verbose : Bool) (log : List LogEntry) : IO Unit :=
  for e in log do
    if e.isShown verbose then IO.eprintln (printed e.message)

def reportAbort (a : Abort) : IO UInt32 := do
  IO.eprintln (match a with
    | .optionName => "An option has a name that is not text."
    | .undecodable => "A file is not UTF-8."
    | .nulInPath => "A path holds a NUL."
    | .halfInPath => "A path holds half of a surrogate pair."
    | .halfInOutput => "A template holds half of a surrogate pair."
    | .nameTooLong => "A path is too long."
    | .impossibleScalar | .unknownWord | .notDate | .emptyNumber => "A scalar has no value."
    | .dateOfMapping | .endless => "A mapping is no scalar."
    | .overflow => "A number is too large."
    | .emptyPattern | .emptyDirPattern => "A pattern has no component."
    | .unknownNode type => String.ofList type.message)
  return 1

def runOnce (i : Invocation) : IO UInt32 := do
  let config := Path.ofText i.config
  let (t, _) ← picture config
  let outcome := Program.runOnce Yaml.loader t config
  printLog i.verbose outcome.log
  carryOut t outcome.tree
  match outcome.ending with
  | .exit code => return code.toUInt32
  | .cut => return 0
  | .aborted a => reportAbort a

def look (h : Handler) (seen : List (Option Utf8.Bytes)) :
    IO (List Location × List (Option Utf8.Bytes)) := do
  let now ← h.watched.mapM content?
  let changed := (h.watched.zip (seen.zip now)).filter fun (_, old, new) => new.isSome && old != new
  return (changed.map (·.1), now)

partial def watch (i : Invocation) (h : Handler) (seen : List (Option Utf8.Bytes)) : IO UInt32 := do
  IO.sleep 1000
  let (changed, now) ← look h seen
  for l in changed do
    let (t, _) ← picture (.ofText i.config)
    let t ← h.pairs.keys.foldlM addFile t
    let outcome := h.handle t ⟨.modified, false, Location.path l⟩
    printLog i.verbose outcome.log
    carryOut t outcome.tree
    if let some a := outcome.abort then
      printLog i.verbose [stoppedEntry]
      return ← reportAbort a
  watch i h now

partial def runWatching (i : Invocation) : IO UInt32 := do
  match ← picture (.ofText i.config) with
  | (_, .error (.fault f)) =>
    printLog i.verbose (Program.retryLog f)
    IO.sleep 3000
    runWatching i
  | (_, .error (.abort a)) => reportAbort a
  | (t, .ok c) =>
    let first := build c.separator t c.pairs
    printLog i.verbose first.log
    carryOut t first.tree
    match first.abort, setUp c.separator first.tree c.pairs c.watch with
    | some a, _ => reportAbort a
    | none, .aborted a _ log =>
      printLog i.verbose log
      reportAbort a
    | none, .refused log =>
      printLog i.verbose log
      return 0
    | none, .placed h _ log =>
      printLog i.verbose log
      watch i h (← h.watched.mapM content?)

end IndentMarkup.Disk

def main (arguments : List String) : IO UInt32 := do
  match IndentMarkup.readArguments (arguments.map String.toList) with
  | .error e =>
    IO.eprint (String.ofList e.report)
    return 2
  | .ok .help =>
    IO.print (String.ofList IndentMarkup.helpText)
    return 0
  | .ok (.run i) =>
    if i.once then IndentMarkup.Disk.runOnce i else IndentMarkup.Disk.runWatching i
