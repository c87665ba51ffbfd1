import IndentMarkup.Build

/-!
# Watching

A handler rebuilds all pairs when one of the files it watches is modified. A watcher places it over
the directories of those files and waits, until it is interrupted, the observer ends or something is
not foreseen. What happens in the outside world during each wait is given as a script.
-/
namespace IndentMarkup

/-! ## Events -/

inductive EventKind where
  | modified | created | deleted | moved | closed | opened
  deriving DecidableEq, Repr

structure Event where
  kind : EventKind
  isDirectory : Bool
  path : Path
  deriving DecidableEq, Repr

structure Handler where
  /-- The places of the watched files. -/
  watched : List Location
  pairs : Pairs
  separator : Codes

/-- The places of paths, unless one of them is refused. -/
def resolveAll (workingDir : Location) (paths : List Path) : Except Abort (List Location) :=
  match paths.findSome? Path.wayRefusal? with
  | some a => .error a
  | none => .ok ((paths.map (·.resolve workingDir)).eraseDups)

namespace Handler

def ready : LogEntry := ⟨.info, .watcher, "Handler initialized. Monitoring for changes..."⟩

def detected (l : Location) : LogEntry :=
  ⟨.info, .watcher, "Detected modification in: " ++ l.path.text⟩

/-- Whether an event asks for a rebuild. -/
def isConcerned (h : Handler) (t : FileTree) (e : Event) : Bool :=
  e.kind == .modified && !e.isDirectory && h.watched.contains (e.path.resolve t.workingDir)

def handle (h : Handler) (t : FileTree) (e : Event) : BuildOutcome :=
  if e.kind == .modified && !e.isDirectory && e.path.isRefused then
    ⟨t, [], 0, e.path.wayRefusal?⟩
  else if h.isConcerned t e then
    let outcome := build h.separator t h.pairs
    { outcome with log := detected (e.path.resolve t.workingDir) :: outcome.log }
  else ⟨t, [], 0, none⟩

end Handler

/-! ## The outside world -/

inductive Action where
  | plant (path : Path) (entry : Entry)
  | uproot (path : Path)
  | event (e : Event)
  | interrupt

def Action.change (t : FileTree) : Action → FileTree
  | .plant path entry => t.plant path entry
  | .uproot path => t.uproot path
  | .event _ => t
  | .interrupt => t

inductive WaitEnd where
  | elapsed
  | interrupted
  | aborted (a : Abort)
  deriving DecidableEq, Repr

structure WaitOutcome where
  tree : FileTree
  log : List LogEntry
  ending : WaitEnd

/-- What happens during one wait. An interrupt or an abort cuts it short. -/
def wait (h : Handler) : FileTree → List Action → WaitOutcome
  | t, [] => ⟨t, [], .elapsed⟩
  | t, .interrupt :: _ => ⟨t, [], .interrupted⟩
  | t, .event e :: rest =>
    let outcome := h.handle t e
    match outcome.abort with
    | some a => ⟨outcome.tree, outcome.log, .aborted a⟩
    | none =>
      let others := wait h outcome.tree rest
      { others with log := outcome.log ++ others.log }
  | t, action :: rest => wait h (action.change t) rest

/-! ## The watcher -/

/-- What a watcher asks of its observer, and the program of the clock. -/
inductive Call where
  | schedule (dir : Location)
  | start
  | wait
  | stop
  | join
  | sleep
  deriving DecidableEq, Repr

structure WatchOutcome where
  tree : FileTree
  log : List LogEntry
  calls : List Call
  abort : Option Abort

def stoppedEntry : LogEntry := ⟨.info, .watcher, "Watcher stopped."⟩

def interruptEntry : LogEntry := ⟨.info, .watcher, "Stopping watcher (Ctrl+C pressed)..."⟩

def watchingEntry (count : Nat) : LogEntry :=
  ⟨.info, .watcher,
    "Watching for file changes in " ++ Text.ofNat count ++ " director" ++
      (if count = 1 then "y" else "ies") ++ ". Press Ctrl+C to stop."⟩

def scheduledEntry (dir : Location) : LogEntry :=
  ⟨.info, .watcher, "Scheduled watcher for directory: " ++ dir.path.text⟩

def missingEntry (dir : Location) : LogEntry :=
  ⟨.warning, .watcher,
    "Directory '" ++ dir.path.text ++ "' does not exist. Cannot watch."⟩

def nothingToWatch : LogEntry := ⟨.error, .watcher, "No valid directories provided to watch."⟩

def nothingScheduled : LogEntry :=
  ⟨.error, .watcher, "No watchers were successfully scheduled. Exiting."⟩

/-- Wait until something ends the watching. The observer ends by itself in the wait after the last
one of the script; only an observer that is still alive is stopped. -/
def waitAll (h : Handler) : FileTree → List (List Action) → WatchOutcome
  | t, [] => ⟨t, [stoppedEntry], [.wait, .join], none⟩
  | t, actions :: script =>
    let outcome := wait h t actions
    match outcome.ending with
    | .elapsed =>
      let others := waitAll h outcome.tree script
      { others with log := outcome.log ++ others.log, calls := .wait :: others.calls }
    | .interrupted =>
      ⟨outcome.tree, outcome.log ++ [interruptEntry, stoppedEntry], [.wait, .stop, .join], none⟩
    | .aborted a => ⟨outcome.tree, outcome.log ++ [stoppedEntry], [.wait, .stop, .join], some a⟩

/-- The directories that hold the watched files, each once, in the order of their paths. -/
def watchedDirs (files : List Location) : List Location :=
  let dirs : List Location := (files.map List.dropLast).eraseDups
  dirs.mergeSort fun d e => !Codes.lt (Location.path e).text (Location.path d).text

/-- What comes of going through directories: those that are scheduled, the entries about them, and
what cuts it short. -/
structure Scheduling where
  dirs : List Location
  log : List LogEntry
  abort : Option Abort

/-- Schedule the places that are directories, up to the first that cannot be looked up. -/
def schedule (t : FileTree) : List Location → Scheduling
  | [] => ⟨[], [], none⟩
  | d :: rest =>
    match t.isDir d.path with
    | .error _ => ⟨[], [], some .nameTooLong⟩
    | .ok there =>
      let others := schedule t rest
      if there then { others with dirs := d :: others.dirs, log := scheduledEntry d :: others.log }
      else { others with log := missingEntry d :: others.log }

inductive Setup where
  /-- A handler is placed over directories. -/
  | placed (h : Handler) (dirs : List Location) (log : List LogEntry)
  /-- There is nothing to watch. -/
  | refused (log : List LogEntry)
  | aborted (a : Abort) (dirs : List Location) (log : List LogEntry)

def setUp (separator : Codes) (t : FileTree) (pairs : Pairs) (watch : List Path) : Setup :=
  match resolveAll t.workingDir (pairs.keys ++ watch) with
  | .error a => .aborted a [] []
  | .ok files =>
    match watchedDirs files with
    | [] => .refused [nothingToWatch]
    | dirs =>
      let scheduled := schedule t dirs
      let log := Handler.ready :: scheduled.log
      match scheduled.abort, scheduled.dirs with
      | some a, there => .aborted a there log
      | none, [] => .refused (log ++ [nothingScheduled])
      | none, there => .placed ⟨files, pairs, separator⟩ there (log ++ [watchingEntry there.length])

/-- Watch the sources and further files, and rebuild when one is modified. -/
def runWatcher (separator : Codes) (t : FileTree) (pairs : Pairs) (watch : List Path)
    (script : List (List Action)) : WatchOutcome :=
  match setUp separator t pairs watch with
  | .aborted a dirs log => ⟨t, log, dirs.map Call.schedule, some a⟩
  | .refused log => ⟨t, log, [], none⟩
  | .placed h dirs log =>
    let outcome := waitAll h t script
    { outcome with
      log := log ++ outcome.log
      calls := dirs.map Call.schedule ++ .start :: outcome.calls }

end IndentMarkup
