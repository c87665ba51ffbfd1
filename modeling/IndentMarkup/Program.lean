import IndentMarkup.CommandLine
import IndentMarkup.Config.Load
import IndentMarkup.Watch

/-!
# The program

A run loads the build file and compiles all pairs, once or again whenever a watched file is
modified. With a faulty build file a single run gives up; a watching one tries again after a while,
and what the outside world does to the files in the meantime is given as a script.
-/
namespace IndentMarkup

inductive ProgramEnd where
  | exit (code : Nat)
  /-- The script ends while the program sleeps. -/
  | cut
  | aborted (a : Abort)
  deriving DecidableEq, Repr

structure ProgramOutcome where
  tree : FileTree
  log : List LogEntry
  calls : List Call
  ending : ProgramEnd

namespace Program

def faultEntry (message : Codes) : LogEntry := ⟨.error, .program, message⟩

def retryLog (f : ConfigFault) : List LogEntry :=
  [faultEntry ("Error: " ++ f.toError.message),
   faultEntry ("Please check your configuration and try again, " ++
     "attempting to reload in 3 seconds...")]

def faultCode : Nat := 2

def buildCode (failures : Nat) : Nat := if failures = 0 then 0 else 1

def endOfBuild (b : BuildOutcome) : ProgramEnd :=
  match b.abort with
  | some a => .aborted a
  | none => .exit (buildCode b.failures)

def runOnce (load : Loader) (t : FileTree) (config : Path) : ProgramOutcome :=
  match loadConfig load t config with
  | .error (.fault f) => ⟨t, [faultEntry f.toError.message], [], .exit faultCode⟩
  | .error (.abort a) => ⟨t, [], [], .aborted a⟩
  | .ok c =>
    let outcome := build c.separator t c.pairs
    ⟨outcome.tree, outcome.log, [], endOfBuild outcome⟩

def buildAndWatch (t : FileTree) (c : BuildConfig) (waits : List (List Action)) : ProgramOutcome :=
  let first := build c.separator t c.pairs
  match first.abort with
  | some a => ⟨first.tree, first.log, [], .aborted a⟩
  | none =>
    let watching := runWatcher c.separator first.tree c.pairs c.watch waits
    ⟨watching.tree, first.log ++ watching.log, watching.calls,
      match watching.abort with
      | some a => .aborted a
      | none => .exit 0⟩

/-- Build and watch, and sleep for as long as the build file is faulty. -/
def runWatching (load : Loader) (config : Path) (waits : List (List Action)) :
    FileTree → List (List Action) → ProgramOutcome
  | t, sleeps =>
    match loadConfig load t config, sleeps with
    | .ok c, _ => buildAndWatch t c waits
    | .error (.abort a), _ => ⟨t, [], [], .aborted a⟩
    | .error (.fault f), [] => ⟨t, retryLog f, [.sleep], .cut⟩
    | .error (.fault f), actions :: rest =>
      let outcome := runWatching load config waits (actions.foldl Action.change t) rest
      { outcome with log := retryLog f ++ outcome.log, calls := .sleep :: outcome.calls }

end Program

/-- Run the program as the command line asks. -/
def Invocation.run (load : Loader) (i : Invocation) (t : FileTree)
    (waits sleeps : List (List Action)) : ProgramOutcome :=
  if i.once then Program.runOnce load t (.ofText i.config)
  else Program.runWatching load (.ofText i.config) waits t sleeps

end IndentMarkup
