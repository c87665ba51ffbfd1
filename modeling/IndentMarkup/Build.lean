import IndentMarkup.FileTree.Source
import IndentMarkup.Log
import IndentMarkup.Template

/-!
# Building

A build compiles every source to its destination, one pair after the other over one tree. A source
that cannot be read or compiled and a destination that cannot be written are logged and counted, and
the build goes on with the next pair. A template that has no bytes ends the build, after its
destination was opened and thereby emptied.
-/
namespace IndentMarkup

abbrev Pairs := OrderedMap Path Path

inductive PairStatus where
  | written
  | failed
  | aborted (a : Abort)
  deriving DecidableEq, Repr

structure PairOutcome where
  tree : FileTree
  log : List LogEntry
  status : PairStatus

/-- The entries that tell which levels a source opens. They are the same for all separators. -/
def openingLog (source : Text) : List LogEntry :=
  (openedLevels [jointMark] source).map fun line =>
    ⟨.debug, .compiler,
      "Line " ++ Text.ofNat line.number ++ ": opened indentation level " ++ Text.ofNat line.width⟩

def compileFailure (source : Path) (reason : Codes) : LogEntry :=
  ⟨.error, .watcher, "Failed to compile " ++ source.text ++ ": " ++ reason⟩

def writeFailure (destination : Path) (reason : Codes) : LogEntry :=
  ⟨.error, .watcher, "Failed to write " ++ destination.text ++ ": " ++ reason⟩

def compileSuccess (source destination : Path) : LogEntry :=
  ⟨.info, .watcher, "Compiled " ++ source.text ++ " -> " ++ destination.text⟩

/-- Write a template, after making the directories above its destination. -/
def writeOutput (t : FileTree) (source destination : Path) (output : Codes) : PairOutcome :=
  match destination.parent.refusal? with
  | some a => ⟨t, [], .aborted a⟩
  | none =>
    match t.makeDirs destination.parent with
    | (made, some f) => ⟨made, [writeFailure destination f.message], .failed⟩
    | (made, none) =>
      match destination.refusal? with
      | some a => ⟨made, [], .aborted a⟩
      | none =>
        -- opening the destination empties it, whether or not there are bytes to write
        match made.write destination (output.encode?.getD []) with
        | .error e => ⟨made, [writeFailure destination (e.message destination)], .failed⟩
        | .ok opened =>
          if output.encode?.isSome then ⟨opened, [compileSuccess source destination], .written⟩
          else ⟨opened, [], .aborted .halfInOutput⟩

/-- Compile one source to its destination. -/
def buildPair (separator : Codes) (t : FileTree) (source destination : Path) : PairOutcome :=
  match t.readText source with
  | .error (.error e) => ⟨t, [compileFailure source (e.message source)], .failed⟩
  | .error (.abort a) => ⟨t, [], .aborted a⟩
  | .ok text =>
    let opened := openingLog text
    match compileCodes separator text with
    | .error (.halfDedent e) => ⟨t, opened ++ [compileFailure source e.toError.message], .failed⟩
    | .error (.unknownNode type) => ⟨t, opened, .aborted (.unknownNode type)⟩
    | .ok output =>
      let outcome := writeOutput t source destination output
      { outcome with log := opened ++ outcome.log }

structure BuildOutcome where
  tree : FileTree
  log : List LogEntry
  failures : Nat
  abort : Option Abort

/-- Compile all sources to their destinations, in order. -/
def build (separator : Codes) : FileTree → Pairs → BuildOutcome
  | t, [] => ⟨t, [], 0, none⟩
  | t, (source, destination) :: rest =>
    let pair := buildPair separator t source destination
    match pair.status with
    | .aborted a => ⟨pair.tree, pair.log, 0, some a⟩
    | .written =>
      let others := build separator pair.tree rest
      { others with log := pair.log ++ others.log }
    | .failed =>
      let others := build separator pair.tree rest
      { others with log := pair.log ++ others.log, failures := others.failures + 1 }

@[simp] theorem build_nil (separator : Codes) (t : FileTree) :
    build separator t [] = ⟨t, [], 0, none⟩ := rfl

end IndentMarkup
