import IndentMarkup.Abort
import IndentMarkup.Error
import IndentMarkup.Pattern
import IndentMarkup.Template
import IndentMarkup.Value.Display

/-!
# Build configurations

What a build file asks for: which sources to compile to which destinations, which further files to
watch, and the separator of continued text. The configuration is read off a value in a fixed order
of checks, so that of several faults the first in that order is reported.

A problem is either a fault, which is reported as a configuration error, or an abort, which ends the
operation without a report of its own. The value may name its collections by numbers; a store tells
what they are.
-/
namespace IndentMarkup

structure BuildConfig where
  /-- Destinations by source. -/
  pairs : OrderedMap Path Path
  /-- Further files to watch, in the order of their texts. -/
  watch : List Path
  separator : Codes
  deriving DecidableEq, Repr

inductive ConfigFault where
  | notMapping
  | noWriteList
  /-- An entry without source and destination, as it is shown. -/
  | badEntry (shown : Text)
  | badWatch
  | rootedPattern
  | doubleStarPattern
  | optionsNotMapping
  | unknownOptions (names : List Codes)
  | optionNotText (name : Codes)
  | unreadable (path : Path) (error : OsError)
  | invalidYaml (path : Path)

namespace ConfigFault

def detail : ConfigFault → Codes
  | .notMapping => "Build config must be a mapping."
  | .noWriteList => "Build config needs a 'write' list of \x7bsrc, dst\x7d entries."
  | .badEntry shown =>
    "Invalid 'write' entry: " ++ shown ++ ". Expected 'src' and 'dst' paths."
  | .badWatch => "'watch' must be a list of glob patterns."
  | .rootedPattern => "Invalid 'watch' pattern: Non-relative patterns are unsupported"
  | .doubleStarPattern =>
    "Invalid 'watch' pattern: Invalid pattern: '**' can only be an entire path component"
  | .optionsNotMapping => "'options' must be a mapping."
  | .unknownOptions names =>
    "Unknown compiler option(s): " ++ [.char ',', .char ' '].intercalate names ++ "."
  | .optionNotText name => "Compiler option '" ++ name ++ "' must be a string."
  | .unreadable path error =>
    "Cannot read build config '" ++ path.text ++ "': " ++ error.message path
  | .invalidYaml path => "Invalid YAML in build config '" ++ path.text ++ "'"

def toError (f : ConfigFault) : Error := ⟨.config, f.detail, none⟩

end ConfigFault

inductive ConfigProblem where
  | fault (f : ConfigFault)
  | abort (a : Abort)

def Value.text? : Value → Option Codes
  | .text t => some t
  | _ => none

def pathText? (v : Value) : Option Codes := v.text?.filter fun t => !t.isBlankText

def writeKey : Codes := "write"
def sourceKey : Codes := "src"
def destinationKey : Codes := "dst"
def watchKey : Codes := "watch"
def optionsKey : Codes := "options"
def separatorKey : Codes := "text_separator"

/-! ## Options -/

def textKeys? (entries : List (Value × Value)) : Option (List Codes) := entries.mapM (·.1.text?)

/-- The separator that the options set. -/
def readOptions (s : Store) (options : Value) : Except ConfigProblem Codes :=
  match s.look options with
  | .null => .ok defaultSeparator
  | .map entries =>
    match textKeys? entries with
    | none => .error (.abort .optionName)
    | some names =>
      match names.filter (· != separatorKey) with
      | [] =>
        match Value.entry? entries separatorKey with
        | none => .ok defaultSeparator
        | some v =>
          match v.text? with
          | none => .error (.fault (.optionNotText separatorKey))
          | some t => .ok t
      | unknown => .error (.fault (.unknownOptions (Codes.sort unknown)))
  | _ => .error (.fault .optionsNotMapping)

/-! ## Entries and patterns -/

def readEntry? (s : Store) (base : Path) (entry : Value) : Option (Path × Path) :=
  match s.look entry with
  | .map entries => do
    let source ← (Value.entry? entries sourceKey).bind pathText?
    let destination ← (Value.entry? entries destinationKey).bind pathText?
    return (base.under (.ofText source), base.under (.ofText destination))
  | _ => none

/-- The problem with an entry that has no source or no destination. -/
def entryProblem (s : Store) (entry : Value) : ConfigProblem :=
  match s.display? entry with
  | none => .abort .impossibleScalar
  | some shown => .fault (.badEntry shown)

/-- All entries; a source named again keeps its place and takes the later destination. -/
def readEntries (s : Store) (base : Path) :
    OrderedMap Path Path → List Value → Except ConfigProblem (OrderedMap Path Path)
  | pairs, [] => .ok pairs
  | pairs, entry :: rest =>
    match readEntry? s base entry with
    | none => .error (entryProblem s entry)
    | some (source, destination) => readEntries s base (pairs.insert source destination) rest

/-- The patterns to watch. A value that counts as nothing stands for no patterns. -/
def readPatterns? (s : Store) (watch : Value) : Option (List Codes) :=
  let watch := s.look watch
  if watch.isEmpty then some []
  else match watch with
    | .list items => items.mapM pathText?
    | _ => none

def PatternError.problem : PatternError → ConfigProblem
  | .rooted => .fault .rootedPattern
  | .doubleStar => .fault .doubleStarPattern
  | .empty => .abort .emptyPattern
  | .emptyDir => .abort .emptyDirPattern

def expandPattern (t : FileTree) (base : Path) (pattern : Codes) :
    Except ConfigProblem (List Path) :=
  match Pattern.read pattern with
  | .error e => .error e.problem
  | .ok p =>
    match p.matching t base with
    | .error _ => .error (.abort .nameTooLong)
    | .ok found => .ok found

/-- Paths in the order of their texts, each once. -/
def sortPaths (paths : List Path) : List Path :=
  paths.eraseDups.mergeSort fun p q => !Codes.lt q.text p.text

def expandPatterns (t : FileTree) (base : Path) (patterns : List Codes) :
    Except ConfigProblem (List Path) :=
  (patterns.mapM (expandPattern t base)).map fun found => sortPaths found.flatten

/-! ## Whole configurations -/

/-- The configuration that a value holds, with relative paths seen from a base. -/
def readConfig (t : FileTree) (base : Path) (s : Store) (config : Value) :
    Except ConfigProblem BuildConfig :=
  match s.look config with
  | .map entries =>
    match (Value.entry? entries writeKey).map s.look with
    | some (.list items) => do
      let pairs ← readEntries s base [] items
      match readPatterns? s ((Value.entry? entries watchKey).getD .null) with
      | none => .error (.fault .badWatch)
      | some patterns =>
        let watch ← expandPatterns t base patterns
        let separator ← readOptions s ((Value.entry? entries optionsKey).getD .null)
        return ⟨pairs, watch, separator⟩
    | _ => .error (.fault .noWriteList)
  | _ => .error (.fault .notMapping)

end IndentMarkup
