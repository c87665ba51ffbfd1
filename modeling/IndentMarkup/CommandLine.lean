import IndentMarkup.Text.Digit
import IndentMarkup.Text.Quoted

/-!
# Command line

The program takes one positional argument, the build file, and three flags. Long flags may be
shortened as long as one flag is meant, short flags may be combined behind one dash, and two dashes
end the flags. A dash alone, a negative number and a word with a space are no flags.
-/
namespace IndentMarkup

inductive Flag where
  | help | once | verbose
  deriving DecidableEq, Repr

namespace Flag

def spellings : List (Text × Flag) :=
  [("-h".toList, .help), ("--help".toList, .help), ("--once".toList, .once),
   ("-v".toList, .verbose), ("--verbose".toList, .verbose)]

def find? (t : Text) : Option Flag := (spellings.find? (·.1 == t)).map (·.2)

def name : Flag → Text
  | .help => "-h/--help"
  | .once => "--once"
  | .verbose => "-v/--verbose"

end Flag

inductive UsageError where
  | ambiguous (argument : Text) (spellings : List Text)
  | unwantedValue (flag : Flag) (value : Text)
  | noConfig
  | unrecognized (arguments : List Text)
  deriving DecidableEq, Repr

def UsageError.message : UsageError → Text
  | .ambiguous argument spellings =>
    "ambiguous option: ".toList ++ argument ++ " could match ".toList ++
      [',', ' '].intercalate spellings
  | .unwantedValue flag value =>
    "argument ".toList ++ flag.name ++ ": ignored explicit argument ".toList ++ Text.quoted value
  | .noConfig => "the following arguments are required: config"
  | .unrecognized arguments => "unrecognized arguments: ".toList ++ [' '].intercalate arguments

inductive ArgumentForm where
  | positional
  /-- The two dashes that end the flags. -/
  | endOfFlags
  | flag (f : Flag)
  /-- A flag with a value, which no flag takes. -/
  | valued (f : Flag) (value : Text)
  /-- A short flag and the letters behind it. -/
  | letters (f : Flag) (rest : Text)
  /-- Something that begins like a flag. -/
  | unknown
  deriving DecidableEq, Repr

def splitValue (t : Text) : Text × Option Text :=
  match t.dropWhile (· != '=') with
  | [] => (t, none)
  | _ :: value => (t.takeWhile (· != '='), some value)

/-- A flag as it was spelled, with the text behind its equals sign. What stands there behind a short
flag counts as further letters. -/
def formOfFlag (f : Flag) (spelled : Text) : Option Text → ArgumentForm
  | none => .flag f
  | some value =>
    if spelled.length = 2 && !value.isEmpty then .letters f value else .valued f value

/-- A dash, digits of any script, and perhaps a point among them. A line feed may follow. -/
def isNegativeNumber : Text → Bool
  | '-' :: rest =>
    let number := if rest.getLast? = some '\n' then rest.dropLast else rest
    let whole := number.takeWhile Text.isDecimal
    match number.dropWhile Text.isDecimal with
    | [] => !whole.isEmpty
    | '.' :: fraction => !fraction.isEmpty && fraction.all Text.isDecimal
    | _ => false
  | _ => false

/-- An argument that begins with a dash and is no flag's spelling, shortened or combined. -/
def formOfRest (t : Text) : ArgumentForm :=
  if isNegativeNumber t || t.contains ' ' then .positional else .unknown

def argumentForm (t : Text) : Except UsageError ArgumentForm :=
  let (spelled, value) := splitValue t
  match t, Flag.find? t, Flag.find? spelled with
  | _, some f, _ => .ok (.flag f)
  | _, none, some f => .ok (formOfFlag f spelled value)
  | '-' :: '-' :: _, none, none =>
    match Flag.spellings.filter fun s => spelled.isPrefixOf s.1 with
    | [] => .ok (formOfRest t)
    | [(full, f)] => .ok (formOfFlag f full value)
    | several => .error (.ambiguous t (several.map (·.1)))
  | '-' :: letter :: rest, none, none =>
    match Flag.find? ['-', letter] with
    | some f => .ok (.letters f rest)
    | none => .ok (formOfRest t)
  | _, _, _ => .ok .positional

/-- The forms of all arguments; everything behind two dashes is positional. -/
def argumentForms : List Text → Except UsageError (List (ArgumentForm × Text))
  | [] => .ok []
  | t :: rest =>
    if t = ['-', '-'] then .ok ((.endOfFlags, t) :: rest.map fun r => (.positional, r))
    else do
      let form ← argumentForm t
      return (form, t) :: (← argumentForms rest)

/-- The flags that a short flag and the letters behind it give. A letter that is no flag makes all
from there on a value of the flag before it. -/
def expandLetters (f : Flag) : Text → Except UsageError (List Flag)
  | [] => .ok [f]
  | c :: rest =>
    match Flag.find? ['-', c] with
    | none => .error (.unwantedValue f (c :: rest))
    | some g => do return f :: (← expandLetters g rest)

structure Invocation where
  config : Text
  once : Bool
  verbose : Bool
  deriving DecidableEq, Repr

inductive Request where
  | help
  | run (i : Invocation)
  deriving DecidableEq, Repr

structure Gathered where
  config : Option Text := none
  once : Bool := false
  verbose : Bool := false
  extras : List Text := []

namespace Gathered

/-- Take in flags, unless one of them asks for help. -/
def addFlags (g : Gathered) : List Flag → Option Gathered
  | [] => some g
  | .help :: _ => none
  | .once :: rest => { g with once := true }.addFlags rest
  | .verbose :: rest => { g with verbose := true }.addFlags rest

def addExtra (g : Gathered) (t : Text) : Gathered := { g with extras := g.extras ++ [t] }

def finish (g : Gathered) : Except UsageError Request :=
  match g.config, g.extras with
  | none, _ => .error .noConfig
  | some config, [] => .ok (.run ⟨config, g.once, g.verbose⟩)
  | some _, extras => .error (.unrecognized extras)

/-- Take in the arguments one after the other. The first positional argument is the build file, and
two dashes next to it go with it. -/
def addAll (g : Gathered) : List (ArgumentForm × Text) → Except UsageError Request
  | [] => g.finish
  | (.flag f, _) :: rest =>
    match g.addFlags [f] with
    | none => .ok .help
    | some g => addAll g rest
  | (.valued f value, _) :: _ => .error (.unwantedValue f value)
  | (.letters f letters, _) :: rest => do
    match g.addFlags (← expandLetters f letters) with
    | none => return .help
    | some g => addAll g rest
  | (.unknown, t) :: rest => addAll (g.addExtra t) rest
  | (.endOfFlags, t) :: (.positional, u) :: rest =>
    if g.config.isNone then addAll { g with config := some u } rest
    else addAll ((g.addExtra t).addExtra u) rest
  | (.positional, t) :: (.endOfFlags, u) :: rest =>
    if g.config.isNone then addAll { g with config := some t } rest
    else addAll ((g.addExtra t).addExtra u) rest
  | (_, t) :: rest =>
    if g.config.isNone && t != ['-', '-'] then addAll { g with config := some t } rest
    else addAll (g.addExtra t) rest

end Gathered

def readArguments (arguments : List Text) : Except UsageError Request := do
  ({} : Gathered).addAll (← argumentForms arguments)

/-! ## Texts -/

def usageText : Text := "usage: emblem [-h] [--once] [-v] config\n"

def helpText : Text :=
  usageText ++ ['\n'] ++
  "Compile Emblem templates to Handlebars and recompile them on change.\n\n".toList ++
  "positional arguments:\n".toList ++
  "  config         YAML build file listing src/dst pairs\n\n".toList ++
  "options:\n".toList ++
  "  -h, --help     show this help message and exit\n".toList ++
  "  --once         compile once and exit instead of watching\n".toList ++
  "  -v, --verbose  log compiler debug output\n".toList

def UsageError.report (e : UsageError) : Text :=
  usageText ++ "emblem: error: ".toList ++ e.message ++ ['\n']

end IndentMarkup
