import IndentMarkup.Config
import IndentMarkup.FileTree.Source

/-!
# Loading build files

A build file is a YAML file; the paths in it are seen from the directory it stands in. How bytes are
read as YAML is a parameter here: a loader gives the value of a file, says that it is malformed, or
fails in some other way.
-/
namespace IndentMarkup

inductive LoadProblem where
  | malformed
  | abort (a : Abort)
  deriving DecidableEq, Repr

abbrev Loader := Utf8.Bytes → Except LoadProblem (Store × Value)

/-- The configuration that a build file holds. -/
def loadConfig (load : Loader) (t : FileTree) (path : Path) : Except ConfigProblem BuildConfig :=
  match t.readBytes path with
  | .error (.error e) => .error (.fault (.unreadable path e))
  | .error (.abort a) => .error (.abort a)
  | .ok bytes =>
    match load bytes with
    | .error .malformed => .error (.fault (.invalidYaml path))
    | .error (.abort a) => .error (.abort a)
    | .ok (store, value) => readConfig t path.parent store value

end IndentMarkup
