import IndentMarkup.Abort
import IndentMarkup.FileTree
import IndentMarkup.Text.LineBreak

/-!
# Text files

A text file is UTF-8, and its line breaks are unified as it is read.
-/
namespace IndentMarkup

/-- How a failure to read a text ends an operation. -/
inductive ReadFailure where
  | error (e : OsError)
  | abort (a : Abort)
  deriving DecidableEq, Repr

def FileTree.readBytes (t : FileTree) (p : Path) : Except ReadFailure Utf8.Bytes :=
  match p.refusal? with
  | some a => .error (.abort a)
  | none => (t.read p).mapError .error

theorem FileTree.readBytes_of_not_refused {t : FileTree} {p : Path} (h : p.isRefused = false) :
    t.readBytes p = (t.read p).mapError .error := by
  simp only [readBytes, Path.refusal?_eq_none_iff.mpr h]

/-- The text of a file, with its line breaks unified. -/
def FileTree.readText (t : FileTree) (p : Path) : Except ReadFailure Text := do
  match Utf8.decode? (← t.readBytes p) with
  | none => .error (.abort .undecodable)
  | some text => return Text.unifyBreaks text

end IndentMarkup
