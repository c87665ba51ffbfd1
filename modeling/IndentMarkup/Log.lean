import IndentMarkup.Text.Code

/-!
# Log entries

What the program tells about its work: entries with a severity, the part of the program they come
from, and a message. Debug entries are shown on request only.
-/
namespace IndentMarkup

inductive Severity where
  | debug | info | warning | error
  deriving DecidableEq, Repr

inductive Speaker where
  | compiler | watcher | program
  deriving DecidableEq, Repr

structure LogEntry where
  severity : Severity
  speaker : Speaker
  message : Codes
  deriving DecidableEq, Repr

namespace LogEntry

def isShown (verbose : Bool) (e : LogEntry) : Bool := verbose || e.severity != .debug

end LogEntry
end IndentMarkup
