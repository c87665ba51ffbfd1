import IndentMarkup.Node

/-!
# Aborts

Most failures are reported and the program goes on. The ones listed here are not foreseen: they end
the operation in which they occur, and what it did before stays done.
-/
namespace IndentMarkup

/-- What ends an operation without being reported as an error of its own. -/
inductive Abort where
  /-- An option has a name that is not text. -/
  | optionName
  /-- A file is not UTF-8. -/
  | undecodable
  /-- A path to be opened holds a NUL. -/
  | nulInPath
  /-- A path to be opened holds half of a surrogate pair. -/
  | halfInPath
  /-- A text to be written holds half of a surrogate pair. -/
  | halfInOutput
  /-- A path to be looked up, or a name in it, is too long. -/
  | nameTooLong
  /-- A scalar has the form of its type but no value of it, or a number has too many digits. -/
  | impossibleScalar
  /-- A number is too large for the arithmetic it enters. -/
  | overflow
  /-- A scalar tagged as a truth value is none of its words. -/
  | unknownWord
  /-- A scalar tagged as a date has not the form of one. -/
  | notDate
  /-- A mapping is tagged as a date. -/
  | dateOfMapping
  /-- A scalar tagged as a number is empty. -/
  | emptyNumber
  /-- A mapping that stands for a scalar stands for itself. -/
  | endless
  /-- A pattern has no component. -/
  | emptyPattern
  /-- A pattern has no component but ends with a slash. -/
  | emptyDirPattern
  /-- A document holds a value that is no node. -/
  | unknownNode (type : Foreign)
  deriving DecidableEq, Repr

end IndentMarkup
