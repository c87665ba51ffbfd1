import IndentMarkup.Text.Code

/-!
# Reported errors

Every error the program itself reports is of one of three kinds and is worded the same way: a fixed
beginning, the line it concerns when there is one, and a detail.
-/
namespace IndentMarkup

inductive ErrorKind where
  | general | indentation | config
  deriving DecidableEq, Repr

structure Error where
  kind : ErrorKind
  detail : Codes
  line : Option Int
  deriving DecidableEq, Repr

def Error.message (e : Error) : Codes :=
  match e.line with
  | none => "Emblem Compile Error: " ++ e.detail
  | some n => "Emblem Compile Error (Line " ++ Text.ofInt n ++ "): " ++ e.detail

end IndentMarkup
