import IndentMarkup.Text.Basic

/-!
# Line breaks

A physical line ends at LF, CR or the pair CR LF, and nowhere else: a form feed or a line separator
stays inside its line. Text read from a file passes through `unifyBreaks`, which spells every break
as LF.
-/
namespace IndentMarkup.Text

def isBreak (c : Char) : Bool := c == '\n' || c == '\r'

/-- The physical lines of a text, without their breaks. There is always at least one. -/
def physicalLines : Text → List Text
  | [] => [[]]
  | '\r' :: '\n' :: rest => [] :: physicalLines rest
  | c :: rest =>
    if isBreak c then [] :: physicalLines rest
    else match physicalLines rest with
      | [] => [[c]]
      | line :: lines => (c :: line) :: lines

/-- The text with every line break spelled LF. -/
def unifyBreaks : Text → Text
  | [] => []
  | '\r' :: '\n' :: rest => '\n' :: unifyBreaks rest
  | c :: rest => (if c == '\r' then '\n' else c) :: unifyBreaks rest

@[simp] theorem physicalLines_nil : physicalLines [] = [[]] := rfl
@[simp] theorem unifyBreaks_nil : unifyBreaks [] = [] := rfl

theorem physicalLines_ne_nil (t : Text) : physicalLines t ≠ [] := by
  fun_cases physicalLines t <;> simp_all

end IndentMarkup.Text
