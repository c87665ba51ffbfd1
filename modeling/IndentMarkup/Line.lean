import IndentMarkup.Text.LineBreak

/-!
# Lines with content

A source is read line by line. Only lines with something on them count: each is known by the number
of blank characters in front of its content, by the content with the blanks on both sides removed,
and by its place among the physical lines, counted from one. Every blank character in front is one
column wide.
-/
namespace IndentMarkup

structure Line where
  width : Nat
  content : Text
  number : Nat
  deriving DecidableEq, Repr

namespace Line

/-- The line with content that a physical line holds, if it is not blank. -/
def ofPhysical? (number : Nat) (raw : Text) : Option Line :=
  match Text.trim raw with
  | [] => none
  | c :: rest => some ⟨(raw.takeWhile Text.isBlank).length, c :: rest, number⟩

def ofPhysicals (number : Nat) : List Text → List Line
  | [] => []
  | raw :: rest =>
    match ofPhysical? number raw with
    | none => ofPhysicals (number + 1) rest
    | some line => line :: ofPhysicals (number + 1) rest

def ofSource (source : Text) : List Line := ofPhysicals 1 (Text.physicalLines source)

@[simp] theorem ofPhysicals_nil (number : Nat) : ofPhysicals number [] = [] := rfl
@[simp] theorem ofPhysical?_nil (number : Nat) : ofPhysical? number [] = none := rfl
@[simp] theorem ofSource_nil : ofSource [] = [] := rfl

theorem content_ne_nil {number : Nat} {raw : Text} {line : Line}
    (h : ofPhysical? number raw = some line) : line.content ≠ [] := by
  unfold ofPhysical? at h
  split at h
  · simp at h
  · simp only [Option.some.injEq] at h
    subst h
    simp

end Line
end IndentMarkup
