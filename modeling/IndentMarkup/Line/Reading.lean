import IndentMarkup.Element
import IndentMarkup.Line

/-!
# What a line says

A line's first character decides how its content is read: a bar opens literal text, an apostrophe
text with a trailing space, an angle bracket raw markup, a slash a comment and an equals sign an
expression. Any other line is a tag line if it has that shape, and plain text otherwise. The reading
does not depend on the lines around it.
-/
namespace IndentMarkup

inductive Reading where
  | comment
  | leaf (leaf : Leaf)
  | tag (tag : TagLine)
  deriving DecidableEq, Repr

namespace Reading

/-- Comments and lines with inline content take deeper lines in and open no level for them. -/
def isOpaque : Reading → Bool
  | .comment => true
  | .leaf _ => true
  | .tag t => t.inline.isSome

@[simp] theorem isOpaque_comment : isOpaque .comment = true := rfl
@[simp] theorem isOpaque_leaf (l : Leaf) : isOpaque (.leaf l) = true := rfl
@[simp] theorem isOpaque_tag (t : TagLine) : isOpaque (.tag t) = t.inline.isSome := rfl

end Reading

/-- A line without a marker: a tag if it has that shape, plain text otherwise. -/
def readUnmarked (number : Nat) (content : Text) : Reading :=
  match readTag? number content with
  | none => .leaf (.text content)
  | some t => .tag t

namespace Line

def reading (line : Line) : Reading :=
  match line.content with
  | '|' :: rest => .leaf (.literal [afterMarker rest])
  | ['\''] => .leaf (.trailing [])
  | '\'' :: ' ' :: rest => .leaf (.trailing rest)
  | '<' :: _ => .leaf (.raw line.content)
  | '/' :: _ => .comment
  | '=' :: _ => .leaf (.text (expressionText line.content))
  | _ => readUnmarked line.number line.content

def elseWord : Text := ['e', 'l', 's', 'e']

/-- Whether the line may open the branch of a helper in front of it. -/
def isElse (line : Line) : Bool := line.content == elseWord

end Line
end IndentMarkup
