import IndentMarkup.OrderedMap
import IndentMarkup.Text.Basic

/-!
# Document nodes

A document is a list of nodes. A tag is an element or, when `helper` is set, a template helper; a
helper may have a second list of nodes, its `else` branch, and an empty branch differs from none.
The other nodes are leaves that hold text of one of four kinds. A list of nodes handed in from
outside can also hold a value that is no node at all, of which only its type is known.
-/
namespace IndentMarkup

/-- Attribute values by name, in the order in which they are written. -/
abbrev Attributes := OrderedMap Text Text

/-- What a tag's own line says. -/
structure Head where
  name : Text
  attributes : Attributes := []
  helper : Bool := false
  args : Text := []
  line : Nat := 0
  deriving DecidableEq, Repr

inductive Leaf where
  /-- Segments written with one space between them. -/
  | literal (segments : List Text)
  /-- Markup written as it stands. -/
  | raw (markup : Text)
  /-- Text whose continuation lines are joined by the separator in force. -/
  | text (value : Text)
  /-- Text written with one space after it. -/
  | trailing (value : Text)
  deriving DecidableEq, Repr

/-- A value that is no node, by the name of its type. -/
structure Foreign where
  typeName : Text
  deriving DecidableEq, Repr

inductive Node where
  | tag (head : Head) (children : List Node) (inverse : Option (List Node))
  | leaf (leaf : Leaf)
  | foreign (type : Foreign)

instance : Inhabited Node := ⟨.leaf (.text [])⟩

namespace Leaf

/-- The leaf with one more line of content. Only plain text uses the separator. -/
def extend (separator : Text) (content : Text) : Leaf → Leaf
  | .literal segments => .literal (segments ++ [content])
  | .raw markup => .raw (markup ++ ' ' :: content)
  | .text value => .text (value ++ separator ++ content)
  | .trailing value => .trailing (value ++ ' ' :: content)

def render : Leaf → Text
  | .literal segments => [' '].intercalate segments
  | .raw markup => markup
  | .text value => value
  | .trailing value => value ++ [' ']

@[simp] theorem extend_literal (separator content : Text) (segments : List Text) :
    extend separator content (.literal segments) = .literal (segments ++ [content]) := rfl
@[simp] theorem extend_raw (separator content markup : Text) :
    extend separator content (.raw markup) = .raw (markup ++ ' ' :: content) := rfl
@[simp] theorem extend_text (separator content value : Text) :
    extend separator content (.text value) = .text (value ++ separator ++ content) := rfl
@[simp] theorem extend_trailing (separator content value : Text) :
    extend separator content (.trailing value) = .trailing (value ++ ' ' :: content) := rfl

end Leaf
end IndentMarkup
