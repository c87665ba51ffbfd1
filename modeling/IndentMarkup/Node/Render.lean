import IndentMarkup.Node

/-!
# Rendering nodes

Nodes are written one after another with nothing between them. An element is an opening and a
closing tag around its children. A helper with neither children nor a branch is a single expression;
any other helper is a block, with its branch after the children. Nothing is escaped. A value that is
no node stops the rendering when it is reached.
-/
namespace IndentMarkup

namespace Head

def attributeText (head : Head) : Text :=
  head.attributes.flatMap fun a => ' ' :: a.1 ++ ['=', '"'] ++ a.2 ++ ['"']

def openTag (head : Head) : Text := '<' :: head.name ++ head.attributeText ++ ['>']

def closeTag (head : Head) : Text := '<' :: '/' :: head.name ++ ['>']

def expression (head : Head) : Text :=
  if head.args = [] then head.name else head.name ++ ' ' :: head.args

def mustache (head : Head) : Text := '{' :: '{' :: head.expression ++ ['}', '}']

def openBlock (head : Head) : Text := '{' :: '{' :: '#' :: head.expression ++ ['}', '}']

def closeBlock (head : Head) : Text := '{' :: '{' :: '/' :: head.name ++ ['}', '}']

end Head

/-- What stands between a block's children and its branch. -/
def elseMark : Text := ['{', '{', 'e', 'l', 's', 'e', '}', '}']

namespace Node

mutual

/-- The text of one node, or the type of the first value in it that is no node. -/
def render : Node → Except Foreign Text
  | .leaf l => .ok l.render
  | .foreign type => .error type
  | .tag head children inverse =>
    if head.helper then
      if children.isEmpty && inverse.isNone then .ok head.mustache
      else do
        let body ← renderAll children
        let branch ← renderBranch inverse
        return head.openBlock ++ body ++ branch ++ head.closeBlock
    else do
      let body ← renderAll children
      return head.openTag ++ body ++ head.closeTag

def renderAll : List Node → Except Foreign Text
  | [] => .ok []
  | node :: rest => do
    let first ← render node
    let others ← renderAll rest
    return first ++ others

def renderBranch : Option (List Node) → Except Foreign Text
  | none => .ok []
  | some nodes => do
    let body ← renderAll nodes
    return elseMark ++ body

end

@[simp] theorem render_leaf (l : Leaf) : render (.leaf l) = .ok l.render := by simp [render]
@[simp] theorem render_foreign (type : Foreign) : render (.foreign type) = .error type := by
  simp [render]
@[simp] theorem renderAll_nil : renderAll [] = .ok [] := by simp [renderAll]
@[simp] theorem renderBranch_none : renderBranch none = .ok [] := by simp [renderBranch]

end Node

def Foreign.message (type : Foreign) : Text := "Unknown node type: " ++ type.typeName

end IndentMarkup
