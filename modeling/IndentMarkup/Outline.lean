import IndentMarkup.Line.Reading

/-!
# Outlines

The tree behind an indented source, built line by line.

An outline is a stack of open levels, innermost first. Each level has a width, the nodes placed at
it so far, and an owner that will hold them once the level is closed: the document, a tag, or the
branch of a helper. Beside the stack stands what the latest line left open. A deeper line goes into
it: as further text, as a first child on a new level, or nowhere when it was a comment. Any other
line first settles it, then closes all wider levels, and has to meet a level of exactly its own
width.

Nodes within a level are kept latest first.
-/
namespace IndentMarkup

/-- What the nodes of a level belong to. -/
inductive Owner where
  | document
  /-- The children of a tag. -/
  | body (head : Head)
  /-- The branch of a helper whose children are complete. -/
  | branch (head : Head) (children : List Node)

/-- The nodes that stand one level up once the owner has these, latest first. -/
def Owner.wrap : Owner → List Node → List Node
  | .document, nodes => nodes
  | .body head, nodes => [.tag head nodes.reverse none]
  | .branch head children, nodes => [.tag head children (some nodes.reverse)]

@[simp] theorem Owner.wrap_document (nodes : List Node) : Owner.document.wrap nodes = nodes := rfl
@[simp] theorem Owner.wrap_body (head : Head) (nodes : List Node) :
    (Owner.body head).wrap nodes = [.tag head nodes.reverse none] := rfl
@[simp] theorem Owner.wrap_branch (head : Head) (children nodes : List Node) :
    (Owner.branch head children).wrap nodes = [.tag head children (some nodes.reverse)] := rfl

structure Level where
  width : Nat
  owner : Owner
  nodes : List Node

/-- What the latest line left open for deeper lines. -/
inductive Latest where
  /-- A comment drops them. -/
  | comment
  /-- Inline content, alone or within a tag, is continued by them. -/
  | inline (tag : Option Head) (leaf : Leaf)
  /-- An owner without nodes takes them as its nodes. -/
  | header (owner : Owner)

/-- The nodes that the latest line adds to its level when nothing deeper follows. -/
def Latest.nodes : Latest → List Node
  | .comment => []
  | .inline none leaf => [.leaf leaf]
  | .inline (some head) leaf => [.tag head [.leaf leaf] none]
  | .header owner => owner.wrap []

structure Outline where
  levels : List Level
  latest : Latest

/-- A line that is narrower than the line before it and as wide as no open level. -/
structure HalfDedent where
  width : Nat
  /-- The widths of the levels still open, all narrower than the line, in ascending order. -/
  openWidths : List Nat
  number : Nat
  deriving DecidableEq, Repr

namespace Outline

def empty : Outline := ⟨[], .header .document⟩

def isDeeper (levels : List Level) (width : Nat) : Bool :=
  match levels with
  | [] => true
  | top :: _ => top.width < width

/-- The helper placed last on the level, if it has no branch yet, with the nodes before it. -/
def branch? (level : Level) : Option (Owner × List Node) :=
  match level.nodes with
  | .tag head children none :: before =>
    if head.helper then some (.branch head children, before) else none
  | _ => none

/-- Place a line on an open level. -/
def place (top : Level) (outer : List Level) (line : Line) : Outline :=
  match line.isElse, branch? top with
  | true, some (owner, before) => ⟨{ top with nodes := before } :: outer, .header owner⟩
  | _, _ =>
    ⟨top :: outer,
      match line.reading with
      | .comment => .comment
      | .leaf leaf => .inline none leaf
      | .tag ⟨head, none⟩ => .header (.body head)
      | .tag ⟨head, some leaf⟩ => .inline (some head) leaf⟩

/-- Close the levels wider than the line, given nodes that settle on the innermost one, and find the
level of the line's own width. -/
def settle (line : Line) : List Level → List Node → Except HalfDedent (Level × List Level)
  | [], _ => .error ⟨line.width, [], line.number⟩
  | top :: outer, late =>
    if line.width < top.width then settle line outer (top.owner.wrap (late ++ top.nodes))
    else if top.width = line.width then .ok ({ top with nodes := late ++ top.nodes }, outer)
    else .error ⟨line.width, ((top :: outer).map (·.width)).reverse, line.number⟩

def step (separator : Text) (o : Outline) (line : Line) : Except HalfDedent Outline :=
  if isDeeper o.levels line.width then
    match o.latest with
    | .comment => .ok o
    | .inline tag leaf => .ok ⟨o.levels, .inline tag (leaf.extend separator line.content)⟩
    | .header owner => .ok (place ⟨line.width, owner, []⟩ o.levels line)
  else
    match settle line o.levels o.latest.nodes with
    | .error e => .error e
    | .ok (top, outer) => .ok (place top outer line)

def run (separator : Text) : Outline → List Line → Except HalfDedent Outline
  | o, [] => .ok o
  | o, line :: lines =>
    match o.step separator line with
    | .error e => .error e
    | .ok next => next.run separator lines

@[simp] theorem run_nil (separator : Text) (o : Outline) : o.run separator [] = .ok o := rfl

theorem run_cons (separator : Text) (o : Outline) (line : Line) (lines : List Line) :
    o.run separator (line :: lines) =
      (o.step separator line).bind fun next => next.run separator lines := by
  simp only [run, Except.bind]
  cases o.step separator line <;> rfl

/-- A run can be cut anywhere. -/
theorem run_append (separator : Text) (o : Outline) (first rest : List Line) :
    o.run separator (first ++ rest) =
      (o.run separator first).bind fun next => next.run separator rest := by
  induction first generalizing o with
  | nil => rfl
  | cons line lines ih =>
    simp only [List.cons_append, run_cons]
    cases h : o.step separator line with
    | error e => rfl
    | ok next => simpa [Except.bind] using ih next

def closeAll : List Level → List Node → List Node
  | [], late => late.reverse
  | top :: outer, late => closeAll outer (top.owner.wrap (late ++ top.nodes))

def nodes (o : Outline) : List Node := closeAll o.levels o.latest.nodes

@[simp] theorem nodes_empty : nodes empty = [] := rfl

/-! ## Opened levels -/

/-- Whether a line opens a level of its own. -/
def opens (o : Outline) (line : Line) : Bool :=
  isDeeper o.levels line.width &&
    match o.latest with
    | .header _ => true
    | _ => false

/-- The lines that open a level, up to the first that fits no level. -/
def openings (separator : Text) : Outline → List Line → List Line
  | _, [] => []
  | o, line :: lines =>
    match o.step separator line with
    | .error _ => []
    | .ok next =>
      if o.opens line then line :: next.openings separator lines
      else next.openings separator lines

end Outline

namespace HalfDedent

def openText (e : HalfDedent) : Text :=
  match e.openWidths with
  | [] => "none"
  | widths => [',', ' '].intercalate (widths.map Text.ofNat)

def detail (e : HalfDedent) : Text :=
  "Dedent to ".toList ++ Text.ofNat e.width ++
    " spaces matches no open indentation level (open levels: ".toList ++ e.openText ++ ").".toList

end HalfDedent
end IndentMarkup
