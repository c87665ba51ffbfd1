import IndentMarkup.Abort
import IndentMarkup.Text.Code

/-!
# Paths

A path is a root and a list of components. Empty components and single dots vanish when a path is
read; double dots stay, since they can only be followed through an actual tree. Exactly two slashes
in front are a root of their own, any other number of slashes is the ordinary root.

Any code points make up a path. The system refuses it, when it is used, if it holds a NUL or half of a
surrogate pair that stands for no byte.
-/
namespace IndentMarkup

inductive Root where
  | none | slash | doubleSlash
  deriving DecidableEq, Repr

def Root.text : Root → Codes
  | .none => []
  | .slash => [.char '/']
  | .doubleSlash => [.char '/', .char '/']

structure Path where
  root : Root
  parts : List Codes
  deriving DecidableEq, Repr

def parentMark : Codes := [.char '.', .char '.']

namespace Path

/-- Components that lead nowhere. -/
def isIdle (part : Codes) : Bool := part == [] || part == [.char '.']

def rootOf (t : Codes) : Root :=
  match (t.takeWhile (· == .char '/')).length with
  | 0 => .none
  | 2 => .doubleSlash
  | _ => .slash

def ofText (t : Codes) : Path :=
  ⟨rootOf t, (Text.pieces (.char '/') t).filter fun part => !isIdle part⟩

/-- The path as text; a path without root and components is a single dot. -/
def text (p : Path) : Codes :=
  match p.root, p.parts with
  | .none, [] => [.char '.']
  | root, parts => root.text ++ [.char '/'].intercalate parts

def under (base p : Path) : Path :=
  match p.root with
  | .none => ⟨base.root, base.parts ++ p.parts⟩
  | _ => p

def child (p : Path) (name : Codes) : Path := ⟨p.root, p.parts ++ [name]⟩

def parent (p : Path) : Path := ⟨p.root, p.parts.dropLast⟩

def here : Path := ⟨.none, []⟩

/-- Whether a component is no file name. -/
def isRefused (p : Path) : Bool := p.parts.any fun part => !part.all Code.canBeNamed

/-- Why code points are refused. Halves are found before NULs. -/
def refusalOf? (cs : Codes) : Option Abort :=
  if cs.all Code.canBeNamed then none
  else if cs.all fun c => c.canBeNamed || c == .char (Char.ofNat 0) then some .nulInPath
  else some .halfInPath

def refusal? (p : Path) : Option Abort := refusalOf? p.parts.flatten

/-- Why the path cannot be followed. The first component that is refused decides. -/
def wayRefusal? (p : Path) : Option Abort := p.parts.findSome? refusalOf?

theorem refusalOf?_eq_none_iff {cs : Codes} :
    refusalOf? cs = none ↔ cs.all Code.canBeNamed = true := by
  unfold refusalOf?
  split
  · simp [*]
  · split <;> simp [*]

/-- A path can be opened exactly when no component is refused. -/
theorem refusal?_eq_none_iff {p : Path} : p.refusal? = none ↔ p.isRefused = false := by
  simp [refusal?, refusalOf?_eq_none_iff, isRefused]

/-- Paths can be followed exactly when they can be opened. -/
theorem wayRefusal?_eq_none_iff {p : Path} : p.wayRefusal? = none ↔ p.isRefused = false := by
  simp [wayRefusal?, refusalOf?_eq_none_iff, isRefused]

@[simp] theorem text_here : here.text = [.char '.'] := rfl
@[simp] theorem under_here (p : Path) (h : p.root = .none) : under here p = p := by
  obtain ⟨root, parts⟩ := p
  simp only at h
  subst h
  rfl
@[simp] theorem child_parent (p : Path) (name : Codes) : (p.child name).parent = p := by
  simp [child, parent]

end Path

/-- A place in a file tree: the names on the way from the root directory. -/
abbrev Location := List Codes

/-- The location that components lead to from a directory when names are only followed on paper:
double dots take back the name before them. -/
def Location.follow (start : Location) (parts : List Codes) : Location :=
  parts.foldl (fun here part => if part = parentMark then here.dropLast else here ++ [part]) start

def Location.stages (l : Location) : List Location :=
  (List.range l.length).map fun n => l.take (n + 1)

def Location.path (l : Location) : Path := ⟨.slash, l⟩

/-- The absolute path of a path, followed on paper from the working directory. -/
def Path.resolve (workingDir : Location) (p : Path) : Location :=
  match p.root with
  | .none => Location.follow workingDir p.parts
  | _ => Location.follow [] p.parts

end IndentMarkup
