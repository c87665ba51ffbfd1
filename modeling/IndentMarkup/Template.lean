import IndentMarkup.Error
import IndentMarkup.Node.Render
import IndentMarkup.Outline

/-!
# Compiling a template source

A source is read into its lines, the lines into an outline, and the outline's document is rendered.
The one option is the separator put between continued lines of plain text. It may hold halves of
surrogate pairs, and then the template does as well.
-/
namespace IndentMarkup

def defaultSeparator : Text := [' ']

/-- The document of a source. -/
def parse (separator : Text) (source : Text) : Except HalfDedent (List Node) :=
  (Outline.empty.run separator (Line.ofSource source)).map Outline.nodes

inductive CompileError where
  | halfDedent (e : HalfDedent)
  | unknownNode (type : Foreign)
  deriving DecidableEq, Repr

/-- The template text of a source. -/
def compile (separator : Text) (source : Text) : Except CompileError Text :=
  match parse separator source with
  | .error e => .error (.halfDedent e)
  | .ok nodes =>
    match Node.renderAll nodes with
    | .error type => .error (.unknownNode type)
    | .ok text => .ok text

/-- What marks the joints of continued text until the separator takes its place. No text that is read
off a line holds it. -/
def jointMark : Char := '\n'

/-- The separator in the place of every joint. -/
def spread (separator : Codes) (t : Text) : Codes :=
  t.flatMap fun c => if c = jointMark then separator else [.char c]

/-- The template of a source for a separator of any code points. -/
def compileCodes (separator : Codes) (source : Text) : Except CompileError Codes :=
  (compile [jointMark] source).map (spread separator)

/-- The lines of a source that open an indentation level. -/
def openedLevels (separator : Text) (source : Text) : List Line :=
  Outline.empty.openings separator (Line.ofSource source)

def HalfDedent.toError (e : HalfDedent) : Error := ⟨.indentation, e.detail, some e.number⟩

end IndentMarkup
