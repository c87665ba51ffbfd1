import IndentMarkup.Text.Basic

/-!
# A place in a YAML text

A cursor is the text still to be read, with the line and column it stands at and the numbers of
characters in front of it and behind it. Next line, line separator and paragraph separator end a
line like LF and CR do. The byte order mark takes up no column.
-/
namespace IndentMarkup.Yaml

def isLineEnd (c : Char) : Bool :=
  c == '\n' || c == '\r' || c == '\x85' || c == '\u2028' || c == '\u2029'

def endOr (test : Char → Bool) (c : Option Char) : Bool := c.all test

def atLineEnd (c : Option Char) : Bool := endOr isLineEnd c

def atSpace (c : Option Char) : Bool := endOr (fun c => c == ' ' || isLineEnd c) c

/-- The end of the text or of a line, a space or a tab. -/
def atGap (c : Option Char) : Bool := endOr (fun c => c == ' ' || c == '\t' || isLineEnd c) c

structure Cursor where
  rest : Text
  /-- How many characters are left. -/
  left : Nat
  index : Nat
  line : Nat
  column : Nat

namespace Cursor

def start (t : Text) : Cursor := ⟨t, t.length, 0, 0, 0⟩

def peek (c : Cursor) : Option Char := c.rest.head?

def ahead (c : Cursor) (n : Nat) : Option Char := c.rest[n]?

/-- One character on. A CR ends its line only when no LF follows. -/
def next (c : Cursor) : Cursor :=
  match c.rest with
  | [] => c
  | ch :: rest =>
    if isLineEnd ch && !(ch == '\r' && rest.head? == some '\n') then
      ⟨rest, c.left - 1, c.index + 1, c.line + 1, 0⟩
    else if ch == '\uFEFF' then ⟨rest, c.left - 1, c.index + 1, c.line, c.column⟩
    else ⟨rest, c.left - 1, c.index + 1, c.line, c.column + 1⟩

def skip (c : Cursor) : Nat → Cursor
  | 0 => c
  | n + 1 => c.next.skip n

def takeWhile (c : Cursor) (test : Char → Bool) : Text × Cursor :=
  let run := c.rest.takeWhile test
  (run, c.skip run.length)

def skipWhile (c : Cursor) (test : Char → Bool) : Cursor := (c.takeWhile test).2

def skipSpaces (c : Cursor) : Cursor := c.skipWhile (· == ' ')

def skipComment (c : Cursor) : Cursor :=
  if c.peek == some '#' then c.skipWhile fun ch => !isLineEnd ch else c

/-- The line end that stands here, if any: it counts as LF unless it is a line or paragraph
separator. -/
def lineBreak (c : Cursor) : Text × Cursor :=
  match c.rest with
  | '\r' :: '\n' :: _ => (['\n'], c.skip 2)
  | ch :: _ =>
    if ch == '\u2028' || ch == '\u2029' then ([ch], c.next)
    else if isLineEnd ch then (['\n'], c.next)
    else ([], c)
  | [] => ([], c)

def atMark (c : Cursor) (ch : Char) : Bool :=
  c.rest.take 3 == [ch, ch, ch] && atGap (c.ahead 3)

def atDocumentMark (c : Cursor) : Bool := c.atMark '-' || c.atMark '.'

end Cursor
end IndentMarkup.Yaml
