import IndentMarkup.Decimal.Numeral
import IndentMarkup.Text.Utf8
import IndentMarkup.Yaml.Token

/-!
# Anchors, tags and directives

Each function reads one token at a cursor and returns the place behind it.
-/
namespace IndentMarkup.Yaml

def isIdentifierChar (c : Char) : Bool := c.isAlphanum || c == '-' || c == '_'

def isHexDigit (c : Char) : Bool :=
  c.isDigit || ('a' ≤ c && c ≤ 'f') || ('A' ≤ c && c ≤ 'F')

def hexDigitValue (c : Char) : Nat :=
  if c.isDigit then c.toNat - '0'.toNat else c.toLower.toNat - 'a'.toNat + 10

def hexValue (digits : Text) : Nat := digits.foldl (fun n c => 16 * n + hexDigitValue c) 0

def readIdentifier (c : Cursor) : Except Problem (Text × Cursor) := do
  let (name, after) := c.takeWhile isIdentifierChar
  after.demand !name.isEmpty
  return (name, after)

def readAnchorName (c : Cursor) : Except Problem (Text × Cursor) := do
  let (name, after) ← readIdentifier c.next
  require (atGap after.peek || after.peek.any fun ch => "?:,]\x7d%@`".toList.contains ch)
  return (name, after)

/-! ## Tags -/

def isUriChar (c : Char) : Bool :=
  c.isAlphanum || "-;/?:@&=+$,_.!~*'()[]%".toList.contains c

def splitEscapes : Text → Except Problem (Utf8.Bytes × Text)
  | '%' :: a :: b :: rest => do
    require (isHexDigit a && isHexDigit b)
    let (more, after) ← splitEscapes rest
    return ((hexValue [a, b]).toUInt8 :: more, after)
  | ['%'] => .error .malformed
  | ['%', _] => .error .malformed
  | rest => .ok ([], rest)

/-- A run of URI characters with its percent escapes resolved, run by run. -/
def unescapeUri : Nat → Text → Except Problem Text
  | 0, _ => .ok []
  | _ + 1, [] => .ok []
  | fuel + 1, '%' :: rest => do
    let (bytes, after) ← splitEscapes ('%' :: rest)
    match Utf8.decode? bytes with
    | none => .error .malformed
    | some t => return t ++ (← unescapeUri fuel after)
  | fuel + 1, c :: rest => do return c :: (← unescapeUri fuel rest)

def readUri (c : Cursor) : Except Problem (Text × Cursor) := do
  let (run, after) := c.takeWhile isUriChar
  after.demand !run.isEmpty
  return (← unescapeUri run.length run, after)

/-- A tag handle: one exclamation mark, or an identifier between two. -/
def readHandle (c : Cursor) : Except Problem (Text × Cursor) := do
  c.demand (c.peek == some '!')
  if c.ahead 1 == some ' ' then return (['!'], c.next)
  else
    let (name, after) := c.next.takeWhile isIdentifierChar
    after.demand (after.peek == some '!')
    return ('!' :: name ++ ['!'], after.next)

/-- A tag: verbatim between angle brackets, a lone mark, or a handle with a suffix. -/
def readTag (c : Cursor) : Except Problem (Token × Cursor) := do
  let (token, after) ←
    if c.ahead 1 == some '<' then
      let (uri, after) ← readUri (c.skip 2)
      after.demand (after.peek == some '>')
      pure (Token.tag none uri, after.next)
    else if atGap (c.ahead 1) then pure (Token.tag none ['!'], c.next)
    else
      let word := c.next.rest.takeWhile fun ch => !(ch == ' ' || isLineEnd ch)
      let (handle, after) ← if word.contains '!' then readHandle c else pure (['!'], c.next)
      let (suffix, after) ← readUri after
      pure (Token.tag (some handle) suffix, after)
  require (atSpace after.peek)
  return (token, after)

/-! ## Directives -/

/-- The rest of a line that may hold nothing but a comment. -/
def finishLine (c : Cursor) : Except Problem Cursor := do
  let after := c.skipSpaces.skipComment
  after.demand (atLineEnd after.peek)
  return after.lineBreak.2

def readNumber (c : Cursor) : Except Problem (Nat × Cursor) := do
  let (digits, after) := c.takeWhile Char.isDigit
  after.demand !digits.isEmpty
  match Numeral.readInt? 10 digits with
  | none => .error .impossibleScalar
  | some n => return (n.toNat, after)

def readVersion (c : Cursor) : Except Problem (Token × Cursor) := do
  let (major, after) ← readNumber c.skipSpaces
  after.demand (after.peek == some '.')
  let (_, after) ← readNumber after.next
  require (atSpace after.peek)
  return (.version major, after)

def readHandleDirective (c : Cursor) : Except Problem (Token × Cursor) := do
  let (handle, after) ← readHandle c.skipSpaces
  after.demand (after.peek == some ' ')
  let (uri, after) ← readUri after.skipSpaces
  require (atSpace after.peek)
  return (.handle handle uri, after)

def readDirective (c : Cursor) : Except Problem (Token × Cursor) := do
  let (name, after) ← readIdentifier c.next
  require (atSpace after.peek)
  let (token, after) ←
    if name = "YAML".toList then readVersion after
    else if name = "TAG".toList then readHandleDirective after
    else pure (Token.directive, after.skipWhile fun ch => !isLineEnd ch)
  return (token, ← finishLine after)

end IndentMarkup.Yaml
