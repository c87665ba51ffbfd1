import IndentMarkup.Yaml.Token.Name

/-!
# Scalars

The three ways to write a scalar: between quotes, as an indented block, and plain. Line breaks
inside are folded: a single one becomes a space, further ones stay. The loops take as fuel the
length of the text that is left, which every turn shortens.
-/
namespace IndentMarkup.Yaml

def foldBreaks (first : Text) (more : List Text) : Text :=
  if first ≠ ['\n'] then first ++ more.flatten
  else if more.isEmpty then [' ']
  else more.flatten

/-! ## Quoted scalars -/

def escaped? : Char → Option Char
  | '0' => some '\x00'
  | 'a' => some '\x07'
  | 'b' => some '\x08'
  | 't' => some '\t'
  | '\t' => some '\t'
  | 'n' => some '\n'
  | 'v' => some '\x0b'
  | 'f' => some '\x0c'
  | 'r' => some '\r'
  | 'e' => some '\x1b'
  | ' ' => some ' '
  | '"' => some '"'
  | '\\' => some '\\'
  | '/' => some '/'
  | 'N' => some '\x85'
  | '_' => some '\xa0'
  | 'L' => some '\u2028'
  | 'P' => some '\u2029'
  | _ => none

def escapeWidth? : Char → Option Nat
  | 'x' => some 2
  | 'u' => some 4
  | 'U' => some 8
  | _ => none

def quotedBreaks : Nat → Cursor → Except Problem (List Text × Cursor)
  | 0, c => .ok ([], c)
  | fuel + 1, c => do
    require !c.atDocumentMark
    let c := c.skipWhile fun ch => ch == ' ' || ch == '\t'
    if c.peek.any isLineEnd then
      let (first, after) := c.lineBreak
      let (more, after) ← quotedBreaks fuel after
      return (first :: more, after)
    else return ([], c)

def quotedFold (c : Cursor) : Except Problem (Text × Cursor) := do
  let (first, after) := c.lineBreak
  let (more, after) ← quotedBreaks (after.left + 1) after
  return (foldBreaks first more, after)

def codeOfDigits (digits : Text) : Except Problem Nat :=
  let code := hexValue digits
  if 0x7FFFFFFF < code then .error .noSuchCode
  else if 0x10FFFF < code then .error .noSuchChar
  else .ok code

/-- An escape within double quotes, from behind its backslash, as code points. -/
def readEscape (c : Cursor) : Except Problem (List Nat × Cursor) :=
  match c.peek with
  | none => .error .unfinished
  | some ch =>
    match escaped? ch, escapeWidth? ch with
    | some d, _ => .ok ([d.toNat], c.next)
    | none, some width => do
      let digits := (c.next.rest.take width).takeWhile isHexDigit
      let after := c.next.skip digits.length
      after.demand (digits.length == width)
      return ([← codeOfDigits digits], after)
    | none, none =>
      if isLineEnd ch then do
        let (more, after) ← quotedBreaks (c.left + 1) c.lineBreak.2
        return (more.flatten.map Char.toNat, after)
      else .error .malformed

/-- The inside of a quoted scalar and its closing quote, as code points. -/
def readQuoted (double : Bool) : Nat → Cursor → Except Problem (List Nat × Cursor)
  | 0, _ => .error .malformed
  | fuel + 1, c =>
    match c.peek with
    | none => .error .unfinished
    | some ch =>
      if !double && ch == '\'' && c.ahead 1 == some '\'' then do
        let (more, after) ← readQuoted double fuel (c.skip 2)
        return ('\''.toNat :: more, after)
      else if ch == (if double then '"' else '\'') then .ok ([], c.next)
      else if double && ch == '\\' then do
        let (first, after) ← readEscape c.next
        let (more, after) ← readQuoted double fuel after
        return (first ++ more, after)
      else if ch == ' ' || ch == '\t' then do
        let (blanks, after) := c.takeWhile fun ch => ch == ' ' || ch == '\t'
        let (first, after) ←
          if after.peek.any isLineEnd then quotedFold after else pure (blanks, after)
        let (more, after) ← readQuoted double fuel after
        return (first.map Char.toNat ++ more, after)
      else if isLineEnd ch then do
        let (first, after) ← quotedFold c
        let (more, after) ← readQuoted double fuel after
        return (first.map Char.toNat ++ more, after)
      else do
        let (more, after) ← readQuoted double fuel c.next
        return (ch.toNat :: more, after)

def quotedToken (codes : List Nat) : Token :=
  if codes.all Nat.isValidChar then .scalar (codes.map Char.ofNat) false else .brokenScalar codes

/-! ## Block scalars -/

inductive Chomping where
  | strip | clip | keep
  deriving DecidableEq, Repr

def chomping? : Option Char → Option Chomping
  | some '+' => some .keep
  | some '-' => some .strip
  | _ => none

def increment? (c : Option Char) : Except Problem (Option Nat) :=
  match c with
  | some ch =>
    if ch.isDigit then
      if ch == '0' then .error .malformed else .ok (some (ch.toNat - '0'.toNat))
    else .ok none
  | none => .ok none

/-- The indicators behind the bar or angle bracket, in either order. -/
def readIndicators (c : Cursor) : Except Problem (Chomping × Option Nat × Cursor) := do
  let (chomping, increment, after) ←
    match chomping? c.peek with
    | some chomping =>
      match ← increment? c.next.peek with
      | some n => pure (chomping, some n, c.skip 2)
      | none => pure (chomping, none, c.next)
    | none =>
      match ← increment? c.peek with
      | some n =>
        match chomping? c.next.peek with
        | some chomping => pure (chomping, some n, c.skip 2)
        | none => pure (Chomping.clip, some n, c.next)
      | none => pure (Chomping.clip, none, c)
  after.demand (atSpace after.peek)
  return (chomping, increment, after)

/-- The blank lines in front of a block, and the greatest column that spaces reach in them and in
front of the first line with content. -/
def blockIndentation : Nat → Nat → Cursor → List Text × Nat × Cursor
  | 0, widest, c => ([], widest, c)
  | fuel + 1, widest, c =>
    if c.peek == some ' ' then blockIndentation fuel (max widest c.next.column) c.next
    else if c.peek.any isLineEnd then
      let (first, after) := c.lineBreak
      let (more, widest, after) := blockIndentation fuel widest after
      (first :: more, widest, after)
    else ([], widest, c)

def skipIndent (indent : Nat) : Nat → Cursor → Cursor
  | 0, c => c
  | fuel + 1, c =>
    if c.column < indent && c.peek == some ' ' then skipIndent indent fuel c.next else c

def blockBreaks (indent : Nat) : Nat → Cursor → List Text × Cursor
  | 0, c => ([], c)
  | fuel + 1, c =>
    let c := skipIndent indent c.left c
    if c.peek.any isLineEnd then
      let (first, after) := c.lineBreak
      let (more, after) := blockBreaks indent fuel after
      (first :: more, after)
    else ([], c)

def isBlankChar (c : Char) : Bool := c == ' ' || c == '\t'

/-- The lines of a block from a place on, given the blank lines before it: their text, the last line
break, the blank lines after it, and the place behind. -/
def blockLines (folded : Bool) (indent : Nat) :
    Nat → List Text → Cursor → Text × Text × List Text × Cursor
  | 0, breaks, c => ([], [], breaks, c)
  | fuel + 1, breaks, c =>
    if c.column == indent && c.peek.isSome then
      let startsBlank := c.peek.any isBlankChar
      let (line, after) := c.takeWhile fun ch => !isLineEnd ch
      let (lineEnd, after) := after.lineBreak
      let (more, after) := blockBreaks indent (after.left + 1) after
      let text := breaks.flatten ++ line
      if after.column == indent && after.peek.isSome then
        let joint :=
          if folded && lineEnd == ['\n'] && !startsBlank && !after.peek.any isBlankChar then
            if more.isEmpty then [' '] else []
          else lineEnd
        let (rest, lastEnd, tail, after) := blockLines folded indent fuel more after
        (text ++ joint ++ rest, lastEnd, tail, after)
      else (text, lineEnd, more, after)
    else ([], [], breaks, c)

/-- A block scalar inside a block of the given indentation. -/
def readBlock (folded : Bool) (outer : Int) (c : Cursor) : Except Problem (Text × Cursor) := do
  let (chomping, increment, after) ← readIndicators c.next
  let after ← finishLine after
  let least := (max (outer + 1) 1).toNat
  let fuel := after.left + 1
  let (breaks, indent, after) :=
    match increment with
    | none =>
      let (breaks, widest, after) := blockIndentation fuel 0 after
      (breaks, max least widest, after)
    | some n =>
      let indent := least + n - 1
      let (breaks, after) := blockBreaks indent fuel after
      (breaks, indent, after)
  let (text, lastEnd, tail, after) := blockLines folded indent fuel breaks after
  let ending := match chomping with
    | .strip => []
    | .clip => lastEnd
    | .keep => lastEnd ++ tail.flatten
  return (text ++ ending, after)

/-! ## Plain scalars -/

def isFlowIndicator (c : Char) : Bool :=
  c == ',' || c == '[' || c == ']' || c == '\x7b' || c == '\x7d'

def plainRun (flow : Bool) : Text → Text
  | [] => []
  | c :: rest =>
    let next := rest.head?
    if atGap (some c) then []
    else if c == ':' && (atGap next || (flow && next.any isFlowIndicator)) then []
    else if flow && (isFlowIndicator c || c == '?') then []
    else c :: plainRun flow rest

/-- The blank lines after a line break in a plain scalar; nothing when a document mark follows. -/
def plainBreaks : Nat → Cursor → Option (List Text) × Cursor
  | 0, c => (some [], c)
  | fuel + 1, c =>
    if c.peek == some ' ' then plainBreaks fuel c.next
    else if c.peek.any isLineEnd then
      let (first, after) := c.lineBreak
      if after.atDocumentMark then (none, after)
      else
        let (more, after) := plainBreaks fuel after
        (more.map (first :: ·), after)
    else (some [], c)

/-- The gap behind a run of a plain scalar: what it folds to, whether it held a line break, and the
place behind it. An empty gap ends the scalar. -/
def plainGap (c : Cursor) : Text × Bool × Cursor :=
  let (blanks, after) := c.takeWhile (· == ' ')
  if after.peek.any isLineEnd then
    let (first, after) := after.lineBreak
    if after.atDocumentMark then ([], true, after)
    else
      match plainBreaks (after.left + 1) after with
      | (none, after) => ([], true, after)
      | (some more, after) => (foldBreaks first more, true, after)
  else (blanks, false, after)

/-- A plain scalar within a block of the given indentation: its text, whether its last gap held a
line break, and the place behind. -/
def readPlain (flow : Bool) (indent : Int) : Nat → Text → Bool → Cursor → Text × Bool × Cursor
  | 0, _, broke, c => ([], broke, c)
  | fuel + 1, gap, broke, c =>
    if c.peek == some '#' then ([], broke, c)
    else
      let run := plainRun flow c.rest
      if run.isEmpty then ([], broke, c)
      else
        let (nextGap, nextBroke, after) := plainGap (c.skip run.length)
        if nextGap.isEmpty || after.peek == some '#' || (!flow && (after.column : Int) < indent + 1)
        then (gap ++ run, nextBroke, after)
        else
          let (more, broke, after) := readPlain flow indent fuel nextGap nextBroke after
          (gap ++ run ++ more, broke, after)

end IndentMarkup.Yaml
