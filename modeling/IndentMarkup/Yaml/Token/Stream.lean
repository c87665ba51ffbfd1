import IndentMarkup.Yaml.Source
import IndentMarkup.Yaml.Token.Scalar

/-!
# Splitting a text into tokens

The lexer keeps the indentation of the open block collections, the depth of flow collections, and
for each depth the place of a token that turns out to be a key if a colon follows it on the same
line within 1024 characters. When it does, the key's token and, if needed, the start of a block
mapping are put in front of that place.
-/
namespace IndentMarkup.Yaml

structure Candidate where
  /-- How many tokens stand before it. -/
  place : Nat
  /-- Whether it has to be a key, because it begins a line of a block mapping. -/
  required : Bool
  index : Nat
  line : Nat
  column : Nat
  deriving DecidableEq, Repr

structure Lexer where
  cursor : Cursor
  /-- The tokens read, latest first. -/
  tokens : List Token
  /-- How many they are. -/
  count : Nat
  /-- The indentation of the innermost block collection, or -1 outside of all. -/
  indent : Int
  /-- The indentations further out, innermost first. -/
  outer : List Int
  /-- Whether a key may begin here. -/
  keyAllowed : Bool
  /-- The candidates at the current flow depth and at those further out, innermost first. -/
  candidate : Option Candidate
  candidates : List (Option Candidate)

namespace Lexer

def start (t : Text) : Lexer :=
  let c := Cursor.start t
  ⟨if c.peek == some '\uFEFF' then c.next else c, [], 0, -1, [], true, none, []⟩

def inFlow (r : Lexer) : Bool := !r.candidates.isEmpty

def push (r : Lexer) (t : Token) : Lexer :=
  { r with tokens := t :: r.tokens, count := r.count + 1 }

def column (r : Lexer) : Int := r.cursor.column

def insertAt (r : Lexer) (place : Nat) (ts : List Token) : Lexer :=
  let behind := r.count - place
  { r with
    tokens := r.tokens.take behind ++ ts.reverse ++ r.tokens.drop behind
    count := r.count + ts.length }

/-! ## Candidates -/

def isStale (r : Lexer) (k : Candidate) : Bool :=
  k.line != r.cursor.line || 1024 < r.cursor.index - k.index

def refresh (r : Lexer) : Option Candidate → Except Problem (Option Candidate)
  | none => .ok none
  | some k =>
    if r.isStale k then
      if k.required then .error .malformed else .ok none
    else .ok (some k)

def refreshAll (r : Lexer) : Except Problem Lexer := do
  let candidate ← r.refresh r.candidate
  let candidates ← r.candidates.mapM r.refresh
  return { r with candidate, candidates }

def dropCandidate (r : Lexer) : Except Problem Lexer :=
  if r.candidate.any (·.required) then .error .malformed else .ok { r with candidate := none }

/-- The token to be read next may be a key. -/
def saveCandidate (r : Lexer) : Except Problem Lexer :=
  if r.keyAllowed then do
    let r ← r.dropCandidate
    let required := !r.inFlow && r.indent == r.column
    let c := r.cursor
    return { r with candidate := some ⟨r.count, required, c.index, c.line, c.column⟩ }
  else .ok r

/-! ## Indentation -/

/-- The indentations that remain when the block collections that are indented more than a column are
closed, and how many are closed. -/
def closeBlocks (column : Int) : List Int → Int → Int × List Int × Nat
  | [], indent => if column < indent then (-1, [], 1) else (indent, [], 0)
  | next :: outer, indent =>
    if column < indent then
      let (indent, outer, closed) := closeBlocks column outer next
      (indent, outer, closed + 1)
    else (indent, next :: outer, 0)

def unwind (r : Lexer) (column : Int) : Lexer :=
  if r.inFlow then r
  else
    let (indent, outer, closed) := closeBlocks column r.outer r.indent
    (List.replicate closed Token.blockEnd).foldl push { r with indent, outer }

/-- Open a block collection at a column, unless one is open there. -/
def openBlock (r : Lexer) (column : Int) : Lexer × Bool :=
  if r.indent < column then ({ r with indent := column, outer := r.indent :: r.outer }, true)
  else (r, false)

/-! ## Single tokens -/

def mark (r : Lexer) (t : Token) (length : Nat) : Lexer :=
  { r with cursor := r.cursor.skip length }.push t

def readDocumentMark (r : Lexer) (t : Token) : Except Problem Lexer := do
  let r ← (r.unwind (-1)).dropCandidate
  return { r with keyAllowed := false }.mark t 3

def readDirectiveToken (r : Lexer) : Except Problem Lexer := do
  let r ← (r.unwind (-1)).dropCandidate
  let (token, after) ← readDirective r.cursor
  return { r with keyAllowed := false, cursor := after }.push token

def openFlow (r : Lexer) (t : Token) : Except Problem Lexer := do
  let r ← r.saveCandidate
  let r := { r with
    candidates := r.candidate :: r.candidates, candidate := none, keyAllowed := true }
  return r.mark t 1

def closeFlow (r : Lexer) (t : Token) : Except Problem Lexer := do
  let r ← r.dropCandidate
  match r.candidates with
  | [] => .error .malformed
  | candidate :: candidates =>
    return { r with candidate, candidates, keyAllowed := false }.mark t 1

def readFlowEntry (r : Lexer) : Except Problem Lexer := do
  let r ← r.dropCandidate
  return { r with keyAllowed := true }.mark .flowEntry 1

def readBlockEntry (r : Lexer) : Except Problem Lexer := do
  let r ←
    if r.inFlow then pure r
    else do
      require r.keyAllowed
      let (opened, new) := r.openBlock r.column
      pure (if new then opened.push .blockSequenceStart else opened)
  let r ← r.dropCandidate
  return { r with keyAllowed := true }.mark .blockEntry 1

def readKey (r : Lexer) : Except Problem Lexer := do
  let r ←
    if r.inFlow then pure r
    else do
      require r.keyAllowed
      let (opened, new) := r.openBlock r.column
      pure (if new then opened.push .blockMappingStart else opened)
  let r ← r.dropCandidate
  return { r with keyAllowed := !r.inFlow }.mark .key 1

/-- A colon: what stands before it on the line is a key, or the key had an indicator. -/
def readValue (r : Lexer) : Except Problem Lexer :=
  match r.candidate with
  | some k =>
    let r := { r with candidate := none, keyAllowed := false }
    if r.inFlow then .ok ((r.insertAt k.place [.key]).mark .value 1)
    else
      let (opened, new) := r.openBlock k.column
      let before := if new then [Token.blockMappingStart, .key] else [.key]
      .ok ((opened.insertAt k.place before).mark .value 1)
  | none => do
    let r ←
      if r.inFlow then pure r
      else do
        require r.keyAllowed
        let (opened, new) := r.openBlock r.column
        pure (if new then opened.push .blockMappingStart else opened)
    return { r with keyAllowed := !r.inFlow }.mark .value 1

def readAlias (r : Lexer) : Except Problem Lexer := do
  let r ← r.saveCandidate
  let (name, after) ← readAnchorName r.cursor
  return { r with keyAllowed := false, cursor := after }.push (.reference name)

def readAnchor (r : Lexer) : Except Problem Lexer := do
  let r ← r.saveCandidate
  let (name, after) ← readAnchorName r.cursor
  return { r with keyAllowed := false, cursor := after }.push (.anchor name)

def readTagToken (r : Lexer) : Except Problem Lexer := do
  let r ← r.saveCandidate
  let (token, after) ← readTag r.cursor
  return { r with keyAllowed := false, cursor := after }.push token

def readBlockScalar (r : Lexer) (folded : Bool) : Except Problem Lexer := do
  let r ← r.dropCandidate
  let (text, after) ← readBlock folded r.indent r.cursor
  return { r with keyAllowed := true, cursor := after }.push (.scalar text false)

def readQuotedScalar (r : Lexer) (double : Bool) : Except Problem Lexer := do
  let r ← r.saveCandidate
  let (codes, after) ← readQuoted double (r.cursor.left + 1) r.cursor.next
  return { r with keyAllowed := false, cursor := after }.push (quotedToken codes)

def readPlainScalar (r : Lexer) : Except Problem Lexer := do
  let r ← r.saveCandidate
  let c := r.cursor
  let (text, broke, after) := readPlain r.inFlow r.indent (c.left + 1) [] false c
  return { r with keyAllowed := broke, cursor := after }.push (.scalar text true)

/-! ## Turns -/

/-- Skip spaces, comments and line breaks. Outside flow collections a new line may begin with a
key. -/
def skipGap (r : Lexer) : Nat → Lexer
  | 0 => r
  | fuel + 1 =>
    let c := r.cursor.skipSpaces.skipComment
    if c.peek.any isLineEnd then
      { r with cursor := c.lineBreak.2, keyAllowed := r.keyAllowed || !r.inFlow }.skipGap fuel
    else { r with cursor := c }

def startsPlain (r : Lexer) (c : Char) (next : Option Char) : Bool :=
  !(atGap (some c) || "-?:,[]\x7b\x7d#&*!|>'\"%@`".toList.contains c) ||
    (!atGap next && (c == '-' || (!r.inFlow && (c == '?' || c == ':'))))

/-- The token at a character. -/
def readToken (r : Lexer) (c : Char) : Except Problem Lexer :=
  let cur := r.cursor
  let next := cur.ahead 1
  let indicated := r.inFlow || atGap next
  if c == '%' && cur.column == 0 then r.readDirectiveToken
  else if cur.column == 0 && cur.atMark '-' then r.readDocumentMark .documentStart
  else if cur.column == 0 && cur.atMark '.' then r.readDocumentMark .documentEnd
  else if c == '[' then r.openFlow .flowSequenceStart
  else if c == '\x7b' then r.openFlow .flowMappingStart
  else if c == ']' then r.closeFlow .flowSequenceEnd
  else if c == '\x7d' then r.closeFlow .flowMappingEnd
  else if c == ',' then r.readFlowEntry
  else if c == '-' && atGap next then r.readBlockEntry
  else if c == '?' && indicated then r.readKey
  else if c == ':' && indicated then r.readValue
  else if c == '*' then r.readAlias
  else if c == '&' then r.readAnchor
  else if c == '!' then r.readTagToken
  else if c == '|' && !r.inFlow then r.readBlockScalar false
  else if c == '>' && !r.inFlow then r.readBlockScalar true
  else if c == '\'' then r.readQuotedScalar false
  else if c == '"' then r.readQuotedScalar true
  else if r.startsPlain c next then r.readPlainScalar
  else .error .malformed

/-- One turn of reading: the tokens at the next place that is no gap. At the end of the text all
collections are closed, and reading is done. -/
def turn (r : Lexer) : Except Problem (Lexer × Bool) := do
  let r ← (r.skipGap (r.cursor.left + 1)).refreshAll
  let r := r.unwind r.column
  match r.cursor.peek with
  | none => return (← (r.unwind (-1)).dropCandidate, true)
  | some c => return (← r.readToken c, false)

/-- The tokens in front of which nothing can be put any more: those before the first candidate that
may still be a key. -/
def settled (r : Lexer) : List Token :=
  let pending := (r.candidate :: r.candidates).filterMap fun k => k.filter fun k => !r.isStale k
  r.tokens.reverse.take (pending.foldl (fun n k => min n k.place) r.count)

end Lexer

/-! ## The whole text -/

/-- The tokens of a text. When there is a problem they are those that are certain before it. -/
structure TokenStream where
  tokens : List Token
  problem : Option Problem

/-- Read tokens up to the end of the text. Every turn takes up some of it. Where the end is reached
although the source goes on, the problem that lies there comes up. -/
def Lexer.readAll (beyond : Option Problem) (r : Lexer) : Nat → TokenStream
  | 0 => ⟨r.settled, some .malformed⟩
  | fuel + 1 =>
    match r.turn, beyond with
    | .error .unfinished, some p => ⟨r.settled, some p⟩
    | .error p, _ => ⟨r.settled, some p⟩
    | .ok (after, done), beyond =>
      match after.cursor.rest, beyond with
      | [], some p => ⟨r.settled, some p⟩
      | _, _ => if done then ⟨after.tokens.reverse, none⟩ else after.readAll beyond fuel

def Source.tokens (s : Source) : TokenStream :=
  (Lexer.start s.text).readAll s.beyond (s.text.length + 2)

end IndentMarkup.Yaml
