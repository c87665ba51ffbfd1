import IndentMarkup.Yaml.Node
import IndentMarkup.Yaml.Token.Stream

/-!
# Nodes from tokens

A stream holds at most one document. A node is an alias, or properties followed by content, or
content alone; where content is missing a node is an empty plain scalar. The tokens are asked for
one after the other, and a problem behind them comes up only when all of them are taken. The fuel
bounds the nesting of calls; each of them takes up a token or leads to one that does.
-/
namespace IndentMarkup.Yaml

structure Assembler where
  stream : TokenStream
  /-- What the tag handles stand for. -/
  handles : List (Text × Text)
  /-- The nodes that bear anchors. -/
  anchors : List (Text × Nat)
  nodes : Graph

namespace Assembler

def next (c : Assembler) : Except Problem (Option Token) :=
  match c.stream.tokens, c.stream.problem with
  | t :: _, _ => .ok (some t)
  | [], none => .ok none
  | [], some p => .error p

def drop (c : Assembler) : Assembler :=
  { c with stream := { c.stream with tokens := c.stream.tokens.tail } }

/-- Whether the next token is one of several. The end of the text is none of them. -/
def isAt (c : Assembler) (ts : List Token) : Except Problem Bool := c.next.map (·.any ts.contains)

def expect (c : Assembler) (t : Token) : Except Problem Assembler := do
  require (← c.isAt [t])
  return c.drop

/-! ## Single nodes -/

def add (c : Assembler) (tag : Tag) (content : Content) : Nat × Assembler :=
  (c.nodes.size, { c with nodes := c.nodes.push ⟨tag, content⟩ })

def absent (c : Assembler) : Nat × Assembler := c.add .null (.scalar [])

def fill (c : Assembler) (n : Nat) (content : Content) : Nat × Assembler :=
  (n, { c with nodes := c.nodes.setContent n content })

def resolveTag (c : Assembler) : Option (Option Text × Text) → Except Problem (Option Text)
  | none => .ok none
  | some (none, suffix) => .ok (some suffix)
  | some (some h, suffix) =>
    match c.handles.find? (·.1 == h) with
    | none => .error .malformed
    | some (_, beginning) => .ok (some (beginning ++ suffix))

def anchor? (c : Assembler) : Except Problem (Option Text × Assembler) := do
  match ← c.next with
  | some (.anchor a) => return (some a, c.drop)
  | _ => return (none, c)

def tag? (c : Assembler) : Except Problem (Option (Option Text × Text) × Assembler) := do
  match ← c.next with
  | some (.tag h s) => return (some (h, s), c.drop)
  | _ => return (none, c)

def properties (c : Assembler) : Except Problem (Option Text × Option Text × Assembler) := do
  let (before, c) ← c.anchor?
  let (tag, c) ← c.tag?
  let (anchor, c) ← if before.isNone && tag.isSome then c.anchor? else pure (before, c)
  return (anchor, ← c.resolveTag tag, c)

/-- The type of a scalar: stated, or read off its form if it is plain, or text. -/
def scalarTag (tag : Option Text) (plain : Bool) (value : Text) : Tag :=
  match tag with
  | none => if plain then implicitTag value else .text
  | some t => if t = ['!'] then implicitTag value else .ofUri t

/-- The type of a scalar with code points that are no characters: stated, or text. -/
def brokenTag : Option Text → Tag
  | none => .text
  | some t => if t = ['!'] then .text else .ofUri t

/-- The type of a collection, stated or by default. -/
def collectionTag (tag : Option Text) (default : Tag) : Tag :=
  match tag with
  | none => default
  | some t => if t = ['!'] then default else .ofUri t

def addAnchored (c : Assembler) (anchor : Option Text) (tag : Tag) (content : Content) :
    Except Problem (Nat × Assembler) :=
  let (n, c) := c.add tag content
  match anchor with
  | none => .ok (n, c)
  | some a =>
    if c.anchors.any (·.1 == a) then .error .malformed
    else .ok (n, { c with anchors := (a, n) :: c.anchors })

def referent (c : Assembler) (name : Text) : Except Problem Nat :=
  match c.anchors.find? (·.1 == name) with
  | none => .error .malformed
  | some (_, n) => .ok n

def empty (anchor tag : Option Text) (c : Assembler) : Except Problem (Nat × Assembler) := do
  require (anchor.isSome || tag.isSome)
  c.addAnchored anchor (scalarTag tag true []) (.scalar [])

/-! ## All nodes -/

mutual

/-- A node. Block collections are allowed when `block` is set, and so is a sequence at the
indentation of the mapping around it when `indentless` is. -/
def node (block indentless : Bool) : Nat → Assembler → Except Problem (Nat × Assembler)
  | 0, _ => .error .malformed
  | fuel + 1, c => do
    if let some (.reference name) ← c.next then return (← c.referent name, c.drop)
    let (anchor, tag, c) ← c.properties
    match ← c.next with
    | some (.scalar value plain) =>
      c.drop.addAnchored anchor (scalarTag tag plain value) (.scalar value)
    | some (.brokenScalar codes) =>
      c.drop.addAnchored anchor (brokenTag tag) (.brokenScalar codes)
    | some .flowSequenceStart =>
      let (n, c) ← c.drop.addAnchored anchor (collectionTag tag .sequence) (.sequence [])
      let (items, c) ← flowItems true fuel c
      return c.fill n (.sequence items)
    | some .flowMappingStart =>
      let (n, c) ← c.drop.addAnchored anchor (collectionTag tag .mapping) (.mapping [])
      let (entries, c) ← flowEntries true fuel c
      return c.fill n (.mapping entries)
    | some .blockEntry =>
      if indentless then
        let (n, c) ← c.addAnchored anchor (collectionTag tag .sequence) (.sequence [])
        let (items, c) ← indentlessItems fuel c
        return c.fill n (.sequence items)
      else c.empty anchor tag
    | some .blockSequenceStart =>
      if block then
        let (n, c) ← c.drop.addAnchored anchor (collectionTag tag .sequence) (.sequence [])
        let (items, c) ← blockItems fuel c
        return c.fill n (.sequence items)
      else c.empty anchor tag
    | some .blockMappingStart =>
      if block then
        let (n, c) ← c.drop.addAnchored anchor (collectionTag tag .mapping) (.mapping [])
        let (entries, c) ← blockEntries fuel c
        return c.fill n (.mapping entries)
      else c.empty anchor tag
    | _ => c.empty anchor tag

def nodeUnless (ts : List Token) (block indentless : Bool) :
    Nat → Assembler → Except Problem (Nat × Assembler)
  | 0, _ => .error .malformed
  | fuel + 1, c => do
    if ← c.isAt ts then return c.absent else node block indentless fuel c

/-- The value of an entry: a node behind its indicator, unless one of the given tokens stands in its
place. -/
def valueUnless (ts : List Token) (block : Bool) : Nat → Assembler → Except Problem (Nat × Assembler)
  | 0, _ => .error .malformed
  | fuel + 1, c => do
    if ← c.isAt [.value] then nodeUnless ts block block fuel c.drop else return c.absent

def blockItems : Nat → Assembler → Except Problem (List Nat × Assembler)
  | 0, _ => .error .malformed
  | fuel + 1, c => do
    if ← c.isAt [.blockEntry] then
      let (item, c) ← nodeUnless [.blockEntry, .blockEnd] true false fuel c.drop
      let (more, c) ← blockItems fuel c
      return (item :: more, c)
    else return ([], ← c.expect .blockEnd)

def indentlessItems : Nat → Assembler → Except Problem (List Nat × Assembler)
  | 0, _ => .error .malformed
  | fuel + 1, c => do
    if ← c.isAt [.blockEntry] then
      let (item, c) ← nodeUnless [.blockEntry, .key, .value, .blockEnd] true false fuel c.drop
      let (more, c) ← indentlessItems fuel c
      return (item :: more, c)
    else return ([], c)

def blockEntries : Nat → Assembler → Except Problem (List (Nat × Nat) × Assembler)
  | 0, _ => .error .malformed
  | fuel + 1, c => do
    if ← c.isAt [.key] then
      let (key, c) ← nodeUnless [.key, .value, .blockEnd] true true fuel c.drop
      let (value, c) ← valueUnless [.key, .value, .blockEnd] true fuel c
      let (more, c) ← blockEntries fuel c
      return ((key, value) :: more, c)
    else return ([], ← c.expect .blockEnd)

/-- The items of a flow sequence, up to its end. A key makes an item a mapping of one entry. -/
def flowItems (first : Bool) : Nat → Assembler → Except Problem (List Nat × Assembler)
  | 0, _ => .error .malformed
  | fuel + 1, c => do
    if ← c.isAt [.flowSequenceEnd] then return ([], c.drop)
    let c ← if first then pure c else c.expect .flowEntry
    if ← c.isAt [.flowSequenceEnd] then return ([], c.drop)
    let (item, c) ←
      if ← c.isAt [.key] then
        let (n, c) := c.drop.add .mapping (.mapping [])
        let (key, c) ← nodeUnless [.value, .flowEntry, .flowSequenceEnd] false false fuel c
        let (value, c) ← valueUnless [.flowEntry, .flowSequenceEnd] false fuel c
        pure (c.fill n (.mapping [(key, value)]))
      else node false false fuel c
    let (more, c) ← flowItems false fuel c
    return (item :: more, c)

/-- The entries of a flow mapping, up to its end. A node without a key's token has no value. -/
def flowEntries (first : Bool) : Nat → Assembler → Except Problem (List (Nat × Nat) × Assembler)
  | 0, _ => .error .malformed
  | fuel + 1, c => do
    if ← c.isAt [.flowMappingEnd] then return ([], c.drop)
    let c ← if first then pure c else c.expect .flowEntry
    if ← c.isAt [.flowMappingEnd] then return ([], c.drop)
    let (key, value, c) ←
      if ← c.isAt [.key] then
        let (key, c) ← nodeUnless [.value, .flowEntry, .flowMappingEnd] false false fuel c.drop
        let (value, c) ← valueUnless [.flowEntry, .flowMappingEnd] false fuel c
        pure (key, value, c)
      else
        let (key, c) ← node false false fuel c
        let (value, c) := c.absent
        pure (key, value, c)
    let (more, c) ← flowEntries false fuel c
    return ((key, value) :: more, c)

end

/-! ## Documents -/

/-- What tag handles stand for unless a directive says otherwise. -/
def defaultHandles : List (Text × Text) := [(['!'], ['!']), (['!', '!'], standardTag)]

/-- The directives in front of a document. -/
def directives (versioned : Bool) : Nat → Assembler → Except Problem Assembler
  | 0, _ => .error .malformed
  | fuel + 1, c => do
    match ← c.next with
    | some (.version major) =>
      require (!versioned && major == 1)
      directives true fuel c.drop
    | some (.handle h beginning) =>
      require !(c.handles.any (·.1 == h))
      directives versioned fuel { c.drop with handles := (h, beginning) :: c.handles }
    | some .directive => directives versioned fuel c.drop
    | _ => return { c with handles := c.handles ++ defaultHandles }

/-- Nothing may follow a document but marks that end it. Directives are read before another document
is refused. -/
def finish (c : Assembler) : Nat → Except Problem Unit
  | 0 => .error .malformed
  | fuel + 1 => do
    match ← c.next with
    | none => return
    | some .documentEnd => c.drop.finish fuel
    | some (.version _) | some (.handle _ _) | some .directive =>
      let _ ← directives false fuel { c with handles := [] }
      .error .malformed
    | some _ => .error .malformed

/-- The document of a stream of tokens, if there is one: the nodes and the number of the root. -/
def document (stream : TokenStream) : Except Problem (Option (Graph × Nat)) := do
  let fuel := 4 * stream.tokens.length + 4
  let c : Assembler := ⟨stream, [], [], #[]⟩
  match ← c.next with
  | none => return none
  | some (.version _) | some (.handle _ _) | some .directive | some .documentStart =>
    let c ← (← directives false fuel c).expect .documentStart
    let (root, c) ← match ← c.next with
      | none | some (.version _) | some (.handle _ _) | some .directive | some .documentStart
      | some .documentEnd => pure c.absent
      | _ => node true false fuel c
    c.finish fuel
    return some (c.nodes, root)
  | _ =>
    let (root, c) ← node true false fuel { c with handles := defaultHandles }
    c.finish fuel
    return some (c.nodes, root)

end Assembler
end IndentMarkup.Yaml
