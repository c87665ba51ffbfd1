import IndentMarkup.Yaml.Schema

/-!
# YAML nodes

The nodes that the tokens of a document describe, with the type of each decided. A collection names
its members by their numbers, so that an alias is only a second mention of a node, and a collection
can be a member of itself.

A mapping may ask for the entries of other mappings to be merged into it. They come first, so that
its own entries override them, and of several mappings in a sequence the later ones come first.
-/
namespace IndentMarkup.Yaml

inductive Content where
  | scalar (value : Text)
  /-- A scalar with code points that are no characters. -/
  | brokenScalar (codes : List Nat)
  | sequence (items : List Nat)
  | mapping (entries : List (Nat × Nat))
  deriving DecidableEq, Repr

structure Node where
  tag : Tag
  content : Content
  deriving DecidableEq, Repr

abbrev Graph := Array Node

namespace Graph

def tag? (g : Graph) (n : Nat) : Option Tag := g[n]?.map (·.tag)

def content? (g : Graph) (n : Nat) : Option Content := g[n]?.map (·.content)

def entries? (g : Graph) (n : Nat) : Option (List (Nat × Nat)) :=
  match g.content? n with
  | some (.mapping entries) => some entries
  | _ => none

def setContent (g : Graph) (n : Nat) (content : Content) : Graph :=
  g.modify n fun node => { node with content }

def setTag (g : Graph) (n : Nat) (tag : Tag) : Graph := g.modify n fun node => { node with tag }

def entryCount (g : Graph) : Nat :=
  g.foldl (fun count node =>
    match node.content with
    | .mapping entries => count + entries.length
    | _ => count) 0

/-! ## Scalars -/

/-- The content of the scalar that a node stands for. A mapping stands for the value under its first
key for a default value. -/
def scalarContent (g : Graph) : Nat → Nat → Except Problem Content
  | 0, _ => .error .endless
  | fuel + 1, n =>
    match g.content? n with
    | some (.mapping entries) =>
      match entries.find? fun e => g.tag? e.1 == some .defaultValue with
      | none => .error .malformed
      | some (_, value) => scalarContent g fuel value
    | some (.scalar value) => .ok (.scalar value)
    | some (.brokenScalar codes) => .ok (.brokenScalar codes)
    | _ => .error .malformed

/-! ## Merging -/

/-- The first entry of a list that asks for a merge, as its value and the other entries. -/
def splitMerge? (g : Graph) : List (Nat × Nat) → Option (Nat × List (Nat × Nat))
  | [] => none
  | (k, v) :: rest =>
    if g.tag? k == some .merge then some (v, rest)
    else (splitMerge? g rest).map fun (value, others) => (value, (k, v) :: others)

/-- The keys that mark a default value become texts, for good. -/
def settleKeys (g : Graph) (entries : List (Nat × Nat)) : Graph :=
  entries.foldl (fun g e => if g.tag? e.1 == some .defaultValue then g.setTag e.1 .text else g) g

/-- Carry out the merges that a mapping asks for, one after the other. Every merge is taken out of
the graph before it is carried out, so that there are no more turns than entries. -/
def merge : Nat → Graph → Nat → Except Problem Graph
  | 0, g, _ => .ok g
  | fuel + 1, g, n => do
    let entries := (g.entries? n).getD []
    match splitMerge? g entries with
    | none => return settleKeys g entries
    | some (value, others) =>
      let g := g.setContent n (.mapping others)
      let sources ← match g.content? value with
        | some (.mapping _) => pure [value]
        | some (.sequence items) => pure items
        | _ => .error .malformed
      let (g, merged) ← sources.foldlM (fun (g, merged) source => do
        require (g.entries? source).isSome
        let g ← merge fuel g source
        return (g, (g.entries? source).getD [] ++ merged)) (g, [])
      let g ← merge fuel g n
      return g.setContent n (.mapping (merged ++ (g.entries? n).getD []))

end Graph
end IndentMarkup.Yaml
