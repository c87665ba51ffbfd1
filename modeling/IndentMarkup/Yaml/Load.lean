import IndentMarkup.Config.Load
import IndentMarkup.Yaml.Node.Assembly

/-!
# Loading YAML

The value of a YAML text. A scalar gets its value when it is first met. A collection is only given
its place in the store then, under the number of its node; its members are built later, after those
of all collections met before. So of several problems one further out counts before one further in.
-/
namespace IndentMarkup.Yaml

structure Builder where
  nodes : Graph
  /-- The values of the nodes that have been met. -/
  values : Array (Option Value)
  /-- The collections by the numbers of their nodes. -/
  store : Store
  /-- The collections whose members are still to be built, latest first. -/
  pending : List Nat

namespace Builder

def start (g : Graph) : Builder := ⟨g, g.map fun _ => none, ⟨g.map fun _ => .null⟩, []⟩

def note (b : Builder) (n : Nat) (v : Value) : Value × Builder :=
  (v, { b with values := b.values.setIfInBounds n (some v) })

def reserve (b : Builder) (n : Nat) : Value × Builder :=
  { b with pending := n :: b.pending }.note n (.stored n)

def scalarOf (b : Builder) (n : Nat) (node : Node) : Except Problem Value := do
  let content ← b.nodes.scalarContent (b.nodes.size + 1) n
  match node.tag, content, node.content with
  | .timestamp, _, .mapping _ => .error .dateOfMapping
  | .text, .brokenScalar codes, _ => return .text (codes.map Code.ofNat)
  | tag, .brokenScalar codes, _ =>
    scalarValue n tag (codes.map fun code => if code.isValidChar then Char.ofNat code else '\uFFFD')
  | tag, .scalar value, _ => scalarValue n tag value
  | _, _, _ => .error .malformed

def build (b : Builder) (n : Nat) : Except Problem (Value × Builder) :=
  match b.values[n]?.join, b.nodes[n]? with
  | some v, _ => .ok (v, b)
  | none, none => .error .malformed
  | none, some node =>
    match node.tag with
    | .sequence | .mapping | .set | .orderedMap | .pairs => .ok (b.reserve n)
    | .merge | .defaultValue | .unknown => .error .malformed
    | _ => do return b.note n (← b.scalarOf n node)

def buildAll (b : Builder) : List Nat → Except Problem (List Value × Builder)
  | [] => .ok ([], b)
  | n :: rest => do
    let (v, b) ← b.build n
    let (others, b) ← b.buildAll rest
    return (v :: others, b)

/-- The entries of a mapping. A key has to be built before its value, and to be one. -/
def buildEntries (b : Builder) : List (Nat × Nat) → Except Problem (List (Value × Value) × Builder)
  | [] => .ok ([], b)
  | (k, v) :: rest => do
    let (key, b) ← b.build k
    require key.isKey
    let (value, b) ← b.build v
    let (others, b) ← b.buildEntries rest
    return ((key, value) :: others, b)

def buildPairs (b : Builder) : List Nat → Except Problem (List Value × Builder)
  | [] => .ok ([], b)
  | n :: rest => do
    match b.nodes.entries? n with
    | some [(k, v)] =>
      let (key, b) ← b.build k
      let (value, b) ← b.build v
      let (others, b) ← b.buildPairs rest
      return (.tuple [key, value] :: others, b)
    | _ => .error .malformed

def mergedEntries (b : Builder) (n : Nat) : Except Problem (List (Value × Value) × Builder) := do
  require (b.nodes.entries? n).isSome
  let nodes ← b.nodes.merge (b.nodes.entryCount + 2) n
  let (entries, b) ← { b with nodes }.buildEntries ((nodes.entries? n).getD [])
  return (Value.setEntries entries, b)

def items (b : Builder) (n : Nat) : Except Problem (List Nat) :=
  match b.nodes.content? n with
  | some (.sequence items) => .ok items
  | _ => .error .malformed

def fill (b : Builder) (n : Nat) : Except Problem Builder := do
  let (whole, b) ← match b.nodes.tag? n with
    | some .mapping =>
      let (entries, b) ← b.mergedEntries n
      pure (Value.map entries, b)
    | some .set =>
      let (entries, b) ← b.mergedEntries n
      pure (Value.ofMembers (entries.map (·.1)), b)
    | some .sequence =>
      let (values, b) ← b.buildAll (← b.items n)
      pure (Value.list values, b)
    | _ =>
      let (values, b) ← b.buildPairs (← b.items n)
      pure (Value.list values, b)
  return { b with store := b.store.set n whole }

/-- Build the members of all collections, in the order in which they were met. No node is met
twice. -/
def fillAll (b : Builder) : Nat → Except Problem Builder
  | 0 => .ok b
  | fuel + 1 =>
    match b.pending.reverse with
    | [] => .ok b
    | level => do (← level.foldlM fill { b with pending := [] }).fillAll fuel

end Builder

/-- The value of a source, with the collections in it. An empty stream is null. -/
def load (source : Source) : Except Problem (Store × Value) := do
  match ← Assembler.document source.tokens with
  | none => return (.empty, .null)
  | some (nodes, root) =>
    let (value, b) ← (Builder.start nodes).build root
    let b ← b.fillAll (nodes.size + 1)
    return (b.store, value)

def Problem.toLoadProblem : Problem → LoadProblem
  | .malformed | .unfinished => .malformed
  | .undecodable => .abort .undecodable
  | .noSuchChar | .impossibleScalar => .abort .impossibleScalar
  | .noSuchCode | .tooManyPlaces => .abort .overflow
  | .unknownWord => .abort .unknownWord
  | .notDate => .abort .notDate
  | .dateOfMapping => .abort .dateOfMapping
  | .emptyNumber => .abort .emptyNumber
  | .endless => .abort .endless

def loader : Loader := fun bytes => (load (.ofBytes bytes)).mapError Problem.toLoadProblem

end IndentMarkup.Yaml
