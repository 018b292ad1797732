import TypeCatalog.Yaml.Layout
import TypeCatalog.Yaml.Node
import TypeCatalog.Yaml.ScalarValue

/-!
# Yaml/NodeValue — the value of a document

`Document.value` turns a document into the value it stands for, and `Yaml.read` a whole text. It
works in two passes.

The first goes through the nodes level by level, all of one depth before any deeper one, and each
node once, however many aliases stand for it (`Valuation.run`). What it finds out about a node is a
`Part`: the value itself if it is a scalar's, else which nodes make it up. A node that has no value
is met here, so of several the highest shows, and on one level the leftmost. Two things change nodes
for whatever meets them later: a mapping takes over the entries of others under the merge key `<<`
(`flatten`), and the key `=` becomes a string. What has been found out is a `Graph`.

The second pass builds the values, in the order of the nodes' numbers (`layer`). A node comes after
all that it holds, so each is built from values that are there already, and a node that several
aliases stand for is built once. In a knotted document a node may hold one that comes later; then
its value is taken from another layer, which is built before, and so on. So the document is unrolled
as far as any reading goes that comes to an end (`Graph.reach`).
-/

namespace TypeCatalog.Yaml

open TypeCatalog.Number

/-- Whether values of a type are collections, and so can be no keys. -/
def isCollectionTag : Tag → Bool
  | .map | .seq | .set | .omap | .pairs => true
  | _ => false

/-- What makes up the value of a node. -/
inductive Part where
  /-- A collection that was met and not yet looked into. -/
  | unread
  | scalar (v : Value)
  /-- The value that is no number, found by reading a number: no other node has the same one. -/
  | ownNaN
  | list (items : List Nat)
  | pairs (entries : List (Nat × Nat))
  | object (entries : List (Nat × Nat))
  | set (entries : List (Nat × Nat))
  deriving Repr

/-- What has been found out about the nodes of a document. -/
structure Valuation where
  nodes : Array Node
  /-- What makes up the values of the nodes that were met. -/
  parts : Array (Option Part)
  /-- The collections that were met on this level, the latest first. -/
  met : List Nat := []
  /-- More than there are entries in all mappings together. -/
  fuel : Nat

namespace Valuation

/-- Finding out, which may fail. -/
abbrev Search := StateT Valuation (Except Fault)

/-- A node by its number. -/
def node (n : Nat) : Search Node := do
  match (← get).nodes[n]? with
  | some x => return x
  | none => throw .malformed

/-- Gives a node another type. -/
def retag (n : Nat) (tag : Tag) : Search Unit :=
  modify fun s => { s with nodes := s.nodes.modify n fun x => { x with tag } }

/-- Gives a node other entries. -/
def setEntries (n : Nat) (entries : List (Nat × Nat)) : Search Unit :=
  modify fun s =>
    { s with nodes := s.nodes.modify n fun x => { x with content := .mapping entries } }

/-- Keeps what makes up the value of a node. -/
def setPart (n : Nat) (p : Part) : Search Unit :=
  modify fun s => { s with parts := s.parts.setIfInBounds n (some p) }

/-- The entries of a mapping. -/
def entriesOf (n : Nat) : Search (List (Nat × Nat)) := do
  match (← node n).content with
  | .mapping entries => return entries
  | _ => throw .malformed

/-- The items of a sequence. -/
def itemsOf (n : Nat) : Search (List Nat) := do
  match (← node n).content with
  | .sequence items => return items
  | _ => throw .malformed

/-! ## Scalars -/

/-- The first entry under the key `=`. -/
def defaultValue? : List (Nat × Nat) → Search (Option Nat)
  | [] => return none
  | (k, v) :: rest => do
    if (← node k).tag == .value then return some v else defaultValue? rest

/-- The text of a node as a scalar: a mapping may give one under the key `=`. The fuel is as many
nodes as may lead to the text, before one comes that has led there already. -/
def scalarText : Nat → Nat → Search String
  | 0, _ => throw .endless
  | fuel + 1, n => do
    match (← node n).content with
    | .scalar text => return text
    | .sequence _ => throw .malformed
    | .mapping entries =>
      match ← defaultValue? entries with
      | some v => scalarText fuel v
      | none => throw .malformed

/-- The value of a node whose type is one of scalars, from its text. -/
def scalarPart (x : Node) (text : String) : Except Fault Part :=
  match x.tag with
  | .null => .ok (.scalar .null)
  | .bool => (ScalarValue.bool text).map .scalar
  | .int => (ScalarValue.int text).map .scalar
  | .float =>
    (ScalarValue.float text).map fun v =>
      match v with
      | .float .nan => if ScalarValue.isNanWord text then .scalar v else .ownNaN
      | v => .scalar v
  | .binary => (ScalarValue.binary text).map .scalar
  | .str => .ok (.scalar (.string text))
  | .timestamp =>
    match x.content with
    | .scalar _ => (ScalarValue.timestamp text).map .scalar
    | _ => .error .badTimeNode
  | _ => .error .malformed

/-- Meets a node: a scalar gets its value, a collection waits for the next level. -/
def meet (n : Nat) : Search Unit := do
  match (← get).parts[n]? with
  | some none =>
    let x ← node n
    if isCollectionTag x.tag then
      setPart n .unread
      modify fun s => { s with met := n :: s.met }
    else
      let text ← scalarText ((← get).nodes.size + 1) n
      match scalarPart x text with
      | .ok p => setPart n p
      | .error e => throw e
  | _ => return ()

/-! ## Merge keys -/

/-- The entries to take over from one mapping, which takes over entries first itself. -/
def taken (flat : Nat → Search Unit) (n : Nat) : Search (List (Nat × Nat)) := do
  let _ ← entriesOf n
  flat n
  entriesOf n

/-- The entries to take over from several mappings, those of the last first. -/
def takenAll (flat : Nat → Search Unit) : List Nat → Search (List (Nat × Nat))
  | [] => return []
  | n :: rest => do
    let first ← taken flat n
    let others ← takenAll flat rest
    return others ++ first

/-- The entries to take over from a mapping or a sequence of mappings. -/
def takenFrom (flat : Nat → Search Unit) (n : Nat) : Search (List (Nat × Nat)) := do
  match (← node n).content with
  | .sequence items => takenAll flat items
  | _ => taken flat n

/-- The entries before the first merge key, in which the key `=` becomes a string, and what is to be
taken over under that key with the entries after it. -/
def untilMerge : List (Nat × Nat) → Search (List (Nat × Nat) × Option (Nat × List (Nat × Nat)))
  | [] => return ([], none)
  | (k, v) :: rest => do
    match (← node k).tag with
    | .merge => return ([], some (v, rest))
    | tag =>
      if tag == .value then retag k .str
      let (before, merge?) ← untilMerge rest
      return ((k, v) :: before, merge?)

/-- Puts the entries that a mapping takes over before its own, so that its own win; of several
mappings the first wins. A merge key is taken away before what it names is looked at; so two
mappings may name each other, and no more calls are inside each other than there are entries. -/
def flatten : Nat → List (Nat × Nat) → Nat → Search Unit
  | 0, _, _ => throw .malformed
  | fuel + 1, sofar, n => do
    let (before, merge?) ← untilMerge (← entriesOf n)
    match merge? with
    | none => setEntries n (sofar ++ before)
    | some (v, after) =>
      setEntries n (before ++ after)
      let more ← takenFrom (flatten fuel []) v
      flatten fuel (sofar ++ more) n

/-! ## Collections -/

/-- Meets the entries of a mapping; no key is a collection. -/
def meetEntries : List (Nat × Nat) → Search Unit
  | [] => return ()
  | (k, v) :: rest => do
    meet k
    if isCollectionTag (← node k).tag then throw .malformed
    meet v
    meetEntries rest

/-- The entries of a mapping, with what it takes over, all of them met. -/
def readEntries (n : Nat) : Search (List (Nat × Nat)) := do
  let _ ← entriesOf n
  flatten (← get).fuel [] n
  let entries ← entriesOf n
  meetEntries entries
  return entries

/-- The entries of a sequence of mappings with one entry each, all of them met. -/
def readPairs : List Nat → Search (List (Nat × Nat))
  | [] => return []
  | n :: rest => do
    match ← entriesOf n with
    | [(k, v)] =>
      meet k
      meet v
      return (k, v) :: (← readPairs rest)
    | _ => throw .malformed

/-- Looks into a collection that was met. -/
def look (n : Nat) : Search Unit := do
  match (← node n).tag with
  | .seq =>
    let items ← itemsOf n
    items.forM meet
    setPart n (.list items)
  | .omap | .pairs => setPart n (.pairs (← readPairs (← itemsOf n)))
  | .set => setPart n (.set (← readEntries n))
  | _ => setPart n (.object (← readEntries n))

/-- Looks into the collections of one level after another. -/
def levels : Nat → Search Unit
  | 0 => return ()
  | fuel + 1 => do
    let level := (← get).met.reverse
    if level.isEmpty then return ()
    modify fun s => { s with met := [] }
    level.forM look
    levels fuel

/-- How many nodes some nodes hold together. -/
def heldCount (nodes : Array Node) : Nat := nodes.foldl (fun n x => n + x.content.held.length) 0

/-- What is known before any node is met. -/
def start (d : Document) : Valuation where
  nodes := d.nodes
  parts := .replicate d.nodes.size none
  fuel := heldCount d.nodes + 1

/-- What makes up the values of all nodes that the root stands for, or holds. -/
def run (d : Document) : Except Fault (Array (Option Part)) :=
  match (do meet d.root; levels (d.nodes.size + 1) : Search Unit).run (start d) with
  | .error e => .error e
  | .ok (_, s) => .ok s.parts

end Valuation

/-! ## Entries -/

/-- A key of a mapping: its node and its value. -/
structure Key where
  node : Nat
  value : Value
  /-- Whether only the node itself has the same value. -/
  alone : Bool

/-- Whether two keys are the same. -/
def Key.same (a b : Key) : Bool :=
  a.node == b.node || (!a.alone && !b.alone && a.value.sameKey b.value)

/-- Adds an entry. A key that is there already keeps its place and gets the new value. -/
def Key.insert : List (Key × Nat) → Key → Nat → List (Key × Nat)
  | [], key, n => [(key, n)]
  | (k, m) :: rest, key, n => if k.same key then (k, n) :: rest else (k, m) :: Key.insert rest key n

/-- What makes up the values of a document's nodes, and the node that stands for the whole. -/
structure Graph where
  parts : Array (Option Part)
  root : Nat

namespace Graph

/-- What makes up the value of a node; none for one that was not met. -/
def part? (g : Graph) (n : Nat) : Option Part := (g.parts[n]?).join

/-- The key that a node is, which is a scalar. -/
def key (g : Graph) (n : Nat) : Key :=
  match g.part? n with
  | some (.scalar value) => { node := n, value, alone := false }
  | some .ownNaN => { node := n, value := .float .nan, alone := true }
  | _ => { node := n, value := .null, alone := false }

/-- The entries of a mapping, each key once. -/
def distinct (g : Graph) (entries : List (Nat × Nat)) : List (Key × Nat) :=
  entries.foldl (fun es (k, v) => Key.insert es (g.key k) v) []

/-! ## Values -/

/-- The value of a node, given those of the nodes in it. -/
def valueOf (g : Graph) (within : Nat → Value) : Part → Value
  | .unread => .null
  | .scalar v => v
  | .ownNaN => .float .nan
  | .list items => .list (items.map within)
  | .pairs entries => .list (entries.map fun (k, v) => .pair (within k) (within v))
  | .object entries => .object ((g.distinct entries).map fun (k, v) => (k.value, within v))
  | .set entries => .set ((g.distinct entries).map (·.1.value))

/-- The values of some nodes, each by its number. -/
abbrev Values := Array Value

/-- The value of a node: that in this layer if it is there already, else that in the layer below. -/
def Values.above (vs below : Values) (n : Nat) : Value := (vs[n]?.or below[n]?).getD .null

/-- A layer of values: those of all nodes in the order of their numbers; null for a node that was
not met. -/
def layer (g : Graph) (below : Values) : Values :=
  g.parts.foldl (fun vs p => vs.push ((p.map (g.valueOf (vs.above below))).getD .null)) #[]

/-- The uppermost of so many layers. -/
def layers (g : Graph) : Nat → Values
  | 0 => #[]
  | n + 1 => g.layer (layers g n)

/-- The nodes that make up a value. -/
def held : Part → List Nat
  | .list items => items
  | .pairs entries | .object entries | .set entries => entries.flatMap fun (k, v) => [k, v]
  | _ => []

/-- Whether some node does not come after all that make up its value. -/
def isKnotted (g : Graph) : Bool :=
  (List.range g.parts.size).any fun n => (g.part? n).any fun p => (held p).any (n ≤ ·)

/-- The most steps from the list of entries to what a reading meets that comes to an end. From a
type expression to one in it there are at most two, and none is met again inside itself. -/
def reach (g : Graph) : Nat := 2 * g.parts.size + 8

/-- How many layers are built. There are more than steps that a reading takes. -/
def depth (g : Graph) : Nat := if g.isKnotted then g.reach + 4 else 1

/-- The value of a document. -/
def value (g : Graph) : Value := ((g.layers g.depth)[g.root]?).getD .null

end Graph

/-- What makes up the values of a document's nodes. -/
def Document.graph (d : Document) : Except Fault Graph := (Valuation.run d).map (⟨·, d.root⟩)

/-- **The value of a document.** -/
def Document.value (d : Document) : Except Fault Value := d.graph.map Graph.value

/-- What makes up the value of a whole text; nothing does of an empty one. -/
def graph? (text : String) : Except Fault (Option Graph) :=
  match Document.ofTokens (Token.ofText text) with
  | .error e => .error e
  | .ok none => .ok none
  | .ok (some d) => d.graph.map some

/-- **Reads a whole text**; an empty one has the value null. -/
def read (text : String) : Except Fault Value :=
  (graph? text).map fun g? => (g?.map Graph.value).getD .null

end TypeCatalog.Yaml
