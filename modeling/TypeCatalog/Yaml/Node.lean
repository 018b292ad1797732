import TypeCatalog.Yaml.PlainScalar
import TypeCatalog.Yaml.Token

/-!
# Yaml/Node — the nodes that tokens describe

A `Node` is a scalar, a sequence or a mapping with its type; `Document.ofTokens` reads the tokens of
a text as the one document it may hold. An alias stands for the very node that its anchor names, so
the nodes of a document are kept in a row and refer to each other by their numbers. A node is
numbered when it is complete: what a node holds has lower numbers than the node itself.

The one exception is an alias inside the node that its anchor names. It gets a number first, as a
hole, and has that of the node instead as soon as all has been read (`Document.tied`). Such a node
holds itself, and the document is **knotted** (`Document.IsKnotted`).

Every call of a reader comes at most one call after one that has consumed a token, so twice the
number of tokens bounds the depth of the calls.
-/

namespace TypeCatalog.Yaml

/-- What a node holds: text, or other nodes by their numbers. -/
inductive Content where
  | scalar (text : String)
  | sequence (items : List Nat)
  | mapping (entries : List (Nat × Nat))
  deriving DecidableEq, Repr

namespace Content

/-- The numbers of the nodes that are held. -/
def held : Content → List Nat
  | scalar _ => []
  | sequence items => items
  | mapping entries => entries.flatMap fun (k, v) => [k, v]

/-- The same content with other numbers. -/
def renumber (f : Nat → Nat) : Content → Content
  | scalar text => scalar text
  | sequence items => sequence (items.map f)
  | mapping entries => mapping (entries.map fun (k, v) => (f k, f v))

end Content

/-- A node of a document. -/
structure Node where
  tag : Tag
  content : Content
  deriving DecidableEq, Repr

/-- The nodes of a document, each under its number, and the one that stands for the whole. -/
structure Document where
  nodes : Array Node
  root : Nat
  deriving DecidableEq, Repr

namespace Document

/-- A document with its holes filled, given the node that each stands for. -/
def tied (d : Document) (holes : List (Nat × Nat)) : Document :=
  let fill := fun n => (holes.lookup n).getD n
  { d with nodes := d.nodes.map fun x => { x with content := x.content.renumber fill } }

/-- Some node does not come after all that it holds: an alias in it stands for it. -/
def IsKnotted (d : Document) : Prop :=
  ∃ (n : Nat) (x : Node), d.nodes[n]? = some x ∧ ∃ m ∈ x.content.held, n ≤ m

/-- What is known while tokens are read. -/
structure Reading where
  tokens : List Token
  /-- The nodes that are complete. -/
  nodes : Array Node := #[]
  /-- What each tag handle stands for. -/
  handles : List (String × String) := []
  /-- The nodes that have a name; none for one that is not complete. -/
  anchors : List (String × Option Nat) := []
  /-- The aliases inside the node that they stand for, with its name. -/
  holes : List (Nat × String) := []

/-- Reading that may fail. -/
abbrev Reader := StateT Reading (Except Fault)

/-- Numbers a node that is complete. -/
def add (tag : Tag) (content : Content) : Reader Nat :=
  modifyGet fun r => (r.nodes.size, { r with nodes := r.nodes.push ⟨tag, content⟩ })

/-- The node where content is left out. -/
def absent : Reader Nat := add .null (.scalar "")

/-- The next token. If the text cannot be read as far as there, that is the failure. -/
def peek : Reader Token := do
  match (← get).tokens.headD .streamEnd with
  | .fault cause => throw cause
  | t => return t

/-- Leaves the next token behind. -/
def advance : Reader Unit := modify fun r => { r with tokens := r.tokens.drop 1 }

/-- Leaves a given token behind; fails at any other. -/
def expect (t : Token) : Reader Unit := do
  if (← peek) == t then advance else throw .malformed

/-- Whether the next token is one of some. -/
def nextIn (ts : List Token) : Reader Bool := do
  return ts.contains (← peek)

/-! ## What stands before content -/

/-- An anchor, if one comes next. -/
def anchor? : Reader (Option String) := do
  match ← peek with
  | .anchor name => advance; return some name
  | _ => return none

/-- The full text of a tag. -/
def fullTag (handle : Option String) (suffix : String) : Reader String := do
  match handle with
  | none => return suffix
  | some h =>
    match (← get).handles.lookup h with
    | some start => return start ++ suffix
    | none => throw .malformed

/-- A tag, if one comes next. -/
def tag? : Reader (Option (Option String × String)) := do
  match ← peek with
  | .tag handle suffix => advance; return some (handle, suffix)
  | _ => return none

/-- An anchor and a tag in either order, each of which may be absent. -/
def properties : Reader (Option String × Option String) := do
  let early ← anchor?
  let tag ← tag?
  let name ← if early.isSome then pure early else if tag.isSome then anchor? else pure none
  match tag with
  | none => return (name, none)
  | some (handle, suffix) => return (name, some (← fullTag handle suffix))

/-- The type of a collection: that of its tag, unless it has none of its own. -/
def collectionTag (usual : Tag) : Option String → Tag
  | none => usual
  | some "!" => usual
  | some name => Tag.ofName name

/-- The type of a scalar. A lone exclamation mark leaves the type to the text, whatever the
quotes. -/
def scalarTag (text : String) (plain : Bool) : Option String → Tag
  | none => if plain then PlainScalar.tag text else .str
  | some "!" => PlainScalar.tag text
  | some name => Tag.ofName name

/-- Gives a node its name while its content is read, and after. A name is given once; that is looked
at when the first token of the content has been seen. -/
def named (name : Option String) (content : Reader Nat) : Reader Nat := do
  match name with
  | none => content
  | some n =>
    let _ ← peek
    if ((← get).anchors.lookup n).isSome then throw .malformed
    modify fun r => { r with anchors := (n, none) :: r.anchors }
    let node ← content
    modify fun r => { r with anchors := (n, some node) :: r.anchors }
    return node

/-- The node that an alias stands for, or a hole if that is not complete. -/
def aliased (name : String) : Reader Nat := do
  match (← get).anchors.lookup name with
  | some (some node) => return node
  | some none =>
    let hole ← absent
    modify fun r => { r with holes := (hole, name) :: r.holes }
    return hole
  | none => throw .malformed

/-! ## Content -/

/-- The empty scalar, which may stand after an anchor or a tag; without them, content is due. -/
def emptyOr (name tag : Option String) : Reader Nat := do
  match name, tag with
  | none, none => throw .malformed
  | _, _ => add (scalarTag "" true tag) (.scalar "")

mutual
/-- Reads a node. Block collections may stand only in block context; as the value of a key, a
sequence may stand without an indentation of its own. -/
def node (inBlock unindented : Bool) : Nat → Reader Nat
  | 0 => throw .malformed
  | fuel + 1 => do
    match ← peek with
    | .alias name => advance; aliased name
    | _ =>
      let (name, tag) ← properties
      named name do
        match ← peek with
        | .scalar text plain => advance; add (scalarTag text plain tag) (.scalar text)
        | .flowSequence =>
          advance; add (collectionTag .seq tag) (.sequence (← flowItems true fuel))
        | .flowMapping =>
          advance; add (collectionTag .map tag) (.mapping (← flowEntries true fuel))
        | .blockSequence =>
          if inBlock then
            advance; add (collectionTag .seq tag) (.sequence (← blockItems fuel))
          else emptyOr name tag
        | .blockMapping =>
          if inBlock then
            advance; add (collectionTag .map tag) (.mapping (← blockEntries fuel))
          else emptyOr name tag
        | .blockEntry =>
          if unindented then
            add (collectionTag .seq tag) (.sequence (← unindentedItems fuel))
          else emptyOr name tag
        | _ => emptyOr name tag

/-- Reads a node, or none if one of some tokens comes next. -/
def nodeUnless (ends : List Token) (inBlock unindented : Bool) : Nat → Reader Nat
  | 0 => throw .malformed
  | fuel + 1 => do
    if ← nextIn ends then absent else node inBlock unindented fuel

/-- Reads the items of a block sequence and its end. -/
def blockItems : Nat → Reader (List Nat)
  | 0 => throw .malformed
  | fuel + 1 => do
    match ← peek with
    | .blockEntry =>
      advance
      let item ← nodeUnless [.blockEntry, .blockEnd] true false fuel
      return item :: (← blockItems fuel)
    | _ => expect .blockEnd; return []

/-- Reads the items of a sequence that has no indentation of its own. -/
def unindentedItems : Nat → Reader (List Nat)
  | 0 => throw .malformed
  | fuel + 1 => do
    match ← peek with
    | .blockEntry =>
      advance
      let item ← nodeUnless [.blockEntry, .key, .value, .blockEnd] true false fuel
      return item :: (← unindentedItems fuel)
    | _ => return []

/-- Reads the value of a key, which may be absent. -/
def valueAfter (ends : List Token) (inBlock unindented : Bool) : Nat → Reader Nat
  | 0 => throw .malformed
  | fuel + 1 => do
    match ← peek with
    | .value => advance; nodeUnless ends inBlock unindented fuel
    | _ => absent

/-- Reads the entries of a block mapping and its end. -/
def blockEntries : Nat → Reader (List (Nat × Nat))
  | 0 => throw .malformed
  | fuel + 1 => do
    match ← peek with
    | .key =>
      advance
      let k ← nodeUnless [.key, .value, .blockEnd] true true fuel
      let v ← valueAfter [.key, .value, .blockEnd] true true fuel
      return (k, v) :: (← blockEntries fuel)
    | _ => expect .blockEnd; return []

/-- Reads the items of a flow sequence and its bracket. A key with its value is an item: a mapping
of one entry. -/
def flowItems (first : Bool) : Nat → Reader (List Nat)
  | 0 => throw .malformed
  | fuel + 1 => do
    if (← peek) == .flowSequenceEnd then advance; return []
    if !first then expect .flowEntry
    match ← peek with
    | .flowSequenceEnd => advance; return []
    | .key =>
      advance
      let k ← nodeUnless [.value, .flowEntry, .flowSequenceEnd] false false fuel
      let v ← valueAfter [.flowEntry, .flowSequenceEnd] false false fuel
      let item ← add .map (.mapping [(k, v)])
      return item :: (← flowItems false fuel)
    | _ =>
      let item ← node false false fuel
      return item :: (← flowItems false fuel)

/-- Reads the entries of a flow mapping and its brace. A node without a mark is a key without a
value. -/
def flowEntries (first : Bool) : Nat → Reader (List (Nat × Nat))
  | 0 => throw .malformed
  | fuel + 1 => do
    if (← peek) == .flowMappingEnd then advance; return []
    if !first then expect .flowEntry
    match ← peek with
    | .flowMappingEnd => advance; return []
    | .key =>
      advance
      let k ← nodeUnless [.value, .flowEntry, .flowMappingEnd] false false fuel
      let v ← valueAfter [.flowEntry, .flowMappingEnd] false false fuel
      return (k, v) :: (← flowEntries false fuel)
    | _ =>
      let k ← node false false fuel
      let v ← absent
      return (k, v) :: (← flowEntries false fuel)
end

/-! ## The document -/

/-- The handles that need no directive. -/
def usualHandles : List (String × String) := [("!", "!"), ("!!", Tag.standardStart)]

/-- Reads the directives before a document: the version at most once, and each handle. -/
def directives : Nat → Bool → Reader Unit
  | 0, _ => throw .malformed
  | fuel + 1, versioned => do
    match ← peek with
    | .version major =>
      if versioned || major != 1 then throw .malformed
      advance
      directives fuel true
    | .tagHandle handle start =>
      if ((← get).handles.lookup handle).isSome then throw .malformed
      modify fun r => { r with handles := (handle, start) :: r.handles }
      advance
      directives fuel versioned
    | .otherDirective => advance; directives fuel versioned
    | _ => return ()

/-- Leaves the marks at the end of a document behind. -/
def documentEnds : Nat → Reader Unit
  | 0 => throw .malformed
  | fuel + 1 => do
    if (← peek) == .documentEnd then
      advance
      documentEnds fuel

/-- Whether the next token is a directive. -/
def atDirective : Reader Bool := do
  match ← peek with
  | .version _ => return true
  | .tagHandle _ _ => return true
  | .otherDirective => return true
  | _ => return false

/-- Whether the content of a document is left out. -/
def atDocumentEdge : Reader Bool := do
  if ← atDirective then return true
  nextIn [.documentStart, .documentEnd, .streamEnd]

/-- Reads what stands before a document that has a mark at its start. -/
def documentStart (fuel : Nat) : Reader Unit := do
  modify fun r => { r with handles := [] }
  directives fuel false
  expect .documentStart

/-- Reads a whole text: nothing, or one document. The start of a second one is read before it is
refused. -/
def whole (fuel : Nat) : Reader (Option Nat) := do
  if (← peek) == .streamEnd then return none
  let explicit := (← atDirective) || (← peek) == .documentStart
  if explicit then documentStart fuel
  modify fun r => { r with handles := r.handles ++ usualHandles }
  let root ← if explicit && (← atDocumentEdge) then absent else node true false fuel
  documentEnds fuel
  if (← peek) == .streamEnd then return some root
  documentStart fuel
  throw .malformed

/-- The nodes that the holes stand for. -/
def Reading.filled (r : Reading) : List (Nat × Nat) :=
  r.holes.filterMap fun (hole, name) => (r.anchors.lookup name).join.map (hole, ·)

/-- **The document of a text's tokens**, or none if the text is empty. -/
def ofTokens (tokens : List Token) : Except Fault (Option Document) :=
  match (whole (2 * tokens.length + 2)).run { tokens } with
  | .error e => .error e
  | .ok (none, _) => .ok none
  | .ok (some root, r) => .ok (some (tied ⟨r.nodes, root⟩ r.filled))

end Document

end TypeCatalog.Yaml
