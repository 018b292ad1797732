import TypeCatalog.Proofs.Spelling.Tree
import TypeCatalog.Proofs.Yaml.ScalarFaults

/-!
# Proofs/Spelling/Yaml — the tokens of YAML texts

`readSpelled` builds the values of a document as `read` does, node after node, and keeps the text of
a scalar to which that text alone gives the type of a number or of a truth value.  What it forgets
gives the value (`erase_readSpelled`), and **every token is read as the value beside it**
(`holds_readSpelled`).
-/

namespace TypeCatalog.Yaml

/-- The text of a scalar that is a number or a truth value because of its text. -/
def Node.token? (x : Node) : Option String :=
  match x.content with
  | .scalar text =>
    if x.tag ∈ [.bool, .int, .float] ∧ PlainScalar.tag text = x.tag then some text else none
  | _ => none

/-- The value of a scalar, with the token that its node has. -/
def spelledScalar (x? : Option Node) (v : Value) : Spelled :=
  match x?.bind Node.token? with
  | some token => .scalar token v
  | none => .other v

namespace Graph

/-- What parts make up, for a node of the document, given what makes up those within. -/
def spelledOf (g : Graph) (x? : Option Node) (within : Nat → Spelled) : Part → Spelled
  | .scalar v => spelledScalar x? v
  | .ownNaN => spelledScalar x? (.float .nan)
  | .list items => .list (items.map within)
  | .object entries => .object ((g.distinct entries).map fun (k, v) => (k.value, within v))
  | p => .other (g.valueOf (fun n => (within n).erase) p)

/-- What a node stands for: in this layer if that is there already, else in the layer below. -/
def spelledAbove (ss below : Array Spelled) (n : Nat) : Spelled :=
  (ss[n]?.or below[n]?).getD (.other .null)

/-- What the nodes stand for, in the order of their numbers. -/
def spelledLayer (g : Graph) (nodes : Array Node) (below : Array Spelled) : Array Spelled :=
  g.parts.foldl (fun ss p => ss.push
    ((p.map (g.spelledOf nodes[ss.size]? (spelledAbove ss below))).getD (.other .null))) #[]

/-- The uppermost of so many layers. -/
def spelledLayers (g : Graph) (nodes : Array Node) : Nat → Array Spelled
  | 0 => #[]
  | n + 1 => g.spelledLayer nodes (spelledLayers g nodes n)

/-- What the nodes of a document stand for. -/
def spelled (g : Graph) (nodes : Array Node) : Spelled :=
  ((g.spelledLayers nodes g.depth)[g.root]?).getD (.other .null)

end Graph

/-- What a document stands for. -/
def Document.spelled (d : Document) : Except Fault Spelled :=
  d.graph.map fun g => g.spelled d.nodes

/-- Reads a whole text, as `read` does. -/
def readSpelled (text : String) : Except Fault Spelled :=
  match Document.ofTokens (Token.ofText text) with
  | .error e => .error e
  | .ok none => .ok (.other .null)
  | .ok (some d) => d.spelled

/-! ## Values -/

theorem erase_spelledScalar (x? : Option Node) (v : Value) : (spelledScalar x? v).erase = v := by
  rw [spelledScalar]
  split <;> rfl

namespace Graph

variable (g : Graph)

theorem erase_spelledOf (x? : Option Node) (within : Nat → Spelled) (p : Part) :
    (g.spelledOf x? within p).erase = g.valueOf (fun n => (within n).erase) p := by
  cases p with
  | scalar v => exact erase_spelledScalar x? v
  | ownNaN => exact erase_spelledScalar x? _
  | list items =>
    rw [spelledOf, valueOf, Spelled.erase, Spelled.eraseAll_eq_map, List.map_map]
    rfl
  | object entries =>
    rw [spelledOf, valueOf, Spelled.erase, Spelled.eraseEntries_eq_map, List.map_map]
    rfl
  | unread | pairs | set => rfl

theorem erase_getD (s? : Option Spelled) :
    (s?.getD (.other .null)).erase = (s?.map Spelled.erase).getD .null := by
  cases s? <;> rfl

theorem erase_spelledAbove (ss below : Array Spelled) :
    (fun n => (spelledAbove ss below n).erase) =
      Values.above (ss.map Spelled.erase) (below.map Spelled.erase) := by
  funext n
  rw [spelledAbove, Values.above, erase_getD, Option.map_or, Array.getElem?_map,
    Array.getElem?_map]

/-- A layer of values is what is left of a layer of tokens. -/
theorem erase_spelledLayer (nodes : Array Node) (below : Array Spelled) :
    (g.spelledLayer nodes below).map Spelled.erase = g.layer (below.map Spelled.erase) := by
  have hfold (ss : Array Spelled) :
      g.parts.foldl (fun vs p => vs.push
        ((p.map (g.valueOf (Values.above vs (below.map Spelled.erase)))).getD .null))
          (ss.map Spelled.erase) =
      (g.parts.foldl (fun ss p => ss.push
        ((p.map (g.spelledOf nodes[ss.size]? (spelledAbove ss below))).getD (.other .null)))
          ss).map Spelled.erase := by
    refine Array.foldl_hom (Array.map Spelled.erase) fun ss p => ?_
    rw [Array.map_push, erase_getD, Option.map_map, ← erase_spelledAbove]
    cases p with
    | none => rfl
    | some p => exact congrArg _ (g.erase_spelledOf _ _ p).symm
  have hstart := hfold #[]
  rw [Array.map_empty] at hstart
  exact hstart.symm

theorem erase_spelledLayers (nodes : Array Node) (n : Nat) :
    (g.spelledLayers nodes n).map Spelled.erase = g.layers n := by
  induction n with
  | zero => exact Array.map_empty
  | succ n ih => rw [spelledLayers, layers, erase_spelledLayer, ih]

theorem erase_spelled (nodes : Array Node) : (g.spelled nodes).erase = g.value := by
  rw [spelled, value, erase_getD, ← Array.getElem?_map, erase_spelledLayers]

end Graph

theorem Document.erase_spelled (d : Document) : d.value = d.spelled.map Spelled.erase := by
  rw [Document.value, Document.spelled]
  cases d.graph with
  | error e => rfl
  | ok g => exact congrArg Except.ok (g.erase_spelled d.nodes).symm

/-- **What a text is read as is what its tokens are forgotten to.** -/
theorem erase_readSpelled (text : String) : read text = (readSpelled text).map Spelled.erase := by
  rw [read, graph?, readSpelled]
  cases Document.ofTokens (Token.ofText text) with
  | error e => rfl
  | ok d? =>
    cases d? with
    | none => rfl
    | some d =>
      change (d.graph.map some).map (fun g? => (g?.map Graph.value).getD .null) = d.spelled.map _
      rw [← d.erase_spelled, Document.value]
      cases d.graph <;> rfl

/-! ## Tokens -/

/-- A token is of the type of a number or of a truth value, and the reader for that type reads it.
-/
inductive IsAtom (token : String) (v : Value) : Prop
  | bool : PlainScalar.tag token = .bool → ScalarValue.bool token = .ok v → IsAtom token v
  | int : PlainScalar.tag token = .int → ScalarValue.int token = .ok v → IsAtom token v
  | float : PlainScalar.tag token = .float → ScalarValue.float token = .ok v → IsAtom token v

/-- The value that makes up a scalar. -/
def Part.scalar? : Part → Option Value
  | scalar v => some v
  | ownNaN => some (.float .nan)
  | _ => none

section Nodes

variable {nodes : Array Node} {n : Nat} {x : Node} {token : String}

theorem Node.token?_eq_some : x.token? = some token ↔ x.content = .scalar token ∧
    x.tag ∈ [.bool, .int, .float] ∧ PlainScalar.tag token = x.tag := by
  rw [Node.token?]
  split
  · next text htext =>
    rw [htext, Option.ite_none_right_eq_some, Option.some.injEq, Content.scalar.injEq, and_comm]
    exact and_congr_right fun h => by rw [h]
  · next hne => exact ⟨nofun, fun h => absurd h.1 (hne token)⟩

/-- The value of a node with a token is read from it. -/
theorem isAtom_of_scalarPart {v : Value} {p : Part} (hx : x.token? = some token)
    (h : Valuation.scalarPart x token = .ok p) (hp : p.scalar? = some v) : IsAtom token v := by
  have hvalue {u : Except Fault Value} {f : Value → Part} (hf : ∀ w, (f w).scalar? = some w)
      (hu : u.map f = .ok p) : u = .ok v := by
    cases u with
    | error e => cases hu
    | ok u =>
      cases hu
      exact congrArg Except.ok (Option.some.inj ((hf u).symm.trans hp))
  obtain ⟨-, hmem, htag⟩ := Node.token?_eq_some.mp hx
  rw [Valuation.scalarPart.eq_def] at h
  simp only [List.mem_cons, List.not_mem_nil, or_false] at hmem
  obtain hbool | hint | hfloat := hmem
  · rw [hbool] at h
    exact .bool (htag.trans hbool) (hvalue (fun _ => rfl) h)
  · rw [hint] at h
    exact .int (htag.trans hint) (hvalue (fun _ => rfl) h)
  · rw [hfloat] at h
    refine .float (htag.trans hfloat) (hvalue (fun w => ?_) h)
    split
    · split <;> rfl
    · rfl

/-- What a search finds for a node with a token is read from that token. -/
theorem scalarPart_of_isFrom {p : Part} (hn : nodes[n]? = some x) (hx : x.token? = some token)
    (h : ∃ z y text, nodes[n]? = some y ∧ Valuation.StemsFrom z y ∧ Valuation.HasText nodes y text ∧
      Valuation.scalarPart z text = .ok p) : Valuation.scalarPart x token = .ok p := by
  obtain ⟨z, y, text, hy, hstems, htext, hp⟩ := h
  cases hn.symm.trans hy
  obtain ⟨hcontent, hmem, -⟩ := Node.token?_eq_some.mp hx
  have htag : x.tag ≠ .value := fun htag => absurd (htag ▸ hmem) (by decide)
  obtain rfl : token = text := by
    obtain hscalar | ⟨⟨es, hes⟩, -⟩ := htext
    · exact Content.scalar.inj (hcontent.symm.trans hscalar)
    · nomatch hcontent.symm.trans hes
  obtain rfl : z = x := by
    have htags : z.tag = x.tag := hstems.tag.resolve_right fun h => htag h.1
    have hcontents : z.content = x.content :=
      hstems.content.resolve_right fun h => by
        obtain ⟨-, es, hes⟩ := h
        nomatch hcontent.symm.trans hes
    obtain ⟨tag, content⟩ := z
    obtain ⟨tag', content'⟩ := x
    exact congrArg₂ Node.mk htags hcontents
  exact hp

end Nodes

theorem holds_spelledScalar {nodes : Array Node} {n : Nat} {v : Value} {p : Part}
    (h : ∃ z y text, nodes[n]? = some y ∧ Valuation.StemsFrom z y ∧ Valuation.HasText nodes y text ∧
      Valuation.scalarPart z text = .ok p)
    (hp : p.scalar? = some v) : (spelledScalar nodes[n]? v).Holds IsAtom := by
  rw [spelledScalar]
  split
  · next token htoken =>
    obtain ⟨x, hn, hx⟩ := Option.bind_eq_some_iff.mp htoken
    exact .scalar (isAtom_of_scalarPart hx (scalarPart_of_isFrom hn hx h) hp)
  · exact .other v

/-- What parts make up has atoms for tokens, if all within have. -/
theorem Graph.holds_spelledOf {g : Graph} {nodes : Array Node} {n : Nat} {within : Nat → Spelled}
    (hwithin : ∀ m, (within m).Holds IsAtom) {p : Part} (hp : Valuation.IsFrom nodes n p) :
    (g.spelledOf nodes[n]? within p).Holds IsAtom := by
  cases p with
  | scalar v => exact holds_spelledScalar hp rfl
  | ownNaN => exact holds_spelledScalar hp rfl
  | list items => exact .list (List.forall_mem_map.mpr fun m _ => hwithin m)
  | object entries => exact .object (List.forall_mem_map.mpr fun e _ => hwithin e.2)
  | unread | pairs | set => exact .other _

theorem holds_getD {s? : Option Spelled} (h : ∀ s ∈ s?, s.Holds IsAtom) :
    (s?.getD (.other .null)).Holds IsAtom := by
  cases s? with
  | none => exact .other _
  | some s => exact h s rfl

namespace Graph

variable {g : Graph} {nodes : Array Node} (h : ∀ n p, g.parts[n]? = some (some p) →
  Valuation.IsFrom nodes n p)
include h

/-- A layer has atoms for tokens, if the layer below has. -/
theorem holds_spelledLayer {below : Array Spelled} (hbelow : ∀ s ∈ below, s.Holds IsAtom) :
    ∀ s ∈ g.spelledLayer nodes below, s.Holds IsAtom := by
  refine (Array.foldl_induction (motive := fun i (ss : Array Spelled) =>
    ss.size = i ∧ ∀ s ∈ ss, s.Holds IsAtom)
    ⟨rfl, fun _ => (Array.not_mem_empty _).elim⟩ ?_).2
  rintro ⟨i, hi⟩ ss ⟨hsize, hss⟩
  dsimp only at hsize ⊢
  have hwithin (m : ℕ) : (spelledAbove ss below m).Holds IsAtom := by
    refine holds_getD fun s hs => ?_
    obtain hs | ⟨-, hs⟩ := Option.or_eq_some_iff.mp hs
    · exact hss s (Array.mem_of_getElem? hs)
    · exact hbelow s (Array.mem_of_getElem? hs)
  refine ⟨by rw [Array.size_push, hsize], fun s hs => ?_⟩
  obtain hs | rfl := Array.mem_push.mp hs
  · exact hss s hs
  · rw [hsize]
    refine holds_getD fun s hs => ?_
    obtain ⟨p, hp, rfl⟩ := Option.map_eq_some_iff.mp hs
    exact holds_spelledOf hwithin (h i p (Array.getElem?_eq_some_iff.mpr ⟨hi, hp⟩))

theorem holds_spelled : (g.spelled nodes).Holds IsAtom := by
  have hlayers (k : ℕ) : ∀ s ∈ g.spelledLayers nodes k, s.Holds IsAtom := by
    induction k with
    | zero => exact fun _ => (Array.not_mem_empty _).elim
    | succ k ih => exact holds_spelledLayer h ih
  exact holds_getD fun s hs => hlayers _ s (Array.mem_of_getElem? hs)

end Graph

/-- **Every token of a text is an atom.** -/
theorem holds_readSpelled {text : String} {s : Spelled} (h : readSpelled text = .ok s) :
    s.Holds IsAtom := by
  rw [readSpelled] at h
  split at h
  · cases h
  · cases h
    exact .other _
  · next d _ =>
    rw [Document.spelled, Document.graph] at h
    cases hrun : Valuation.run d with
    | error e =>
      rw [hrun] at h
      cases h
    | ok parts =>
      rw [hrun] at h
      cases h
      exact Graph.holds_spelled fun n p hp => Valuation.isFrom_of_run hrun hp

end TypeCatalog.Yaml
