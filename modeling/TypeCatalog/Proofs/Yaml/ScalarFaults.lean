import TypeCatalog.Proofs.Yaml.NodeFaults
import TypeCatalog.Proofs.Yaml.TokenFaults
import TypeCatalog.Yaml.NodeValue

/-!
# Proofs/Yaml/ScalarFaults — what has no value in a YAML document

The nodes that a search goes through stem from those of the document: only entries of mappings and
types of keys change on the way (`Valuation.StemsFrom`).  So a search that fails otherwise than for
the structure has met a node of the document with a text that has no value of its type
(`fails_of_run`), and the type tells which faults that may be (`Tag.faults`); or it looks for a text
without end in a node that holds itself.  With the faults among the tokens, these are all that stops
the reading of a text otherwise than bad syntax (`stops_of_read`).
-/

namespace TypeCatalog.Yaml

/-! ## Texts without value -/

/-- The faults of the texts that have no value of a type. -/
def Tag.faults : Tag → List Fault
  | .bool => [.badTruthWord]
  | .int => [.emptyNumeral, .badNumeral]
  | .float => [.emptyNumeral, .badNumeral, .overflow]
  | .timestamp => [.badTimeForm, .badNumeral, .badTimeNode]
  | _ => []

/-- A reader of texts fails with one of some faults. -/
abbrev FailsIn {α : Type} (faults : List Fault) (x : Except Fault α) : Prop :=
  Ensures (fun _ => True) (· ∈ faults) x

/-- Whether no steps lead into a value. -/
def isFlat : Value → Bool
  | .list _ | .object _ => false
  | _ => true

/-- A reader of scalars gives a value that is none of a collection, or fails with one of some
faults. -/
abbrev ReadsScalar (faults : List Fault) (x : Except Fault Value) : Prop :=
  Ensures (isFlat · = true) (· ∈ faults) x

namespace ScalarValue

theorem readsScalar_int (text : String) : ReadsScalar Tag.int.faults (int text) := by
  rw [int.eq_def]
  split
  · exact List.mem_cons_self
  · dsimp only
    refine .ite List.mem_cons_self ?_
    split
    · rfl
    · exact List.mem_cons_of_mem _ List.mem_cons_self

theorem failsIn_sixtiethsSum (xs : List Number.Binary64) (weight : Nat) (sum : Number.Binary64) :
    FailsIn Tag.float.faults (sixtiethsSum xs weight sum) := by
  induction xs generalizing weight sum with
  | nil => trivial
  | cons x xs ih =>
    rw [sixtiethsSum.eq_def]
    dsimp only
    split
    · exact List.mem_cons_of_mem _ (List.mem_cons_of_mem _ List.mem_cons_self)
    · exact ih _ _

theorem failsIn_unsignedFloat (text : List Char) :
    FailsIn Tag.float.faults (unsignedFloat text) := by
  have hbad : FailsIn Tag.float.faults (.error .badNumeral : Except Fault Number.Binary64) :=
    List.mem_cons_of_mem _ List.mem_cons_self
  rw [unsignedFloat]
  refine .ite trivial (.ite trivial (.ite ?_ ?_))
  · split
    · exact failsIn_sixtiethsSum _ _ _
    · exact hbad
  · split
    · trivial
    · exact hbad

theorem readsScalar_float (text : String) : ReadsScalar Tag.float.faults (float text) :=
  .ite List.mem_cons_self ((failsIn_unsignedFloat _).map fun _ _ => rfl)

theorem readsScalar_bool (text : String) : ReadsScalar Tag.bool.faults (bool text) := by
  rw [bool]
  split
  · rfl
  · exact List.mem_cons_self

theorem readsScalar_binary (text : String) : ReadsScalar [.malformed] (binary text) := by
  rw [binary]
  refine .ite ?_ List.mem_cons_self
  split
  · rfl
  · exact List.mem_cons_self

theorem readsScalar_timestamp (text : String) :
    ReadsScalar Tag.timestamp.faults (timestamp text) := by
  have hbad : ReadsScalar Tag.timestamp.faults (.error .badNumeral) :=
    List.mem_cons_of_mem _ List.mem_cons_self
  rw [timestamp]
  split
  · exact List.mem_cons_self
  · refine .ite (.ite rfl hbad) ?_
    split
    · exact List.mem_cons_self
    · exact .ite rfl hbad

end ScalarValue

/-- No steps lead into the value of a scalar. -/
def Part.IsFlat (p : Part) : Prop := ∀ v, p = .scalar v → isFlat v = true

/-- A text that has no value of a node's type has one of the faults of that type; if it has one, no
steps lead into it. -/
theorem ensures_scalarPart (x : Node) (text : String) :
    Ensures Part.IsFlat (· ∈ .malformed :: x.tag.faults) (Valuation.scalarPart x text) := by
  have hpart {v : Except Fault Value} {faults : List Fault} (hv : ReadsScalar faults v) :
      Ensures Part.IsFlat (· ∈ faults) (v.map Part.scalar) :=
    hv.map fun _ hflat _ heq => Part.scalar.inj heq ▸ hflat
  have hmore {p : Except Fault Part} {faults : List Fault}
      (hp : Ensures Part.IsFlat (· ∈ faults) p) :
      Ensures Part.IsFlat (· ∈ .malformed :: faults) p :=
    hp.mono (fun _ h => h) fun _ => List.mem_cons_of_mem _
  rw [Valuation.scalarPart.eq_def]
  cases x.tag with
  | null | str => exact fun _ heq => Part.scalar.inj heq ▸ rfl
  | bool => exact hmore (hpart (ScalarValue.readsScalar_bool text))
  | int => exact hmore (hpart (ScalarValue.readsScalar_int text))
  | float =>
    refine hmore ((ScalarValue.readsScalar_float text).map fun v hflat u heq => ?_)
    split at heq
    · split at heq
      · exact Part.scalar.inj heq ▸ hflat
      · cases heq
    · exact Part.scalar.inj heq ▸ hflat
  | binary => exact hpart (ScalarValue.readsScalar_binary text)
  | timestamp =>
    have hnode : Fault.badTimeNode ∈ Fault.malformed :: Tag.timestamp.faults := by decide
    dsimp only
    split
    · exact hmore (hpart (ScalarValue.readsScalar_timestamp text))
    · exact hnode
  | _ => exact List.mem_cons_self

/-! ## Values of nodes -/

namespace Valuation

/-- A node is one of a document, but for what a reading of mappings changes: the entries of a
mapping and the type of the key `=`, which becomes a string. -/
structure StemsFrom (x y : Node) : Prop where
  tag : x.tag = y.tag ∨ y.tag = .value ∧ x.tag = .str
  content : x.content = y.content ∨
    (∃ es, x.content = .mapping es) ∧ ∃ es, y.content = .mapping es

/-- A node of a document has a value of a type from a text: its own, or for a mapping that of
another node. -/
def HasText (nodes : Array Node) (y : Node) (text : String) : Prop :=
  y.content = .scalar text ∨
    (∃ es, y.content = .mapping es) ∧ ∃ z ∈ nodes, z.content = .scalar text

/-- A text that is to give a value of a node's type fails so. -/
def Unfit (nodes : Array Node) (fault : Fault) : Prop :=
  ∃ y ∈ nodes, ∃ text, HasText nodes y text ∧ scalarPart y text = .error fault

/-- Every node comes after all that it holds, so none holds itself. -/
def Falls (nodes : Array Node) : Prop :=
  ∀ (n : Nat) (x : Node), nodes[n]? = some x → ∀ m ∈ x.content.held, m < n

/-- What makes up the value of a node is that of a collection, or read from a text of the node. -/
def IsFrom (nodes : Array Node) (n : Nat) : Part → Prop
  | .scalar v => ∃ x y text, nodes[n]? = some y ∧ StemsFrom x y ∧ HasText nodes y text ∧
      scalarPart x text = .ok (.scalar v)
  | .ownNaN => ∃ x y text, nodes[n]? = some y ∧ StemsFrom x y ∧ HasText nodes y text ∧
      scalarPart x text = .ok .ownNaN
  | _ => True

/-- What has been found out stems from the nodes of a document. -/
structure Sought (nodes : Array Node) (s : Valuation) : Prop where
  size : s.nodes.size = nodes.size
  stems : ∀ (n : Nat) x, s.nodes[n]? = some x → ∃ y, nodes[n]? = some y ∧ StemsFrom x y
  falls : Falls nodes → Falls s.nodes
  parts : ∀ (n : Nat) p, s.parts[n]? = some (some p) → IsFrom nodes n p

/-- What a search fails for: the structure, a scalar, or a text that is looked for without end in a
node that holds itself. -/
def Fails (nodes : Array Node) (fault : Fault) : Prop :=
  fault = .malformed ∨ Unfit nodes fault ∨ fault = .endless ∧ ¬ Falls nodes

/-- A search goes through nodes that stem from those of a document, and fails only so. -/
abbrev Seeks (nodes : Array Node) {α : Type} (P : α → Prop) (act : Search α) : Prop :=
  Keeps (Sought nodes) (Fails nodes) P act

/-- If no node holds itself, these entries stand below a node. -/
def Below (nodes : Array Node) (n : Nat) (entries : List (Nat × Nat)) : Prop :=
  Falls nodes → ∀ e ∈ entries, e.1 < n ∧ e.2 < n

variable {nodes : Array Node} {α : Type} {P : α → Prop}

theorem Below.append {n : Nat} {es es' : List (Nat × Nat)} (h : Below nodes n es)
    (h' : Below nodes n es') : Below nodes n (es ++ es') :=
  fun hfalls => List.forall_mem_append.mpr ⟨h hfalls, h' hfalls⟩

theorem Below.mono {n m : Nat} {es : List (Nat × Nat)} (h : Below nodes n es)
    (hnm : Falls nodes → n < m) : Below nodes m es := fun hfalls e he =>
  ⟨(h hfalls e he).1.trans (hnm hfalls), (h hfalls e he).2.trans (hnm hfalls)⟩

theorem below_cons {n k v : Nat} {es : List (Nat × Nat)} :
    Below nodes n ((k, v) :: es) ↔ (Falls nodes → k < n ∧ v < n) ∧ Below nodes n es := by
  rw [Below, Below, ← forall_and]
  exact forall_congr' fun _ => List.forall_mem_cons

theorem seeks_malformed : Seeks nodes P (throw .malformed : Search α) := .throw (.inl rfl)

/-- A node as it is when it is looked at: it stems from one of the document. -/
structure Found (nodes : Array Node) (n : Nat) (x : Node) : Prop where
  origin : ∃ y, nodes[n]? = some y ∧ StemsFrom x y
  falls : Falls nodes → ∀ m ∈ x.content.held, m < n

theorem seeks_node (n : Nat) : Seeks nodes (Found nodes n) (node n) := by
  refine Keeps.bind Keeps.get fun s hs => ?_
  split
  · next x hx => exact .pure ⟨hs.stems n x hx, fun hfalls => hs.falls hfalls n x hx⟩
  · exact seeks_malformed

theorem Found.lt_size {n : Nat} {x : Node} (h : Found nodes n x) : n < nodes.size := by
  obtain ⟨y, hy, -⟩ := h.origin
  exact (Array.getElem?_eq_some_iff.mp hy).1

/-- The entries of a mapping stand below it. -/
theorem Found.below {n : Nat} {x : Node} {es : List (Nat × Nat)} (h : Found nodes n x)
    (hx : x.content = .mapping es) : Below nodes n es := by
  intro hfalls e he
  have hheld : ∀ m ∈ [e.1, e.2], m < n := fun m hm => h.falls hfalls m <| by
    rw [hx]
    exact List.mem_flatMap.mpr ⟨e, he, hm⟩
  exact ⟨hheld e.1 List.mem_cons_self, hheld e.2 (List.mem_cons_of_mem _ List.mem_cons_self)⟩

theorem StemsFrom.mapping {x y : Node} {es : List (Nat × Nat)} (h : StemsFrom x y)
    (hx : x.content = .mapping es) : ∃ es, y.content = .mapping es := by
  obtain hcontent | ⟨-, hy⟩ := h.content
  · exact ⟨es, hcontent.symm.trans hx⟩
  · exact hy

theorem StemsFrom.scalar {x y : Node} {text : String} (h : StemsFrom x y)
    (hx : x.content = .scalar text) : y.content = .scalar text := by
  obtain hcontent | ⟨⟨es, hes⟩, -⟩ := h.content
  · exact hcontent.symm.trans hx
  · nomatch hx.symm.trans hes

/-- Every text is that of a scalar. -/
theorem HasText.exists_scalar {nodes : Array Node} {y : Node} {text : String}
    (h : HasText nodes y text) (hy : y ∈ nodes) : ∃ z ∈ nodes, z.content = .scalar text := by
  obtain hscalar | ⟨-, hother⟩ := h
  · exact ⟨y, hy, hscalar⟩
  · exact hother

theorem StemsFrom.refl (x : Node) : StemsFrom x x := ⟨.inl rfl, .inl rfl⟩

/-- A change of one node that keeps where it stems from, and what it stands above. -/
theorem seeks_modify {n : Nat} {f : Node → Node}
    (hf : ∀ x, Found nodes n x → Found nodes n (f x)) :
    Seeks nodes (fun _ => True)
      (modify fun s => { s with nodes := s.nodes.modify n f } : Search Unit) := by
  refine Keeps.modify fun s hs => ?_
  have hfound : ∀ m x, (s.nodes.modify n f)[m]? = some x → Found nodes m x := by
    intro m x hx
    rw [Array.getElem?_modify] at hx
    split at hx
    · next hm =>
      subst hm
      obtain ⟨x', hx', rfl⟩ := Option.map_eq_some_iff.mp hx
      exact hf x' ⟨hs.stems n x' hx', fun hfalls => hs.falls hfalls n x' hx'⟩
    · exact ⟨hs.stems m x hx, fun hfalls => hs.falls hfalls m x hx⟩
  exact ⟨Array.size_modify.trans hs.size, fun m x hx => (hfound m x hx).origin,
    fun hfalls m x hx => (hfound m x hx).falls hfalls, hs.parts⟩

theorem seeks_retag {n : Nat} (h : ∃ y, nodes[n]? = some y ∧ y.tag = .value) :
    Seeks nodes (fun _ => True) (retag n .str) := by
  obtain ⟨y, hy, htag⟩ := h
  refine seeks_modify fun x hx => ⟨?_, hx.falls⟩
  obtain ⟨y', hy', hstems⟩ := hx.origin
  obtain rfl := Option.some.inj (hy.symm.trans hy')
  exact ⟨y, hy, .inr ⟨htag, rfl⟩, hstems.content⟩

/-- A mapping may get any entries that stand below it. -/
theorem seeks_setEntries {n : Nat} {entries : List (Nat × Nat)}
    (h : ∃ y, nodes[n]? = some y ∧ ∃ es, y.content = .mapping es) (hbelow : Below nodes n entries) :
    Seeks nodes (fun _ => True) (setEntries n entries) := by
  obtain ⟨y, hy, hmapping⟩ := h
  refine seeks_modify fun x hx => ⟨?_, fun hfalls m hm => ?_⟩
  · obtain ⟨y', hy', hstems⟩ := hx.origin
    obtain rfl := Option.some.inj (hy.symm.trans hy')
    exact ⟨y, hy, hstems.tag, .inr ⟨⟨entries, rfl⟩, hmapping⟩⟩
  · obtain ⟨e, he, hm⟩ := List.mem_flatMap.mp hm
    have hlt := hbelow hfalls e he
    simp only [List.mem_cons, List.not_mem_nil, or_false] at hm
    obtain rfl | rfl := hm
    · exact hlt.1
    · exact hlt.2

theorem seeks_setPart {n : Nat} {p : Part} (hp : IsFrom nodes n p) :
    Seeks nodes (fun _ => True) (setPart n p) := by
  refine Keeps.modify fun s hs => ⟨hs.size, hs.stems, hs.falls, fun m q hq => ?_⟩
  rw [Array.getElem?_setIfInBounds] at hq
  split at hq
  · next hm =>
    subst hm
    split at hq
    · cases hq
      exact hp
    · cases hq
  · exact hs.parts m q hq

/-- What is found for a scalar is from its text. -/
theorem isFrom_of_scalarPart {n : Nat} {x y : Node} {text : String} {p : Part}
    (hy : nodes[n]? = some y) (hstems : StemsFrom x y) (htext : HasText nodes y text)
    (hp : scalarPart x text = .ok p) : IsFrom nodes n p := by
  cases p with
  | scalar | ownNaN => exact ⟨x, y, text, hy, hstems, htext, hp⟩
  | _ => trivial

/-! ### Scalars -/

/-- The entries that a mapping has stand below it. -/
theorem seeks_entriesOf (n : Nat) :
    Seeks nodes (fun es => (∃ y, nodes[n]? = some y ∧ ∃ es, y.content = .mapping es) ∧
      Below nodes n es) (entriesOf n) := by
  refine (seeks_node n).bind fun x hx => ?_
  obtain ⟨y, hy, hstems⟩ := hx.origin
  split
  · next es hes => exact .pure ⟨⟨y, hy, hstems.mapping hes⟩, hx.below hes⟩
  · exact seeks_malformed

theorem seeks_itemsOf (n : Nat) : Seeks nodes (fun _ => True) (itemsOf n) := by
  refine (seeks_node n).bind fun x _ => ?_
  split
  · exact .pure trivial
  · exact seeks_malformed

theorem seeks_defaultEntry (entries : List (Nat × Nat)) :
    Seeks nodes (fun v? => ∀ v ∈ v?, ∃ e ∈ entries, e.2 = v) (defaultValue? entries) := by
  induction entries with
  | nil => exact .pure nofun
  | cons entry rest ih =>
    refine (seeks_node entry.1).bind fun _ _ => .ite (.pure fun v hv => ?_) ?_
    · exact ⟨entry, List.mem_cons_self, Option.some.inj hv⟩
    · refine ih.mono fun v? hv? v hv => ?_
      obtain ⟨e, he, heq⟩ := hv? v hv
      exact ⟨e, List.mem_cons_of_mem _ he, heq⟩

/-- The text of a node is found before the fuel ends, if no node holds itself. -/
theorem seeks_scalarText {fuel n : Nat} (hfuel : Falls nodes → n < fuel) :
    Seeks nodes (fun text => ∃ y, nodes[n]? = some y ∧ HasText nodes y text)
      (scalarText fuel n) := by
  induction fuel generalizing n with
  | zero => exact .throw (.inr (.inr ⟨rfl, fun hfalls => Nat.not_lt_zero n (hfuel hfalls)⟩))
  | succ fuel ih =>
    rw [scalarText]
    refine (seeks_node n).bind fun x hx => ?_
    obtain ⟨y, hy, hstems⟩ := hx.origin
    split
    · next text htext => exact .pure ⟨y, hy, .inl (hstems.scalar htext)⟩
    · exact seeks_malformed
    · next es hes =>
      refine (seeks_defaultEntry es).bind fun v? hv? => ?_
      split
      · next v =>
        obtain ⟨e, he, rfl⟩ := hv? v rfl
        have hlt : Falls nodes → e.2 < fuel := fun hfalls =>
          Nat.lt_of_lt_of_le (hx.below hes hfalls e he).2 (Nat.lt_succ_iff.mp (hfuel hfalls))
        refine (ih hlt).mono fun text htext => ⟨y, hy, .inr ⟨hstems.mapping hes, ?_⟩⟩
        obtain ⟨z, hz, hztext⟩ := htext
        exact hztext.exists_scalar (Array.mem_of_getElem? hz)
      · exact seeks_malformed

/-- A node that stems from another fails at the same texts. -/
theorem StemsFrom.scalarPart {x y : Node} (h : StemsFrom x y) {text : String} {fault : Fault}
    (hx : Valuation.scalarPart x text = .error fault) :
    Valuation.scalarPart y text = .error fault := by
  obtain htag | ⟨-, htag⟩ := h.tag
  · obtain hcontent | ⟨⟨es, hes⟩, es', hes'⟩ := h.content
    · obtain ⟨tag, content⟩ := x
      obtain rfl : tag = y.tag := htag
      obtain rfl : content = y.content := hcontent
      exact hx
    · rw [Valuation.scalarPart, htag, hes] at hx
      rw [Valuation.scalarPart, hes']
      exact hx
  · rw [Valuation.scalarPart.eq_def, htag] at hx
    cases hx

theorem seeks_meet (n : Nat) : Seeks nodes (fun _ => True) (meet n) := by
  refine Keeps.bind Keeps.get fun s _ => ?_
  split
  · refine (seeks_node n).bind fun x hx => .ite ?_ ?_
    · refine (seeks_setPart (p := .unread) trivial).bind fun _ _ => ?_
      exact Keeps.modify fun _ hs => ⟨hs.size, hs.stems, hs.falls, hs.parts⟩
    · refine Keeps.bind Keeps.get fun s hs => ?_
      have hfuel : Falls nodes → n < s.nodes.size + 1 := fun _ =>
        Nat.lt_succ_of_lt (hs.size ▸ hx.lt_size)
      refine (seeks_scalarText hfuel).bind fun text htext => ?_
      obtain ⟨y, hy, hstems⟩ := hx.origin
      obtain ⟨y', hy', htext⟩ := htext
      obtain rfl := Option.some.inj (hy.symm.trans hy')
      split
      · next p hp => exact seeks_setPart (isFrom_of_scalarPart hy hstems htext hp)
      · next fault hfault =>
        have hunfit : Unfit nodes fault :=
          ⟨y, Array.mem_of_getElem? hy, text, htext, hstems.scalarPart hfault⟩
        exact .throw (.inr (.inl hunfit))
  · exact .pure trivial

/-! ### Collections -/

/-- The entries before a merge key and after it stand where all stood, and what is to be taken over
stands below. -/
theorem seeks_untilMerge {n : Nat} {entries : List (Nat × Nat)} (h : Below nodes n entries) :
    Seeks nodes (fun r => Below nodes n r.1 ∧
      ∀ m ∈ r.2, (Falls nodes → m.1 < n) ∧ Below nodes n m.2) (untilMerge entries) := by
  induction entries with
  | nil => exact .pure ⟨fun _ => List.forall_mem_nil _, nofun⟩
  | cons entry rest ih =>
    obtain ⟨k, v⟩ := entry
    obtain ⟨hentry, hrest⟩ := below_cons.mp h
    rw [untilMerge]
    refine (seeks_node k).bind fun x hx => ?_
    split
    · refine .pure ⟨fun _ => List.forall_mem_nil _, fun m hm => ?_⟩
      obtain rfl := Option.some.inj hm
      exact ⟨fun hfalls => (hentry hfalls).2, hrest⟩
    · refine .firstOf (fun htag => seeks_retag ?_) ((ih hrest).bind fun r hr => ?_)
      · obtain ⟨y, hy, hstems⟩ := hx.origin
        refine ⟨y, hy, ?_⟩
        obtain heq | ⟨hvalue, -⟩ := hstems.tag
        · exact heq.symm.trans (eq_of_beq htag)
        · exact hvalue
      · exact .pure ⟨below_cons.mpr ⟨hentry, hr.1⟩, hr.2⟩

section Flat

variable {flat : Nat → Search Unit} (hflat : ∀ n, Seeks nodes (fun _ => True) (flat n))
include hflat

theorem seeks_taken (n : Nat) : Seeks nodes (Below nodes n) (taken flat n) :=
  (seeks_entriesOf n).bind fun _ _ => (hflat n).bind fun _ _ =>
    (seeks_entriesOf n).mono fun _ hes => hes.2

theorem seeks_takenAll {n : Nat} {ns : List Nat} (h : Falls nodes → ∀ m ∈ ns, m < n) :
    Seeks nodes (Below nodes n) (takenAll flat ns) := by
  induction ns with
  | nil => exact .pure fun _ => List.forall_mem_nil _
  | cons m ns ih =>
    have hm : Falls nodes → m < n := fun hfalls => h hfalls m List.mem_cons_self
    refine (seeks_taken hflat m).bind fun first hfirst => ?_
    refine (ih fun hfalls l hl => h hfalls l (List.mem_cons_of_mem _ hl)).bind
      fun others hothers => ?_
    exact .pure (hothers.append (hfirst.mono hm))

/-- What is taken over from a node stands below it. -/
theorem seeks_takenFrom (n : Nat) : Seeks nodes (Below nodes n) (takenFrom flat n) := by
  refine (seeks_node n).bind fun x hx => ?_
  split
  · next items hitems =>
    refine seeks_takenAll hflat fun hfalls m hm => hx.falls hfalls m ?_
    rw [hitems]
    exact hm
  · exact seeks_taken hflat n

end Flat

/-- A mapping takes over entries that stand below it. -/
theorem seeks_flatten {fuel n : Nat} {sofar : List (Nat × Nat)} (h : Below nodes n sofar) :
    Seeks nodes (fun _ => True) (flatten fuel sofar n) := by
  induction fuel generalizing n sofar with
  | zero => exact seeks_malformed
  | succ fuel ih =>
    rw [flatten]
    refine (seeks_entriesOf n).bind fun entries hentries => ?_
    refine (seeks_untilMerge hentries.2).bind fun r hr => ?_
    obtain ⟨before, merge?⟩ := r
    obtain ⟨hbefore, hmerge⟩ := hr
    dsimp only
    split
    · exact seeks_setEntries hentries.1 (h.append hbefore)
    · next v after =>
      obtain ⟨hv, hafter⟩ := hmerge (v, after) rfl
      refine (seeks_setEntries hentries.1 (hbefore.append hafter)).bind fun _ _ => ?_
      have hnone (m : Nat) : Below nodes m [] := fun _ => List.forall_mem_nil _
      refine (seeks_takenFrom (fun m => ih (hnone m)) v).bind fun more hmore => ?_
      exact ih (h.append (hmore.mono hv))

theorem seeks_meetEntries (entries : List (Nat × Nat)) :
    Seeks nodes (fun _ => True) (meetEntries entries) := by
  induction entries with
  | nil => exact .pure trivial
  | cons entry rest ih =>
    obtain ⟨k, v⟩ := entry
    rw [meetEntries]
    refine (seeks_meet k).bind fun _ _ => (seeks_node k).bind fun x _ => ?_
    exact seeks_malformed.first ((seeks_meet v).bind fun _ _ => ih)

theorem seeks_readEntries (n : Nat) : Seeks nodes (fun _ => True) (readEntries n) := by
  refine (seeks_entriesOf n).bind fun _ _ => Keeps.bind Keeps.get fun s _ => ?_
  refine (seeks_flatten fun _ => List.forall_mem_nil _).bind fun _ _ => ?_
  refine (seeks_entriesOf n).bind fun entries _ => ?_
  exact (seeks_meetEntries entries).bind fun _ _ => .pure trivial

theorem seeks_readPairs (ns : List Nat) : Seeks nodes (fun _ => True) (readPairs ns) := by
  induction ns with
  | nil => exact .pure trivial
  | cons n ns ih =>
    rw [readPairs]
    refine (seeks_entriesOf n).bind fun entries hentries => ?_
    split
    · next k v =>
      refine (seeks_meet k).bind fun _ _ => (seeks_meet v).bind fun _ _ => ?_
      exact ih.bind fun _ _ => .pure trivial
    · exact seeks_malformed

theorem seeks_look (n : Nat) : Seeks nodes (fun _ => True) (look n) := by
  refine (seeks_node n).bind fun x _ => ?_
  have hpairs : Seeks nodes (fun _ => True) (do
      setPart n (.pairs (← readPairs (← itemsOf n)))) :=
    (seeks_itemsOf n).bind fun items _ => (seeks_readPairs items).bind fun _ _ =>
      seeks_setPart trivial
  split
  · refine (seeks_itemsOf n).bind fun items _ => ?_
    exact (Keeps.forM seeks_meet items).bind fun _ _ => seeks_setPart trivial
  · exact hpairs
  · exact hpairs
  · exact (seeks_readEntries n).bind fun _ _ => seeks_setPart trivial
  · exact (seeks_readEntries n).bind fun _ _ => seeks_setPart trivial

theorem seeks_levels (fuel : Nat) : Seeks nodes (fun _ => True) (levels fuel) := by
  induction fuel with
  | zero => exact .pure trivial
  | succ fuel ih =>
    refine Keeps.bind Keeps.get fun s _ => .ite (.pure trivial) ?_
    refine Keeps.bind (Keeps.modify fun _ hs => ⟨hs.size, hs.stems, hs.falls, hs.parts⟩)
      fun _ _ => ?_
    exact (Keeps.forM seeks_look _).bind fun _ _ => ih

/-- What is known of a document before anything is met. -/
theorem sought_start (d : Document) : Sought d.nodes (start d) where
  size := rfl
  stems n x hx := ⟨x, hx, .refl x⟩
  falls hfalls := hfalls
  parts n p hp := by
    rw [start, Array.getElem?_replicate] at hp
    split at hp <;> cases hp

theorem seeks_run (d : Document) : Seeks d.nodes (fun _ => True) (do
    meet d.root
    levels (d.nodes.size + 1)) :=
  (seeks_meet d.root).bind fun _ _ => seeks_levels _

/-- **What a search finds for a scalar is read from its text.** -/
theorem isFrom_of_run {d : Document} {parts : Array (Option Part)} (h : run d = .ok parts) {n : Nat}
    {p : Part} (hp : parts[n]? = some (some p)) : IsFrom d.nodes n p := by
  have hrun := seeks_run d _ (sought_start d)
  rw [run] at h
  split at h
  · cases h
  · next s hs =>
    cases h
    exact (hrun.of_ok hs).2.parts n p hp

/-- No steps lead into what a search finds for a scalar. -/
theorem isFlat_of_run {d : Document} {parts : Array (Option Part)} (h : run d = .ok parts) {n : Nat}
    {v : Value} (hp : parts[n]? = some (some (.scalar v))) : isFlat v = true := by
  obtain ⟨x, y, text, -, -, -, hpart⟩ := isFrom_of_run h hp
  exact (ensures_scalarPart x text).of_ok hpart v rfl

/-- **A search in a document fails for the structure, at a text that is unfit for the type of its
node, or at a node that holds itself.** -/
theorem fails_of_run {d : Document} {fault : Fault} (h : run d = .error fault) :
    Fails d.nodes fault := by
  have hrun := seeks_run d _ (sought_start d)
  rw [run] at h
  split at h
  · next e he =>
    obtain rfl := Except.error.inj h
    exact hrun.of_error he
  · cases h

theorem not_falls_iff {d : Document} : ¬ Falls d.nodes ↔ d.IsKnotted := by
  simp only [Falls, Document.IsKnotted, not_forall, exists_prop, Nat.not_lt]

end Valuation

/-! ## Texts that stop the reading -/

/-- What a text has that stops its reading otherwise than for bad syntax: a fault among its tokens,
which it accounts for; a node with a text that has no value of its type; or a node that holds
itself. -/
inductive Stops (text : String) : Fault → Prop
  | token {fault : Fault} : .fault fault ∈ Token.ofText text → Accounts text.toList fault →
      Stops text fault
  | scalar {d : Document} {y : Node} {s : String} {fault : Fault} :
      Document.ofTokens (Token.ofText text) = .ok (some d) → y ∈ d.nodes →
      Valuation.HasText d.nodes y s → Valuation.scalarPart y s = .error fault →
      fault ∈ y.tag.faults → Stops text fault
  | knot {d : Document} : Document.ofTokens (Token.ofText text) = .ok (some d) → d.IsKnotted →
      Stops text .endless

/-- **A text that is refused otherwise than for bad syntax has one of these.** -/
theorem stops_of_read {text : String} {fault : Fault} (h : read text = .error fault)
    (hfault : fault ≠ .malformed) : Stops text fault := by
  have h : graph? text = .error fault := by
    rw [read] at h
    cases hgraph : graph? text with
    | error e =>
      rw [hgraph] at h
      exact congrArg Except.error (Except.error.inj h)
    | ok g? =>
      rw [hgraph] at h
      cases h
  rw [graph?] at h
  split at h
  · next e htokens =>
    obtain rfl := Except.error.inj h
    have htold := (Document.told_of_ofTokens htokens).resolve_left hfault
    exact .token htold (accounts_of_ofText htold)
  · cases h
  · next d htokens =>
    have hrun : Valuation.run d = .error fault := by
      rw [Document.graph] at h
      cases hparts : Valuation.run d with
      | error e =>
        rw [hparts] at h
        exact congrArg Except.error (Except.error.inj h)
      | ok parts =>
        rw [hparts] at h
        cases h
    obtain ⟨y, hy, s, htext, hpart⟩ | ⟨rfl, hfalls⟩ :=
      (Valuation.fails_of_run hrun).resolve_left hfault
    · have hof := (ensures_scalarPart y s).of_error hpart
      exact .scalar htokens hy htext hpart ((List.mem_cons.mp hof).resolve_left hfault)
    · exact .knot htokens (Valuation.not_falls_iff.mp hfalls)

end TypeCatalog.Yaml
