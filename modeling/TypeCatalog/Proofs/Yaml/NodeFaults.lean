import TypeCatalog.Proofs.Ensures
import TypeCatalog.Yaml.Node

/-!
# Proofs/Yaml/NodeFaults — what stops the reading of tokens

The nodes of a document are read from tokens, and one of these may be the fault that stopped the
reading of the text.  A reader takes tokens only from the list it was given (`Takes`), so whatever
it fails with is a fault in that list, or bad syntax (`told_of_ofTokens`).
-/

namespace TypeCatalog.Yaml.Document

/-- A fault that is among some tokens, or bad syntax. -/
def Told (tokens : List Token) (fault : Fault) : Prop :=
  fault = .malformed ∨ .fault fault ∈ tokens

/-- A reader takes no tokens but these, and meets no faults but those among them. -/
abbrev Takes (tokens : List Token) {α : Type} (act : Reader α) : Prop :=
  Keeps (fun r => r.tokens ⊆ tokens) (Told tokens) (fun _ => True) act

variable {tokens : List Token} {α : Type}

theorem takes_pure (a : α) : Takes tokens (pure a) := .pure trivial

theorem takes_malformed : Takes tokens (throw .malformed : Reader α) := .throw (.inl rfl)

/-- One reader after another takes what they take. -/
theorem Takes.bind {β : Type} {act : Reader α} {f : α → Reader β} (h : Takes tokens act)
    (hf : ∀ a, Takes tokens (f a)) : Takes tokens (act >>= f) := Keeps.bind h fun a _ => hf a

theorem takes_get : Takes tokens (get : Reader Reading) := Keeps.get.mono fun _ _ => trivial

/-- The next token may be the fault; then it is among the tokens. -/
theorem takes_peek : Takes tokens peek := by
  refine Keeps.bind Keeps.get fun r hr => ?_
  split
  · next cause hhead =>
    refine .throw (.inr (hr ?_))
    cases hrest : r.tokens with
    | nil =>
      rw [hrest] at hhead
      cases hhead
    | cons t rest =>
      rw [hrest] at hhead
      exact List.mem_cons.mpr (.inl hhead.symm)
  · exact takes_pure _

theorem takes_advance : Takes tokens advance :=
  Keeps.modify fun r hr => List.Subset.trans (List.drop_subset 1 r.tokens) hr

theorem takes_add (tag : Tag) (content : Content) : Takes tokens (add tag content) :=
  Keeps.modifyGet fun _ hr => ⟨trivial, hr⟩

/-- What is remembered beside the tokens does not count. -/
theorem takes_modify {f : Reading → Reading} (hf : ∀ r, (f r).tokens = r.tokens) :
    Takes tokens (modify f : Reader Unit) :=
  Keeps.modify fun r hr => (hf r).symm ▸ hr

/-- A token that is not the one expected is bad syntax. -/
theorem takes_expect (t : Token) : Takes tokens (expect t) :=
  takes_peek.bind fun _ => .ite takes_advance takes_malformed

theorem takes_nextIn (ts : List Token) : Takes tokens (nextIn ts) :=
  takes_peek.bind fun _ => takes_pure _

/-! ### What stands before content -/

theorem takes_anchor? : Takes tokens anchor? := by
  refine takes_peek.bind fun t => ?_
  split
  · exact takes_advance.bind fun _ => takes_pure _
  · exact takes_pure _

/-- A handle that no directive has declared is bad syntax. -/
theorem takes_fullTag (handle : Option String) (suffix : String) :
    Takes tokens (fullTag handle suffix) := by
  rw [fullTag.eq_def]
  split
  · exact takes_pure _
  · refine takes_get.bind fun r => ?_
    split
    · exact takes_pure _
    · exact takes_malformed

theorem takes_tag? : Takes tokens tag? := by
  refine takes_peek.bind fun t => ?_
  split
  · exact takes_advance.bind fun _ => takes_pure _
  · exact takes_pure _

/-- An anchor and a tag, in whichever order they stand. -/
theorem takes_properties : Takes tokens properties := by
  refine takes_anchor?.bind fun early => takes_tag?.bind fun tag => ?_
  refine .ite ((takes_pure early).bind ?rest)
    (.ite (takes_anchor?.bind ?rest) ((takes_pure none).bind ?rest))
  intro name
  dsimp only
  split
  · exact takes_pure _
  · exact (takes_fullTag _ _).bind fun _ => takes_pure _

/-- Giving a node its name takes what its content takes. -/
theorem takes_named {content : Reader Nat} (name : Option String) (h : Takes tokens content) :
    Takes tokens (named name content) := by
  rw [named.eq_def]
  split
  · exact h
  · refine takes_peek.bind fun _ => takes_get.bind fun r => takes_malformed.first ?_
    refine Takes.bind (takes_modify fun _ => rfl) fun _ => h.bind fun node => ?_
    exact Takes.bind (takes_modify fun _ => rfl) fun _ => takes_pure node

/-- An alias inside the node that it stands for is numbered and remembered. -/
theorem takes_aliased (name : String) : Takes tokens (aliased name) := by
  refine takes_get.bind fun r => ?_
  split
  · exact takes_pure _
  · refine (takes_add _ _).bind fun hole => ?_
    exact Takes.bind (takes_modify fun _ => rfl) fun _ => takes_pure hole
  · exact takes_malformed

/-- Where content is due and missing, that is bad syntax. -/
theorem takes_emptyOr (name tag : Option String) : Takes tokens (emptyOr name tag) := by
  rw [emptyOr.eq_def]
  split
  · exact takes_malformed
  · exact takes_add _ _

/-! ### Content -/

/-- The readers of content take their tokens so, up to some depth of calls. -/
structure TakesContent (tokens : List Token) (fuel : Nat) : Prop where
  node (inBlock unindented : Bool) : Takes tokens (node inBlock unindented fuel)
  nodeUnless (ends : List Token) (inBlock unindented : Bool) :
    Takes tokens (nodeUnless ends inBlock unindented fuel)
  blockItems : Takes tokens (blockItems fuel)
  unindentedItems : Takes tokens (unindentedItems fuel)
  valueAfter (ends : List Token) (inBlock unindented : Bool) :
    Takes tokens (valueAfter ends inBlock unindented fuel)
  blockEntries : Takes tokens (blockEntries fuel)
  flowItems (first : Bool) : Takes tokens (flowItems first fuel)
  flowEntries (first : Bool) : Takes tokens (flowEntries first fuel)

/-- Where the calls may go no deeper, nothing is taken. -/
theorem takesContent_zero : TakesContent tokens 0 where
  node _ _ := takes_malformed
  nodeUnless _ _ _ := takes_malformed
  blockItems := takes_malformed
  unindentedItems := takes_malformed
  valueAfter _ _ _ := takes_malformed
  blockEntries := takes_malformed
  flowItems _ := takes_malformed
  flowEntries _ := takes_malformed

/-- A node, from what its items and entries take one call deeper. -/
theorem TakesContent.node_succ {fuel : Nat} (h : TakesContent tokens fuel)
    (inBlock unindented : Bool) : Takes tokens (Document.node inBlock unindented (fuel + 1)) := by
  rw [Document.node]
  refine takes_peek.bind fun t => ?_
  split
  · exact takes_advance.bind fun _ => takes_aliased _
  · refine takes_properties.bind fun found => ?_
    obtain ⟨name, tag⟩ := found
    refine takes_named name (takes_peek.bind fun t => ?_)
    split
    · exact takes_advance.bind fun _ => takes_add _ _
    · exact takes_advance.bind fun _ => (h.flowItems true).bind fun _ => takes_add _ _
    · exact takes_advance.bind fun _ => (h.flowEntries true).bind fun _ => takes_add _ _
    · exact .ite (takes_advance.bind fun _ => h.blockItems.bind fun _ => takes_add _ _)
        (takes_emptyOr name tag)
    · exact .ite (takes_advance.bind fun _ => h.blockEntries.bind fun _ => takes_add _ _)
        (takes_emptyOr name tag)
    · exact .ite (h.unindentedItems.bind fun _ => takes_add _ _) (takes_emptyOr name tag)
    · exact takes_emptyOr name tag

/-- The items of a flow sequence, an item and then the rest. -/
theorem TakesContent.flowItems_succ {fuel : Nat} (h : TakesContent tokens fuel) (first : Bool) :
    Takes tokens (Document.flowItems first (fuel + 1)) := by
  rw [Document.flowItems]
  refine takes_peek.bind fun t => .ite (takes_advance.bind fun _ => takes_pure _) ?_
  refine (takes_expect .flowEntry).first (takes_peek.bind fun t => ?_)
  split
  · exact takes_advance.bind fun _ => takes_pure _
  · refine takes_advance.bind fun _ => (h.nodeUnless _ _ _).bind fun k => ?_
    refine (h.valueAfter _ _ _).bind fun v => (takes_add _ _).bind fun item => ?_
    exact (h.flowItems false).bind fun _ => takes_pure _
  · exact (h.node _ _).bind fun _ => (h.flowItems false).bind fun _ => takes_pure _

/-- The entries of a flow mapping, a key with its value and then the rest. -/
theorem TakesContent.flowEntries_succ {fuel : Nat} (h : TakesContent tokens fuel) (first : Bool) :
    Takes tokens (Document.flowEntries first (fuel + 1)) := by
  rw [Document.flowEntries]
  refine takes_peek.bind fun t => .ite (takes_advance.bind fun _ => takes_pure _) ?_
  refine (takes_expect .flowEntry).first (takes_peek.bind fun t => ?_)
  split
  · exact takes_advance.bind fun _ => takes_pure _
  · refine takes_advance.bind fun _ => (h.nodeUnless _ _ _).bind fun k => ?_
    refine (h.valueAfter _ _ _).bind fun v => ?_
    exact (h.flowEntries false).bind fun _ => takes_pure _
  · refine (h.node _ _).bind fun _ => (takes_add _ _).bind fun _ => ?_
    exact (h.flowEntries false).bind fun _ => takes_pure _

/-- All readers of content one call higher. -/
theorem TakesContent.succ {fuel : Nat} (h : TakesContent tokens fuel) :
    TakesContent tokens (fuel + 1) where
  node := h.node_succ
  nodeUnless ends inBlock unindented :=
    (takes_nextIn ends).bind fun _ => .ite (takes_add _ _) (h.node inBlock unindented)
  blockItems := by
    rw [Document.blockItems]
    refine takes_peek.bind fun t => ?_
    split
    · refine takes_advance.bind fun _ => (h.nodeUnless _ _ _).bind fun item => ?_
      exact h.blockItems.bind fun _ => takes_pure _
    · exact (takes_expect _).bind fun _ => takes_pure _
  unindentedItems := by
    rw [Document.unindentedItems]
    refine takes_peek.bind fun t => ?_
    split
    · refine takes_advance.bind fun _ => (h.nodeUnless _ _ _).bind fun item => ?_
      exact h.unindentedItems.bind fun _ => takes_pure _
    · exact takes_pure _
  valueAfter ends inBlock unindented := by
    rw [Document.valueAfter]
    refine takes_peek.bind fun t => ?_
    split
    · exact takes_advance.bind fun _ => h.nodeUnless ends inBlock unindented
    · exact takes_add _ _
  blockEntries := by
    rw [Document.blockEntries]
    refine takes_peek.bind fun t => ?_
    split
    · refine takes_advance.bind fun _ => (h.nodeUnless _ _ _).bind fun k => ?_
      refine (h.valueAfter _ _ _).bind fun v => ?_
      exact h.blockEntries.bind fun _ => takes_pure _
    · exact (takes_expect _).bind fun _ => takes_pure _
  flowItems := h.flowItems_succ
  flowEntries := h.flowEntries_succ

/-- All readers of content, by induction on the depth of the calls. -/
theorem takesContent (fuel : Nat) : TakesContent tokens fuel := by
  induction fuel with
  | zero => exact takesContent_zero
  | succ fuel ih => exact ih.succ

/-! ### The document -/

/-- The directives, by induction on how many there may be. -/
theorem takes_directives (fuel : Nat) (versioned : Bool) :
    Takes tokens (directives fuel versioned) := by
  induction fuel generalizing versioned with
  | zero => exact takes_malformed
  | succ fuel ih =>
    rw [directives]
    refine takes_peek.bind fun t => ?_
    split
    · exact takes_malformed.first (takes_advance.bind fun _ => ih true)
    · refine takes_get.bind fun r => takes_malformed.first ?_
      exact Takes.bind (takes_modify fun _ => rfl) fun _ => takes_advance.bind fun _ => ih versioned
    · exact takes_advance.bind fun _ => ih versioned
    · exact takes_pure _

theorem takes_documentEnds (fuel : Nat) : Takes tokens (documentEnds fuel) := by
  induction fuel with
  | zero => exact takes_malformed
  | succ fuel ih =>
    exact takes_peek.bind fun _ => .ite (takes_advance.bind fun _ => ih) (takes_pure _)

theorem takes_atDirective : Takes tokens atDirective := by
  refine takes_peek.bind fun t => ?_
  split
  · exact takes_pure _
  · exact takes_pure _
  · exact takes_pure _
  · exact takes_pure _

theorem takes_atDocumentEdge : Takes tokens atDocumentEdge :=
  takes_atDirective.bind fun _ => .ite (takes_pure _) (takes_nextIn _)

/-- What stands before a document with a mark at its start. -/
theorem takes_documentStart (fuel : Nat) : Takes tokens (documentStart fuel) := by
  refine Takes.bind (takes_modify fun _ => rfl) fun _ => ?_
  exact (takes_directives fuel false).bind fun _ => takes_expect _

/-- A whole text: its directives, the node of its document, and what follows it. -/
theorem takes_whole (fuel : Nat) : Takes tokens (whole fuel) := by
  have hend : ∀ root : Nat, Takes tokens (do
      documentEnds fuel
      if (← peek) == .streamEnd then return some root
      documentStart fuel
      throw .malformed : Reader (Option Nat)) := fun root =>
    (takes_documentEnds fuel).bind fun _ => takes_peek.bind fun _ =>
      .ite (takes_pure _) ((takes_documentStart fuel).bind fun _ => takes_malformed)
  refine takes_peek.bind fun _ => .ite (takes_pure _) ?_
  refine takes_atDirective.bind fun _ => takes_peek.bind fun _ => ?_
  refine (takes_documentStart fuel).first (Takes.bind (takes_modify fun _ => rfl) fun _ => ?_)
  refine takes_atDocumentEdge.bind fun _ => ?_
  exact .ite ((takes_add _ _).bind hend) (((takesContent fuel).node _ _).bind hend)

/-- **What reading tokens fails with is among them**, or bad syntax. -/
theorem told_of_ofTokens {fault : Fault} (h : ofTokens tokens = .error fault) :
    Told tokens fault := by
  have hwhole : Takes tokens (whole (2 * tokens.length + 2)) := takes_whole _
  rw [ofTokens] at h
  split at h
  · next e he =>
    obtain rfl := Except.error.inj h
    exact (hwhole { tokens } (List.Subset.refl _)).of_error he
  · cases h
  · cases h

end TypeCatalog.Yaml.Document
