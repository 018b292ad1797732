import TypeCatalog.Proofs.Yaml.TextFaults

/-!
# Proofs/Yaml/TokenFaults — the faults among the tokens of a text

Between two tokens the cursor is at an end of the text, and no token so far is a fault
(`Layout.IsAt`).  One step keeps this or fails as the text accounts for (`Layout.IsAt.step`), and so
does a run (`Layout.accounts_of_run`): a fault among the tokens of a text is the one that stopped
the reading, and the text accounts for it (`accounts_of_ofText`).
-/

namespace TypeCatalog.Yaml

/-! ## Layouts -/

namespace Layout

/-- A layout is at an end of a text, with no fault among its tokens. -/
structure IsAt (text : List Char) (l : Layout) : Prop where
  cursor : l.cursor.rest <:+ text
  tokens : ∀ t ∈ l.tokens, t.IsPiece

/-- A step in a text leads to such a layout, or fails as the text accounts for. -/
abbrev Moves (text : List Char) (x : Except Fault Layout) : Prop :=
  Ensures (IsAt text) (Accounts text) x

variable {text : List Char} {l : Layout}

/-- A token that is a piece of the text may be added. -/
theorem IsAt.emit (h : IsAt text l) {t : Token} (ht : t.IsPiece) : IsAt text (l.emit t) :=
  ⟨h.cursor, List.forall_mem_cons.mpr ⟨ht, h.tokens⟩⟩

/-- Tokens that a pending key asks for are put between earlier ones, and these stay. -/
theorem IsAt.insertAt (h : IsAt text l) (k : PendingKey) {new : List Token}
    (hnew : ∀ t ∈ new, t.IsPiece) : IsAt text (l.insertAt k new) := by
  refine ⟨h.cursor, List.forall_mem_append.mpr ⟨List.forall_mem_append.mpr ⟨?_, hnew⟩, ?_⟩⟩
  · exact fun t ht => h.tokens t (List.mem_of_mem_take ht)
  · exact fun t ht => h.tokens t (List.mem_of_mem_drop ht)

theorem IsAt.close (h : IsAt text l) (column : Int) (outer : List Int) :
    IsAt text (closeBlocks.close column outer l) := by
  induction outer generalizing l with
  | nil => exact h
  | cons parent rest ih =>
    rw [closeBlocks.close]
    split
    · exact ih ⟨h.cursor, (h.emit (t := .blockEnd) trivial).tokens⟩
    · exact h

/-- Blocks that end at a column are closed without reading on. -/
theorem IsAt.closeBlocks (h : IsAt text l) (column : Int) : IsAt text (l.closeBlocks column) := by
  rw [Layout.closeBlocks]
  split
  · exact h
  · exact h.close column l.outer

/-- A block that starts at a column is opened without reading on. -/
theorem IsAt.openBlock (h : IsAt text l) (column : Nat) {start : Token} (hstart : start.IsPiece) :
    IsAt text (l.openBlock column start) := by
  rw [Layout.openBlock]
  split
  · exact ⟨h.cursor, (h.emit hstart).tokens⟩
  · exact h

/-- A pending key becomes one by tokens put before it. -/
theorem IsAt.markKey (h : IsAt text l) (k : PendingKey) : IsAt text (l.markKey k) := by
  have hl : IsAt text { l with pending := none, keyAllowed := false } := ⟨h.cursor, h.tokens⟩
  have hkey : ∀ t ∈ [Token.key], t.IsPiece := List.forall_mem_singleton.mpr trivial
  have hkeys : ∀ t ∈ [Token.key, .blockMapping], t.IsPiece :=
    List.forall_mem_cons.mpr ⟨trivial, List.forall_mem_singleton.mpr trivial⟩
  rw [Layout.markKey]
  dsimp only
  split
  · exact ⟨h.cursor, (hl.insertAt k hkeys).tokens⟩
  · exact hl.insertAt k hkey

/-! ## Between tokens -/

/-- Blanks, breaks and comments are skipped forwards. -/
theorem gap_suffix (fuel : Nat) (c : Cursor) : (gap fuel c).1.rest <:+ c.rest := by
  induction fuel generalizing c with
  | zero => exact List.suffix_refl _
  | succ fuel ih =>
    rw [gap]
    have hcomment := c.skipComment_suffix
    split
    · next x after hbreak => exact (ih after).trans ((Cursor.break?_suffix hbreak).trans hcomment)
    · exact hcomment

/-- What is skipped between tokens, the mark of the byte order with it, leaves an end of the text.
-/
theorem IsAt.skipGap (h : IsAt text l) : IsAt text l.skipGap := by
  have hstart : (if l.cursor.index == 0 && l.cursor.sees byteOrderMark then l.cursor.next
      else l.cursor).rest <:+ text := by
    split
    · exact l.cursor.next_suffix.trans h.cursor
    · exact h.cursor
  rw [Layout.skipGap]
  exact ⟨(gap_suffix _ _).trans hstart, h.tokens⟩

/-- A pending key lapses, or is missed because it was required: that is bad syntax. -/
theorem ensures_lapse (l : Layout) (k : Option PendingKey) :
    Ensures (fun _ => True) (Accounts text) (l.lapse k) := by
  rw [lapse.eq_def]
  split
  · trivial
  · exact .ite trivial (.ite .malformed trivial)

theorem IsAt.lapseAll (h : IsAt text l) : Moves text l.lapseAll := by
  refine (ensures_lapse l l.pending).bind fun pending _ => ?_
  refine (Ensures.mapM fun k _ => ensures_lapse l k).bind fun outerPending _ => ?_
  exact ⟨h.cursor, h.tokens⟩

theorem IsAt.dropKey (h : IsAt text l) : Moves text l.dropKey := by
  rw [Layout.dropKey]
  split
  · exact .ite .malformed ⟨h.cursor, h.tokens⟩
  · exact h

theorem IsAt.noteKey (h : IsAt text l) : Moves text l.noteKey :=
  .ite (h.dropKey.map fun _ h' => ⟨h'.cursor, h'.tokens⟩) h

/-- All that is done before a token: skipping, lapsing and closing. -/
theorem IsAt.approach (h : IsAt text l) : Moves text l.approach :=
  h.skipGap.lapseAll.map fun _ h' => h'.closeBlocks _

/-! ## Tokens -/

/-- A token outside all blocks: a directive, or the mark of a document. -/
theorem IsAt.outside (h : IsAt text l) {t : Token} {c : Cursor} (ht : t.IsPiece)
    (hc : c.rest <:+ text) : Moves text (l.outside t c) :=
  (h.closeBlocks (-1)).dropKey.map fun _ h' => ⟨hc, (h'.emit ht).tokens⟩

/-- A token that may be a key, from a reader that keeps to the text. -/
theorem IsAt.content (h : IsAt text l) {result : Except Fault (Token × Cursor)}
    (hresult : Scans Token.IsPiece text result) : Moves text (l.content result) :=
  h.noteKey.bind fun _ h' => Ensures.bind hresult fun _ hr => ⟨hr.2, (h'.emit hr.1).tokens⟩

theorem IsAt.openFlow (h : IsAt text l) {t : Token} (ht : t.IsPiece) : Moves text (l.openFlow t) :=
  h.noteKey.map fun l' h' => ⟨l'.cursor.next_suffix.trans h'.cursor, (h'.emit ht).tokens⟩

theorem IsAt.closeFlow (h : IsAt text l) {t : Token} (ht : t.IsPiece) :
    Moves text (l.closeFlow t) := by
  refine h.dropKey.bind fun l' h' => ?_
  split
  · exact Accounts.malformed
  · exact ⟨l'.cursor.next_suffix.trans h'.cursor, (h'.emit ht).tokens⟩

theorem IsAt.comma (h : IsAt text l) : Moves text l.comma :=
  h.dropKey.map fun l' h' =>
    ⟨l'.cursor.next_suffix.trans h'.cursor, (h'.emit (t := .flowEntry) trivial).tokens⟩

/-- An indicator of an entry, which may open a block. -/
theorem IsAt.mark (h : IsAt text l) (block t : Token) (hblock : block.IsPiece) (ht : t.IsPiece)
    (keyAfter : Bool) : Moves text (l.mark block t keyAfter) := by
  refine .ite .malformed ?_
  have hl : IsAt text (if l.inFlow then l else l.openBlock l.cursor.column block) := by
    split
    · exact h
    · exact h.openBlock _ hblock
  exact hl.dropKey.map fun l' h' => ⟨l'.cursor.next_suffix.trans h'.cursor, (h'.emit ht).tokens⟩

/-- A colon, after a pending key or on its own. -/
theorem IsAt.colon (h : IsAt text l) : Moves text l.colon := by
  rw [Layout.colon]
  split
  · next k _ =>
    have hk := h.markKey k
    exact ⟨(Cursor.next_suffix _).trans hk.cursor, (hk.emit (t := .value) trivial).tokens⟩
  · exact h.mark .blockMapping .value trivial trivial _

theorem IsAt.plain (h : IsAt text l) : Moves text l.plain :=
  h.noteKey.map fun l' h' =>
    ⟨(plainText_suffix l'.inFlow (l'.indent + 1) l'.cursor).trans h'.cursor,
      List.forall_mem_cons.mpr ⟨trivial, h'.tokens⟩⟩

/-- A literal or folded scalar. -/
theorem IsAt.block (h : IsAt text l) (folded : Bool) : Moves text (l.block folded) := by
  refine h.dropKey.bind fun l' h' => ?_
  refine Ensures.bind ((scans_blockText folded l'.indent l'.cursor).of_suffix h'.cursor)
    fun r hr => ?_
  exact ⟨hr.2, List.forall_mem_cons.mpr ⟨trivial, h'.tokens⟩⟩

/-- A scalar in quotes is a piece of the text. -/
theorem scans_quotedToken (quote : Char) (c : Cursor) :
    Scans Token.IsPiece c.rest (quotedToken quote c) :=
  (scans_quotedText quote c).map (f := fun text => Token.scalar text false) fun _ _ => trivial

/-- **The token that a character starts**, whichever reader it calls for. -/
theorem IsAt.token (h : IsAt text l) (x : Char) : Moves text (l.token x) := by
  have hskip : (l.cursor.skip 3).rest <:+ text := (l.cursor.skip_suffix 3).trans h.cursor
  have hname := (scans_nodeName l.cursor).of_suffix h.cursor
  rw [Layout.token]
  refine .ite ?_ <| .ite (h.outside trivial hskip) <| .ite (h.outside trivial hskip) <|
    .ite (h.openFlow trivial) <| .ite (h.openFlow trivial) <| .ite (h.closeFlow trivial) <|
    .ite (h.closeFlow trivial) <| .ite h.comma <|
    .ite (h.mark .blockSequence .blockEntry trivial trivial true) <|
    .ite (h.mark .blockMapping .key trivial trivial (!l.inFlow)) <| .ite h.colon <|
    .ite (h.content (hname.map fun _ _ => trivial)) <|
    .ite (h.content (hname.map fun _ _ => trivial)) <|
    .ite (h.content ((scans_tagToken l.cursor).of_suffix h.cursor)) <|
    .ite (h.block false) <| .ite (h.block true) <|
    .ite (h.content ((scans_quotedToken x l.cursor).of_suffix h.cursor)) <|
    .ite h.plain .malformed
  obtain ⟨⟨t, after⟩, ht, hpiece, hafter⟩ | ⟨fault, hfault, he⟩ :=
    ((scans_directiveToken l.cursor).of_suffix h.cursor).ok_or_error
  · rw [ht]
    exact h.outside hpiece hafter
  · rw [hfault]
    exact he

/-! ## Texts -/

/-- **One more token keeps to the text.** -/
theorem IsAt.step (h : IsAt text l) :
    Ensures (fun r => IsAt text r.1) (Accounts text) l.step := by
  refine h.approach.bind fun l' h' => ?_
  split
  · refine (h'.closeBlocks (-1)).dropKey.bind fun l'' h'' => ?_
    exact h''.emit (t := .streamEnd) trivial
  · next x _ => exact (h'.token x).bind fun _ h'' => h''

/-- Where reading has stopped, the only fault among the tokens is its cause. -/
theorem eq_of_mem_stopped {cause fault : Fault} (h : IsAt text l)
    (hfault : .fault fault ∈ l.stopped cause) : fault = cause := by
  rw [stopped, List.mem_reverse, List.mem_cons] at hfault
  obtain hfault | hfault := hfault
  · exact Token.fault.inj hfault
  · exact (h.tokens _ (List.mem_of_mem_drop hfault)).elim

/-- **All tokens of a run keep to the text**, so a fault among them is the one that stops it. -/
theorem accounts_of_run {fault : Fault} (fuel : Nat) (h : IsAt text l)
    (hfault : .fault fault ∈ run fuel l) : Accounts text fault := by
  induction fuel generalizing l with
  | zero => exact eq_of_mem_stopped h hfault ▸ .malformed
  | succ fuel ih =>
    have hstep := h.step
    rw [run.eq_def] at hfault
    dsimp only at hfault
    split at hfault
    · next cause hcause => exact eq_of_mem_stopped h hfault ▸ hstep.of_error hcause
    · next l' hl' => exact ((hstep.of_ok hl').tokens _ (List.mem_reverse.mp hfault)).elim
    · next l' hl' => exact ih (hstep.of_ok hl') hfault

end Layout

/-- **A text accounts for every fault among its tokens.** -/
theorem accounts_of_ofText {text : String} {fault : Fault} (h : .fault fault ∈ Token.ofText text) :
    Accounts text.toList fault := by
  rw [Token.ofText] at h
  dsimp only at h
  split at h
  · exact Layout.accounts_of_run _ ⟨List.suffix_refl _, fun _ ht => absurd ht List.not_mem_nil⟩ h
  · obtain rfl := Token.fault.inj (List.mem_singleton.mp h)
    exact .malformed

end TypeCatalog.Yaml
