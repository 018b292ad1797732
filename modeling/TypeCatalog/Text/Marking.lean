import TypeCatalog.Text.CodeUnit
import TypeCatalog.Text.Quoted

/-!
# Text/Marking — texts with halves of pairs

A document may write half a pair by its number, with no other half beside it. No bytes encode such a
half, and yet it may be part of a name. The texts of a document that may write one are spelled with
a mark (`Marking.marked`): a half is the mark and the character that stands for it, and the mark
itself is written twice. All other documents have their texts as they are (`Marking.plain`).

`Marking.encode?` gives the bytes that encode what a text stands for, if there are any.
-/

namespace TypeCatalog.Text

/-- Whether the texts of a document are spelled with a mark. -/
inductive Marking where
  | plain
  | marked
  deriving DecidableEq, Repr

/-- What a number writes where the mark is written twice. -/
def markedUnit (n : Nat) : List Char := if n = mark.toNat then [mark, mark] else unitText n

/-- Whether a text starts with an escape by number, of half a pair or of the mark. -/
def startsMarked : List Char → Bool
  | '\\' :: 'u' :: rest => (hexNumber? (rest.take 4)).any fun n => isHalf n || n == mark.toNat
  | '\\' :: 'U' :: rest => (hexNumber? (rest.take 8)).any fun n => isHalf n || n == mark.toNat
  | _ => false

/-- Whether there is such an escape in a text. -/
def holdsMarked : List Char → Bool
  | [] => false
  | c :: rest => startsMarked (c :: rest) || holdsMarked rest

/-- A text with the mark written twice. -/
def withMarks (text : List Char) : List Char :=
  text.flatMap fun c => if c = mark then [mark, mark] else [c]

/-- The characters that a text with marks stands for, unless it has half a pair in it. -/
def withoutMarks? : List Char → Option (List Char)
  | [] => some []
  | c :: rest =>
    if c = mark then
      match rest with
      | [] => none
      | d :: rest => if d = mark then (withoutMarks? rest).map (mark :: ·) else none
    else (withoutMarks? rest).map (c :: ·)

/-- A text with marks as it is shown where halves of pairs are escaped. -/
def shownMarks : List Char → List Char
  | [] => []
  | c :: rest =>
    if c = mark then
      match rest with
      | [] => []
      | d :: rest =>
        (if d = mark then [mark] else '\\' :: 'u' :: hexPadded 4 (d.toNat - halfShift)) ++
          shownMarks rest
    else c :: shownMarks rest

/-- Text between quotes, in which the mark and what stands for half a pair are escaped, with the
escapes of what they stand for. -/
def requoted : List Char → List Char
  | '\\' :: 'u' :: 'f' :: 'f' :: 'f' :: 'f' :: '\\' :: 'u' :: a :: b :: c :: d :: rest =>
    let n := (hexNumber? [a, b, c, d]).getD 0
    '\\' :: 'u' :: hexPadded 4 (if n = mark.toNat then n else n - halfShift) ++ requoted rest
  | '\\' :: c :: rest => '\\' :: c :: requoted rest
  | c :: rest => c :: requoted rest
  | [] => []

namespace Marking

/-- **How the texts of a document are spelled**, from the text that it is written as. -/
def ofText (text : String) : Marking := if holdsMarked text.toList then marked else plain

/-- The spelling of a text without halves of pairs. -/
def spell : Marking → String → String
  | plain, text => text
  | marked, text => String.ofList (withMarks text.toList)

/-- **The bytes that encode a text**; if half a pair is in it, there are none. -/
def encode? : Marking → String → Option ByteArray
  | plain, text => some text.toUTF8
  | marked, text => (withoutMarks? text.toList).map fun cs => (String.ofList cs).toUTF8

/-- A text as it is shown where halves of pairs are escaped. -/
def shown : Marking → String → String
  | plain, text => text
  | marked, text => String.ofList (shownMarks text.toList)

/-- A printed value with the texts in it as they are. -/
def printed : Marking → String → String
  | plain, text => text
  | marked, text => String.ofList (requoted text.toList)

end Marking

/-! ## What has an encoding -/

theorem withoutMarks?_cons {c : Char} (hc : c ≠ mark) (rest : List Char) :
    withoutMarks? (c :: rest) = (withoutMarks? rest).map (c :: ·) := by
  rw [withoutMarks?.eq_def]
  exact if_neg hc

theorem withoutMarks?_mark (d : Char) (rest : List Char) :
    withoutMarks? (mark :: d :: rest) =
      if d = mark then (withoutMarks? rest).map (mark :: ·) else none := by
  rw [withoutMarks?.eq_def]
  exact if_pos rfl

theorem withoutMarks?_append_withMarks (text rest : List Char) :
    withoutMarks? (withMarks text ++ rest) = (withoutMarks? rest).map (text ++ ·) := by
  induction text with
  | nil =>
    change withoutMarks? rest = _
    cases withoutMarks? rest <;> rfl
  | cons c text ih =>
    rw [withMarks, List.flatMap_cons, List.append_assoc, ← withMarks]
    by_cases hc : c = mark
    · rw [if_pos hc, List.cons_append, List.singleton_append, withoutMarks?_mark, if_pos rfl, ih,
        Option.map_map, hc]
      rfl
    · rw [if_neg hc, List.singleton_append, withoutMarks?_cons hc, ih, Option.map_map]
      rfl

/-- What stands for half a pair is not the mark. -/
theorem ofNat_half_ne_mark {n : Nat} (h : isHalf n) : Char.ofNat (n + halfShift) ≠ mark := by
  rw [isHalf, Bool.and_eq_true, decide_eq_true_iff, decide_eq_true_iff] at h
  have hvalid : (n + halfShift).isValidChar := by
    unfold halfShift
    exact .inr ⟨by omega, by omega⟩
  intro heq
  have hnat : n + halfShift = mark.toNat := by
    rw [← heq, Char.ofNat, dif_pos hvalid]
    rfl
  have hmark : mark.toNat = 0xFFFF := rfl
  unfold halfShift at hnat
  omega

/-- A text with half a pair in it has no encoding. -/
theorem Marking.encode?_eq_none {n : Nat} (h : isHalf n) (text rest : List Char) :
    marked.encode? (String.ofList (withMarks text ++ (unitText n ++ rest))) = none := by
  rw [encode?, String.toList_ofList, withoutMarks?_append_withMarks, unitText, if_pos h,
    List.cons_append, List.singleton_append, withoutMarks?_mark, if_neg (ofNat_half_ne_mark h)]
  rfl

end TypeCatalog.Text
