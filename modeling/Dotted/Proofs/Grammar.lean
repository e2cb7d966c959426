import Dotted.Proofs.ByteOrder
import Dotted.Proofs.PathText
import Mathlib.Order.Bounds.Basic

/-!
# The grammar of written paths

A written path is `segment ('.' segment)*`, where a segment is one or more
characters other than the delimiter.  A text that is not empty breaks this
rule exactly if an empty segment starts somewhere in it, and the reader names
the first place where one does.  Places are counted in bytes, while a text is
cut between characters.  The two fit together because no character but the
delimiter has the byte of the delimiter in it.

* `Text.delimiterByte_mem_encode_iff` is this fact about UTF-8.
* `Path.EmptySegmentAt` says where empty segments start in a list of bytes.
  `Path.emptySegmentAt_iff_of_undotted`, `Path.emptySegmentAt_first_iff` and
  `Path.emptySegmentAt_behind_iff` find them segment by segment.
* `Path.ofPieces_eq_error_iff`: the reader stops at the first of them.
* `Path.Spells` is the grammar, and `Path.Spells.not_emptySegmentAt` says that
  what it derives has no empty segment.
* `Path.parse_derives_or_first_empty_segment` puts all of this together.
-/

namespace Dotted

section

variable {ε δ α β : Type}

/-- What is made of a result has the errors of the result. -/
theorem map_eq_error_iff {result : Except ε α} {make : α → β} {reason : ε} :
    result.map make = .error reason ↔ result = .error reason := by
  cases result with
  | error other => constructor <;> intro h <;> cases h <;> rfl
  | ok value => constructor <;> intro h <;> cases h

/-- An error in other words is made of an error. -/
theorem mapError_eq_error_iff {result : Except ε α} {reword : ε → δ} {reason : δ} :
    result.mapError reword = .error reason ↔
      ∃ other, result = .error other ∧ reword other = reason := by
  cases result with
  | error other => simp [Except.mapError]
  | ok value => simp [Except.mapError]

end

/-! ## The byte of the delimiter -/

namespace Text

/-- The delimiter in UTF-8. -/
def delimiterByte : UInt8 := 46

theorem encode_delimiter : String.utf8EncodeChar delimiter = [delimiterByte] := by decide

/-- All bytes of a character that takes several are greater than those of the
characters that take one. -/
theorem delimiterByte_mem_encode_iff {c : Char} :
    delimiterByte ∈ String.utf8EncodeChar c ↔ c = delimiter := by
  constructor
  · intro h
    refine Char.toNat_inj.1 ?_
    show c.val.toNat = 46
    unfold String.utf8EncodeChar delimiterByte at h
    generalize c.val.toNat = n at h
    dsimp only at h
    split_ifs at h <;>
      simp only [List.mem_cons, List.not_mem_nil, or_false, ← UInt8.toNat_inj, UInt8.toNat_ofNat',
        UInt8.reduceToNat, Nat.reducePow] at h <;>
      omega
  · rintro rfl
    rw [encode_delimiter]
    exact List.mem_singleton_self _

theorem flatMap_encode_eq_nil_iff {chars : List Char} :
    chars.flatMap String.utf8EncodeChar = [] ↔ chars = [] := by
  rw [List.flatMap_eq_nil_iff, List.eq_nil_iff_forall_not_mem]
  exact forall₂_congr fun c _ => iff_false_intro String.utf8EncodeChar_ne_nil

theorem flatMap_encode_delimiter (front rest : List Char) :
    (front ++ delimiter :: rest).flatMap String.utf8EncodeChar =
      front.flatMap String.utf8EncodeChar ++
        delimiterByte :: rest.flatMap String.utf8EncodeChar := by
  rw [List.flatMap_append, List.flatMap_cons, encode_delimiter]
  rfl

theorem delimiterByte_not_mem_flatMap {chars : List Char} (h : delimiter ∉ chars) :
    delimiterByte ∉ chars.flatMap String.utf8EncodeChar := by
  intro hbyte
  obtain ⟨c, hc, hmem⟩ := List.mem_flatMap.1 hbyte
  exact h (delimiterByte_mem_encode_iff.1 hmem ▸ hc)

end Text

namespace Path

open Text (delimiterByte)

variable {path : Path} {text : String} {bytes front rest : List UInt8} {offset : Nat}

/-! ## Where empty segments start -/

/-- An empty segment starts at this offset of a text in UTF-8: the text starts
here or the delimiter is right before, and the text ends here or the delimiter
is next. -/
structure EmptySegmentAt (bytes : List UInt8) (offset : Nat) : Prop where
  within : offset ≤ bytes.length
  starts : offset = 0 ∨ bytes[offset - 1]? = some delimiterByte
  ends : offset = bytes.length ∨ bytes[offset]? = some delimiterByte

/-- Without a delimiter there is one segment, which is the whole text. -/
theorem emptySegmentAt_iff_of_undotted (h : delimiterByte ∉ bytes) :
    EmptySegmentAt bytes offset ↔ offset = 0 ∧ bytes = [] := by
  have hnone : ∀ position, bytes[position]? ≠ some delimiterByte :=
    fun position hbyte => h (List.mem_of_getElem? hbyte)
  constructor
  · intro hempty
    have hzero : offset = 0 := hempty.starts.resolve_right (hnone _)
    have hend : offset = bytes.length := hempty.ends.resolve_right (hnone _)
    exact ⟨hzero, List.eq_nil_of_length_eq_zero (hend.symm.trans hzero)⟩
  · rintro ⟨rfl, rfl⟩
    exact ⟨Nat.le_refl 0, Or.inl rfl, Or.inl rfl⟩

/-- Behind a delimiter segments start as in the text that begins there. -/
theorem emptySegmentAt_behind_iff (front : List UInt8) {later : Nat} :
    EmptySegmentAt (front ++ delimiterByte :: rest) (front.length + 1 + later) ↔
      EmptySegmentAt rest later := by
  have hbyte : ∀ position, (front ++ delimiterByte :: rest)[front.length + 1 + position]? =
      rest[position]? := by
    intro position
    rw [List.getElem?_append_right (by omega),
      show front.length + 1 + position - front.length = position + 1 by omega,
      List.getElem?_cons_succ]
  have hlength : (front ++ delimiterByte :: rest).length = front.length + 1 + rest.length := by
    rw [List.length_append, List.length_cons]
    omega
  have hends : (front.length + 1 + later = (front ++ delimiterByte :: rest).length ∨
      (front ++ delimiterByte :: rest)[front.length + 1 + later]? = some delimiterByte) ↔
      (later = rest.length ∨ rest[later]? = some delimiterByte) := by
    rw [hbyte, hlength, Nat.add_left_cancel_iff]
  constructor
  · intro h
    have hwithin := h.within
    refine ⟨by omega, ?_, hends.1 h.ends⟩
    cases later with
    | zero => exact Or.inl rfl
    | succ later => exact Or.inr (hbyte later ▸ h.starts.resolve_left (by omega))
  · intro h
    have hwithin := h.within
    refine ⟨by omega, Or.inr ?_, hends.2 h.ends⟩
    cases later with
    | zero =>
      show (front ++ delimiterByte :: rest)[front.length]? = _
      rw [List.getElem?_append_right (Nat.le_refl _), Nat.sub_self, List.getElem?_cons_zero]
    | succ later => exact (hbyte later).trans (h.starts.resolve_left (by omega))

/-- The first segment ends at the first delimiter. -/
theorem emptySegmentAt_first_iff (h : delimiterByte ∉ front) (hle : offset ≤ front.length) :
    EmptySegmentAt (front ++ delimiterByte :: rest) offset ↔ offset = 0 ∧ front = [] := by
  have hnone : ∀ position < front.length,
      (front ++ delimiterByte :: rest)[position]? ≠ some delimiterByte := by
    intro position hlt hbyte
    rw [List.getElem?_append_left hlt] at hbyte
    exact h (List.mem_of_getElem? hbyte)
  constructor
  · intro hempty
    have hzero : offset = 0 := by
      by_contra hpos
      exact hnone (offset - 1) (by omega) (hempty.starts.resolve_left hpos)
    subst hzero
    have hbyte := hempty.ends.resolve_left (by simp)
    refine ⟨rfl, List.eq_nil_of_length_eq_zero ?_⟩
    by_contra hfront
    exact hnone 0 (Nat.pos_of_ne_zero hfront) hbyte
  · rintro ⟨rfl, rfl⟩
    exact ⟨Nat.zero_le _, Or.inl rfl, Or.inr rfl⟩

/-- A first segment that is empty is the first of all. -/
theorem isLeast_emptySegmentAt_zero_iff (h : EmptySegmentAt bytes 0) :
    IsLeast { start | EmptySegmentAt bytes start } offset ↔ offset = 0 := by
  constructor
  · exact fun hleast => Nat.le_zero.1 (hleast.2 h)
  · rintro rfl
    exact ⟨h, fun other _ => Nat.zero_le other⟩

/-- If the first segment is not empty, the first empty one is that of the text
behind it. -/
theorem isLeast_emptySegmentAt_behind_iff (h : delimiterByte ∉ front) (hne : front ≠ []) :
    IsLeast { start | EmptySegmentAt (front ++ delimiterByte :: rest) start } offset ↔
      ∃ later, offset = front.length + 1 + later ∧
        IsLeast { start | EmptySegmentAt rest start } later := by
  have hbehind : ∀ other, EmptySegmentAt (front ++ delimiterByte :: rest) other →
      ∃ later, other = front.length + 1 + later ∧ EmptySegmentAt rest later := by
    intro other hother
    have hlt : front.length < other := by
      by_contra hle
      exact hne ((emptySegmentAt_first_iff h (Nat.not_lt.1 hle)).1 hother).2
    obtain ⟨later, rfl⟩ := Nat.exists_eq_add_of_le (Nat.succ_le_of_lt hlt)
    exact ⟨later, rfl, (emptySegmentAt_behind_iff front).1 hother⟩
  constructor
  · intro hleast
    obtain ⟨later, rfl, hlater⟩ := hbehind offset hleast.1
    refine ⟨later, rfl, hlater, fun other hother => ?_⟩
    have hle := hleast.2 ((emptySegmentAt_behind_iff front).2 hother)
    omega
  · rintro ⟨later, rfl, hleast⟩
    refine ⟨(emptySegmentAt_behind_iff front).2 hleast.1, fun other hother => ?_⟩
    obtain ⟨position, rfl, hposition⟩ := hbehind other hother
    have hle := hleast.2 hposition
    omega

/-! ## What the reader reports -/

/-- The bytes of pieces with a delimiter between each two. -/
def bytesOfPieces (piece : Piece) (others : List Piece) : List UInt8 :=
  ([delimiter].intercalate (piece.chars :: others.map Piece.chars)).flatMap String.utf8EncodeChar

theorem bytesOfPieces_nil (piece : Piece) :
    bytesOfPieces piece [] = piece.chars.flatMap String.utf8EncodeChar := by
  rw [bytesOfPieces, List.map_nil, List.intercalate_singleton]

theorem bytesOfPieces_cons (piece next : Piece) (others : List Piece) :
    bytesOfPieces piece (next :: others) =
      piece.chars.flatMap String.utf8EncodeChar ++ delimiterByte :: bytesOfPieces next others := by
  rw [bytesOfPieces, List.map_cons, List.intercalate_cons_cons, List.append_assoc]
  exact Text.flatMap_encode_delimiter _ _

theorem Piece.length_bytes (piece : Piece) :
    (piece.chars.flatMap String.utf8EncodeChar).length = piece.size := by
  have h := Text.bytes_eq_flatMap (String.ofList piece.chars)
  rw [String.toList_ofList] at h
  rw [← h]
  rfl

theorem Piece.segment?_eq_none_iff {piece : Piece} :
    piece.segment? = none ↔ piece.chars.flatMap String.utf8EncodeChar = [] := by
  rw [Text.flatMap_encode_eq_nil_iff, segment?]
  split
  · next h => simp [h]
  · next h => simp [not_not.1 h]

/-- The reader stops at the first empty segment.  The induction goes from one
piece to the next, and every piece before the first empty one moves it by its
size and that of a delimiter. -/
theorem ofPieces_eq_error_iff {first : Nat} {piece : Piece} {others : List Piece} :
    ofPieces offset piece others = .error first ↔
      ∃ later, first = offset + later ∧
        IsLeast { start | EmptySegmentAt (bytesOfPieces piece others) start } later := by
  induction others generalizing offset piece with
  | nil =>
    have hundotted := Text.delimiterByte_not_mem_flatMap piece.undotted
    rw [bytesOfPieces_nil, ofPieces]
    cases hsegment : piece.segment? with
    | none =>
      have hempty := (emptySegmentAt_iff_of_undotted hundotted).2
        ⟨rfl, Piece.segment?_eq_none_iff.1 hsegment⟩
      simp only [isLeast_emptySegmentAt_zero_iff hempty]
      simp [eq_comm]
    | some segment =>
      constructor
      · intro h
        cases h
      · rintro ⟨later, -, hleast⟩
        have hnone := ((emptySegmentAt_iff_of_undotted hundotted).1 hleast.1).2
        rw [← Piece.segment?_eq_none_iff, hsegment] at hnone
        cases hnone
  | cons next others ih =>
    have hundotted := Text.delimiterByte_not_mem_flatMap piece.undotted
    rw [bytesOfPieces_cons, ofPieces]
    cases hsegment : piece.segment? with
    | none =>
      have hempty : EmptySegmentAt (piece.chars.flatMap String.utf8EncodeChar ++
          Text.delimiterByte :: bytesOfPieces next others) 0 :=
        (emptySegmentAt_first_iff hundotted (Nat.zero_le _)).2
          ⟨rfl, Piece.segment?_eq_none_iff.1 hsegment⟩
      simp only [isLeast_emptySegmentAt_zero_iff hempty]
      simp [eq_comm]
    | some segment =>
      have hne : piece.chars.flatMap String.utf8EncodeChar ≠ [] := by
        rw [Ne, ← Piece.segment?_eq_none_iff, hsegment]
        simp
      simp only [isLeast_emptySegmentAt_behind_iff hundotted hne, Piece.length_bytes,
        map_eq_error_iff, ih]
      have hmoved : ∀ later, offset + piece.size + delimiter.utf8Size + later =
          offset + (piece.size + 1 + later) := by
        intro later
        show offset + piece.size + 1 + later = _
        omega
      constructor
      · rintro ⟨later, rfl, hleast⟩
        exact ⟨_, hmoved later, later, rfl, hleast⟩
      · rintro ⟨_, rfl, later, rfl, hleast⟩
        exact ⟨later, (hmoved later).symm, hleast⟩

/-- A text that is not empty is refused at its first empty segment, and read if
it has none. -/
theorem parse_eq_error_iff (h : text ≠ "") {reason : PathError} :
    parse text = .error reason ↔ ∃ offset, reason = .emptySegment text offset ∧
      IsLeast { start | EmptySegmentAt (Text.bytes text) start } offset := by
  have hbytes : bytesOfPieces (pieces text.toList).1 (pieces text.toList).2 = Text.bytes text := by
    rw [bytesOfPieces, chars_pieces, List.intercalate_splitOn, Text.bytes_eq_flatMap]
  rw [parse, if_neg h, ← hbytes]
  show (ofPieces 0 _ _).mapError _ = _ ↔ _
  simp only [mapError_eq_error_iff, ofPieces_eq_error_iff, Nat.zero_add]
  constructor
  · rintro ⟨offset, ⟨_, rfl, hleast⟩, rfl⟩
    exact ⟨_, rfl, hleast⟩
  · rintro ⟨offset, rfl, hleast⟩
    exact ⟨offset, ⟨_, rfl, hleast⟩, rfl⟩

/-! ## The grammar -/

/-- The characters are segments, each of them one or more characters without
the delimiter, with a delimiter between each two. -/
inductive Spells : List Char → List (List Char) → Prop
  | last {segment : List Char} (nonempty : segment ≠ []) (undotted : delimiter ∉ segment) :
    Spells segment [segment]
  | followed {segment rest : List Char} {others : List (List Char)} (nonempty : segment ≠ [])
    (undotted : delimiter ∉ segment) (more : Spells rest others) :
    Spells (segment ++ delimiter :: rest) (segment :: others)

theorem Spells.ne_nil {chars : List Char} {segments : List (List Char)}
    (h : Spells chars segments) : segments ≠ [] := by
  cases h <;> simp

/-- The segments are the parts between the delimiters. -/
theorem Spells.intercalate_eq {chars : List Char} {segments : List (List Char)}
    (h : Spells chars segments) : [delimiter].intercalate segments = chars := by
  induction h with
  | last => exact List.intercalate_singleton
  | followed _ _ more ih =>
    rw [List.intercalate_cons_of_ne_nil more.ne_nil, ih, List.append_assoc]
    rfl

/-- What the grammar derives has no empty segment. -/
theorem Spells.not_emptySegmentAt {chars : List Char} {segments : List (List Char)}
    (h : Spells chars segments) (offset : Nat) :
    ¬ EmptySegmentAt (chars.flatMap String.utf8EncodeChar) offset := by
  induction h generalizing offset with
  | last hne hundotted =>
    rw [emptySegmentAt_iff_of_undotted (Text.delimiterByte_not_mem_flatMap hundotted)]
    exact fun hempty => hne (Text.flatMap_encode_eq_nil_iff.1 hempty.2)
  | @followed segment rest others hne hundotted more ih =>
    rw [Text.flatMap_encode_delimiter]
    intro hempty
    by_cases hle : offset ≤ (segment.flatMap String.utf8EncodeChar).length
    · rw [emptySegmentAt_first_iff (Text.delimiterByte_not_mem_flatMap hundotted) hle] at hempty
      exact hne (Text.flatMap_encode_eq_nil_iff.1 hempty.2)
    · obtain ⟨later, rfl⟩ := Nat.exists_eq_add_of_le (Nat.succ_le_of_lt (Nat.lt_of_not_le hle))
      exact ih later ((emptySegmentAt_behind_iff _).1 hempty)

/-- The written form of a path is derived by the grammar. -/
theorem spells_text (path : Path) : Spells path.text.toList path.chars := by
  rw [toList_text]
  obtain ⟨segments, hne⟩ := path
  unfold chars
  induction segments with
  | nil => exact absurd rfl hne
  | cons segment rest ih =>
    have hsegment : segment.text.toList ≠ [] := by
      simpa using segment.nonempty
    cases rest with
    | nil =>
      rw [List.map_singleton, List.intercalate_singleton]
      exact .last hsegment segment.undotted
    | cons next others =>
      rw [List.map_cons, List.map_cons, List.intercalate_cons_cons, List.append_assoc]
      exact .followed hsegment segment.undotted (ih (by simp))

theorem parse_eq_ok_iff_spells : parse text = .ok path ↔ Spells text.toList path.chars := by
  rw [parse_eq_ok_iff]
  constructor
  · rintro rfl
    exact spells_text path
  · intro h
    rw [← String.toList_inj, toList_text, h.intercalate_eq]

/-- A text that is not empty and has no empty segment is read as a path. -/
theorem exists_parse_eq_ok (h : text ≠ "")
    (hnone : ∀ offset, ¬ EmptySegmentAt (Text.bytes text) offset) :
    ∃ path, parse text = .ok path := by
  cases hparse : parse text with
  | ok path => exact ⟨path, rfl⟩
  | error reason =>
    obtain ⟨offset, -, hleast⟩ := (parse_eq_error_iff h).1 hparse
    exact absurd hleast.1 (hnone offset)

/-- The reader reads exactly what the grammar derives, as the path of the
segments that are derived, which are the parts of the text between its
delimiters.  It tells the empty text apart, and refuses any other text at the
first byte where an empty segment starts. -/
theorem parse_derives_or_first_empty_segment (text : String) :
    (parse text = .error .empty ↔ text = "") ∧
      (∀ whole offset, parse text = .error (.emptySegment whole offset) ↔
        text ≠ "" ∧ whole = text ∧
          IsLeast { start | EmptySegmentAt (Text.bytes text) start } offset) ∧
      (text ≠ "" → (∀ offset, ¬ EmptySegmentAt (Text.bytes text) offset) →
        ∃ path, parse text = .ok path) ∧
      (∀ path, parse text = .ok path ↔ Spells text.toList path.chars) ∧
      ((∃ path, parse text = .ok path) ↔ ∃ segments, Spells text.toList segments) ∧
      ∀ path, parse text = .ok path → path.chars = text.toList.splitOn delimiter := by
  refine ⟨?_, ?_, exists_parse_eq_ok, fun path => parse_eq_ok_iff_spells, ?_, ?_⟩
  · constructor
    · intro hparse
      by_contra hne
      obtain ⟨offset, hreason, -⟩ := (parse_eq_error_iff hne).1 hparse
      cases hreason
    · rintro rfl
      rfl
  · intro whole offset
    constructor
    · intro hparse
      have hne : text ≠ "" := by
        rintro rfl
        cases hparse
      obtain ⟨first, hreason, hleast⟩ := (parse_eq_error_iff hne).1 hparse
      cases hreason
      exact ⟨hne, rfl, hleast⟩
    · rintro ⟨hne, rfl, hleast⟩
      exact (parse_eq_error_iff hne).2 ⟨offset, rfl, hleast⟩
  · constructor
    · rintro ⟨path, hparse⟩
      exact ⟨path.chars, parse_eq_ok_iff_spells.1 hparse⟩
    · rintro ⟨segments, hspells⟩
      refine exists_parse_eq_ok ?_ ?_
      · rintro rfl
        exact hspells.not_emptySegmentAt 0 ⟨Nat.le_refl 0, Or.inl rfl, Or.inl rfl⟩
      · rw [Text.bytes_eq_flatMap]
        exact hspells.not_emptySegmentAt
  · intro path hparse
    rw [← parse_eq_ok_iff.1 hparse, splitOn_toList_text]

/-- The offset counts bytes, of which the accented letter takes two. -/
theorem parse_derives_or_first_empty_segment_accented :
    (parse "é.." = .error (.emptySegment "é.." 3) ∧
        IsLeast { start | EmptySegmentAt (Text.bytes "é..") start } 3) ∧
      (∃ path, parse "é.01" = .ok path ∧ path.chars = [['é'], ['0', '1']]) := by
  obtain ⟨-, hrefused, -⟩ := parse_derives_or_first_empty_segment "é.."
  obtain ⟨-, -, -, -, -, hparts⟩ := parse_derives_or_first_empty_segment "é.01"
  have herror : parse "é.." = .error (.emptySegment "é.." 3) := rfl
  have hparse : parse "é.01" = .ok ((single ⟨"é", by decide, by decide⟩).push
    ⟨"01", by decide, by decide⟩) := rfl
  exact ⟨⟨herror, ((hrefused _ _).1 herror).2.2⟩, _, hparse, hparts _ hparse⟩

end Path

end Dotted
