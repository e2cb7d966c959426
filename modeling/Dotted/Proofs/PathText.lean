import Dotted.Shape

/-!
# Paths and their written form

The written form of a path is its segments with a delimiter between each two.
Because no segment is empty or holds the delimiter, the text is cut at exactly
these places, so that a path and its text determine each other.

* `Path.chars_pieces`: the pieces of a text are its parts between delimiters.
* `Path.ofPieces_eq_ok_iff`: pieces spell a path exactly if they are the texts
  of its segments.
* `Path.parse_eq_ok_iff`: a text is read as a path exactly if it is the text
  of the path.
* `Path.location_of_prefix`: the locations on the way along a path are the
  texts of its beginnings.
* `Codec.decode_path_eq_ok_iff` says the same of documents that stand for
  paths, and `Path.text_round_trip` puts all of this together.
-/

namespace Dotted

/-- Errors may be put in other words without a change of the results. -/
theorem mapError_eq_ok_iff {ε δ α : Type} {reword : ε → δ} {result : Except ε α} {value : α} :
    result.mapError reword = .ok value ↔ result = .ok value := by
  cases result with
  | error reason => constructor <;> intro h <;> cases h
  | ok found => constructor <;> intro h <;> cases h <;> rfl

namespace Path

variable {path : Path} {text : String}

/-! ## The pieces of a text -/

/-- The pieces are what lies between the delimiters. -/
theorem chars_pieces (chars : List Char) :
    (pieces chars).1.chars :: (pieces chars).2.map Piece.chars = chars.splitOn delimiter := by
  induction chars with
  | nil => rfl
  | cons c rest ih =>
    rw [List.splitOn_cons_eq_if_modifyHead, ← ih, pieces]
    by_cases h : c = delimiter
    · simp [h, Piece.empty]
    · simp [h]

/-- A piece spells a segment exactly if it is the text of the segment. -/
theorem Piece.segment?_eq_some_iff {piece : Piece} {segment : Segment} :
    piece.segment? = some segment ↔ segment.text.toList = piece.chars := by
  unfold segment?
  constructor
  · intro h
    split at h
    · cases h
      exact String.toList_ofList
    · cases h
  · intro h
    have hne : piece.chars ≠ [] := by
      rw [← h]
      simpa using segment.nonempty
    rw [dif_pos hne]
    refine congrArg some (Segment.ext_text ?_)
    rw [← String.toList_inj, h]
    exact String.toList_ofList

/-- The texts of the segments of a path, as characters. -/
def chars (path : Path) : List (List Char) := path.segments.map fun segment => segment.text.toList

/-- Pieces spell a path exactly if they are the texts of its segments. -/
theorem ofPieces_eq_ok_iff {offset : Nat} {piece : Piece} {others : List Piece} :
    ofPieces offset piece others = .ok path ↔
      path.chars = piece.chars :: others.map Piece.chars := by
  obtain ⟨segments, hne⟩ := path
  induction others generalizing offset piece segments with
  | nil =>
    rw [ofPieces]
    constructor
    · intro h
      cases hsegment : piece.segment? with
      | none =>
        rw [hsegment] at h
        cases h
      | some segment =>
        rw [hsegment] at h
        cases h
        exact congrArg (· :: []) (Piece.segment?_eq_some_iff.1 hsegment)
    · intro h
      cases segments with
      | nil => exact absurd rfl hne
      | cons segment rest =>
        obtain ⟨hsegment, hrest⟩ := List.cons.inj h
        obtain rfl := List.map_eq_nil_iff.1 hrest
        rw [Piece.segment?_eq_some_iff.2 hsegment]
        rfl
  | cons next others ih =>
    rw [ofPieces]
    constructor
    · intro h
      cases hsegment : piece.segment? with
      | none =>
        rw [hsegment] at h
        cases h
      | some segment =>
        simp only [hsegment] at h
        cases hbelow : ofPieces (offset + piece.size + delimiter.utf8Size) next others with
        | error first =>
          rw [hbelow] at h
          cases h
        | ok below =>
          rw [hbelow] at h
          cases h
          show segment.text.toList :: below.chars = _
          rw [Piece.segment?_eq_some_iff.1 hsegment, (ih below.segments below.nonempty).1 hbelow]
          rfl
    · intro h
      cases segments with
      | nil => exact absurd rfl hne
      | cons segment rest =>
        obtain ⟨hsegment, hrest⟩ := List.cons.inj h
        have hmore : rest ≠ [] := by
          rintro rfl
          cases hrest
        simp only [Piece.segment?_eq_some_iff.2 hsegment, (ih rest hmore).2 hrest]
        rfl

/-! ## Reading and writing -/

/-- The written form has a delimiter between each two segments. -/
theorem toList_text (path : Path) : path.text.toList = [delimiter].intercalate path.chars := by
  rw [text, joined, String.toList_intercalate, String.toList_singleton, List.map_map]
  rfl

/-- The delimiters of the written form are those between the segments. -/
theorem splitOn_toList_text (path : Path) : path.text.toList.splitOn delimiter = path.chars := by
  rw [toList_text]
  refine List.splitOn_intercalate delimiter ?_ ?_
  · intro chars hmem
    obtain ⟨segment, -, rfl⟩ := List.mem_map.1 hmem
    exact segment.undotted
  · exact fun h => path.nonempty (List.map_eq_nil_iff.1 h)

/-- The written form of a path is not empty, because its segments are not. -/
theorem text_ne_empty (path : Path) : path.text ≠ "" := by
  intro h
  have hempty : [] ∈ path.chars := by
    rw [← splitOn_toList_text, h]
    exact List.mem_singleton_self []
  obtain ⟨segment, -, htext⟩ := List.mem_map.1 hempty
  exact segment.nonempty (String.toList_eq_nil_iff.1 htext)

/-- A text is read as a path exactly if it is the written form of the path. -/
theorem parse_eq_ok_iff : parse text = .ok path ↔ path.text = text := by
  have hpieces : ∀ h : text ≠ "", parse text = .ok path ↔
      path.chars = text.toList.splitOn delimiter := by
    intro h
    rw [← chars_pieces, ← ofPieces_eq_ok_iff, parse, if_neg h]
    exact mapError_eq_ok_iff
  by_cases h : text = ""
  · subst h
    constructor
    · intro hparse
      cases hparse
    · exact fun htext => absurd htext path.text_ne_empty
  · rw [hpieces h]
    constructor
    · intro hchars
      rw [← String.toList_inj, toList_text, hchars, List.intercalate_splitOn]
    · rintro rfl
      exact (splitOn_toList_text path).symm

theorem parse_text (path : Path) : parse path.text = .ok path := parse_eq_ok_iff.2 rfl

/-- The location at the end of the beginning of a path is the text of this
beginning. -/
theorem location_of_prefix {outer : Path} (h : outer.segments <+: path.segments) :
    path.location outer.length = outer.text := by
  have hpositive : outer.length ≠ 0 := fun hzero => outer.nonempty (List.length_eq_zero_iff.1 hzero)
  rw [location, if_neg hpositive, text]
  exact congrArg joined (List.prefix_iff_eq_take.1 h).symm

/-- Paths are told apart by their written forms. -/
theorem text_injective {p q : Path} (h : p.text = q.text) : p = q :=
  Except.ok.inj ((parse_eq_ok_iff.2 h).symm.trans (parse_text q))

end Path

/-! ## Documents that stand for paths -/

namespace Codec

/-- Only a text is read as a text. -/
theorem decode_string_eq_ok_iff {document : Document} {text : String} :
    Codec.string.decode document = .ok text ↔ document = .string text := by
  constructor
  · intro h
    obtain ⟨root, hordered⟩ := document
    cases root with
    | string value =>
      cases h
      rfl
    | _ => cases h
  · rintro rfl
    rfl

/-- A document is read as a path exactly if it is the written form of the
path. -/
theorem decode_path_eq_ok_iff {document : Document} {path : Path} :
    Codec.path.decode document = .ok path ↔ document = .string path.text := by
  show (Codec.string.decode document).bind
    (fun text => (Path.parse text).mapError Mismatch.malformedPath) = _ ↔ _
  constructor
  · intro h
    cases htext : Codec.string.decode document with
    | error mismatch =>
      rw [htext] at h
      cases h
    | ok text =>
      rw [htext] at h
      obtain rfl := decode_string_eq_ok_iff.1 htext
      rw [Path.parse_eq_ok_iff.1 (mapError_eq_ok_iff.1 h)]
  · intro h
    rw [decode_string_eq_ok_iff.2 h]
    exact mapError_eq_ok_iff.2 (Path.parse_text path)

end Codec

namespace Path

/-- A path and its written form determine each other.  Every text that is read
as a path is its written form; segments, however many and however made, give a
path which is read back from its written form; and different paths have
different ones.  The same holds of the text that stands for a path in a
document. -/
theorem text_round_trip :
    (∀ text path, parse text = .ok path → path.text = text) ∧
      (∀ segments : List Segment, segments ≠ [] → ∃ path, ofSegments segments = .ok path ∧
        path.segments = segments ∧ parse path.text = .ok path) ∧
      (∀ p q : Path, p = q ↔ p.text = q.text) ∧
      (∀ path : Path, Codec.path.encode path = .string path.text ∧
        Codec.path.decode (Codec.path.encode path) = .ok path) ∧
      ∀ document path, Codec.path.decode document = .ok path →
        Codec.path.encode path = document := by
  refine ⟨fun text path => parse_eq_ok_iff.1, ?_, ?_, ?_, ?_⟩
  · intro segments hne
    exact ⟨⟨segments, hne⟩, dif_pos hne, rfl, parse_text _⟩
  · exact fun p q => ⟨congrArg text, text_injective⟩
  · exact fun path => ⟨rfl, Codec.decode_path_eq_ok_iff.2 rfl⟩
  · exact fun document path h => (Codec.decode_path_eq_ok_iff.1 h).symm

/-- A path with a blank, a sign and a superfluous zero, all of which stay. -/
def blankSigned : Path := (single ⟨" a", by decide, by decide⟩).push ⟨"-01", by decide, by decide⟩

theorem text_round_trip_blank_signed :
    (parse " a.-01" = .ok blankSigned ∧ blankSigned.text = " a.-01") ∧
      (∃ path, ofSegments [.ofIndex 10, ⟨"é", by decide, by decide⟩] = .ok path ∧
        parse path.text = .ok path) ∧
      Codec.path.decode (.string " a.-01") = .ok blankSigned ∧
      Codec.path.encode blankSigned = .string " a.-01" := by
  obtain ⟨htext, hsegments, -, -, hdocument⟩ := text_round_trip
  have hparse : parse " a.-01" = .ok blankSigned := rfl
  have hdecode : Codec.path.decode (.string " a.-01") = .ok blankSigned := rfl
  obtain ⟨path, hpath, -, hback⟩ := hsegments [.ofIndex 10, ⟨"é", by decide, by decide⟩] (by simp)
  exact ⟨⟨hparse, htext _ _ hparse⟩, ⟨path, hpath, hback⟩, hdecode, hdocument _ _ hdecode⟩

end Path

end Dotted
