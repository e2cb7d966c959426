import Dotted.Proofs.Grammar
import Dotted.Proofs.Obtained

/-!
# Paths built from the pieces of a text

A text can be made a path in two ways.  `Path.parse` reads it in one go and
only looks for empty pieces.  One can also cut the text at every delimiter,
make a segment of each piece, which checks the piece on its own, and build a
path from the segments.  No piece holds a delimiter, so the second check finds
what the first one finds: the pieces that are empty.

* `Path.piecesOf` are the pieces, and `Path.tokens_eq_piecesOf_iff` says that
  the pieces of a text are the tokens of the path that it spells.
* `Path.ofTokens_eq_ok_iff` and `Path.exists_of_ofTokens_eq_error`: building a
  path gives the path of the tokens, or stops at the first of them that is no
  segment.
* `Path.parse_of_piecesOf_eq`: reading stops at the first empty piece, as many
  bytes into the text as the pieces before it and their delimiters take.
* `Path.parse_eq_ofTokens_piecesOf` compares the two ways.
-/

namespace Dotted

/-! ## Segments of tokens -/

namespace Segment

theorem ofToken_eq_ok_iff {token : String} {segment : Segment} :
    ofToken token = .ok segment ↔ segment.text = token := by
  unfold ofToken
  constructor
  · intro h
    split at h
    · next found hfound =>
      cases h
      exact text_of_ofString? hfound
    · cases h
  · rintro rfl
    rw [ofString?_text]

/-- A token is a segment exactly if it is not empty and holds no delimiter. -/
theorem exists_ofToken_eq_ok_iff {token : String} :
    (∃ segment, ofToken token = .ok segment) ↔ token ≠ "" ∧ delimiter ∉ token.toList := by
  constructor
  · rintro ⟨segment, h⟩
    obtain rfl := ofToken_eq_ok_iff.1 h
    exact ⟨segment.nonempty, segment.undotted⟩
  · intro h
    exact ⟨⟨token, h.1, h.2⟩, ofToken_eq_ok_iff.2 rfl⟩

/-- The error names the token. -/
theorem eq_of_ofToken_eq_error {token : String} {reason : PathError}
    (h : ofToken token = .error reason) : reason = .invalidSegment token := by
  unfold ofToken at h
  split at h <;> cases h
  rfl

/-- Tokens that are all segments are the texts of these. -/
theorem mapM_ofToken_eq_ok_iff {tokens : List String} {segments : List Segment} :
    tokens.mapM ofToken = .ok segments ↔ segments.map Segment.text = tokens := by
  induction tokens generalizing segments with
  | nil =>
    rw [List.map_eq_nil_iff]
    constructor <;> intro h <;> cases h <;> rfl
  | cons token rest ih =>
    rw [List.mapM_cons]
    constructor
    · intro h
      cases htoken : ofToken token with
      | error reason =>
        rw [htoken] at h
        cases h
      | ok segment =>
        cases hrest : rest.mapM ofToken with
        | error reason =>
          rw [htoken, hrest] at h
          cases h
        | ok others =>
          rw [htoken, hrest] at h
          cases h
          rw [List.map_cons, ofToken_eq_ok_iff.1 htoken, ih.1 hrest]
    · intro h
      obtain ⟨segment, others, rfl, htoken, hothers⟩ := List.map_eq_cons_iff.1 h
      rw [ofToken_eq_ok_iff.2 htoken, ih.2 hothers]
      rfl

/-- If some token is no segment, the first such token is reported. -/
theorem exists_of_mapM_ofToken_eq_error {tokens : List String} {reason : PathError}
    (h : tokens.mapM ofToken = .error reason) :
    ∃ front token rest, tokens = front ++ token :: rest ∧
      (∀ before ∈ front, ∃ segment, ofToken before = .ok segment) ∧
      ofToken token = .error reason := by
  induction tokens with
  | nil => cases h
  | cons token rest ih =>
    cases htoken : ofToken token with
    | error other =>
      rw [List.mapM_cons, htoken] at h
      cases h
      exact ⟨[], token, rest, rfl, by simp, htoken⟩
    | ok segment =>
      cases hrest : rest.mapM ofToken with
      | ok segments =>
        rw [List.mapM_cons, htoken, hrest] at h
        cases h
      | error other =>
        rw [List.mapM_cons, htoken, hrest] at h
        cases h
        obtain ⟨front, bad, behind, rfl, hfront, hbad⟩ := ih hrest
        exact ⟨token :: front, bad, behind, rfl, by simpa [htoken] using hfront, hbad⟩

end Segment

namespace Path

variable {path : Path} {text : String}

/-! ## Paths of tokens -/

theorem ofSegments_eq_ok_iff {segments : List Segment} :
    ofSegments segments = .ok path ↔ path.segments = segments := by
  unfold ofSegments
  constructor
  · intro h
    split at h
    · cases h
      rfl
    · cases h
  · rintro rfl
    exact dif_pos path.nonempty

/-- Tokens are a path exactly if they are the texts of its segments. -/
theorem ofTokens_eq_ok_iff {tokens : List String} :
    ofTokens tokens = .ok path ↔ path.tokens = tokens := by
  constructor
  · intro h
    cases hsegments : tokens.mapM Segment.ofToken with
    | error reason =>
      rw [ofTokens, hsegments] at h
      cases h
    | ok segments =>
      rw [ofTokens, hsegments] at h
      obtain rfl := ofSegments_eq_ok_iff.1 h
      exact Segment.mapM_ofToken_eq_ok_iff.1 hsegments
  · intro h
    rw [ofTokens, Segment.mapM_ofToken_eq_ok_iff.2 h]
    exact ofSegments_eq_ok_iff.2 rfl

/-- Tokens that are no path, but some at all, have a first one that is no
segment, and this one is reported. -/
theorem exists_of_ofTokens_eq_error {tokens : List String} (hne : tokens ≠ [])
    {reason : PathError} (h : ofTokens tokens = .error reason) :
    ∃ front token rest, tokens = front ++ token :: rest ∧
      (∀ before ∈ front, ∃ segment, Segment.ofToken before = .ok segment) ∧
      ¬ (token ≠ "" ∧ delimiter ∉ token.toList) ∧ reason = .invalidSegment token := by
  cases hsegments : tokens.mapM Segment.ofToken with
  | ok segments =>
    have hsome : segments ≠ [] := by
      rintro rfl
      exact hne (Segment.mapM_ofToken_eq_ok_iff.1 hsegments).symm
    have hpath : ofSegments segments = .ok ⟨segments, hsome⟩ := ofSegments_eq_ok_iff.2 rfl
    rw [ofTokens, hsegments] at h
    cases h.symm.trans hpath
  | error other =>
    rw [ofTokens, hsegments] at h
    cases h
    obtain ⟨front, token, rest, htokens, hfront, htoken⟩ :=
      Segment.exists_of_mapM_ofToken_eq_error hsegments
    refine ⟨front, token, rest, htokens, hfront, ?_, Segment.eq_of_ofToken_eq_error htoken⟩
    rw [← Segment.exists_ofToken_eq_ok_iff, htoken]
    simp

/-! ## The pieces of a text -/

/-- The parts of a text between its delimiters. -/
def piecesOf (text : String) : List String :=
  (text.toList.splitOn delimiter).map String.ofList

theorem piecesOf_ne_nil (text : String) : piecesOf text ≠ [] :=
  fun h => List.splitOn_ne_nil delimiter text.toList (List.map_eq_nil_iff.1 h)

/-- No delimiter is left in a piece. -/
theorem delimiter_not_mem_of_mem_piecesOf {piece : String} (h : piece ∈ piecesOf text) :
    delimiter ∉ piece.toList := by
  rw [piecesOf, ← chars_pieces, ← List.map_cons] at h
  obtain ⟨chars, hchars, rfl⟩ := List.mem_map.1 h
  obtain ⟨found, -, rfl⟩ := List.mem_map.1 hchars
  rw [String.toList_ofList]
  exact found.undotted

/-- The tokens of a path are the pieces of a text exactly if the text is the
written form of the path. -/
theorem tokens_eq_piecesOf_iff : path.tokens = piecesOf text ↔ path.text = text := by
  have htokens : path.chars.map String.ofList = path.tokens := by
    simp [chars, tokens, Function.comp_def]
  constructor
  · intro h
    have hpieces := congrArg (List.map String.toList) (htokens.trans h)
    simp only [piecesOf, List.map_map, Function.comp_def, String.toList_ofList,
      List.map_id'] at hpieces
    rw [← String.toList_inj, toList_text, hpieces, List.intercalate_splitOn]
  · rintro rfl
    rw [piecesOf, splitOn_toList_text, htokens]

end Path

/-! ## Where reading stops -/

namespace Tokens

/-- The number of bytes of tokens that are followed by a delimiter each. -/
def bytesBefore : Tokens → Nat
  | [] => 0
  | token :: rest => token.utf8ByteSize + 1 + bytesBefore rest

/-- The reader stops at the first empty piece, behind those before it. -/
theorem parsePieces_append_blank (text : String) (offset : Nat) (tokens : Tokens)
    {front : List String} (hfront : ∀ token ∈ front, token ≠ "") (rest : List String) :
    parsePieces text offset tokens (front ++ "" :: rest) =
      .error (.emptySegment text (offset + bytesBefore front)) := by
  induction front generalizing offset tokens with
  | nil =>
    rw [List.nil_append, parsePieces, if_pos rfl]
    rfl
  | cons token front ih =>
    obtain ⟨htoken, hbehind⟩ := List.forall_mem_cons.1 hfront
    rw [List.cons_append, parsePieces, if_neg htoken]
    show parsePieces text (offset + token.utf8ByteSize + 1) _ (front ++ "" :: rest) = _
    rw [ih _ _ hbehind, bytesBefore, Nat.add_assoc offset, Nat.add_assoc offset]

end Tokens

namespace Path

variable {text : String}

/-- A text is refused at its first empty piece. -/
theorem parse_of_piecesOf_eq (hne : text ≠ "") {front rest : List String}
    (hpieces : piecesOf text = front ++ "" :: rest) (hfront : ∀ token ∈ front, token ≠ "") :
    parse text = .error (.emptySegment text (Tokens.bytesBefore front)) := by
  refine map_eq_error_iff.1 ((Tokens.parse_eq text).symm.trans ?_)
  rw [Tokens.parse, if_neg hne]
  show Tokens.parsePieces text 0 [] (piecesOf text) = _
  rw [hpieces, Tokens.parsePieces_append_blank _ _ _ hfront, Nat.zero_add]

/-! ## Both ways -/

/-- A text is read as the path that is built of its pieces, and it is no path
exactly if no path can be built of them.  So a place that is given as a text
is the place that the built path leads to.  If there is no path, the first
piece that is no segment is an empty one, and it is where the reader stops. -/
theorem parse_eq_ofTokens_piecesOf (text : String) :
    (∀ path, ofTokens (piecesOf text) = .ok path ↔ parse text = .ok path) ∧
      (∀ path, ofTokens (piecesOf text) = .ok path → ∀ document leaf : Document,
        document.getText text = document.get path ∧
          document.setText text leaf = .ok (document.set path leaf)) ∧
      ∀ reason, ofTokens (piecesOf text) = .error reason → text ≠ "" →
        reason = .invalidSegment "" ∧
          ∃ front rest, piecesOf text = front ++ "" :: rest ∧
            (∀ token ∈ front, ∃ segment, Segment.ofToken token = .ok segment) ∧
            parse text = .error (.emptySegment text (Tokens.bytesBefore front)) := by
  have hsame : ∀ path, ofTokens (piecesOf text) = .ok path ↔ parse text = .ok path := by
    intro path
    rw [ofTokens_eq_ok_iff, tokens_eq_piecesOf_iff, parse_eq_ok_iff]
  refine ⟨hsame, fun path hpath document leaf => ?_, fun reason hreason hne => ?_⟩
  · have hparse := (hsame path).1 hpath
    rw [Document.getText, Document.setText, hparse]
    exact ⟨rfl, rfl⟩
  · obtain ⟨front, token, rest, hpieces, hfront, hbad, rfl⟩ :=
      exists_of_ofTokens_eq_error (piecesOf_ne_nil text) hreason
    have hmem : token ∈ piecesOf text := by
      rw [hpieces]
      simp
    obtain rfl : token = "" := by
      by_contra htoken
      exact hbad ⟨htoken, delimiter_not_mem_of_mem_piecesOf hmem⟩
    refine ⟨rfl, front, rest, hpieces, hfront, parse_of_piecesOf_eq hne hpieces ?_⟩
    intro before hbefore
    exact (Segment.exists_ofToken_eq_ok_iff.1 (hfront before hbefore)).1

/-- The pieces before the empty one take three bytes and two, each with its
delimiter, because the accented letter takes two. -/
theorem parse_eq_ofTokens_piecesOf_accented :
    (∃ path, ofTokens (piecesOf "é.01") = .ok path ∧ parse "é.01" = .ok path ∧
        ∀ document leaf : Document,
          document.setText "é.01" leaf = .ok (document.set path leaf)) ∧
      ofTokens (piecesOf "é.b..c") = .error (.invalidSegment "") ∧
      ∃ front rest, piecesOf "é.b..c" = front ++ "" :: rest ∧ Tokens.bytesBefore front = 5 := by
  obtain ⟨hsame, hplace, -⟩ := parse_eq_ofTokens_piecesOf "é.01"
  obtain ⟨-, -, hrefused⟩ := parse_eq_ofTokens_piecesOf "é.b..c"
  have hbuilt : ofTokens (piecesOf "é.01") = .ok ((single ⟨"é", by decide, by decide⟩).push
    ⟨"01", by decide, by decide⟩) := rfl
  have herror : ofTokens (piecesOf "é.b..c") = .error (.invalidSegment "") := rfl
  have hfifth : parse "é.b..c" = .error (.emptySegment "é.b..c" 5) := rfl
  obtain ⟨-, front, rest, hpieces, -, hparse⟩ := hrefused _ herror (by decide)
  obtain ⟨-, hbytes⟩ := PathError.emptySegment.inj (Except.error.inj (hfifth.symm.trans hparse))
  exact ⟨⟨_, hbuilt, (hsame _).1 hbuilt, fun document leaf => (hplace _ hbuilt document leaf).2⟩,
    herror, front, rest, hpieces, hbytes.symm⟩

end Path

end Dotted
