import Dotted.Segment
import Dotted.Text.Quoted

/-!
# Paths

A path is a list of at least one segment, written with the delimiter between them.

* `Path.parse` reads the written form. It cuts the text at every delimiter, and refuses it if some
  piece is empty, naming the byte offset where the first empty piece starts.
* `Path.text` writes a path, and `Path.location` writes its first segments, to say where on the
  way something happened.
* `Path.ofSegments`, `Path.child` and `Path.parent?` build paths from pieces and from other paths.
-/

namespace Dotted

/-- Why a text or a list of tokens is not a path. -/
inductive PathError where
  /-- There is no segment at all. -/
  | empty
  /-- The text `path` has an empty segment, which starts at byte `offset`. -/
  | emptySegment (path : String) (offset : Nat)
  /-- The token cannot be a segment. -/
  | invalidSegment (token : String)
deriving DecidableEq

/-- The wording of a path error. -/
def PathError.message : PathError → String
  | .empty => "Path is empty"
  | .emptySegment path offset =>
    "Empty segment at offset " ++ offset.repr ++ " in path: " ++ path
  | .invalidSegment token => "Invalid segment: " ++ Text.quoted token

/-- A list of at least one segment. -/
structure Path where
  /-- The segments, from the root down. -/
  segments : List Segment
  nonempty : segments ≠ []
deriving DecidableEq

/-- The segment that a token denotes, or the error that names the token. -/
def Segment.ofToken (token : String) : Except PathError Segment :=
  match Segment.ofString? token with
  | some segment => .ok segment
  | none => .error (.invalidSegment token)

/-- The text of a list of segments, with a delimiter between each two. -/
def joined (segments : List Segment) : String :=
  (String.singleton delimiter).intercalate (segments.map Segment.text)

namespace Path

/-- A path is its list of segments. -/
theorem ext_segments {p q : Path} (h : p.segments = q.segments) : p = q := by
  cases p; cases q; cases h; rfl

/-- The location of the value that every path starts from. -/
def rootLabel : String := "(root)"

/-! ## Building paths -/

/-- The path of one segment. -/
def single (segment : Segment) : Path := ⟨[segment], by simp⟩

/-- The path that starts with `segment` and goes on with `path`. -/
def cons (segment : Segment) (path : Path) : Path := ⟨segment :: path.segments, by simp⟩

/-- The path that goes on with `segment` where `path` ends. -/
def push (path : Path) (segment : Segment) : Path := ⟨path.segments ++ [segment], by simp⟩

/-- The path of the given segments. -/
def ofSegments (segments : List Segment) : Except PathError Path :=
  if h : segments ≠ [] then .ok ⟨segments, h⟩ else .error .empty

/-- The path of the given tokens; the first token that is no segment is reported. -/
def ofTokens (tokens : List String) : Except PathError Path := do
  ofSegments (← tokens.mapM Segment.ofToken)

/-- The path that goes on with the token where `path` ends. -/
def child (path : Path) (token : String) : Except PathError Path :=
  (Segment.ofToken token).map path.push

/-! ## Parts of a path -/

/-- The number of segments. -/
def length (path : Path) : Nat := path.segments.length

/-- The segment next to the root. -/
def first (path : Path) : Segment := path.segments.head path.nonempty

/-- The segment farthest from the root. -/
def last (path : Path) : Segment := path.segments.getLast path.nonempty

/-- All segments but the last. -/
def leading (path : Path) : List Segment := path.segments.dropLast

/-- The path without its last segment, unless nothing would be left. -/
def parent? (path : Path) : Option Path :=
  if h : path.leading ≠ [] then some ⟨path.leading, h⟩ else none

/-! ## Text -/

/-- The written form: the segments with a delimiter between each two. -/
def text (path : Path) : String := joined path.segments

/-- Where one stands after the first `depth` segments. -/
def location (path : Path) (depth : Nat) : String :=
  if depth = 0 then rootLabel else joined (path.segments.take depth)

/-- A stretch of characters without a delimiter. -/
structure Piece where
  chars : List Char
  undotted : delimiter ∉ chars

namespace Piece

/-- The piece without characters. -/
def empty : Piece := ⟨[], by simp⟩

/-- The number of bytes of the piece in UTF-8. -/
def size (piece : Piece) : Nat := (String.ofList piece.chars).utf8ByteSize

/-- The segment that the piece spells, unless it is empty. -/
def segment? (piece : Piece) : Option Segment :=
  if h : piece.chars ≠ [] then
    some {
      text := String.ofList piece.chars
      nonempty := by
        intro blank
        have := congrArg String.toList blank
        simp at this
        exact h this
      undotted := by simpa using piece.undotted }
  else none

end Piece

/-- The pieces between the delimiters: the first one, and those that follow a delimiter each. -/
def pieces : List Char → Piece × List Piece
  | [] => (.empty, [])
  | c :: rest =>
    let (piece, others) := pieces rest
    if h : c = delimiter then (.empty, piece :: others)
    else (⟨c :: piece.chars, by simp [Ne.symm h, piece.undotted]⟩, others)

/-- The path that the pieces spell, the first of them at byte `offset`, or the offset of the first
empty one. -/
def ofPieces (offset : Nat) (piece : Piece) : List Piece → Except Nat Path
  | [] =>
    match piece.segment? with
    | none => .error offset
    | some segment => .ok (single segment)
  | next :: others =>
    match piece.segment? with
    | none => .error offset
    | some segment =>
      (ofPieces (offset + piece.size + delimiter.utf8Size) next others).map (cons segment)

/-- Reads the written form of a path. -/
def parse (text : String) : Except PathError Path :=
  if text = "" then .error .empty
  else
    let (piece, others) := pieces text.toList
    (ofPieces 0 piece others).mapError (.emptySegment text)

end Path

end Dotted
