import Dotted.Proofs.Checked
import Dotted.Proofs.PathText
import Dotted.Proofs.Walk

/-!
# Paths that calls obtain

A program that has no proofs in its data keeps a path as a plain list of
tokens.  Some of the calls that make such lists check every token, others
rely on how the tokens came about: a numeral, a piece of a text that was cut
at the delimiters, the stack of a walk, the tokens of another path.  Here
these calls are spelled out on plain lists, and each of them obtains exactly
the tokens of the paths that the constructors of `Path` make.

* `Tokens.parse_eq`, `Tokens.ofSegments_eq`, `Tokens.child_eq`,
  `Tokens.parent?_eq` and `Tokens.decode_eq` compare one call each.
* `Tokens.walk_eq` compares a walk that pushes and pops tokens with the list
  of its visits.
* `Call.tokens_eq` puts the calls together, and `Call.runTokens_eq` goes on to
  runs of calls, each of which may start from a path that was obtained before.
* `Path.accessible`: on a path, no access is out of bounds.
  `Call.run_obtains_paths` says so of all that a run obtains.
-/

namespace Dotted

/-- A path as a plain list of tokens. -/
abbrev Tokens : Type := List String

namespace Tokens

/-- There is a token, and every token can be one of a path. -/
structure WellFormed (tokens : Tokens) : Prop where
  nonempty : tokens ≠ []
  token_nonempty : ∀ token ∈ tokens, token ≠ ""
  token_undotted : ∀ token ∈ tokens, delimiter ∉ token.toList

/-! ## Calls that check tokens -/

/-- A text as a token, which is checked. -/
def token (text : String) : Except PathError String :=
  if text = "" ∨ delimiter ∈ text.toList then .error (.invalidSegment text) else .ok text

/-- The list of given tokens, which may not be empty. -/
def ofSegments (tokens : Tokens) : Except PathError Tokens :=
  if tokens = [] then .error .empty else .ok tokens

/-- The list with one more token. -/
def child (tokens : Tokens) (text : String) : Except PathError Tokens := do
  let last ← token text
  return tokens ++ [last]

theorem token_eq (text : String) : token text = (Segment.ofToken text).map Segment.text := by
  unfold token Segment.ofToken Segment.ofString?
  by_cases h : text ≠ "" ∧ delimiter ∉ text.toList
  · rw [dif_pos h, if_neg (by simpa [not_or] using h)]
    rfl
  · rw [dif_neg h, if_pos (by simpa [Classical.or_iff_not_imp_left] using h)]
    rfl

theorem ofSegments_eq (segments : List Segment) :
    ofSegments (segments.map Segment.text) = (Path.ofSegments segments).map Path.tokens := by
  unfold ofSegments Path.ofSegments
  by_cases h : segments = []
  · subst h
    rfl
  · rw [if_neg (by simpa using h), dif_pos h]
    rfl

theorem child_eq (path : Path) (text : String) :
    child path.tokens text = (path.child text).map Path.tokens := by
  rw [child, token_eq, Path.child]
  cases Segment.ofToken text with
  | error reason => rfl
  | ok segment =>
    show Except.ok (path.tokens ++ [segment.text]) = .ok (path.push segment).tokens
    rw [Path.tokens, Path.tokens, Path.push, List.map_append]
    rfl

theorem parent?_eq (path : Path) :
    Checked.parent? path.tokens = .ok (path.parent?.map Path.tokens) := by
  have hparents : path.tokens.dropLast = path.leading.map Segment.text := List.map_dropLast.symm
  rw [Checked.parent?_eq_ok path.tokens_ne_nil, hparents, Path.parent?]
  by_cases h : path.leading = []
  · rw [if_pos (List.map_eq_nil_iff.2 h), dif_neg (not_not_intro h)]
    rfl
  · rw [if_neg (mt List.map_eq_nil_iff.1 h), dif_pos h]
    rfl

/-! ## Calls that read a text -/

/-- The loop of a reader: `tokens` were read before, and the next piece starts
at byte `offset`.  A piece is not checked for delimiters. -/
def parsePieces (text : String) (offset : Nat) (tokens : Tokens) :
    List String → Except PathError Tokens
  | [] => .ok tokens
  | piece :: rest =>
    if piece = "" then .error (.emptySegment text offset)
    else
      let next := offset + piece.utf8ByteSize + delimiter.utf8Size
      parsePieces text next (tokens ++ [piece]) rest

/-- The tokens of a written path. -/
def parse (text : String) : Except PathError Tokens :=
  if text = "" then .error .empty
  else parsePieces text 0 [] ((text.toList.splitOn delimiter).map String.ofList)

/-- The tokens of the written path that a document stands for. -/
def decode (document : Document) : Except Mismatch Tokens := do
  (parse (← Codec.string.decode document)).mapError .malformedPath

theorem ofList_of_segment?_eq_none {piece : Path.Piece} (h : piece.segment? = none) :
    String.ofList piece.chars = "" := by
  unfold Path.Piece.segment? at h
  split at h
  · cases h
  · next hempty =>
    rw [not_not.1 hempty]

theorem ofList_of_segment?_eq_some {piece : Path.Piece} {segment : Segment}
    (h : piece.segment? = some segment) : String.ofList piece.chars = segment.text := by
  rw [← Path.Piece.segment?_eq_some_iff.1 h, String.ofList_toList]

/-- Pieces without delimiters are read as the path that they spell, if the
loop stands before the first of them. -/
theorem parsePieces_eq (text : String) (offset : Nat) (tokens : Tokens) (piece : Path.Piece)
    (others : List Path.Piece) :
    parsePieces text offset tokens
        ((piece :: others).map fun piece => String.ofList piece.chars) =
      ((Path.ofPieces offset piece others).map fun path => tokens ++ path.tokens).mapError
        (.emptySegment text) := by
  induction others generalizing offset tokens piece with
  | nil =>
    rw [List.map_cons, parsePieces, Path.ofPieces]
    cases hsegment : piece.segment? with
    | none =>
      rw [if_pos (ofList_of_segment?_eq_none hsegment)]
      rfl
    | some segment =>
      rw [ofList_of_segment?_eq_some hsegment, if_neg segment.nonempty]
      rfl
  | cons next others ih =>
    rw [List.map_cons, parsePieces, Path.ofPieces]
    cases hsegment : piece.segment? with
    | none =>
      rw [if_pos (ofList_of_segment?_eq_none hsegment)]
      rfl
    | some segment =>
      rw [Path.Piece.size, ofList_of_segment?_eq_some hsegment, if_neg segment.nonempty, ih]
      dsimp only
      cases Path.ofPieces (offset + segment.text.utf8ByteSize + delimiter.utf8Size) next others with
      | error first => rfl
      | ok path =>
        show Except.ok (tokens ++ [segment.text] ++ path.tokens) =
          .ok (tokens ++ segment.text :: path.tokens)
        rw [List.append_assoc]
        rfl

theorem parse_eq (text : String) : parse text = (Path.parse text).map Path.tokens := by
  unfold parse Path.parse
  by_cases h : text = ""
  · rw [if_pos h, if_pos h]
    rfl
  · rw [if_neg h, if_neg h, ← Path.chars_pieces, ← List.map_cons, List.map_map]
    refine (parsePieces_eq text 0 [] _ _).trans ?_
    dsimp only
    cases Path.ofPieces 0 (Path.pieces text.toList).1 (Path.pieces text.toList).2 <;> rfl

theorem decode_eq (document : Document) :
    decode document = (Codec.path.decode document).map Path.tokens := by
  show (Codec.string.decode document).bind (fun text => (parse text).mapError _) =
    ((Codec.string.decode document).bind fun text =>
      (Path.parse text).mapError Mismatch.malformedPath).map Path.tokens
  cases Codec.string.decode document with
  | error mismatch => rfl
  | ok text =>
    show (parse text).mapError _ = ((Path.parse text).mapError _).map _
    rw [parse_eq]
    cases Path.parse text <;> rfl

/-! ## Walks -/

/-- A walk under way. -/
structure Trail where
  /-- The tokens of the way to where the walk is. -/
  stack : Tokens
  /-- The lists found so far. -/
  found : List Tokens

namespace Trail

/-- The walk goes one step down. -/
def push (trail : Trail) (token : String) : Trail := { trail with stack := trail.stack ++ [token] }

/-- The walk goes one step up. -/
def pop (trail : Trail) : Trail := { trail with stack := trail.stack.dropLast }

/-- The walk comes to a value, and the stack is found if the value passes the
test.  It is not checked that there is anything on the stack. -/
def visit (test : Json → Bool) (value : Json) (trail : Trail) : Trail :=
  if test value then { trail with found := trail.found ++ [trail.stack] } else trail

/-- The walk after visits that start where it is. -/
def after (test : Json → Bool) (visits : List Visit) (trail : Trail) : Trail where
  stack := trail.stack
  found := trail.found ++
    (visits.filterMap (Visit.path? test)).map fun path => trail.stack ++ path.tokens

end Trail

mutual

/-- The walk below a value. -/
def walk (test : Json → Bool) : Json → Trail → Trail
  | .object members, trail => walkMembers test members trail
  | .array items, trail => walkItems test 0 items trail
  | _, trail => trail

/-- The walk through members; one whose key is no token is passed over. -/
def walkMembers (test : Json → Bool) : List (String × Json) → Trail → Trail
  | [], trail => trail
  | (key, value) :: rest, trail =>
    match token key with
    | .error _ => walkMembers test rest trail
    | .ok token => walkMembers test rest (walk test value ((trail.push token).visit test value)).pop

/-- The walk through items, the first of them at position `index`. -/
def walkItems (test : Json → Bool) (index : Nat) : List Json → Trail → Trail
  | [], trail => trail
  | value :: rest, trail =>
    walkItems test (index + 1) rest
      (walk test value ((trail.push index.repr).visit test value)).pop

end

namespace Trail

variable {test : Json → Bool}

theorem after_nil (trail : Trail) : trail.after test [] = trail := by
  show Trail.mk trail.stack (trail.found ++ []) = trail
  rw [List.append_nil]

theorem after_append (visits others : List Visit) (trail : Trail) :
    trail.after test (visits ++ others) = (trail.after test visits).after test others := by
  simp only [after, List.filterMap_append, List.map_append, List.append_assoc]

/-- A key that was passed over leaves no trace. -/
theorem after_skipped (key : String) (trail : Trail) :
    trail.after test [.skipped key] = trail :=
  (after_nil trail : trail.after test [] = trail)

theorem path?_below (segment : Segment) (visit : Visit) :
    (visit.below segment).path? test = (visit.path? test).map (Path.cons segment) := by
  cases visit with
  | skipped key => rfl
  | reached path value =>
    show (if test value then some (path.cons segment) else none) =
      (if test value then some path else none).map (Path.cons segment)
    split <;> rfl

/-- The walk goes one step down, visits the value there and what is below it,
and goes back up. -/
theorem pop_after_visit (segment : Segment) (value : Json) (trail : Trail) :
    (((trail.push segment.text).visit test value).after test value.visits).pop =
      trail.after test (value.visitsAt segment) := by
  have hbelow : ((value.visits.map (Visit.below segment)).filterMap (Visit.path? test)).map
      (fun path => trail.stack ++ path.tokens) =
        (value.visits.filterMap (Visit.path? test)).map
          fun path => trail.stack ++ [segment.text] ++ path.tokens := by
    rw [List.filterMap_map, List.map_filterMap, List.map_filterMap]
    refine congrArg (fun choose => value.visits.filterMap choose) (funext fun visit => ?_)
    show ((visit.below segment).path? test).map _ = _
    rw [path?_below, Option.map_map]
    refine congrArg (fun make => (visit.path? test).map make) (funext fun path => ?_)
    show trail.stack ++ segment.text :: path.tokens = _
    rw [List.append_assoc]
    rfl
  unfold visit after Json.visitsAt pop push
  by_cases htest : test value = true
  · simp only [if_pos htest, List.dropLast_concat, List.filterMap_cons, Visit.path?, hbelow,
      List.map_cons, List.append_assoc]
    rfl
  · simp only [if_neg htest, List.dropLast_concat, List.filterMap_cons, Visit.path?, hbelow]

end Trail

mutual

/-- A walk with a stack finds the paths of the values that it visits, and
leaves the stack as it was. -/
theorem walk_eq (test : Json → Bool) (node : Json) (trail : Trail) :
    walk test node trail = trail.after test node.visits := by
  cases node with
  | object members => exact walkMembers_eq test members trail
  | array items => exact walkItems_eq test 0 items trail
  | _ => exact (Trail.after_nil trail).symm

theorem walkMembers_eq (test : Json → Bool) (members : List (String × Json)) (trail : Trail) :
    walkMembers test members trail = trail.after test (Json.memberVisits members) := by
  cases members with
  | nil => exact (Trail.after_nil trail).symm
  | cons member rest =>
    obtain ⟨key, value⟩ := member
    rw [Json.memberVisits_eq_flatMap, List.flatMap_cons, ← Json.memberVisits_eq_flatMap,
      Trail.after_append, walkMembers, token_eq, Segment.ofToken, Json.visitsOfMember]
    cases Segment.ofString? key with
    | none =>
      show walkMembers test rest trail = (trail.after test [.skipped key]).after test _
      rw [walkMembers_eq, Trail.after_skipped]
    | some segment =>
      show walkMembers test rest (walk test value _).pop = _
      rw [walkMembers_eq, walk_eq, Trail.pop_after_visit]

theorem walkItems_eq (test : Json → Bool) (index : Nat) (items : List Json) (trail : Trail) :
    walkItems test index items trail = trail.after test (Json.itemVisits index items) := by
  cases items with
  | nil => exact (Trail.after_nil trail).symm
  | cons value rest =>
    have hvisits : Json.itemVisits index (value :: rest) =
        value.visitsAt (.ofIndex index) ++ Json.itemVisits (index + 1) rest := rfl
    rw [hvisits, Trail.after_append, walkItems, walkItems_eq, walk_eq]
    exact congrArg (Trail.after test _) (Trail.pop_after_visit (.ofIndex index) value trail)

end

/-- A walk from the root that finds the values which pass a test. -/
def pathsWhere (document : Document) (test : Json → Bool) : List Tokens :=
  (walk test document.root ⟨[], []⟩).found

theorem pathsWhere_eq (document : Document) (test : Json → Bool) :
    pathsWhere document test = (document.pathsWhere test).value.map Path.tokens := by
  rw [pathsWhere, walk_eq]
  rfl

end Tokens

/-! ## Runs of calls -/

/-- Where a segment comes from. -/
inductive Origin where
  /-- A text, which is checked. -/
  | text (text : String)
  /-- The numeral of a position, which is not. -/
  | position (index : Nat)

/-- The segment, as a plain token. -/
def Origin.token : Origin → Except PathError String
  | .text source => Tokens.token source
  | .position index => .ok index.repr

/-- The segment itself. -/
def Origin.segment : Origin → Except PathError Segment
  | .text source => Segment.ofToken source
  | .position index => .ok (.ofIndex index)

theorem Origin.token_eq (origin : Origin) : origin.token = origin.segment.map Segment.text := by
  cases origin with
  | text source => exact Tokens.token_eq source
  | position index => rfl

theorem Origin.mapM_token_eq (origins : List Origin) :
    origins.mapM token = (origins.mapM segment).map (List.map Segment.text) := by
  induction origins with
  | nil => rfl
  | cons origin rest ih =>
    rw [List.mapM_cons, List.mapM_cons, ih, token_eq]
    cases origin.segment with
    | error reason => rfl
    | ok first => cases rest.mapM segment <;> rfl

/-- A call that may obtain paths.  A `source` is the number of a path that was
obtained before. -/
inductive Call where
  /-- Reads a text as a path. -/
  | parse (text : String)
  /-- Makes a path of segments. -/
  | ofSegments (origins : List Origin)
  /-- Appends a segment to a path. -/
  | child (source : Nat) (token : String)
  /-- Takes the last segment off a path. -/
  | parent (source : Nat)
  /-- Reads a document as a path. -/
  | decode (document : Document)
  /-- Lists the paths of all values of a document. -/
  | listing (document : Document)
  /-- Lists the paths of all values of one kind. -/
  | listingOf (document : Document) (kind : Kind)

/-- What a call obtains, if it does not fail. -/
def obtainedOf {ε α : Type} : Except ε α → List α
  | .ok value => [value]
  | .error _ => []

theorem obtainedOf_map {ε α β : Type} (result : Except ε α) (make : α → β) :
    obtainedOf (result.map make) = (obtainedOf result).map make := by
  cases result <;> rfl

namespace Call

/-- What a call obtains, as plain lists of tokens. -/
def tokens (obtained : List Tokens) : Call → Checked (List Tokens)
  | .parse text => return obtainedOf (Tokens.parse text)
  | .ofSegments origins => return obtainedOf (origins.mapM Origin.token >>= Tokens.ofSegments)
  | .child source text =>
    match obtained[source]? with
    | some above => return obtainedOf (Tokens.child above text)
    | none => return []
  | .parent source =>
    match obtained[source]? with
    | some below => do
      let above ← Checked.parent? below
      return above.toList
    | none => return []
  | .decode document => return obtainedOf (Tokens.decode document)
  | .listing document => return Tokens.pathsWhere document fun _ => true
  | .listingOf document kind => return Tokens.pathsWhere document fun value => value.kind == kind

/-- The paths that a call obtains. -/
def paths (obtained : List Path) : Call → List Path
  | .parse text => obtainedOf (Path.parse text)
  | .ofSegments origins => obtainedOf (origins.mapM Origin.segment >>= Path.ofSegments)
  | .child source text =>
    match obtained[source]? with
    | some above => obtainedOf (above.child text)
    | none => []
  | .parent source =>
    match obtained[source]? with
    | some below => below.parent?.toList
    | none => []
  | .decode document => obtainedOf (Codec.path.decode document)
  | .listing document => document.paths.value
  | .listingOf document kind => (document.pathsOf kind).value

/-- A call on plain lists springs no trap, and obtains the tokens of the paths
that it should. -/
theorem tokens_eq (call : Call) (obtained : List Path) :
    call.tokens (obtained.map Path.tokens) = .ok ((call.paths obtained).map Path.tokens) := by
  cases call with
  | parse text =>
    show Except.ok (obtainedOf (Tokens.parse text)) = .ok ((obtainedOf (Path.parse text)).map _)
    rw [Tokens.parse_eq, obtainedOf_map]
  | ofSegments origins =>
    have hpaths : (origins.mapM Origin.token >>= Tokens.ofSegments) =
        (origins.mapM Origin.segment >>= Path.ofSegments).map Path.tokens := by
      rw [Origin.mapM_token_eq]
      cases origins.mapM Origin.segment with
      | error reason => rfl
      | ok segments => exact Tokens.ofSegments_eq segments
    rw [tokens, paths, hpaths, obtainedOf_map]
    rfl
  | child source text =>
    rw [tokens, paths, List.getElem?_map]
    cases obtained[source]? with
    | none => rfl
    | some above =>
      show Except.ok (obtainedOf (Tokens.child above.tokens text)) = _
      rw [Tokens.child_eq, obtainedOf_map]
  | parent source =>
    rw [tokens, paths, List.getElem?_map]
    cases obtained[source]? with
    | none => rfl
    | some below =>
      show (Checked.parent? below.tokens >>= fun above => return above.toList) =
        .ok (below.parent?.toList.map Path.tokens)
      rw [Tokens.parent?_eq, Checked.ok_bind]
      cases below.parent? <;> rfl
  | decode document =>
    show Except.ok (obtainedOf (Tokens.decode document)) =
      .ok ((obtainedOf (Codec.path.decode document)).map _)
    rw [Tokens.decode_eq, obtainedOf_map]
  | listing document => exact congrArg Except.ok (Tokens.pathsWhere_eq document _)
  | listingOf document kind => exact congrArg Except.ok (Tokens.pathsWhere_eq document _)

/-- What a run of calls obtains, as plain lists of tokens, after those that
were obtained before. -/
def runTokens : List Call → List Tokens → Checked (List Tokens)
  | [], obtained => return obtained
  | call :: rest, obtained => do
    let new ← call.tokens obtained
    runTokens rest (obtained ++ new)

/-- The paths that a run of calls obtains. -/
def runPaths : List Call → List Path → List Path
  | [], obtained => obtained
  | call :: rest, obtained => runPaths rest (obtained ++ call.paths obtained)

/-- The comparison of one call carries over to a run, call by call. -/
theorem runTokens_eq (calls : List Call) (obtained : List Path) :
    runTokens calls (obtained.map Path.tokens) =
      .ok ((runPaths calls obtained).map Path.tokens) := by
  induction calls generalizing obtained with
  | nil => rfl
  | cons call rest ih =>
    rw [runTokens, tokens_eq, Checked.ok_bind, ← List.map_append, ih, runPaths]

end Call

/-! ## Accesses of paths -/

namespace Path

theorem wellFormed_tokens (path : Path) : Tokens.WellFormed path.tokens where
  nonempty := path.tokens_ne_nil
  token_nonempty token htoken := by
    obtain ⟨segment, -, rfl⟩ := List.mem_map.1 htoken
    exact segment.nonempty
  token_undotted token htoken := by
    obtain ⟨segment, -, rfl⟩ := List.mem_map.1 htoken
    exact segment.undotted

/-- No access to the parts of a path, and none in the loops of a read, of a
focus and of a write along it, springs a trap. -/
structure Accessible (path : Path) : Prop where
  first : Checked.first path.tokens = .ok path.first.text
  last : Checked.last path.tokens = .ok path.last.text
  splitLast : Checked.splitLast path.tokens =
    .ok (path.last.text, path.leading.map Segment.text)
  parent : Checked.parent? path.tokens = .ok (path.parent?.map tokens)
  location : ∀ depth ≤ path.tokens.length,
    Checked.location path.tokens depth = .ok (path.location depth)
  get : ∀ document : Document, Checked.get document.root path =
    .ok ⟨(document.get path).value.map Document.root, (document.get path).events⟩
  focus : ∀ document : Document, Checked.focus document.root path.segments =
    .ok ((document.focus? path).map fun focus => focus.value.root)
  set : ∀ document leaf : Document, Checked.set document.root path.segments leaf.root =
    .ok {
      node := (document.set path leaf).document.root
      error? := (document.set path leaf).error?
      events := (document.set path leaf).events }

theorem getLast_tokens (path : Path) : path.tokens.getLast path.tokens_ne_nil = path.last.text :=
  List.getLast_map _

theorem accessible (path : Path) : path.Accessible where
  first := by
    rw [Checked.first_eq_ok path.tokens_ne_nil]
    exact congrArg Except.ok (List.head_map path.tokens_ne_nil)
  last := by
    rw [Checked.last_eq_ok path.tokens_ne_nil, getLast_tokens]
  splitLast := by
    rw [Checked.splitLast_eq_ok path.tokens_ne_nil, getLast_tokens, Path.tokens,
      ← List.map_dropLast]
    rfl
  parent := Tokens.parent?_eq path
  location depth hdepth := Checked.location_eq_ok (path.length_tokens ▸ hdepth)
  get document := Checked.get_eq_ok document path
  focus document := Checked.focus_eq_ok document path
  set document leaf := Checked.set_eq_ok document path leaf

end Path

namespace Call

/-- Every run of calls on plain lists obtains the tokens of paths only, and no
access to one of these paths is out of bounds. -/
theorem run_obtains_paths (calls : List Call) :
    ∃ obtained, runTokens calls [] = .ok obtained ∧
      obtained = (runPaths calls []).map Path.tokens ∧
      (∀ tokens ∈ obtained, Tokens.WellFormed tokens) ∧
      ∀ path ∈ runPaths calls [], path.Accessible := by
  refine ⟨_, runTokens_eq calls [], rfl, ?_, fun path _ => path.accessible⟩
  intro tokens htokens
  obtain ⟨path, -, rfl⟩ := List.mem_map.1 htokens
  exact path.wellFormed_tokens

/-- Calls of every kind.  The second text and the second token are refused,
the path of one token has no parent, and one key is no token. -/
def mixed : List Call :=
  [.parse "a.b", .parse "a..b", .child 0 "é", .child 0 "", .parent 1, .ofSegments [.position 7],
    .parent 3, .decode (.string "x"), .listing (.object [("k", .array [.null]), (".", .null)]),
    .listingOf (.array [.null, .bool true]) .bool]

theorem run_obtains_paths_mixed :
    runTokens mixed [] = .ok [["a", "b"], ["a", "b", "é"], ["a", "b"], ["7"], ["x"], ["k"],
        ["k", "0"], ["1"]] ∧
      Tokens.WellFormed ["k", "0"] ∧
      ∃ path : Path, path.tokens = ["k", "0"] ∧ path.Accessible := by
  obtain ⟨obtained, hrun, hpaths, hformed, haccess⟩ := run_obtains_paths mixed
  have hmixed : runTokens mixed [] = .ok [["a", "b"], ["a", "b", "é"], ["a", "b"], ["7"], ["x"],
      ["k"], ["k", "0"], ["1"]] := rfl
  obtain rfl := Except.ok.inj (hmixed.symm.trans hrun)
  have hmem : ["k", "0"] ∈ (runPaths mixed []).map Path.tokens := by
    rw [← hpaths]
    simp
  obtain ⟨path, hpath, htokens⟩ := List.mem_map.1 hmem
  exact ⟨hmixed, hformed _ (by simp), path, htokens, haccess path hpath⟩

end Call

end Dotted
