import Dotted.Proofs.Readback

/-!
# The two forms of a listing

A command lists paths as a JSON array of strings or as plain text.  The array
is always read as the strings that were listed.  The plain text ends every path
with a line break and escapes nothing, so that a path with a line break in it is
spread over several lines.

* `endedLines_join` says what the lines of a plain listing are, and
  `flatMap_textLines_eq_iff` when they are the listed texts.
* `ofText_rendered_listing` is the array, read again.
* `execute_paths_forms` puts the two forms of one command side by side, and
  `execute_paths_forms_broken_line` shows them for a key with a line break.
-/

namespace Dotted

/-- The texts between the line breaks of a text. -/
def textLines (text : String) : List String := (text.toList.splitOn '\n').map String.ofList

/-- The lines of a text, each of them ended by a line break. -/
def endedLines (text : String) : List String := (textLines text).dropLast

/-- The paths that are listed: all of them, or those to values of one kind. -/
def Document.listed (document : Document) (kind : Option Kind) : Logged (List Path) :=
  match kind with
  | none => document.paths
  | some kind => document.pathsOf kind

namespace Command

/-! ## Plain text -/

theorem textLines_append_break (text rest : String) :
    textLines (text ++ "\n" ++ rest) = textLines text ++ textLines rest := by
  have hchars : (text ++ "\n" ++ rest).toList = text.toList ++ '\n' :: rest.toList := by
    rw [String.toList_append, String.toList_append, List.append_assoc]
    rfl
  have hsplit : (text.toList ++ '\n' :: rest.toList).splitOn '\n'
      = text.toList.splitOn '\n' ++ rest.toList.splitOn '\n' :=
    List.splitOnP_append_cons _ _ rfl
  rw [textLines, hchars, hsplit, List.map_append]
  rfl

theorem endedLines_join (texts : List String) :
    endedLines (String.join (texts.map fun text => text ++ "\n")) = texts.flatMap textLines := by
  have hlines : textLines (String.join (texts.map fun text => text ++ "\n"))
      = texts.flatMap textLines ++ [""] := by
    induction texts with
    | nil => rfl
    | cons text texts ih =>
      rw [List.map_cons, String.join_cons, textLines_append_break, ih, List.flatMap_cons,
        List.append_assoc]
  rw [endedLines, hlines, List.dropLast_concat]

theorem textLines_eq_singleton {text : String} (h : '\n' ∉ text.toList) :
    textLines text = [text] := by
  rw [textLines, List.splitOn_eq_singleton h, List.map_singleton, String.ofList_toList]

theorem length_textLines_pos (text : String) : 0 < (textLines text).length := by
  rw [textLines, List.length_map]
  exact List.length_pos_iff.2 (List.splitOn_ne_nil _ _)

theorem one_lt_length_textLines {text : String} (h : '\n' ∈ text.toList) :
    1 < (textLines text).length := by
  obtain ⟨before, after, hsplit⟩ := List.append_of_mem h
  have htext : text = String.ofList before ++ "\n" ++ String.ofList after := by
    apply String.toList_injective
    rw [hsplit]
    simp
  rw [htext, textLines_append_break, List.length_append]
  have hbefore := length_textLines_pos (String.ofList before)
  have hafter := length_textLines_pos (String.ofList after)
  omega

theorem length_le_length_flatMap (texts : List String) :
    texts.length ≤ (texts.flatMap textLines).length := by
  induction texts with
  | nil => exact Nat.le_refl 0
  | cons text texts ih =>
    have hpos := length_textLines_pos text
    rw [List.flatMap_cons, List.length_append, List.length_cons]
    omega

/-- Texts are their own lines if they have no line breaks, and fewer than their
lines otherwise. -/
theorem flatMap_textLines_eq_iff (texts : List String) :
    texts.flatMap textLines = texts ↔ ∀ text ∈ texts, '\n' ∉ text.toList := by
  induction texts with
  | nil => simp
  | cons text texts ih =>
    rw [List.flatMap_cons, List.forall_mem_cons, ← ih]
    constructor
    · intro heq
      have hrest := length_le_length_flatMap texts
      have hlength := congrArg List.length heq
      rw [List.length_append, List.length_cons] at hlength
      have hunbroken : '\n' ∉ text.toList := by
        intro hbreak
        have htwo := one_lt_length_textLines hbreak
        omega
      rw [textLines_eq_singleton hunbroken] at heq
      exact ⟨hunbroken, (List.cons.inj heq).2⟩
    · rintro ⟨hunbroken, hrest⟩
      rw [textLines_eq_singleton hunbroken, hrest]
      rfl

/-! ## JSON -/

/-- The strings of a listing as a document. -/
def listingDocument (paths : List Path) : Document :=
  .array (paths.map fun path => .string path.text)

theorem ofText_rendered_listing (pretty : Bool) (paths : List Path) :
    Document.ofText (rendered pretty (listingDocument paths)) = .ok (listingDocument paths) := by
  have hstring : ∀ item ∈ (paths.map fun path => Document.string path.text).map Document.root,
      ∃ text, item = .string text := by
    intro item hitem
    obtain ⟨document, hdocument, rfl⟩ := List.mem_map.1 hitem
    obtain ⟨path, -, rfl⟩ := List.mem_map.1 hdocument
    exact ⟨_, rfl⟩
  have hnumbers : (listingDocument paths).root.EachNumber Number.Rereads := by
    refine .array fun item hitem => ?_
    obtain ⟨text, rfl⟩ := hstring item hitem
    exact .string text
  have hnesting : (listingDocument paths).root.nesting ≤ 1 := by
    refine Nat.succ_le_succ (Json.nestingItems_le_iff.2 fun item hitem => ?_)
    obtain ⟨text, rfl⟩ := hstring item hitem
    exact Nat.le_refl 0
  exact ofText_rendered pretty hnumbers (Nat.lt_of_le_of_lt hnesting (by decide))

/-! ## Commands -/

theorem execute_paths {arguments : List String} {source : Source} {kind : Option Kind}
    {asJson pretty verbose : Bool} {files : FileTree} {input : ByteArray} {text : String}
    {document : Document}
    (h : Invocation.ofArguments arguments = .ok ⟨.paths source kind asJson, pretty, verbose⟩)
    (htext : source.text files input = .ok text) (hdocument : Document.ofText text = .ok document)
    (setting : Option String) :
    ∃ ending, execute arguments setting files input = .ok ending ∧ ending.code = successCode ∧
      ending.output = listing pretty asJson (document.listed kind).value := by
  refine ⟨_, execute_of_ofArguments h setting files input, ?_⟩
  simp only [Invocation.run, Host.paths, World.perform_bind, World.perform_readDocument, htext,
    hdocument, Except.mapError, World.perform_report]
  exact ⟨rfl, rfl⟩

/-- Of every document that is accepted, the array is read as the strings of the
listed paths, and the plain text has the listed paths for its lines, provided
that none of them has a line break in it.  With line breaks there are other
lines: those of each path, one path after the other. -/
theorem execute_paths_forms {plainArguments jsonArguments : List String} {source : Source}
    {kind : Option Kind} {pretty indented verbose chatty : Bool} {files : FileTree}
    {input : ByteArray} {text : String} {document : Document}
    (hplain : Invocation.ofArguments plainArguments
      = .ok ⟨.paths source kind false, pretty, verbose⟩)
    (hjson : Invocation.ofArguments jsonArguments
      = .ok ⟨.paths source kind true, indented, chatty⟩)
    (htext : source.text files input = .ok text) (hdocument : Document.ofText text = .ok document)
    (setting : Option String) :
    ∃ plain json,
      execute plainArguments setting files input = .ok plain ∧ plain.code = successCode ∧
      execute jsonArguments setting files input = .ok json ∧ json.code = successCode ∧
      Document.ofText json.output
        = .ok (.array ((document.listed kind).value.map fun path => .string path.text)) ∧
      endedLines plain.output
        = (document.listed kind).value.flatMap (fun path => textLines path.text) ∧
      (endedLines plain.output = (document.listed kind).value.map Path.text ↔
        ∀ path ∈ (document.listed kind).value, '\n' ∉ path.text.toList) := by
  obtain ⟨plain, hplainEnds, hplainCode, hplainOutput⟩ :=
    execute_paths hplain htext hdocument setting
  obtain ⟨json, hjsonEnds, hjsonCode, hjsonOutput⟩ := execute_paths hjson htext hdocument setting
  have hlines : endedLines plain.output
      = ((document.listed kind).value.map Path.text).flatMap textLines := by
    rw [hplainOutput, ← endedLines_join, List.map_map]
    rfl
  refine ⟨plain, json, hplainEnds, hplainCode, hjsonEnds, hjsonCode, ?_, ?_, ?_⟩
  · rw [hjsonOutput]
    exact ofText_rendered_listing indented _
  · rw [hlines, List.flatMap_map]
  · rw [hlines, flatMap_textLines_eq_iff, List.forall_mem_map]

/-- A list of two scalars. -/
def twoItems : Document := .array [.null, .bool true]

theorem ofText_twoItems : Document.ofText "[null,true]" = .ok twoItems := by
  have hnumbers : twoItems.root.EachNumber Number.Rereads := by
    refine .array fun item hitem => ?_
    rcases List.mem_cons.1 hitem with rfl | hsecond
    · exact .null
    · obtain rfl := List.mem_singleton.1 hsecond
      exact .bool true
  have htext : twoItems.text .compact = "[null,true]" := by decide
  exact Document.ofText_of_text_eq htext hnumbers (by decide)

theorem execute_paths_forms_items :
    ∃ plain json,
      execute ["paths"] none ⟨[]⟩ "[null,true]".toUTF8 = .ok plain ∧
      execute ["paths", "--json"] none ⟨[]⟩ "[null,true]".toUTF8 = .ok json ∧
      Document.ofText json.output = .ok (.array [.string "0", .string "1"]) ∧
      endedLines plain.output = ["0", "1"] := by
  have hplain : Invocation.ofArguments ["paths"] =
      .ok ⟨.paths .standardInput none false, false, false⟩ := rfl
  have hjson : Invocation.ofArguments ["paths", "--json"] =
      .ok ⟨.paths .standardInput none true, false, false⟩ := rfl
  obtain ⟨plain, json, hplainEnds, -, hjsonEnds, -, hstrings, -, hlines⟩ :=
    execute_paths_forms hplain hjson (text_standardInput ⟨[]⟩ "[null,true]") ofText_twoItems none
  exact ⟨plain, json, hplainEnds, hjsonEnds, hstrings, hlines.2 (by decide)⟩

/-- An object with a line break in its one key. -/
def brokenKey : Document := .object [("a\nb", .null)]

theorem ofText_brokenKey : Document.ofText "\x7b\"a\\nb\":null\x7d" = .ok brokenKey := by
  have hnumbers : brokenKey.root.EachNumber Number.Rereads := by
    refine .object fun member hmember => ?_
    obtain rfl := List.mem_singleton.1 hmember
    exact .null
  have htext : brokenKey.text .compact = "\x7b\"a\\nb\":null\x7d" := by decide
  exact Document.ofText_of_text_eq htext hnumbers (by decide)

/-- One path is listed, on two lines. -/
theorem execute_paths_forms_broken_line :
    ∃ plain json,
      execute ["paths"] none ⟨[]⟩ "\x7b\"a\\nb\":null\x7d".toUTF8 = .ok plain ∧
      execute ["paths", "--json"] none ⟨[]⟩ "\x7b\"a\\nb\":null\x7d".toUTF8 = .ok json ∧
      Document.ofText json.output = .ok (.array [.string "a\nb"]) ∧
      endedLines plain.output = ["a", "b"] := by
  have hplain : Invocation.ofArguments ["paths"] =
      .ok ⟨.paths .standardInput none false, false, false⟩ := rfl
  have hjson : Invocation.ofArguments ["paths", "--json"] =
      .ok ⟨.paths .standardInput none true, false, false⟩ := rfl
  have htext := text_standardInput ⟨[]⟩ "\x7b\"a\\nb\":null\x7d"
  obtain ⟨plain, hplainEnds, -, hplainOutput⟩ := execute_paths hplain htext ofText_brokenKey none
  obtain ⟨json, hjsonEnds, -, hjsonOutput⟩ := execute_paths hjson htext ofText_brokenKey none
  refine ⟨plain, json, hplainEnds, hjsonEnds, ?_, ?_⟩
  · rw [hjsonOutput]
    exact ofText_rendered_listing false _
  · rw [hplainOutput]
    decide

end Command

end Dotted
