import Dotted.Proofs.Effects
import Dotted.Proofs.Nested
import Dotted.Proofs.PathText
import Dotted.Proofs.Reread
import Dotted.Proofs.Session

/-!
# A written file, read again

A command that sets a value in a file leaves a text there which is read as the
document that was written, so that the value can be fetched from it.  There is
one exception.  A reader follows containers up to a limit, and neither a write
nor a writer has one: every segment of a path may open one more container.

* `Json.length_add_nesting_le` says how deep a value at the end of a path is
  nested in the whole document.
* `EachNumber.written`: a write brings no numbers into a document but those of
  its leaf.
* `execute_get_after_set` is the result for two command lines, one after the
  other, and `execute_get_after_set_deep` an example of the exception.
-/

namespace Dotted

namespace Json

/-! ## Nested values -/

theorem nesting_lt_of_child? {node child : Json} {segment : Segment}
    (h : node.child? segment = some child) : child.nesting < node.nesting := by
  cases node with
  | object members =>
    obtain ⟨before, after, rfl, -⟩ := List.lookup_eq_some_iff.1 h
    have hmember : (segment.text, child) ∈ before ++ (segment.text, child) :: after :=
      List.mem_append_right before List.mem_cons_self
    exact Nat.lt_succ_of_le (nestingMembers_le_iff.1 (Nat.le_refl _) _ hmember)
  | array items =>
    obtain ⟨index, -, hitem⟩ := Option.bind_eq_some_iff.1 h
    exact Nat.lt_succ_of_le
      (nestingItems_le_iff.1 (Nat.le_refl _) _ (List.mem_of_getElem? hitem))
  | _ => cases h

/-- Every segment on the way to a value stands for one more container around
it. -/
theorem length_add_nesting_le {node value : Json} {segments : List Segment}
    (h : node.follow segments = .ok value) : segments.length + value.nesting ≤ node.nesting := by
  induction segments generalizing node with
  | nil =>
    cases h
    exact Nat.le_of_eq (Nat.zero_add _)
  | cons segment rest ih =>
    obtain ⟨child, hchild, hrest⟩ := follow_cons_eq_ok_iff.1 h
    have hlt := nesting_lt_of_child? hchild
    have hle := ih hrest
    rw [List.length_cons]
    omega

/-! ## Numbers of a written document -/

theorem eachNumber_emptyObject (property : Number → Prop) : (object []).EachNumber property :=
  .object fun _ hmember => absurd hmember List.not_mem_nil

theorem EachNumber.childOrNew {property : Number → Prop} {node : Json}
    (h : node.EachNumber property) (step : Step) : (node.childOrNew step).EachNumber property := by
  cases hstep : node.step? step with
  | none =>
    rw [childOrNew_of_step?_eq_none hstep]
    exact eachNumber_emptyObject property
  | some child =>
    rw [childOrNew_of_step?_eq_some hstep]
    unfold step? at hstep
    split at hstep
    · obtain ⟨before, after, rfl, -⟩ := List.lookup_eq_some_iff.1 hstep
      exact h.values _ (List.mem_append_right before List.mem_cons_self)
    · exact h.items _ (List.mem_of_getElem? hstep)
    · cases hstep

theorem EachNumber.put {property : Number → Prop} {node value : Json}
    (h : node.EachNumber property) (hvalue : value.EachNumber property) (step : Step) :
    (node.put step value).EachNumber property := by
  unfold Json.put
  split
  · refine .object fun member hmember => ?_
    rcases Members.mem_insert hmember with rfl | hmember
    · exact hvalue
    · exact h.values member hmember
  · refine .array fun item hitem => ?_
    rcases List.mem_or_eq_of_mem_set hitem with hitem | rfl
    · rcases List.mem_append.1 hitem with hitem | hnull
      · exact h.items item hitem
      · rw [List.eq_of_mem_replicate hnull]
        exact .null
    · exact hvalue
  · exact h

/-- The numbers of a written document are among those of the document and of the
leaf. -/
theorem EachNumber.written {property : Number → Prop} {node leaf new : Json}
    {segments : List Segment} (hnode : node.EachNumber property)
    (hleaf : leaf.EachNumber property) (h : node.written leaf segments = .ok new) :
    new.EachNumber property := by
  induction segments generalizing node new with
  | nil =>
    cases h
    exact hleaf
  | cons segment rest ih =>
    obtain ⟨step, child, -, hchild, rfl⟩ := written_cons_eq_ok_iff.1 h
    exact hnode.put (ih (hnode.childOrNew step) hchild) step

end Json

namespace Command

open Json

/-! ## Fetching a value -/

/-- The text of a file that has been overwritten. -/
theorem text_of_overwritten {before after : FileTree} {name text : String}
    (h : before.Overwritten name text.toUTF8 after) (input : ByteArray) :
    (Source.file name).text after input = .ok text := text_of_read h.read_eq input

section Get

variable {arguments : List String} {path text : String} {source : Source} {pretty verbose : Bool}
  {files : FileTree} {input : ByteArray}

theorem execute_get_of_found {document found : Document} {place : Path}
    (h : Invocation.ofArguments arguments = .ok ⟨.get path source, pretty, verbose⟩)
    (htext : source.text files input = .ok text) (hdocument : Document.ofText text = .ok document)
    (hplace : Path.parse path = .ok place) (hfound : (document.get place).value = some found)
    (setting : Option String) :
    ∃ ending, execute arguments setting files input = .ok ending ∧ ending.code = successCode ∧
      ending.output = rendered pretty found := by
  refine ⟨_, execute_of_ofArguments h setting files input, ?_⟩
  simp only [Invocation.run, Host.get, World.perform_bind, World.perform_readDocument, htext,
    hdocument, Except.mapError, World.perform_liftExcept, pathOperand_of_parse hplace,
    World.perform_report, hfound]
  exact ⟨rfl, rfl⟩

theorem execute_get_of_malformed {reason : ReadError}
    (h : Invocation.ofArguments arguments = .ok ⟨.get path source, pretty, verbose⟩)
    (htext : source.text files input = .ok text) (hreason : Document.ofText text = .error reason)
    (setting : Option String) :
    ∃ ending, execute arguments setting files input = .ok ending ∧
      ending.Failed (.malformedDocument reason) files := by
  refine ⟨_, execute_of_ofArguments h setting files input, ?_⟩
  simp only [Invocation.run, Host.get, World.perform_bind, World.perform_readDocument, htext,
    hreason, Except.mapError]
  exact ⟨rfl, rfl, rfl, _, rfl⟩

end Get

/-- The blanks that a document is delivered with. -/
theorem isBlank_of_mem_lineEnd : ∀ c ∈ ['\n'], isBlank c = true := by
  intro c hc
  rw [List.mem_singleton.1 hc]
  rfl

/-- A document comes back from the text that is delivered, unless it is nested
too deeply. -/
theorem ofText_rendered {document : Document} (pretty : Bool)
    (hnumbers : document.root.EachNumber Number.Rereads)
    (h : document.root.nesting < Reader.nestingLimit) :
    Document.ofText (rendered pretty document) = .ok document :=
  Document.ofText_text _ hnumbers isBlank_of_mem_lineEnd h

theorem ofText_rendered_of_le_nesting {document : Document} (pretty : Bool)
    (hnumbers : document.root.EachNumber Number.Rereads)
    (h : Reader.nestingLimit ≤ document.root.nesting) :
    ∃ reason, Document.ofText (rendered pretty document) = .error reason ∧
      reason.cause = .nestingLimit :=
  Document.ofText_text_of_le_nesting _ hnumbers isBlank_of_mem_lineEnd h

/-! ## A value that is set and then fetched -/

/-- A value that a command has set in a file can be fetched from the file,
unless the document in it is nested too deeply.  In that case the file cannot be
read as a document, for this reason.  It is taken for granted that every number
of the document is read from its text. -/
theorem execute_get_after_set {setArguments getArguments : List String}
    {path value name : String} {source : Source} {target : Target}
    {literal pretty verbose chatty : Bool} {setting : Option String} {files : FileTree}
    {input : ByteArray} {written : Ending}
    (hset : Invocation.ofArguments setArguments
      = .ok ⟨.set path value source target literal, pretty, verbose⟩)
    (htarget : targetFile source target = .ok (some name))
    (hget : Invocation.ofArguments getArguments = .ok ⟨.get path (.file name), false, chatty⟩)
    (hwritten : execute setArguments setting files input = .ok written)
    (hcode : written.code = successCode) (later : Option String) (other : ByteArray) :
    ∃ document place leaf,
      SetPrepared files input path value source target literal (some name) document place leaf ∧
      ((document.set place leaf).document.root.EachNumber Number.Rereads →
        ∃ ending, execute getArguments later written.files other = .ok ending ∧
          ((document.set place leaf).document.root.nesting < Reader.nestingLimit →
            ending.code = successCode ∧ ending.output = leaf.text .compact ++ "\n") ∧
          (Reader.nestingLimit ≤ (document.set place leaf).document.root.nesting →
            ∃ reason, ending.Failed (.malformedDocument reason) written.files ∧
              reason.cause = .nestingLimit)) := by
  rcases setEnds_of_execute hset hwritten with
    ⟨error, hfailed, -⟩ | ⟨-, file, document, place, leaf, hprepared, -, hdelivered⟩
  · exact absurd (hfailed.code_eq.symm.trans hcode) (by decide)
  · obtain rfl : file = some name := Except.ok.inj (hprepared.goes.targetFile_eq.symm.trans htarget)
    refine ⟨document, place, leaf, hprepared, fun hnumbers => ?_⟩
    have htext := text_of_overwritten hdelivered.2 other
    have hfound : ((document.set place leaf).document.get place).value = some leaf :=
      Document.value_get_eq_some_iff.2
        (follow_written (Document.written_eq_ok_of_accepted hprepared.set_ok))
    rcases Nat.lt_or_ge (document.set place leaf).document.root.nesting Reader.nestingLimit with
      hflat | hdeep
    · obtain ⟨ending, hends, hcode, houtput⟩ := execute_get_of_found hget htext
        (ofText_rendered pretty hnumbers hflat) hprepared.place_eq hfound later
      exact ⟨ending, hends, fun _ => ⟨hcode, houtput⟩,
        fun hdeep => absurd hflat (Nat.not_lt.2 hdeep)⟩
    · obtain ⟨reason, hreason, hcause⟩ := ofText_rendered_of_le_nesting pretty hnumbers hdeep
      obtain ⟨ending, hends, hfailed⟩ := execute_get_of_malformed hget htext hreason later
      exact ⟨ending, hends, fun hflat => absurd hflat (Nat.not_lt.2 hdeep),
        fun _ => ⟨reason, hfailed, hcause⟩⟩

/-- A number that is no integer. -/
def oneAndAHalf : Number := .float ⟨false, ⟨0x3ff8000000000000, by decide⟩⟩

/-- A list of one number. -/
def measured : Document := .array [.number oneAndAHalf]

theorem eachNumber_measured : measured.root.EachNumber Number.Rereads := by
  have hrereads : oneAndAHalf.Rereads := by
    have htext : oneAndAHalf.text = "1.5" := by decide +kernel
    have hread : (Numeral.read "1.5".toList).toOption = some (oneAndAHalf, []) := by
      decide +kernel
    rw [Number.Rereads, htext]
    cases hresult : Numeral.read "1.5".toList with
    | error fault =>
      rw [hresult] at hread
      cases hread
    | ok result =>
      rw [hresult] at hread
      exact congrArg Except.ok (Option.some.inj hread)
  refine .array fun item hitem => ?_
  obtain rfl := List.mem_singleton.1 hitem
  exact .number hrereads

theorem ofText_measured : Document.ofText "[1.5]" = .ok measured := by
  have htext : measured.text .compact = "[1.5]" := by decide +kernel
  exact Document.ofText_of_text_eq htext eachNumber_measured (by decide)

/-- A string can be put at the end of the list. -/
theorem setPrepared_second (raw : String) :
    SetPrepared ⟨[]⟩ "[1.5]".toUTF8 "1" raw .standardInput (.file "out") true (some "out") measured
      second (.string raw) :=
  ⟨.file _ _, ⟨"[1.5]", text_standardInput _ _, ofText_measured⟩, .literal raw, parse_second, rfl⟩

theorem execute_get_after_set_second :
    ∃ written ending,
      execute ["set", "--string", "-o", "out", "--", "1", "x"] none ⟨[]⟩ "[1.5]".toUTF8
        = .ok written ∧
      written.code = successCode ∧
      execute ["get", "-i", "out", "--", "1"] none written.files ByteArray.empty = .ok ending ∧
      ending.code = successCode ∧ ending.output = "\"x\"\n" := by
  have hset : Invocation.ofArguments ["set", "--string", "-o", "out", "--", "1", "x"] =
      .ok ⟨.set "1" "x" .standardInput (.file "out") true, false, false⟩ := rfl
  have hget : Invocation.ofArguments ["get", "-i", "out", "--", "1"] =
      .ok ⟨.get "1" (.file "out"), false, false⟩ := rfl
  have hprepared := setPrepared_second "x"
  obtain ⟨written, hends, hcode, -⟩ := execute_set_of_prepared hset hprepared
    (writable_of_write rfl) none
  obtain ⟨document, place, leaf, hother, hread⟩ :=
    execute_get_after_set hset rfl hget hends hcode none ByteArray.empty
  obtain ⟨-, rfl, rfl, rfl⟩ := hprepared.unique hother
  obtain ⟨ending, hfetched, hfound, -⟩ := hread
    (eachNumber_measured.written (.string "x") (Document.written_eq_ok_of_accepted hother.set_ok))
  exact ⟨written, ending, hends, hcode, hfetched, hfound (by decide)⟩

/-- A path of as many segments as a reader follows containers, all of them one
letter. -/
def deepPath : Path where
  segments := List.replicate Reader.nestingLimit ⟨"a", by decide, by decide⟩
  nonempty := by decide

theorem ofText_emptyObject : Document.ofText "{}" = .ok (.object []) := by
  have htext : (Document.object []).text .compact = "{}" := by decide
  exact Document.ofText_of_text_eq htext (eachNumber_emptyObject _) (by decide)

/-- The exception: what `set` has written without an error, `get` cannot read. -/
theorem execute_get_after_set_deep :
    ∃ written ending,
      execute ["set", "--string", "-o", "out", "--", deepPath.text, "x"] none ⟨[]⟩ "{}".toUTF8
        = .ok written ∧
      written.code = successCode ∧
      execute ["get", "-i", "out", "--", deepPath.text] none written.files ByteArray.empty
        = .ok ending ∧
      ending.code = failureCode := by
  have hset : Invocation.ofArguments ["set", "--string", "-o", "out", "--", deepPath.text, "x"] =
      .ok ⟨.set deepPath.text "x" .standardInput (.file "out") true, false, false⟩ := rfl
  have hget : Invocation.ofArguments ["get", "-i", "out", "--", deepPath.text] =
      .ok ⟨.get deepPath.text (.file "out"), false, false⟩ := rfl
  have haccepted := Document.error?_set_emptyObject (.string "x") deepPath
  have hprepared : SetPrepared ⟨[]⟩ "{}".toUTF8 deepPath.text "x" .standardInput (.file "out") true
      (some "out") (.object []) deepPath (.string "x") :=
    ⟨.file _ _, ⟨"{}", text_standardInput _ _, ofText_emptyObject⟩, .literal "x",
      Path.parse_text deepPath, haccepted⟩
  have hwritten := Document.written_eq_ok_of_accepted haccepted
  obtain ⟨written, hends, hcode, hdelivered⟩ := execute_set_of_prepared hset hprepared
    (writable_of_write rfl) none
  have hnumbers := (eachNumber_emptyObject Number.Rereads).written (.string "x") hwritten
  have hdeep := length_add_nesting_le (follow_written hwritten)
  have hlength : deepPath.segments.length = Reader.nestingLimit := List.length_replicate
  rw [hlength] at hdeep
  obtain ⟨reason, hreason, -⟩ := ofText_rendered_of_le_nesting false hnumbers hdeep
  obtain ⟨ending, hfails, hfailed⟩ := execute_get_of_malformed hget
    (text_of_overwritten hdelivered.2 ByteArray.empty) hreason none
  exact ⟨written, ending, hends, hcode, hfails, hfailed.code_eq⟩

end Command

end Dotted
