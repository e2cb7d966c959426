import Dotted.Proofs.NumberText
import Dotted.Proofs.PrettyFlag
import Dotted.Proofs.Readback
import Dotted.Proofs.SameDocuments

/-!
# Layouts make no difference

A document may be written on one line or with indentation.  Whatever the
document is, either text is read as the same document as the other, or neither
can be read.  Files that differ in layout only therefore stay such files, and
commands can tell them apart by nothing but what they print in a layout of their
own.

* `Document.toOption_ofText_text` says what is read from the text of a document:
  the layout and the blanks behind it do not occur in it.
* `agree_run`: an invocation agrees with itself in another layout.
* `Launch` is a command line with what it is run with, and `endings` are the
  endings of several launches, one after the other.
* `layout_changes_no_document` puts this together.
-/

namespace Dotted

namespace Json

/-- A property of all numbers holds of each number in a value. -/
theorem eachNumber_of_forall {property : Number → Prop} (h : ∀ number, property number) :
    (value : Json) → value.EachNumber property
  | .null => .null
  | .bool value => .bool value
  | .number value => .number (h value)
  | .string value => .string value
  | .array items => .array fun item hitem =>
    have := List.sizeOf_lt_of_mem hitem
    eachNumber_of_forall h item
  | .object members => .object fun member hmember =>
    have := List.sizeOf_lt_of_mem hmember
    eachNumber_of_forall h member.2
termination_by value => sizeOf value
decreasing_by
  · simp only [Json.array.sizeOf_spec]
    omega
  · obtain ⟨key, value⟩ := member
    simp only [Json.object.sizeOf_spec, Prod.mk.sizeOf_spec] at *
    omega

end Json

namespace Document

open Json Json.Reader

/-- What is read from the text of a document, if anything, depends neither on the
layout nor on blanks behind the text. -/
theorem toOption_ofText_text (document : Document) (layout : Layout) {blanks : List Char}
    (hblanks : ∀ c ∈ blanks, isBlank c = true) :
    (ofText (document.text layout ++ String.ofList blanks)).toOption =
      (document.root.reread (nestingLimit - 1)).toOption := by
  have hread := ofTextWithin_text nestingLimit document layout
    (eachNumber_of_forall Number.readable document.root) hblanks
  rw [← hread, ofText]
  cases ofTextWithin nestingLimit (document.text layout ++ String.ofList blanks) <;> rfl

end Document

namespace Command

open Json

/-- A file that a document has been delivered to holds the same document in
either layout. -/
theorem documentOf_rendered (pretty other : Bool) (document : Document) :
    documentOf (rendered pretty document).toUTF8 = documentOf (rendered other document).toUTF8 := by
  have hread : ∀ layout : Bool, documentOf (rendered layout document).toUTF8 =
      (document.root.reread (Reader.nestingLimit - 1)).toOption := by
    intro layout
    rw [documentOf, textOfBytes_toUTF8]
    exact document.toOption_ofText_text (layoutFor layout) isBlank_of_mem_lineEnd
  rw [hread, hread]

/-! ## Commands in two layouts -/

section Agreement

variable (pretty other : Bool)

/-- What is printed is the same if the layout is. -/
def SameIn (output printed : String) : Prop := pretty = other → output = printed

theorem agree_get (path : String) (source : Source) :
    Agree (SameIn pretty other) (World.host.get pretty path source)
      (World.host.get other path source) := by
  refine (agree_readDocument source).bind_eq fun document => ?_
  refine (agree_liftExcept _).bind_eq fun place => ?_
  refine (agree_report _).bind_eq fun found => ?_
  cases found with
  | none => exact agree_throw _ _ _
  | some value => exact agree_pure fun hlayout => by rw [hlayout]

theorem agree_set (path value : String) (source : Source) (target : Target) (literal : Bool) :
    Agree (SameIn pretty other) (World.host.set pretty path value source target literal)
      (World.host.set other path value source target literal) := by
  refine (agree_liftExcept _).bind_eq fun file => ?_
  refine (agree_readDocument source).bind_eq fun document => ?_
  refine (agree_liftExcept _).bind_eq fun leaf => ?_
  refine (agree_liftExcept _).bind_eq fun place => ?_
  refine (agree_report _).bind_eq fun refusal => ?_
  cases refusal with
  | some reason => exact agree_throw _ _ _
  | none =>
    refine (agree_note _).bind_eq fun _ => ?_
    refine (agree_deliver file (documentOf_rendered pretty other _)).mono ?_
    intro output printed hprinted hlayout
    exact hprinted (by rw [hlayout])

theorem agree_paths (source : Source) (kind : Option Kind) (asJson : Bool) :
    Agree (SameIn pretty other) (World.host.paths pretty source kind asJson)
      (World.host.paths other source kind asJson) := by
  refine (agree_readDocument source).bind_eq fun document => ?_
  refine (agree_report _).bind_eq fun listed => ?_
  exact agree_pure fun hlayout => by rw [hlayout]

/-- A task is done alike in both layouts, and with the same output if the layouts
are the same. -/
theorem agree_run (task : Task) (verbose chatty : Bool) :
    Agree (SameIn pretty other) (Invocation.run World.host ⟨task, pretty, verbose⟩)
      (Invocation.run World.host ⟨task, other, chatty⟩) := by
  cases task with
  | get path source => exact agree_get pretty other path source
  | set path value source target literal =>
    exact agree_set pretty other path value source target literal
  | paths source kind asJson => exact agree_paths pretty other source kind asJson
  | help => exact agree_pure fun _ => rfl

end Agreement

/-! ## One command line after the other -/

theorem code_ofRun (threshold : Threshold) (result : Except RunError String) (world : World) :
    (Ending.ofRun threshold result world).code =
      if result.toOption.isSome then successCode else failureCode := by
  cases result <;> rfl

theorem output_ofRun (threshold : Threshold) (result : Except RunError String) (world : World) :
    (Ending.ofRun threshold result world).output = result.toOption.getD "" := by
  cases result <;> rfl

/-- A command line, with the log setting and the standard input that it is run
with. -/
structure Launch where
  arguments : List String
  setting : Option String
  input : ByteArray

namespace Launch

/-- How a launch ends.  If the command line cannot be read nothing is done. -/
def ending (launch : Launch) (files : FileTree) : Ending :=
  match execute launch.arguments launch.setting files launch.input with
  | .ok ending => ending
  | .error error => ⟨usageCode, "", error.headline ++ "\n", files⟩

/-- What the command line asks for, if it can be read. -/
def task? (launch : Launch) : Option Task :=
  Invocation.taskOf (Invocation.ofArguments launch.arguments)

/-- The same task with the same input.  The layouts may be different, and what is
logged. -/
structure SameTask (launch other : Launch) : Prop where
  input_eq : launch.input = other.input
  task_eq : launch.task? = other.task?

end Launch

/-- The endings of launches, each of which finds the files as the one before has
left them. -/
def endings (files : FileTree) : List Launch → List Ending
  | [] => []
  | launch :: rest => launch.ending files :: endings (launch.ending files).files rest

/-- The files after some launches. -/
def filesAfter (files : FileTree) (launches : List Launch) : FileTree :=
  launches.foldl (fun files launch => (launch.ending files).files) files

variable {files there : FileTree} {launch other : Launch}

theorem ending_of_ofArguments {invocation : Invocation}
    (h : Invocation.ofArguments launch.arguments = .ok invocation) (files : FileTree) :
    launch.ending files = .ofRun (.choose launch.setting invocation.verbose)
      (World.perform ⟨files, launch.input, []⟩ (invocation.run World.host)).1
      (World.perform ⟨files, launch.input, []⟩ (invocation.run World.host)).2 := by
  rw [Launch.ending, execute_of_ofArguments h]

/-- The same task in another layout, with alike files: the exit codes are the
same, the files are alike afterwards, and the output is the same if the layout
is. -/
theorem ending_of_alike {task : Task} {pretty layout verbose chatty : Bool}
    (hfiles : files.Alike there) (hinput : launch.input = other.input)
    (h : Invocation.ofArguments launch.arguments = .ok ⟨task, pretty, verbose⟩)
    (hother : Invocation.ofArguments other.arguments = .ok ⟨task, layout, chatty⟩) :
    (launch.ending files).code = (other.ending there).code ∧
      (pretty = layout → (launch.ending files).output = (other.ending there).output) ∧
      (launch.ending files).files.Alike (other.ending there).files := by
  obtain ⟨hresult, hafter⟩ := agree_run pretty layout task verbose chatty
    ⟨files, launch.input, []⟩ ⟨there, other.input, []⟩ ⟨hfiles, hinput⟩
  rw [ending_of_ofArguments h, ending_of_ofArguments hother, code_ofRun, code_ofRun, output_ofRun,
    output_ofRun, ofRun_files, ofRun_files]
  refine ⟨?_, fun hlayout => ?_, hafter.files⟩
  · rw [isSome_eq_of_rel hresult]
  · rw [eq_of_rel hresult fun _ _ hprinted => hprinted hlayout]

theorem ending_of_unread {error : UsageError}
    (h : Invocation.ofArguments launch.arguments = .error error) (files : FileTree) :
    launch.ending files = ⟨usageCode, "", error.headline ++ "\n", files⟩ := by
  rw [Launch.ending, execute, h]
  rfl

/-- One launch with alike files: what it prints is the same too. -/
theorem ending_of_alike_files (launch : Launch) (hfiles : files.Alike there) :
    (launch.ending files).code = (launch.ending there).code ∧
      (launch.ending files).output = (launch.ending there).output := by
  cases hread : Invocation.ofArguments launch.arguments with
  | error error =>
    rw [ending_of_unread hread, ending_of_unread hread]
    exact ⟨rfl, rfl⟩
  | ok invocation =>
    obtain ⟨hcode, houtput, -⟩ := ending_of_alike hfiles rfl hread hread
    exact ⟨hcode, houtput rfl⟩

theorem sameTask_ending (hfiles : files.Alike there) (h : launch.SameTask other) :
    (launch.ending files).code = (other.ending there).code ∧
      (launch.ending files).files.Alike (other.ending there).files := by
  obtain ⟨hinput, htask⟩ := h
  unfold Launch.task? Invocation.taskOf at htask
  cases hread : Invocation.ofArguments launch.arguments with
  | error error =>
    cases hthere : Invocation.ofArguments other.arguments with
    | error reason =>
      rw [ending_of_unread hread, ending_of_unread hthere]
      exact ⟨rfl, hfiles⟩
    | ok invocation =>
      rw [hread, hthere] at htask
      cases htask
  | ok invocation =>
    cases hthere : Invocation.ofArguments other.arguments with
    | error reason =>
      rw [hread, hthere] at htask
      cases htask
    | ok counterpart =>
      obtain ⟨task, pretty, verbose⟩ := invocation
      obtain ⟨task', layout, chatty⟩ := counterpart
      rw [hread, hthere] at htask
      obtain rfl : task = task' := Option.some.inj htask
      obtain ⟨hcode, -, hafter⟩ := ending_of_alike hfiles hinput hread hthere
      exact ⟨hcode, hafter⟩

/-- What a series of launches keeps: the exit codes, and that the files are
alike. -/
theorem endings_of_sameTask {launches others : List Launch} (hfiles : files.Alike there)
    (h : List.Forall₂ Launch.SameTask launches others) :
    (endings files launches).map Ending.code = (endings there others).map Ending.code ∧
      (filesAfter files launches).Alike (filesAfter there others) := by
  induction h generalizing files there with
  | nil => exact ⟨rfl, hfiles⟩
  | cons hfirst _ ih =>
    obtain ⟨hcode, hafter⟩ := sameTask_ending hfiles hfirst
    obtain ⟨hcodes, hlast⟩ := ih hafter
    refine ⟨?_, hlast⟩
    rw [endings, endings, List.map_cons, List.map_cons, hcode, hcodes]

/-- A text in either layout, with blanks behind it, is read as the same document
or not at all; it is read as the document it was written for, if this is not
nested too deeply and its numbers are read from their texts.  Launches with the
same tasks have the same exit codes, whatever their layouts, and whatever is
launched afterwards, `get` above all, has the same exit code and prints the same.
`--pretty` may be added to a command line: that leaves the task. -/
theorem layout_changes_no_document :
    (∀ (document : Document) (layout other : Layout) (blanks more : List Char),
      (∀ c ∈ blanks, isBlank c = true) → (∀ c ∈ more, isBlank c = true) →
        (Document.ofText (document.text layout ++ String.ofList blanks)).toOption =
            (Document.ofText (document.text other ++ String.ofList more)).toOption ∧
          (document.root.EachNumber Number.Rereads → document.root.nesting < Reader.nestingLimit →
            Document.ofText (document.text layout ++ String.ofList blanks) = .ok document)) ∧
    (∀ (files : FileTree) (launches others : List Launch),
      List.Forall₂ Launch.SameTask launches others →
        (endings files launches).map Ending.code = (endings files others).map Ending.code ∧
        ∀ reading : Launch,
          (reading.ending (filesAfter files launches)).code =
              (reading.ending (filesAfter files others)).code ∧
            (reading.ending (filesAfter files launches)).output =
              (reading.ending (filesAfter files others)).output) ∧
    ∀ (arguments more : List String) (setting : Option String) (input : ByteArray),
      Invocation.PrettyAdded arguments more →
      Invocation.ofArguments more ≠ .error (.repeated .pretty) →
        Launch.SameTask ⟨arguments, setting, input⟩ ⟨more, setting, input⟩ := by
  refine ⟨fun document layout other blanks more hblanks hmore => ?_,
    fun files launches others hsame => ?_, fun arguments more setting input hadded honce => ?_⟩
  · refine ⟨?_, fun hnumbers hnesting => document.ofText_text layout hnumbers hblanks hnesting⟩
    rw [document.toOption_ofText_text layout hblanks, document.toOption_ofText_text other hmore]
  · obtain ⟨hcodes, hfiles⟩ := endings_of_sameTask (FileTree.Alike.refl files) hsame
    exact ⟨hcodes, fun reading => ending_of_alike_files reading hfiles⟩
  · exact ⟨rfl, (Invocation.taskOf_of_prettyAdded hadded honce).symm⟩

/-- The second item of the list on standard input is set, and the list goes to a
file. -/
def delivery (flags : List String) : Launch where
  arguments := "set" :: (flags ++ ["--string", "-o", "out", "--", "1", "x"])
  setting := none
  input := "[1.5]".toUTF8

/-- The item is fetched from the file. -/
def retrieval : Launch := ⟨["get", "-i", "out", "--", "1"], none, ByteArray.empty⟩

theorem Launch.ending_of_execute {ending : Ending}
    (h : execute launch.arguments launch.setting files launch.input = .ok ending) :
    launch.ending files = ending := by
  rw [Launch.ending, h]

theorem ending_delivery :
    ((delivery []).ending ⟨[]⟩).code = successCode ∧
      (retrieval.ending ((delivery []).ending ⟨[]⟩).files).code = successCode ∧
      (retrieval.ending ((delivery []).ending ⟨[]⟩).files).output = "\"x\"\n" := by
  have hset : Invocation.ofArguments (delivery []).arguments =
      .ok ⟨.set "1" "x" .standardInput (.file "out") true, false, false⟩ := rfl
  have hget : Invocation.ofArguments retrieval.arguments =
      .ok ⟨.get "1" (.file "out"), false, false⟩ := rfl
  have hprepared := setPrepared_second "x"
  have hwritten := Document.written_eq_ok_of_accepted hprepared.set_ok
  obtain ⟨ending, hends, hcode, hdelivered⟩ := execute_set_of_prepared hset hprepared
    (writable_of_write rfl) none
  have hread := ofText_rendered false (eachNumber_measured.written (.string "x") hwritten)
    (by decide)
  obtain ⟨fetched, hfetches, hfound, houtput⟩ := execute_get_of_found hget
    (text_of_overwritten hdelivered.2 ByteArray.empty) hread
    parse_second (Document.value_get_eq_some_iff.2 (follow_written hwritten)) none
  rw [Launch.ending_of_execute hends, Launch.ending_of_execute hfetches]
  exact ⟨hcode, hfound, houtput.trans (by decide)⟩

/-- The file is written with indentation, and the item is fetched all the same. -/
theorem layout_changes_no_document_delivery :
    Document.ofText (measured.text .indented ++ String.ofList ['\n']) = .ok measured ∧
      (endings ⟨[]⟩ [delivery ["--pretty"]]).map Ending.code = [successCode] ∧
      (retrieval.ending (filesAfter ⟨[]⟩ [delivery ["--pretty"]])).code = successCode ∧
      (retrieval.ending (filesAfter ⟨[]⟩ [delivery ["--pretty"]])).output = "\"x\"\n" := by
  obtain ⟨hcode, hfound, houtput⟩ := ending_delivery
  obtain ⟨htexts, hruns, hadded⟩ := layout_changes_no_document
  obtain ⟨-, hindented⟩ := htexts measured .indented .compact ['\n'] []
    isBlank_of_mem_lineEnd (List.forall_mem_nil _)
  have hread : Invocation.ofArguments (delivery ["--pretty"]).arguments =
      .ok ⟨.set "1" "x" .standardInput (.file "out") true, true, false⟩ := rfl
  have hsame : (delivery []).SameTask (delivery ["--pretty"]) := by
    refine hadded _ (delivery ["--pretty"]).arguments none _ ?_ (by rw [hread]; exact nofun)
    exact .behind _ (List.forall_mem_nil _) (show Verb.ofName? "set" = some .set from rfl)
  obtain ⟨hcodes, hreads⟩ := hruns ⟨[]⟩ [delivery []] [delivery ["--pretty"]] (.cons hsame .nil)
  obtain ⟨hthere, hprinted⟩ := hreads retrieval
  exact ⟨hindented eachNumber_measured (by decide),
    hcodes.symm.trans (congrArg (fun code => [code]) hcode), hthere.symm.trans hfound,
    hprinted.symm.trans houtput⟩

end Command

end Dotted
