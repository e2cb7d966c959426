import Dotted.Command.Run
import Dotted.Proofs.FileTree
import Dotted.Proofs.PathText
import Dotted.Proofs.Reread

/-!
# What a run leaves behind

A run changes files in one way only: a command that sets a value may write one
file, and this is the last thing it does.  Whatever fails before leaves the
files as they are, and so does a write that fails.

* `World.perform` is a step of a run in a world, and the lemmas after it say what
  the parts of a command do there.
* `Target.GoesTo` says to which file a changed document goes, and `Denotes` what
  the operand stands for.  Neither mentions the functions that a run uses.
* `SetFails` says with which error a command that sets a value fails: that of
  the first stage that fails.  `SetPrepared` says that it has got as far as the
  changed document.
* `SetEnds` is what one of the two leaves behind, and `execute_all_or_nothing`
  says so of whole command lines.
-/

namespace Dotted.Command

open Json (Layout ReadError)

/-! ## Steps in a world -/

/-- What a source holds. -/
def Source.contents (source : Source) (files : FileTree) (input : ByteArray) :
    Except FileError ByteArray :=
  match source with
  | .standardInput => .ok input
  | .file name => files.read name

/-- The text that bytes encode. -/
def textOfBytes (bytes : ByteArray) : Except FileError String :=
  match String.fromUTF8? bytes with
  | none => .error .notText
  | some text => .ok text

/-- The text of a source. -/
def Source.text (source : Source) (files : FileTree) (input : ByteArray) :
    Except FileError String :=
  (source.contents files input).bind textOfBytes

theorem textOfBytes_toUTF8 (text : String) : textOfBytes text.toUTF8 = .ok text := by
  have hbytes : String.fromUTF8? text.toUTF8 = some text := dif_pos text.isValidUTF8
  rw [textOfBytes, hbytes]

theorem text_standardInput (files : FileTree) (text : String) :
    Source.standardInput.text files text.toUTF8 = .ok text := textOfBytes_toUTF8 text

theorem text_of_read {files : FileTree} {name text : String}
    (h : files.read name = .ok text.toUTF8) (input : ByteArray) :
    (Source.file name).text files input = .ok text := by
  rw [Source.text, Source.contents, h]
  exact textOfBytes_toUTF8 text

namespace World

variable {α β : Type} (world : World)

/-- What comes of a step in a world, and the world afterwards. -/
def perform (world : World) (step : Step (StateM World) α) : Except RunError α × World :=
  step.run.run world

/-- The world after some notes. -/
def noted (world : World) (notes : List Note) : World :=
  { world with notes := world.notes ++ notes }

theorem noted_nil : world.noted [] = world :=
  congrArg (World.mk world.files world.input) (List.append_nil world.notes)

theorem noted_noted (notes more : List Note) :
    (world.noted notes).noted more = world.noted (notes ++ more) :=
  congrArg (World.mk world.files world.input) (List.append_assoc world.notes notes more)

theorem perform_throw (error : RunError) :
    world.perform (throw error : Step (StateM World) α) = (.error error, world) := rfl

theorem perform_bind (step : Step (StateM World) α) (next : α → Step (StateM World) β) :
    world.perform (step >>= next) =
      match world.perform step with
      | (.ok value, after) => after.perform (next value)
      | (.error error, after) => (.error error, after) := by
  unfold perform
  rw [ExceptT.run_bind, StateT.run_bind]
  obtain ⟨result, after⟩ := step.run.run world
  cases result <;> rfl

theorem perform_liftExcept (result : Except RunError α) :
    world.perform (liftM result : Step (StateM World) α) = (result, world) := by
  cases result <;> rfl

theorem perform_note (note : Note) :
    world.perform (liftM (host.note note) : Step (StateM World) Unit)
      = (.ok (), world.noted [note]) := rfl

theorem perform_writeFile (name : String) (contents : ByteArray) :
    world.perform (liftM (host.writeFile name contents) : Step (StateM World) _) =
      match world.files.write name contents with
      | .error reason => (.ok (.error reason), world)
      | .ok files => (.ok (.ok ()), { world with files }) := by
  have hwrite : (host.writeFile name contents).run world =
      match world.files.write name contents with
      | .error reason => (.error reason, world)
      | .ok files => (.ok (), { world with files }) := by
    simp only [host, StateT.run_bind, StateT.run_get, pure_bind]
    cases world.files.write name contents <;> rfl
  show (Except.ok ((host.writeFile name contents).run world).1,
    ((host.writeFile name contents).run world).2) = _
  rw [hwrite]
  cases world.files.write name contents <;> rfl

theorem perform_events (events : List Event) :
    world.perform
        (events.forM fun event => (liftM (host.note (.library event)) : Step (StateM World) Unit)) =
      (.ok (), world.noted (events.map .library)) := by
  induction events generalizing world with
  | nil => exact congrArg (Prod.mk _) (noted_nil world).symm
  | cons event events ih =>
    rw [List.forM_eq_forM, List.forM_cons, perform_bind, perform_note]
    exact (ih (world.noted [.library event])).trans (congrArg _ (noted_noted world _ _))

theorem perform_report (logged : Logged α) :
    world.perform (host.report logged)
      = (.ok logged.value, world.noted (logged.events.map .library)) := by
  unfold Host.report
  rw [perform_bind, perform_events]
  rfl

theorem perform_contents (source : Source) :
    world.perform (liftM (host.contents source) : Step (StateM World) _) =
      (.ok (source.contents world.files world.input), world) := by
  cases source <;> rfl

theorem perform_readDocument (source : Source) :
    world.perform (host.readDocument source) =
      match source.text world.files world.input with
      | .error reason => (.error (.unreadable source reason), world)
      | .ok text =>
        ((Document.ofText text).mapError .malformedDocument,
          world.noted [.readDocument text.utf8ByteSize]) := by
  unfold Host.readDocument Source.text
  rw [perform_bind, perform_contents]
  cases source.contents world.files world.input with
  | error reason => rfl
  | ok bytes =>
    dsimp only [Except.bind, textOfBytes]
    cases String.fromUTF8? bytes with
    | none => rfl
    | some text =>
      dsimp only
      rw [perform_bind]
      cases Document.ofText text <;> rfl

theorem perform_deliver (file : Option String) (text : String) :
    world.perform (host.deliver file text) =
      match file with
      | none => (.ok text, world)
      | some name =>
        match world.files.write name text.toUTF8 with
        | .error reason => (.error (.unwritable name reason), world)
        | .ok files => (.ok "", { world with files }.noted [.wroteDocument name]) := by
  cases file with
  | none => rfl
  | some name =>
    unfold Host.deliver
    dsimp only
    rw [perform_bind, perform_writeFile]
    cases world.files.write name text.toUTF8 <;> rfl

/-! ## Steps that change no file -/

/-- The step leaves all files as they are, whether or not it fails. -/
def KeepsFiles (step : Step (StateM World) α) : Prop :=
  ∀ world : World, (world.perform step).2.files = world.files

theorem keepsFiles_pure (value : α) : KeepsFiles (pure value) := fun _ => rfl

theorem keepsFiles_throw (error : RunError) :
    KeepsFiles (throw error : Step (StateM World) α) := fun _ => rfl

theorem keepsFiles_liftExcept (result : Except RunError α) :
    KeepsFiles (liftM result : Step (StateM World) α) := by
  intro world
  rw [perform_liftExcept]

theorem keepsFiles_report (logged : Logged α) : KeepsFiles (host.report logged) := by
  intro world
  rw [perform_report]
  rfl

theorem keepsFiles_readDocument (source : Source) : KeepsFiles (host.readDocument source) := by
  intro world
  rw [perform_readDocument]
  cases source.text world.files world.input <;> rfl

theorem KeepsFiles.bind {step : Step (StateM World) α} {next : α → Step (StateM World) β}
    (hstep : KeepsFiles step) (hnext : ∀ value, KeepsFiles (next value)) :
    KeepsFiles (step >>= next) := by
  intro world
  rw [perform_bind]
  have hfirst := hstep world
  obtain ⟨result, after, hperform⟩ : ∃ result after, world.perform step = (result, after) :=
    ⟨_, _, rfl⟩
  rw [hperform] at hfirst ⊢
  cases result with
  | error error => exact hfirst
  | ok value => exact (hnext value after).trans hfirst

theorem keepsFiles_get (pretty : Bool) (path : String) (source : Source) :
    KeepsFiles (host.get pretty path source) := by
  refine (keepsFiles_readDocument source).bind fun document => ?_
  refine (keepsFiles_liftExcept _).bind fun place => ?_
  refine (keepsFiles_report _).bind fun found => ?_
  cases found with
  | none => exact keepsFiles_throw _
  | some value => exact keepsFiles_pure _

theorem keepsFiles_paths (pretty : Bool) (source : Source) (kind : Option Kind) (asJson : Bool) :
    KeepsFiles (host.paths pretty source kind asJson) := by
  refine (keepsFiles_readDocument source).bind fun document => ?_
  exact (keepsFiles_report _).bind fun listed => keepsFiles_pure _

end World

/-! ## Setting a value -/

/-- Where a changed document goes: to the file of this name, or to standard
output.  In place means to where the document came from, which must be a file. -/
inductive Target.GoesTo : Target → Source → Option String → Prop
  | standardOutput (source : Source) : GoesTo .standardOutput source none
  | file (source : Source) (name : String) : GoesTo (.file name) source (some name)
  | source (name : String) : GoesTo .source (.file name) (some name)

theorem Target.GoesTo.targetFile_eq {source : Source} {target : Target} {file : Option String}
    (h : target.GoesTo source file) : targetFile source target = .ok file := by
  cases h <;> rfl

/-- The one target that leads nowhere is in place without a file. -/
theorem Target.goesTo_or_sourceless (source : Source) (target : Target) :
    (source = .standardInput ∧ target = .source) ∨ ∃ file, target.GoesTo source file := by
  cases target with
  | standardOutput => exact .inr ⟨none, .standardOutput source⟩
  | file name => exact .inr ⟨some name, .file source name⟩
  | source =>
    cases source with
    | standardInput => exact .inl ⟨rfl, rfl⟩
    | file name => exact .inr ⟨some name, .source name⟩

/-- What an operand stands for: the text itself if it is taken literally, and
otherwise the document that it is the text of. -/
inductive Denotes : String → Bool → Document → Prop
  | literal (value : String) : Denotes value true (.string value)
  | json {value : String} {document : Document}
      (document_eq : Document.ofText value = .ok document) : Denotes value false document

theorem Denotes.valueOperand_eq {value : String} {literal : Bool} {leaf : Document}
    (h : Denotes value literal leaf) : valueOperand value literal = .ok leaf := by
  cases h with
  | literal => rfl
  | json document_eq =>
    rw [valueOperand, if_neg Bool.false_ne_true, document_eq]
    rfl

theorem denotes_or_malformed (value : String) (literal : Bool) :
    (literal = false ∧ ∃ reason, Document.ofText value = .error reason) ∨
      ∃ leaf, Denotes value literal leaf := by
  cases literal with
  | true => exact .inr ⟨_, .literal value⟩
  | false =>
    cases hdocument : Document.ofText value with
    | error reason => exact .inl ⟨rfl, reason, rfl⟩
    | ok document => exact .inr ⟨document, .json hdocument⟩

theorem pathOperand_of_parse {path : String} {place : Path} (h : Path.parse path = .ok place) :
    pathOperand path = .ok place := by
  rw [pathOperand, h]
  rfl

section Set

variable (files : FileTree) (input : ByteArray) (path value : String) (source : Source)
  (target : Target) (literal : Bool)

/-- All stages up to the changed document have succeeded: it goes to `file`, if
that is one, and `leaf` has been set at `place` in `document`. -/
structure SetPrepared (file : Option String) (document : Document) (place : Path)
    (leaf : Document) : Prop where
  goes : target.GoesTo source file
  document_eq : ∃ text, source.text files input = .ok text ∧ Document.ofText text = .ok document
  denotes : Denotes value literal leaf
  place_eq : Path.parse path = .ok place
  set_ok : (document.set place leaf).error? = none

/-- The error of the first stage that fails.  The target is checked, the source
is read as text and then as a document, the value and the path are read from the
command line, the value is set, and the document is written to its file, in a
layout and with a line end. -/
inductive SetFails (layout : Layout) : RunError → Prop
  | target (source_eq : source = .standardInput) (target_eq : target = .source) :
      SetFails layout .sourceRequired
  | source {file : Option String} {reason : FileError}
      (goes : target.GoesTo source file)
      (fails : source.text files input = .error reason) :
      SetFails layout (.unreadable source reason)
  | document {file : Option String} {text : String} {reason : ReadError}
      (goes : target.GoesTo source file)
      (text_eq : source.text files input = .ok text)
      (fails : Document.ofText text = .error reason) :
      SetFails layout (.malformedDocument reason)
  | value {file : Option String} {text : String} {document : Document} {reason : ReadError}
      (goes : target.GoesTo source file)
      (text_eq : source.text files input = .ok text)
      (document_eq : Document.ofText text = .ok document)
      (literal_eq : literal = false)
      (fails : Document.ofText value = .error reason) :
      SetFails layout (.malformedValue value reason)
  | path {file : Option String} {text : String} {document leaf : Document} {reason : PathError}
      (goes : target.GoesTo source file)
      (text_eq : source.text files input = .ok text)
      (document_eq : Document.ofText text = .ok document)
      (denotes : Denotes value literal leaf)
      (fails : Path.parse path = .error reason) :
      SetFails layout (.malformedPath path reason)
  | set {file : Option String} {text : String} {document leaf : Document} {place : Path}
      {reason : WriteError}
      (goes : target.GoesTo source file)
      (text_eq : source.text files input = .ok text)
      (document_eq : Document.ofText text = .ok document)
      (denotes : Denotes value literal leaf)
      (place_eq : Path.parse path = .ok place)
      (fails : (document.set place leaf).error? = some reason) :
      SetFails layout (.refused place reason)
  | write {name : String} {document leaf : Document} {place : Path} {reason : FileError}
      (prepared : SetPrepared files input path value source target literal (some name)
        document place leaf)
      (fails : files.write name ((document.set place leaf).document.text layout ++ "\n").toUTF8
        = .error reason) :
      SetFails layout (.unwritable name reason)

variable {files input path value source target literal} {layout : Layout} {pretty : Bool}

/-- The changed document can be written, if it goes to a file. -/
def Writable (file : Option String) (text : String) (files : FileTree) : Prop :=
  ∀ name, file = some name → ∃ after, files.write name text.toUTF8 = .ok after

theorem writable_of_write {name text : String} {after : FileTree}
    (h : files.write name text.toUTF8 = .ok after) : Writable (some name) text files := by
  intro other hother
  obtain rfl := Option.some.inj hother
  exact ⟨after, h⟩

/-- A stage fails, or the changed document is there and can be delivered. -/
theorem setFails_or_setPrepared (files : FileTree) (input : ByteArray) (path value : String)
    (source : Source) (target : Target) (literal : Bool) (layout : Layout) :
    (∃ error, SetFails files input path value source target literal layout error) ∨
    ∃ file document place leaf,
      SetPrepared files input path value source target literal file document place leaf ∧
      Writable file ((document.set place leaf).document.text layout ++ "\n") files := by
  rcases target.goesTo_or_sourceless source with ⟨hsource, htarget⟩ | ⟨file, hgoes⟩
  · exact Or.inl ⟨_, .target hsource htarget⟩
  rcases htext : source.text files input with reason | text
  · exact Or.inl ⟨_, .source hgoes htext⟩
  rcases hdocument : Document.ofText text with reason | document
  · exact Or.inl ⟨_, .document hgoes htext hdocument⟩
  rcases denotes_or_malformed value literal with ⟨hliteral, reason, hvalue⟩ | ⟨leaf, hdenotes⟩
  · exact Or.inl ⟨_, .value hgoes htext hdocument hliteral hvalue⟩
  rcases hplace : Path.parse path with reason | place
  · exact Or.inl ⟨_, .path hgoes htext hdocument hdenotes hplace⟩
  rcases hset : (document.set place leaf).error? with _ | reason
  · have hprepared : SetPrepared files input path value source target literal file document place
        leaf := ⟨hgoes, ⟨text, htext, hdocument⟩, hdenotes, hplace, hset⟩
    rcases file with _ | name
    · exact Or.inr ⟨_, _, _, _, hprepared, fun name hname => nomatch hname⟩
    rcases hwrite : files.write name
        ((document.set place leaf).document.text layout ++ "\n").toUTF8 with reason | after
    · exact Or.inl ⟨_, .write hprepared hwrite⟩
    · exact Or.inr ⟨_, _, _, _, hprepared, writable_of_write hwrite⟩
  · exact Or.inl ⟨_, .set hgoes htext hdocument hdenotes hplace hset⟩

open World

/-- With the changed document at hand only its delivery is left. -/
theorem SetPrepared.perform_set {file : Option String} {document leaf : Document} {place : Path}
    (h : SetPrepared files input path value source target literal file document place leaf)
    (pretty : Bool) (notes : List Note) : ∃ more,
      World.perform ⟨files, input, notes⟩
          (host.set pretty path value source target literal) =
        World.perform ⟨files, input, more⟩
          (host.deliver file (rendered pretty (document.set place leaf).document)) := by
  obtain ⟨hgoes, ⟨text, htext, hdocument⟩, hdenotes, hplace, hset⟩ := h
  simp only [Host.set, perform_bind, perform_liftExcept, hgoes.targetFile_eq, perform_readDocument,
    htext, hdocument, Except.mapError, hdenotes.valueOperand_eq, pathOperand_of_parse hplace,
    perform_report, hset, perform_note]
  exact ⟨_, rfl⟩

/-- A run fails with the error of the first stage that fails, and the files are
as they were. -/
theorem SetFails.perform_set {error : RunError}
    (h : SetFails files input path value source target literal (layoutFor pretty) error)
    (notes : List Note) : ∃ more,
      World.perform ⟨files, input, notes⟩ (host.set pretty path value source target literal) =
        (.error error, ⟨files, input, more⟩) := by
  cases h with
  | target source_eq target_eq =>
    subst source_eq target_eq
    exact ⟨_, rfl⟩
  | source goes fails =>
    simp only [Host.set, perform_bind, perform_liftExcept, goes.targetFile_eq,
      perform_readDocument, fails]
    exact ⟨_, rfl⟩
  | document goes text_eq fails =>
    simp only [Host.set, perform_bind, perform_liftExcept, goes.targetFile_eq,
      perform_readDocument, text_eq, fails, Except.mapError]
    exact ⟨_, rfl⟩
  | value goes text_eq document_eq literal_eq fails =>
    subst literal_eq
    simp only [Host.set, perform_bind, perform_liftExcept, goes.targetFile_eq,
      perform_readDocument, text_eq, document_eq, valueOperand, if_neg Bool.false_ne_true, fails,
      Except.mapError]
    exact ⟨_, rfl⟩
  | path goes text_eq document_eq denotes fails =>
    simp only [Host.set, perform_bind, perform_liftExcept, goes.targetFile_eq,
      perform_readDocument, text_eq, document_eq, denotes.valueOperand_eq, pathOperand, fails,
      Except.mapError]
    exact ⟨_, rfl⟩
  | set goes text_eq document_eq denotes place_eq fails =>
    simp only [Host.set, perform_bind, perform_liftExcept, goes.targetFile_eq,
      perform_readDocument, text_eq, document_eq, Except.mapError, denotes.valueOperand_eq,
      pathOperand_of_parse place_eq, perform_report, fails, perform_throw]
    exact ⟨_, rfl⟩
  | write prepared fails =>
    obtain ⟨more, hperform⟩ := prepared.perform_set pretty notes
    refine ⟨more, ?_⟩
    rw [hperform, perform_deliver, rendered]
    simp only [fails]

/-- There is one first stage that fails. -/
theorem SetFails.unique {error other : RunError}
    (h : SetFails files input path value source target literal (layoutFor pretty) error)
    (hother : SetFails files input path value source target literal (layoutFor pretty) other) :
    error = other := by
  obtain ⟨_, hperform⟩ := h.perform_set []
  obtain ⟨_, hperform'⟩ := hother.perform_set []
  exact Except.error.inj (Prod.mk.inj (hperform.symm.trans hperform')).1

/-- The text is in the file that it was to go to, and nothing is printed; or it
is printed, and no file has changed. -/
def Delivered (file : Option String) (text : String) (before after : FileTree)
    (output : String) : Prop :=
  match file with
  | none => output = text ∧ after = before
  | some name => output = "" ∧ before.Overwritten name text.toUTF8 after

/-- A run in which no stage fails delivers the text of the changed document. -/
theorem SetPrepared.perform_set_delivered {file : Option String} {document leaf : Document}
    {place : Path}
    (h : SetPrepared files input path value source target literal file document place leaf)
    (hwrite : Writable file (rendered pretty (document.set place leaf).document) files)
    (notes : List Note) : ∃ output after,
      World.perform ⟨files, input, notes⟩ (host.set pretty path value source target literal) =
        (.ok output, after) ∧
      Delivered file (rendered pretty (document.set place leaf).document) files after.files
        output := by
  obtain ⟨more, hperform⟩ := h.perform_set pretty notes
  rw [hperform, perform_deliver]
  cases file with
  | none => exact ⟨_, _, rfl, rfl, rfl⟩
  | some name =>
    obtain ⟨after, hafter⟩ := hwrite name rfl
    dsimp only
    rw [hafter]
    exact ⟨_, _, rfl, rfl, FileTree.overwritten_of_write hafter⟩

/-- If the changed document can be delivered, no stage fails. -/
theorem SetPrepared.not_setFails {file : Option String} {document leaf : Document} {place : Path}
    (h : SetPrepared files input path value source target literal file document place leaf)
    (hwrite : Writable file (rendered pretty (document.set place leaf).document) files)
    (error : RunError) :
    ¬ SetFails files input path value source target literal (layoutFor pretty) error := by
  intro hfails
  obtain ⟨_, _, hperform, -⟩ := h.perform_set_delivered hwrite []
  obtain ⟨_, hfailed⟩ := hfails.perform_set []
  cases hperform.symm.trans hfailed

/-- What the stages give is determined by what they are given. -/
theorem SetPrepared.unique {file there : Option String} {document other leaf instead : Document}
    {place elsewhere : Path}
    (h : SetPrepared files input path value source target literal file document place leaf)
    (hother : SetPrepared files input path value source target literal there other elsewhere
      instead) : file = there ∧ document = other ∧ place = elsewhere ∧ leaf = instead := by
  obtain ⟨hgoes, ⟨text, htext, hdocument⟩, hdenotes, hplace, -⟩ := h
  obtain ⟨hgoes', ⟨text', htext', hdocument'⟩, hdenotes', hplace', -⟩ := hother
  obtain rfl : text = text' := Except.ok.inj (htext.symm.trans htext')
  exact ⟨Except.ok.inj (hgoes.targetFile_eq.symm.trans hgoes'.targetFile_eq),
    Except.ok.inj (hdocument.symm.trans hdocument'), Except.ok.inj (hplace.symm.trans hplace'),
    Except.ok.inj (hdenotes.valueOperand_eq.symm.trans hdenotes'.valueOperand_eq)⟩

/-! ## Whole command lines -/

theorem execute_of_ofArguments {arguments : List String} {invocation : Invocation}
    (h : Invocation.ofArguments arguments = .ok invocation) (setting : Option String)
    (files : FileTree) (input : ByteArray) :
    execute arguments setting files input =
      .ok (.ofRun (.choose setting invocation.verbose)
        (World.perform ⟨files, input, []⟩ (invocation.run host)).1
        (World.perform ⟨files, input, []⟩ (invocation.run host)).2) := by
  rw [execute, h]
  rfl

/-- The run has failed with the error: nothing is printed, no file has changed,
and the error is shown behind the log. -/
structure Ending.Failed (ending : Ending) (error : RunError) (before : FileTree) : Prop where
  code_eq : ending.code = 1
  output_eq : ending.output = ""
  files_eq : ending.files = before
  diagnostics_eq : ∃ log, ending.diagnostics = log ++ error.report

variable (files input path value source target literal layout) in
/-- How a command that sets a value ends.  If a stage fails, the error is that of
the first one.  Otherwise the changed document is where it was to go to, in the
given layout and with a line end. -/
def SetEnds (ending : Ending) : Prop :=
  (∃ error, ending.Failed error files ∧
    ∀ other, SetFails files input path value source target literal layout other ↔
      other = error) ∨
  ((∀ error, ¬ SetFails files input path value source target literal layout error) ∧
    ∃ file document place leaf,
      SetPrepared files input path value source target literal file document place leaf ∧
      ending.code = 0 ∧
      Delivered file ((document.set place leaf).document.text layout ++ "\n") files ending.files
        ending.output)

/-- A command that sets a value ends in one of the two ways. -/
theorem setEnds_of_execute {arguments : List String} {verbose : Bool} {setting : Option String}
    {ending : Ending}
    (h : Invocation.ofArguments arguments
      = .ok ⟨.set path value source target literal, pretty, verbose⟩)
    (hends : execute arguments setting files input = .ok ending) :
    SetEnds files input path value source target literal (layoutFor pretty) ending := by
  obtain rfl := Except.ok.inj ((execute_of_ofArguments h setting files input).symm.trans hends)
  rw [Invocation.run]
  dsimp only
  rcases setFails_or_setPrepared files input path value source target literal (layoutFor pretty)
    with ⟨error, hfails⟩ | ⟨file, document, place, leaf, hprepared, hwrite⟩
  · obtain ⟨more, hperform⟩ := hfails.perform_set []
    rw [hperform]
    refine Or.inl ⟨error, ⟨rfl, rfl, rfl, _, rfl⟩, fun other => ⟨fun hother => ?_, ?_⟩⟩
    · exact hother.unique hfails
    · rintro rfl
      exact hfails
  · obtain ⟨output, after, hperform, hdelivered⟩ := hprepared.perform_set_delivered hwrite []
    refine Or.inr ⟨hprepared.not_setFails hwrite, file, document, place, leaf, hprepared, ?_⟩
    rw [hperform]
    exact ⟨rfl, hdelivered⟩

theorem exists_layoutFor (layout : Layout) : ∃ pretty, layoutFor pretty = layout := by
  cases layout with
  | compact => exact ⟨false, rfl⟩
  | indented => exact ⟨true, rfl⟩

/-- The document is delivered if it can be. -/
theorem SetEnds.delivered {ending : Ending} {file : Option String} {document leaf : Document}
    {place : Path} (h : SetEnds files input path value source target literal layout ending)
    (hprepared : SetPrepared files input path value source target literal file document place leaf)
    (hwrite : Writable file ((document.set place leaf).document.text layout ++ "\n") files) :
    ending.code = 0 ∧
      Delivered file ((document.set place leaf).document.text layout ++ "\n") files ending.files
        ending.output := by
  obtain ⟨pretty, rfl⟩ := exists_layoutFor layout
  rcases h with ⟨error, -, hfirst⟩ | ⟨-, _, _, _, _, hother, hcode, hdelivered⟩
  · exact absurd ((hfirst error).2 rfl) (hprepared.not_setFails hwrite error)
  · obtain ⟨rfl, rfl, rfl, rfl⟩ := hprepared.unique hother
    exact ⟨hcode, hdelivered⟩

/-- A command that has got as far as the changed document delivers it, if the
file can be written. -/
theorem execute_set_of_prepared {arguments : List String} {verbose : Bool} {file : Option String}
    {document leaf : Document} {place : Path}
    (h : Invocation.ofArguments arguments
      = .ok ⟨.set path value source target literal, pretty, verbose⟩)
    (hprepared : SetPrepared files input path value source target literal file document place leaf)
    (hwrite : Writable file (rendered pretty (document.set place leaf).document) files)
    (setting : Option String) :
    ∃ ending, execute arguments setting files input = .ok ending ∧ ending.code = successCode ∧
      Delivered file (rendered pretty (document.set place leaf).document) files ending.files
        ending.output := by
  have hends := execute_of_ofArguments h setting files input
  exact ⟨_, hends, (setEnds_of_execute h hends).delivered hprepared hwrite⟩

theorem SetEnds.failed {ending : Ending} {error : RunError}
    (h : SetEnds files input path value source target literal layout ending)
    (hfails : SetFails files input path value source target literal layout error) :
    ending.Failed error files := by
  rcases h with ⟨first, hfailed, hfirst⟩ | ⟨hnone, -⟩
  · rw [(hfirst error).1 hfails]
    exact hfailed
  · exact absurd hfails (hnone error)

theorem ofRun_files (threshold : Threshold) (result : Except RunError String) (world : World) :
    (Ending.ofRun threshold result world).files = world.files := by
  cases result <;> rfl

/-- A command that sets a value either fails, with the error of the first stage
that fails and without a change to any file, or puts the changed document in one
place and leaves every other file as it was.  The other commands change no file,
however they end. -/
theorem execute_all_or_nothing {arguments : List String} {invocation : Invocation}
    (h : Invocation.ofArguments arguments = .ok invocation) (setting : Option String)
    (files : FileTree) (input : ByteArray) :
    ∃ ending, execute arguments setting files input = .ok ending ∧
      (∀ path value source target literal,
        invocation.task = .set path value source target literal →
          SetEnds files input path value source target literal
            (if invocation.pretty then .indented else .compact) ending) ∧
      ((∀ path value source target literal,
        invocation.task ≠ .set path value source target literal) → ending.files = files) := by
  obtain ⟨task, pretty, verbose⟩ := invocation
  have hends := execute_of_ofArguments h setting files input
  refine ⟨_, hends, ?_, fun hother => ?_⟩
  · intro path value source target literal htask
    obtain rfl : task = .set path value source target literal := htask
    exact setEnds_of_execute h hends
  · rw [ofRun_files]
    cases task with
    | get path source => exact keepsFiles_get pretty path source ⟨files, input, []⟩
    | set path value source target literal => exact absurd rfl (hother _ _ _ _ _)
    | paths source kind asJson =>
      exact keepsFiles_paths pretty source kind asJson ⟨files, input, []⟩
    | help => rfl

/-- The path to the second item of a list. -/
def second : Path := .single (.ofIndex 1)

theorem parse_second : Path.parse "1" = .ok second :=
  Path.parse_eq_ok_iff.2 (show second.text = "1" by decide)

/-- A list of one number. -/
def zeroList : Document := .array [.number (.integer 0 (by decide))]

theorem ofText_zeroList : Document.ofText "[0]" = .ok zeroList := by
  have hnumbers : zeroList.root.EachNumber Number.Rereads := by
    refine .array fun item hitem => ?_
    obtain rfl := List.mem_singleton.1 hitem
    exact .number (Number.rereads_integer 0 _)
  have htext : zeroList.text .compact = "[0]" := by decide
  exact Document.ofText_of_text_eq htext hnumbers (by decide)

/-- The list in a file. -/
def zeroFile : FileTree := ⟨[(["f"], .file "[0]".toUTF8)]⟩

theorem delivered_zeroList {target : Target} {file : Option String} {ending : Ending}
    (h : SetEnds zeroFile input "1" "true" (.file "f") target false .compact ending)
    (hgoes : target.GoesTo (.file "f") file) (hwrite : Writable file "[0,true]\n" zeroFile) :
    ending.code = 0 ∧ Delivered file "[0,true]\n" zeroFile ending.files ending.output := by
  have htrue : Document.ofText "true" = .ok (.bool true) :=
    Document.ofText_of_text_eq (show (Document.bool true).text .compact = "true" by decide)
      (.bool true) (by decide)
  have hprepared : SetPrepared zeroFile input "1" "true" (.file "f") target false file zeroList
      second (.bool true) :=
    ⟨hgoes, ⟨"[0]", text_of_read rfl _, ofText_zeroList⟩, .json htrue, parse_second, by decide⟩
  have htext : (zeroList.set second (.bool true)).document.text .compact ++ "\n" =
      "[0,true]\n" := by
    decide +kernel
  have hdelivered := h.delivered hprepared (htext ▸ hwrite)
  rwa [htext] at hdelivered

/-- An item is put into the list in the file: in place, or in another file.
Standard input is no place for it. -/
theorem execute_all_or_nothing_in_place :
    (∃ ending, execute ["set", "1", "true", "-i", "f", "--in-place"] none zeroFile
        ByteArray.empty = .ok ending ∧
      ending.code = 0 ∧ ending.output = "" ∧
      ending.files.read "f" = .ok "[0,true]\n".toUTF8) ∧
    (∃ ending, execute ["set", "1", "true", "-i", "f", "-o", "g"] none zeroFile
        ByteArray.empty = .ok ending ∧
      ending.code = 0 ∧ ending.output = "" ∧
      ending.files.read "g" = .ok "[0,true]\n".toUTF8 ∧
      ending.files.entry? ["f"] = some (.file "[0]".toUTF8)) ∧
    ∃ ending, execute ["set", "1", "true", "-i", "-", "--in-place"] none zeroFile
        "[0]".toUTF8 = .ok ending ∧
      ending.code = 1 ∧ ending.output = "" ∧ ending.files = zeroFile ∧
      ∃ log, ending.diagnostics = log ++ "Error: --in-place requires an input file\n" := by
  have hplaced : Invocation.ofArguments ["set", "1", "true", "-i", "f", "--in-place"] =
      .ok ⟨.set "1" "true" (.file "f") .source false, false, false⟩ := rfl
  have hmoved : Invocation.ofArguments ["set", "1", "true", "-i", "f", "-o", "g"] =
      .ok ⟨.set "1" "true" (.file "f") (.file "g") false, false, false⟩ := rfl
  have hunplaced : Invocation.ofArguments ["set", "1", "true", "-i", "-", "--in-place"] =
      .ok ⟨.set "1" "true" .standardInput .source false, false, false⟩ := rfl
  refine ⟨?_, ?_, ?_⟩
  · obtain ⟨ending, hends, hset, -⟩ := execute_all_or_nothing hplaced none zeroFile
      ByteArray.empty
    obtain ⟨hcode, houtput, hwritten⟩ := delivered_zeroList (hset _ _ _ _ _ rfl) (.source "f")
      (writable_of_write rfl)
    exact ⟨ending, hends, hcode, houtput, hwritten.read_eq⟩
  · obtain ⟨ending, hends, hset, -⟩ := execute_all_or_nothing hmoved none zeroFile
      ByteArray.empty
    obtain ⟨hcode, houtput, hwritten⟩ := delivered_zeroList (hset _ _ _ _ _ rfl) (.file _ "g")
      (writable_of_write rfl)
    obtain ⟨place, hplace, -, hothers⟩ := hwritten.exists_place
    obtain rfl : ["g"] = place := Except.ok.inj hplace
    exact ⟨ending, hends, hcode, houtput, hwritten.read_eq, hothers ["f"] (by decide)⟩
  · obtain ⟨ending, hends, hset, -⟩ := execute_all_or_nothing hunplaced none zeroFile
      "[0]".toUTF8
    have hfailed := (hset _ _ _ _ _ rfl).failed (.target rfl rfl)
    exact ⟨ending, hends, hfailed.code_eq, hfailed.output_eq, hfailed.files_eq,
      hfailed.diagnostics_eq⟩

end Set

end Dotted.Command
