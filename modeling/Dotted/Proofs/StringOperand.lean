import Dotted.Proofs.Readback

/-!
# Strings as operands

A string can be given to `set` in two ways: as it is, with `--string`, or as the
JSON text of the string.  Either operand stands for the string, since the JSON
text of a string is read as that string (`denotes_text`).

* `SetEnds.stored` says what a run that has not failed leaves behind: the value
  that the operand stands for, at the place that the path names, in the document
  that has been delivered.
* `execute_set_string_operands` puts the two operands side by side.  They end the
  command in the same way, because the value is all that a run takes from its
  operand (`Host.set_of_valueOperand_eq`), and what it has stored is the string.
-/

namespace Dotted.Command

open Json

/-- The JSON text of a string stands for the string. -/
theorem denotes_text (raw : String) (layout : Layout) :
    Denotes ((Document.string raw).text layout) false (.string raw) :=
  .json (Document.ofText_of_text_eq rfl (.string raw) (Nat.zero_lt_succ _))

/-- Operands that give the same value make no difference to a run. -/
theorem Host.set_of_valueOperand_eq {m : Type → Type} [Monad m] (host : Host m)
    {value other : String} {literal plain : Bool}
    (h : valueOperand value literal = valueOperand other plain) (pretty : Bool) (path : String)
    (source : Source) (target : Target) :
    host.set pretty path value source target literal =
      host.set pretty path other source target plain := by
  unfold Host.set
  rw [h]

theorem execute_eq_of_valueOperand_eq {arguments others : List String} {path value other : String}
    {source : Source} {target : Target} {literal plain pretty verbose : Bool}
    (h : Invocation.ofArguments arguments =
      .ok ⟨.set path value source target literal, pretty, verbose⟩)
    (hother : Invocation.ofArguments others =
      .ok ⟨.set path other source target plain, pretty, verbose⟩)
    (hvalue : valueOperand value literal = valueOperand other plain) (setting : Option String)
    (files : FileTree) (input : ByteArray) :
    execute arguments setting files input = execute others setting files input := by
  rw [execute_of_ofArguments h, execute_of_ofArguments hother, Invocation.run, Invocation.run]
  dsimp only
  rw [World.host.set_of_valueOperand_eq hvalue]

section Stored

variable {files : FileTree} {input : ByteArray} {path value : String} {source : Source}
  {target : Target} {literal : Bool} {leaf : Document}

/-- All that counts of the operand is what it stands for. -/
theorem SetPrepared.of_denotes {file : Option String} {document : Document} {place : Path}
    (h : SetPrepared files input path value source target literal file document place leaf)
    {other : String} {plain : Bool} (hother : Denotes other plain leaf) :
    SetPrepared files input path other source target plain file document place leaf :=
  { h with denotes := hother }

/-- A run that has not failed has delivered a document in which the value is
found where the path leads. -/
theorem SetEnds.stored {layout : Layout} {ending : Ending}
    (h : SetEnds files input path value source target literal layout ending)
    (hdenotes : Denotes value literal leaf) (hcode : ending.code = 0) :
    ∃ file document place,
      SetPrepared files input path value source target literal file document place leaf ∧
      ((document.set place leaf).document.get place).value = some leaf ∧
      Delivered file ((document.set place leaf).document.text layout ++ "\n") files ending.files
        ending.output := by
  rcases h with ⟨error, hfailed, -⟩ | ⟨-, file, document, place, stored, hprepared, -, hdelivered⟩
  · exact absurd (hfailed.code_eq.symm.trans hcode) (by decide)
  · obtain rfl : stored = leaf :=
      Except.ok.inj (hprepared.denotes.valueOperand_eq.symm.trans hdenotes.valueOperand_eq)
    have hfound := follow_written (Document.written_eq_ok_of_accepted hprepared.set_ok)
    exact ⟨file, document, place, hprepared, Document.value_get_eq_some_iff.2 hfound, hdelivered⟩

end Stored

/-- A string and its JSON text: either operand gives the string, and the command
ends in the same way.  If it does not fail, the string is at the path in the
document that has been delivered. -/
theorem execute_set_string_operands {literalArguments jsonArguments : List String}
    {path raw : String} {layout : Layout} {source : Source} {target : Target}
    {pretty verbose : Bool}
    (hliteral : Invocation.ofArguments literalArguments =
      .ok ⟨.set path raw source target true, pretty, verbose⟩)
    (hjson : Invocation.ofArguments jsonArguments =
      .ok ⟨.set path ((Document.string raw).text layout) source target false, pretty, verbose⟩) :
    valueOperand raw true = .ok (.string raw) ∧
      valueOperand ((Document.string raw).text layout) false = .ok (.string raw) ∧
      ∀ (setting : Option String) (files : FileTree) (input : ByteArray), ∃ ending,
        execute literalArguments setting files input = .ok ending ∧
          execute jsonArguments setting files input = .ok ending ∧
          SetEnds files input path raw source target true
            (if pretty then .indented else .compact) ending ∧
          SetEnds files input path ((Document.string raw).text layout) source target false
            (if pretty then .indented else .compact) ending ∧
          (ending.code = 0 → ∃ file document place,
            SetPrepared files input path raw source target true file document place
              (.string raw) ∧
            SetPrepared files input path ((Document.string raw).text layout) source target false
              file document place (.string raw) ∧
            ((document.set place (.string raw)).document.get place).value = some (.string raw) ∧
            Delivered file ((document.set place (.string raw)).document.text
              (if pretty then .indented else .compact) ++ "\n") files ending.files
              ending.output) := by
  have hraw := Denotes.literal raw
  have htext := denotes_text raw layout
  have hvalue := htext.valueOperand_eq.trans hraw.valueOperand_eq.symm
  refine ⟨hraw.valueOperand_eq, htext.valueOperand_eq, fun setting files input => ?_⟩
  have hends := execute_of_ofArguments hliteral setting files input
  have hends' := (execute_eq_of_valueOperand_eq hjson hliteral hvalue setting files input).trans
    hends
  have hset := setEnds_of_execute hliteral hends
  refine ⟨_, hends, hends', hset, setEnds_of_execute hjson hends', fun hcode => ?_⟩
  obtain ⟨file, document, place, hprepared, hfound, hdelivered⟩ := hset.stored hraw hcode
  exact ⟨file, document, place, hprepared, hprepared.of_denotes htext, hfound, hdelivered⟩

/-- Text with characters that a JSON text has to escape, and one that it need
not. -/
def awkward : String := "-\"\\\n\u0001\u00fc"

/-- The same as it stands in a JSON text. -/
def escaped : String := "\"-\\\"\\\\\\n\\u0001\u00fc\""

theorem text_awkward : (Document.string awkward).text .compact = escaped := by decide +kernel

theorem execute_set_string_operands_awkward :
    ∃ ending,
      execute ["set", "--string", "-o", "out", "--", "1", awkward] none ⟨[]⟩ "[1.5]".toUTF8
        = .ok ending ∧
      execute ["set", "-o", "out", "--", "1", escaped] none ⟨[]⟩ "[1.5]".toUTF8 = .ok ending ∧
      ending.code = 0 ∧ ending.output = "" ∧
      ending.files.read "out" = .ok ("[1.5," ++ escaped ++ "]\n").toUTF8 := by
  have hliteral : Invocation.ofArguments ["set", "--string", "-o", "out", "--", "1", awkward] =
      .ok ⟨.set "1" awkward .standardInput (.file "out") true, false, false⟩ := rfl
  obtain ⟨-, -, hsame⟩ := execute_set_string_operands hliteral
    (show Invocation.ofArguments
        ["set", "-o", "out", "--", "1", (Document.string awkward).text .compact] = _ from rfl)
  obtain ⟨ending, hends, hends', hset, -, hstored⟩ := hsame none ⟨[]⟩ "[1.5]".toUTF8
  have hprepared := setPrepared_second awkward
  obtain ⟨hcode, -⟩ := hset.delivered hprepared (writable_of_write rfl)
  obtain ⟨file, document, place, hother, -, -, hdelivered⟩ := hstored hcode
  obtain ⟨rfl, rfl, rfl, -⟩ := hprepared.unique hother
  have htext : (measured.set second (.string awkward)).document.text .compact ++ "\n" =
      "[1.5," ++ escaped ++ "]\n" := by
    decide +kernel
  obtain ⟨houtput, hwritten⟩ := hdelivered
  rw [text_awkward] at hends'
  exact ⟨ending, hends, hends', hcode, houtput, htext ▸ hwritten.read_eq⟩

end Dotted.Command
