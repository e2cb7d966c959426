import Dotted.Json.Printer
import Dotted.Json.Reader
import Dotted.Proofs.Numeral
import Dotted.Proofs.StringLiteral

/-!
# Documents that are written and read again

A document is written as one text and read token by token.  What comes of it
does not depend on the layout: blanks between tokens are dropped, strings come
back as they were, and the reader meets the same values in the same order.  It
can fail for two reasons only.  A number may not be read from its own text, and
containers may be nested more deeply than a reader follows them.

* `Json.reread` says what comes of a value: the document that is read, or the
  cause of the failure, where a number of containers may be opened within each
  other.
* `Reader.outcome_render` is the induction over the value, in any state that
  awaits a value, and `Document.ofTextWithin_text` the result for a whole text.
* `Json.nesting` counts the containers around each other.  A document whose
  numbers are read from their texts comes back if it is nested within the limit
  (`Document.ofText_text`), and is refused for its nesting otherwise
  (`Document.ofText_text_of_le_nesting`).
-/

namespace Dotted

namespace Json

/-! ## What comes of a value -/

/-- Every number in the value has the property. -/
inductive EachNumber (property : Number → Prop) : Json → Prop
  | null : EachNumber property .null
  | bool (value : Bool) : EachNumber property (.bool value)
  | number {value : Number} (holds : property value) : EachNumber property (.number value)
  | string (value : String) : EachNumber property (.string value)
  | array {items : List Json} (items_hold : ∀ item ∈ items, EachNumber property item) :
      EachNumber property (.array items)
  | object {members : Members Json}
      (values_hold : ∀ member ∈ members, EachNumber property member.2) :
      EachNumber property (.object members)

theorem EachNumber.imp {property other : Number → Prop} {value : Json}
    (himp : ∀ number, property number → other number) (h : value.EachNumber property) :
    value.EachNumber other := by
  induction h with
  | null => exact .null
  | bool value => exact .bool value
  | number holds => exact .number (himp _ holds)
  | string value => exact .string value
  | array _ ih => exact .array ih
  | object _ ih => exact .object ih

theorem EachNumber.items {property : Number → Prop} {items : List Json}
    (h : (Json.array items).EachNumber property) : ∀ item ∈ items, item.EachNumber property := by
  cases h; assumption

theorem EachNumber.values {property : Number → Prop} {members : Members Json}
    (h : (Json.object members).EachNumber property) :
    ∀ member ∈ members, member.2.EachNumber property := by
  cases h; assumption

mutual

/-- What is read from the text of a value, where `room` containers may be opened
within each other. -/
def reread (room : Nat) : Json → Except Cause Document
  | .null => .ok .null
  | .bool value => .ok (.bool value)
  | .number value => value.reread.map .number
  | .string value => .ok (.string value)
  | .array items =>
    if room = 0 then .error .nestingLimit else (rereadItems (room - 1) items).map .array
  | .object members =>
    if room = 0 then .error .nestingLimit else (rereadMembers (room - 1) members).map .object

/-- What is read from the texts of items; the first failure counts. -/
def rereadItems (room : Nat) : List Json → Except Cause (List Document)
  | [] => .ok []
  | item :: rest =>
    (item.reread room).bind fun document => (rereadItems room rest).map (document :: ·)

/-- What is read from the texts of members; the first failure counts. -/
def rereadMembers (room : Nat) : List (String × Json) → Except Cause (List (String × Document))
  | [] => .ok []
  | (key, value) :: rest =>
    (value.reread room).bind fun document => (rereadMembers room rest).map ((key, document) :: ·)

end

/-! ## Tokens of a written text -/

variable {c : Char} {text rest : List Char}

theorem Token.scan_blank (h : isBlank c = true) : Token.scan (c :: rest) = Token.scan rest := by
  rw [Token.scan, if_pos h]

theorem Token.scan_cons (h : isBlank c = false) :
    Token.scan (c :: rest)
      = ⟨(Lexeme.read c rest).1, c :: rest⟩ :: Token.scan (Lexeme.read c rest).2 := by
  rw [Token.scan, h, if_neg Bool.false_ne_true]

theorem Token.scan_blanks (h : ∀ c ∈ text, isBlank c = true) :
    Token.scan (text ++ rest) = Token.scan rest := by
  induction text with
  | nil => rfl
  | cons c text ih =>
    rw [List.cons_append, Token.scan_blank (h c List.mem_cons_self)]
    exact ih fun d hd => h d (List.mem_cons_of_mem c hd)

theorem Token.scan_lineBreak (layout : Layout) (depth : Nat) :
    Token.scan (layout.lineBreak depth ++ rest) = Token.scan rest := by
  refine Token.scan_blanks fun c hc => ?_
  cases layout with
  | compact => cases hc
  | indented =>
    rcases List.mem_cons.1 hc with rfl | hspace
    · rfl
    · rw [List.eq_of_mem_replicate hspace]
      rfl

theorem Token.scan_space (layout : Layout) :
    Token.scan (layout.space ++ rest) = Token.scan rest := by
  cases layout with
  | compact => rfl
  | indented => exact Token.scan_blank rfl

/-- A character of which a numeral consists or that starts one is no other
token. -/
theorem ne_of_starts (h : c = '-' ∨ c.isDigit = true) {d : Char} (hminus : d ≠ '-')
    (hdigit : d.isDigit = false) : c ≠ d := by
  rintro rfl
  rcases h with hsign | hd
  · exact hminus hsign
  · rw [hdigit] at hd
    exact Bool.false_ne_true hd

theorem Lexeme.read_numeral (h : c = '-' ∨ c.isDigit = true) :
    Lexeme.read c rest =
      Lexeme.ofRead (fun number => .scalar (.number number)) false (Numeral.read (c :: rest)) := by
  have hne : ∀ d : Char, d ≠ '-' → d.isDigit = false → c ≠ d := fun _ => ne_of_starts h
  have hsymbol : Lexeme.symbol? c = none := by
    simp only [Lexeme.symbol?, hne '[' (by decide) rfl, hne ']' (by decide) rfl,
      hne '{' (by decide) rfl, hne '}' (by decide) rfl, hne ',' (by decide) rfl,
      hne ':' (by decide) rfl, if_false]
  have hword : Lexeme.word? c = none := by
    simp only [Lexeme.word?, hne 'n' (by decide) rfl, hne 't' (by decide) rfl,
      hne 'f' (by decide) rfl, if_false]
  rw [Lexeme.read, hsymbol, hword]
  dsimp only
  rw [if_neg (hne '"' (by decide) rfl), if_pos h]

theorem isBlank_of_starts (h : c = '-' ∨ c.isDigit = true) : isBlank c = false := by
  have hne : ∀ d : Char, d ≠ '-' → d.isDigit = false → c ≠ d := fun _ => ne_of_starts h
  simp [isBlank, hne ' ' (by decide) rfl, hne '\t' (by decide) rfl, hne '\n' (by decide) rfl,
    hne '\r' (by decide) rfl]

/-- A string literal is one token. -/
theorem Token.scan_write (text : String) :
    Token.scan (StringLiteral.write text.toList ++ rest)
      = ⟨.text text, StringLiteral.write text.toList ++ rest⟩ :: Token.scan rest := by
  have hwrite : StringLiteral.write text.toList ++ rest
      = '"' :: (text.toList.flatMap StringLiteral.writeChar ++ '"' :: rest) := by
    simp [StringLiteral.write]
  have hread : Lexeme.read '"' (text.toList.flatMap StringLiteral.writeChar ++ '"' :: rest)
      = (.text text, rest) := by
    show Lexeme.ofRead _ true (StringLiteral.read _) = _
    rw [StringLiteral.read_write]
    show (Lexeme.text (String.ofList text.toList), rest) = _
    rw [String.ofList_toList]
  rw [hwrite, Token.scan_cons rfl, hread]

/-! ## Reading a value in its place -/

namespace Reader

variable {limit : Nat} {state : State} {frames : List Frame} {token : Token} {tokens : List Token}

/-- What comes of a list of tokens: the document, or the cause of the failure. -/
def outcome (limit : Nat) (state : State) (tokens : List Token) : Except Cause Document :=
  (run limit state tokens).mapError Fault.cause

theorem outcome_of_step_eq_ok {next : State} (h : state.step limit token = .ok next) :
    outcome limit state (token :: tokens) = outcome limit next tokens := by
  rw [outcome, run, h]
  rfl

theorem outcome_of_step_eq_error {fault : Fault} (h : state.step limit token = .error fault) :
    outcome limit state (token :: tokens) = .error fault.cause := by
  rw [outcome, run, h]
  rfl

/-- The state takes the next token for the start of a value inside of the
containers `frames`, unless it ends an array. -/
def State.Awaits (limit : Nat) (state : State) (frames : List Frame) : Prop :=
  ∀ token : Token, token.lexeme ≠ .closeArray → state.step limit token = begin limit frames token

theorem awaits_value : State.Awaits limit ⟨.value, frames⟩ frames := fun _ _ => rfl

theorem awaits_firstItem : State.Awaits limit ⟨.firstItem, frames⟩ (.item [] :: frames) := by
  intro token hclose
  obtain ⟨lexeme, start⟩ := token
  cases lexeme with
  | closeArray => exact absurd rfl hclose
  | _ => rfl

theorem awaits_nextItem (items : List Document) :
    State.Awaits limit ⟨.nextItem items, frames⟩ (.item items :: frames) := by
  intro token hclose
  obtain ⟨lexeme, start⟩ := token
  cases lexeme with
  | closeArray => exact absurd rfl hclose
  | _ => rfl

theorem outcome_begin {next : State} (hstate : state.Awaits limit frames)
    (htoken : token.lexeme ≠ .closeArray) (hbegin : begin limit frames token = .ok next) :
    outcome limit state (token :: tokens) = outcome limit next tokens :=
  outcome_of_step_eq_ok ((hstate token htoken).trans hbegin)

/-- A container is entered unless no more may be opened. -/
theorem outcome_enter {expected : Expected} (hstate : state.Awaits limit frames)
    (htoken : token.lexeme ≠ .closeArray)
    (hbegin : begin limit frames token = enter limit expected frames token) :
    outcome limit state (token :: tokens) =
      if limit - 1 - frames.length = 0 then .error .nestingLimit
      else outcome limit ⟨expected, frames⟩ tokens := by
  rw [← hstate token htoken, enter] at hbegin
  by_cases hroom : frames.length + 1 < limit
  · rw [if_pos hroom] at hbegin
    rw [if_neg (by omega), outcome_of_step_eq_ok hbegin]
  · rw [if_neg hroom] at hbegin
    rw [if_pos (by omega), outcome_of_step_eq_error hbegin]
    rfl

/-- A number is read from its text, or the reader fails with its cause. -/
theorem outcome_number {number : Number} (hreadable : number.Readable)
    (hstate : state.Awaits limit frames) (hrest : Numeral.Ends rest) :
    outcome limit state (Token.scan (number.text.toList ++ rest)) =
      number.reread.bind fun again =>
        outcome limit (deliver (.number again) frames) (Token.scan rest) := by
  obtain ⟨c, tail, htext, hstarts⟩ := hreadable.starts
  have hread := hreadable.read_append rest hrest
  rw [htext, List.cons_append, Token.scan_cons (isBlank_of_starts hstarts),
    Lexeme.read_numeral hstarts]
  rw [htext, List.cons_append] at hread
  cases hnumeral : Numeral.read (c :: (tail ++ rest)) with
  | error fault =>
    rw [hnumeral] at hread
    cases hagain : number.reread with
    | ok again =>
      rw [hagain] at hread
      cases hread
    | error cause =>
      rw [hagain] at hread
      obtain rfl : fault.cause = cause := Except.error.inj hread
      refine outcome_of_step_eq_error ?_
      rw [hstate _ Lexeme.noConfusion]
      rfl
  | ok found =>
    obtain ⟨value, left⟩ := found
    rw [hnumeral] at hread
    cases hagain : number.reread with
    | error cause =>
      rw [hagain] at hread
      cases hread
    | ok again =>
      rw [hagain] at hread
      obtain ⟨rfl, rfl⟩ := Prod.mk.inj (Except.ok.inj hread)
      exact outcome_begin hstate Lexeme.noConfusion rfl

/-! ### Containers -/

theorem ends_lineBreak {close : Char}
    (h : close.isDigit = false ∧ close ≠ '.' ∧ Numeral.isExponentMark close = false)
    (layout : Layout) (depth : Nat) (rest : List Char) :
    Numeral.Ends (layout.lineBreak depth ++ close :: rest) := by
  cases layout with
  | compact => exact Numeral.ends_cons h rest
  | indented => exact Numeral.ends_cons ⟨rfl, by decide, rfl⟩ _

theorem ends_renderItems (layout : Layout) (depth : Nat) (items : List Json)
    (hrest : Numeral.Ends rest) : Numeral.Ends (renderItems layout depth items rest) := by
  cases items with
  | nil => exact hrest
  | cons item items => exact Numeral.ends_cons ⟨rfl, by decide, rfl⟩ _

theorem ends_renderMembers (layout : Layout) (depth : Nat) (members : List (String × Json))
    (hrest : Numeral.Ends rest) : Numeral.Ends (renderMembers layout depth members rest) := by
  cases members with
  | nil => exact hrest
  | cons member members => exact Numeral.ends_cons ⟨rfl, by decide, rfl⟩ _

theorem bind_map {ε α β γ : Type} (result : Except ε α) (f : α → β) (g : β → Except ε γ) :
    (result.map f).bind g = result.bind fun value => g (f value) := by
  cases result <;> rfl

theorem bind_bind {ε α β γ : Type} (result : Except ε α) (f : α → Except ε β)
    (g : β → Except ε γ) : (result.bind f).bind g = result.bind fun value => (f value).bind g := by
  cases result <;> rfl

theorem bind_ite_error {ε α β : Type} {condition : Prop} [Decidable condition] (error : ε)
    (result : Except ε α) (f : α → Except ε β) :
    (if condition then Except.error error else result).bind f =
      if condition then Except.error error else result.bind f := by
  split <;> rfl

theorem outcome_itemEnd_comma (before : List Document) (start : List Char) :
    outcome limit ⟨.itemEnd before, frames⟩ (⟨.comma, start⟩ :: tokens) =
      outcome limit ⟨.nextItem before, frames⟩ tokens := outcome_of_step_eq_ok rfl

theorem outcome_memberEnd_comma (before : List (String × Document)) (start : List Char) :
    outcome limit ⟨.memberEnd before, frames⟩ (⟨.comma, start⟩ :: tokens) =
      outcome limit ⟨.nextKey before, frames⟩ tokens := outcome_of_step_eq_ok rfl

theorem outcome_colon (before : List (String × Document)) (key : String) (start : List Char) :
    outcome limit ⟨.colon before key, frames⟩ (⟨.colon, start⟩ :: tokens) =
      outcome limit ⟨.value, .member before key :: frames⟩ tokens := outcome_of_step_eq_ok rfl

/-- A key is read up to the value after it. -/
theorem outcome_renderKey (layout : Layout) (key : String) (members : List (String × Document))
    {expected : Expected}
    (hstate : ∀ token : Token, token.lexeme = .text key →
      State.step limit ⟨expected, frames⟩ token = .ok ⟨.colon members key, frames⟩) :
    outcome limit ⟨expected, frames⟩ (Token.scan (renderKey layout key ++ rest)) =
      outcome limit ⟨.value, .member members key :: frames⟩ (Token.scan rest) := by
  have htext : renderKey layout key ++ rest
      = StringLiteral.write key.toList ++ (':' :: (layout.space ++ rest)) := by
    simp [renderKey]
  rw [htext, Token.scan_write, outcome_of_step_eq_ok (hstate _ rfl), Token.scan_cons rfl]
  refine (outcome_colon members key _).trans ?_
  exact congrArg _ (Token.scan_space layout)

mutual

/-- Where a value is awaited, its text is read as what comes of the value.  The
induction is on the value, and the open containers around it vary. -/
theorem outcome_render (layout : Layout) (depth : Nat) (value : Json)
    (hreadable : value.EachNumber Number.Readable) (state : State) (frames : List Frame)
    (hstate : state.Awaits limit frames) (rest : List Char) (hrest : Numeral.Ends rest) :
    outcome limit state (Token.scan (value.render layout depth rest)) =
      (value.reread (limit - 1 - frames.length)).bind fun document =>
        outcome limit (deliver document frames) (Token.scan rest) := by
  cases value with
  | null =>
    rw [render, Token.scan_cons rfl]
    exact outcome_begin hstate Lexeme.noConfusion rfl
  | bool value =>
    cases value with
    | true =>
      rw [render, Token.scan_cons rfl]
      exact outcome_begin hstate Lexeme.noConfusion rfl
    | false =>
      rw [render, Token.scan_cons rfl]
      exact outcome_begin hstate Lexeme.noConfusion rfl
  | number number =>
    cases hreadable with
    | number hnumber =>
      rw [render, reread, bind_map]
      exact outcome_number hnumber hstate hrest
  | string value =>
    rw [render, Token.scan_write]
    exact outcome_begin hstate Lexeme.noConfusion rfl
  | array items =>
    rw [reread, bind_ite_error, bind_map]
    cases items with
    | nil =>
      rw [render, Token.scan_cons rfl, outcome_enter hstate Lexeme.noConfusion rfl]
      refine congrArg (ite _ _) ?_
      show outcome limit _ (Token.scan (']' :: rest)) = _
      rw [Token.scan_cons rfl, rereadItems]
      exact outcome_of_step_eq_ok rfl
    | cons first items =>
      have hitems := hreadable.items
      rw [render, List.cons_append, Token.scan_cons rfl,
        outcome_enter hstate Lexeme.noConfusion rfl]
      refine congrArg (ite _ _) ?_
      rw [rereadItems, bind_bind]
      refine (congrArg _ (Token.scan_lineBreak layout (depth + 1))).trans ?_
      rw [outcome_render layout (depth + 1) first (hitems first List.mem_cons_self) _ _
        awaits_firstItem _ (ends_renderItems _ _ _ (ends_lineBreak (by decide) _ _ _))]
      refine congrArg (Except.bind _) (funext fun document => ?_)
      rw [bind_map, deliver, outcome_renderItems layout depth items
        (fun item hitem => hitems item (List.mem_cons_of_mem _ hitem))]
      rfl
  | object members =>
    rw [reread, bind_ite_error, bind_map]
    cases members with
    | nil =>
      rw [render, Token.scan_cons rfl, outcome_enter hstate Lexeme.noConfusion rfl]
      refine congrArg (ite _ _) ?_
      show outcome limit _ (Token.scan ('}' :: rest)) = _
      rw [Token.scan_cons rfl, rereadMembers]
      exact outcome_of_step_eq_ok rfl
    | cons first members =>
      obtain ⟨key, first⟩ := first
      have hvalues := hreadable.values
      rw [render, List.append_assoc, List.cons_append, Token.scan_cons rfl,
        outcome_enter hstate Lexeme.noConfusion rfl]
      refine congrArg (ite _ _) ?_
      rw [rereadMembers, bind_bind]
      refine (congrArg _ (Token.scan_lineBreak layout (depth + 1))).trans ?_
      rw [outcome_renderKey layout key [] (fun _ htoken => by
        simp only [State.step, beginKey, htoken])]
      rw [outcome_render layout (depth + 1) first (hvalues _ List.mem_cons_self) _ _
        awaits_value _ (ends_renderMembers _ _ _ (ends_lineBreak (by decide) _ _ _))]
      refine congrArg (Except.bind _) (funext fun document => ?_)
      rw [bind_map, deliver, outcome_renderMembers layout depth members
        (fun member hmember => hvalues member (List.mem_cons_of_mem _ hmember))]
      rfl

/-- After an item, the other items are read up to the end of the array. -/
theorem outcome_renderItems (layout : Layout) (depth : Nat) (items : List Json)
    (hreadable : ∀ item ∈ items, item.EachNumber Number.Readable) (before : List Document)
    (frames : List Frame) (rest : List Char) :
    outcome limit ⟨.itemEnd before, frames⟩
        (Token.scan
          (renderItems layout (depth + 1) items (layout.lineBreak depth ++ ']' :: rest))) =
      (rereadItems (limit - 1 - frames.length - 1) items).bind fun documents =>
        outcome limit (deliver (.array (before.reverse ++ documents)) frames)
          (Token.scan rest) := by
  cases items with
  | nil =>
    rw [renderItems, Token.scan_lineBreak, Token.scan_cons rfl, rereadItems]
    refine (outcome_of_step_eq_ok rfl).trans ?_
    show _ = outcome limit (deliver (.array (before.reverse ++ [])) frames) _
    rw [List.append_nil]
    rfl
  | cons item items =>
    rw [renderItems, List.cons_append, Token.scan_cons rfl, rereadItems, bind_bind]
    refine (outcome_itemEnd_comma before _).trans ?_
    refine (congrArg _ (Token.scan_lineBreak layout (depth + 1))).trans ?_
    rw [outcome_render layout (depth + 1) item (hreadable item List.mem_cons_self) _ _
      (awaits_nextItem before) _ (ends_renderItems _ _ _ (ends_lineBreak (by decide) _ _ _))]
    refine congrArg (Except.bind _) (funext fun document => ?_)
    rw [bind_map, deliver, outcome_renderItems layout depth items
      (fun item hitem => hreadable item (List.mem_cons_of_mem _ hitem))]
    simp only [List.reverse_cons, List.append_assoc, List.singleton_append]

/-- After a member, the other members are read up to the end of the object. -/
theorem outcome_renderMembers (layout : Layout) (depth : Nat) (members : List (String × Json))
    (hreadable : ∀ member ∈ members, member.2.EachNumber Number.Readable)
    (before : List (String × Document)) (frames : List Frame) (rest : List Char) :
    outcome limit ⟨.memberEnd before, frames⟩
        (Token.scan
          (renderMembers layout (depth + 1) members (layout.lineBreak depth ++ '}' :: rest))) =
      (rereadMembers (limit - 1 - frames.length - 1) members).bind fun documents =>
        outcome limit (deliver (.object (before.reverse ++ documents)) frames)
          (Token.scan rest) := by
  cases members with
  | nil =>
    rw [renderMembers, Token.scan_lineBreak, Token.scan_cons rfl, rereadMembers]
    refine (outcome_of_step_eq_ok rfl).trans ?_
    show _ = outcome limit (deliver (.object (before.reverse ++ [])) frames) _
    rw [List.append_nil]
    rfl
  | cons member members =>
    obtain ⟨key, value⟩ := member
    rw [renderMembers, List.append_assoc, List.cons_append, Token.scan_cons rfl, rereadMembers,
      bind_bind]
    refine (outcome_memberEnd_comma before _).trans ?_
    refine (congrArg _ (Token.scan_lineBreak layout (depth + 1))).trans ?_
    rw [outcome_renderKey layout key before (fun _ htoken => by
      simp only [State.step, beginKey, htoken])]
    rw [outcome_render layout (depth + 1) value (hreadable _ List.mem_cons_self) _ _
      awaits_value _ (ends_renderMembers _ _ _ (ends_lineBreak (by decide) _ _ _))]
    refine congrArg (Except.bind _) (funext fun document => ?_)
    rw [bind_map, deliver, outcome_renderMembers layout depth members
      (fun member hmember => hreadable member (List.mem_cons_of_mem _ hmember))]
    simp only [List.reverse_cons, List.append_assoc, List.singleton_append]

end

end Reader

/-! ## Nested containers -/

mutual

/-- How many containers a value has around each other. -/
def nesting : Json → Nat
  | .array items => nestingItems items + 1
  | .object members => nestingMembers members + 1
  | _ => 0

/-- How many containers the most nested item has around each other. -/
def nestingItems : List Json → Nat
  | [] => 0
  | item :: rest => Nat.max item.nesting (nestingItems rest)

/-- How many containers the most nested value has around each other. -/
def nestingMembers : List (String × Json) → Nat
  | [] => 0
  | (_, value) :: rest => Nat.max value.nesting (nestingMembers rest)

end

theorem nestingItems_le_iff {items : List Json} {room : Nat} :
    nestingItems items ≤ room ↔ ∀ item ∈ items, item.nesting ≤ room := by
  induction items with
  | nil => exact ⟨fun _ _ hitem => absurd hitem List.not_mem_nil, fun _ => Nat.zero_le room⟩
  | cons item rest ih =>
    rw [List.forall_mem_cons, ← ih]
    exact Nat.max_le

theorem nestingMembers_le_iff {members : List (String × Json)} {room : Nat} :
    nestingMembers members ≤ room ↔ ∀ member ∈ members, member.2.nesting ≤ room := by
  induction members with
  | nil => exact ⟨fun _ _ hmember => absurd hmember List.not_mem_nil, fun _ => Nat.zero_le room⟩
  | cons member rest ih =>
    rw [List.forall_mem_cons, ← ih]
    exact Nat.max_le

/-- Members in order are what their list is sorted into. -/
theorem ofList_of_sorted {members : Members Json} (h : Members.Sorted members) :
    Members.ofList members = members := by
  induction members with
  | nil => rfl
  | cons first rest ih =>
    obtain ⟨hfirst, hrest⟩ := List.pairwise_cons.1 h
    show Members.insertIfNew first.1 first.2 (Members.ofList rest) = _
    rw [ih hrest]
    cases rest with
    | nil => rfl
    | cons second rest =>
      have hlt : first.1 < second.1 := hfirst second List.mem_cons_self
      have hnot : ¬ second.1 < first.1 := fun hgt => String.lt_irrefl _ (String.lt_trans hlt hgt)
      have hne : ¬ second.1 = first.1 := fun heq => String.lt_irrefl _ (heq ▸ hlt)
      rw [Members.insertIfNew, Members.update, if_neg hnot, if_neg hne]
      rfl

mutual

theorem exists_reread_of_nesting_le {value : Json} {room : Nat} (hordered : value.Ordered)
    (hnumbers : value.EachNumber Number.Rereads) (h : value.nesting ≤ room) :
    ∃ document, value.reread room = .ok document ∧ document.root = value := by
  cases value with
  | null => exact ⟨_, rfl, rfl⟩
  | bool value => exact ⟨_, rfl, rfl⟩
  | string value => exact ⟨_, rfl, rfl⟩
  | number number =>
    cases hnumbers with
    | number hnumber => exact ⟨.number number, by rw [reread, hnumber.reread]; rfl, rfl⟩
  | array items =>
    rw [nesting] at h
    obtain ⟨documents, hdocuments, hroots⟩ :=
      exists_rereadItems_of_nesting_le hordered.items hnumbers.items (Nat.le_sub_one_of_lt h)
    refine ⟨.array documents, ?_, congrArg Json.array hroots⟩
    rw [reread, if_neg (by omega), hdocuments]
    rfl
  | object members =>
    rw [nesting] at h
    obtain ⟨documents, hdocuments, hroots⟩ :=
      exists_rereadMembers_of_nesting_le hordered.values hnumbers.values (Nat.le_sub_one_of_lt h)
    refine ⟨.object documents, ?_, ?_⟩
    · rw [reread, if_neg (by omega), hdocuments]
      rfl
    · show Json.object (Members.ofList (documents.map _)) = _
      rw [hroots, ofList_of_sorted hordered.sorted]

theorem exists_rereadItems_of_nesting_le {items : List Json} {room : Nat}
    (hordered : ∀ item ∈ items, item.Ordered)
    (hnumbers : ∀ item ∈ items, item.EachNumber Number.Rereads) (h : nestingItems items ≤ room) :
    ∃ documents, rereadItems room items = .ok documents ∧
      documents.map Document.root = items := by
  cases items with
  | nil => exact ⟨[], rfl, rfl⟩
  | cons item rest =>
    obtain ⟨hitem, hrest⟩ := Nat.max_le.1 h
    obtain ⟨document, hdocument, hroot⟩ := exists_reread_of_nesting_le
      (hordered item List.mem_cons_self) (hnumbers item List.mem_cons_self) hitem
    obtain ⟨documents, hdocuments, hroots⟩ := exists_rereadItems_of_nesting_le
      (fun other hother => hordered other (List.mem_cons_of_mem item hother))
      (fun other hother => hnumbers other (List.mem_cons_of_mem item hother)) hrest
    refine ⟨document :: documents, ?_, by rw [List.map_cons, hroot, hroots]⟩
    rw [rereadItems, hdocument, hdocuments]
    rfl

theorem exists_rereadMembers_of_nesting_le {members : List (String × Json)} {room : Nat}
    (hordered : ∀ member ∈ members, member.2.Ordered)
    (hnumbers : ∀ member ∈ members, member.2.EachNumber Number.Rereads)
    (h : nestingMembers members ≤ room) :
    ∃ documents, rereadMembers room members = .ok documents ∧
      documents.map (fun member => (member.1, member.2.root)) = members := by
  cases members with
  | nil => exact ⟨[], rfl, rfl⟩
  | cons member rest =>
    obtain ⟨key, value⟩ := member
    obtain ⟨hvalue, hrest⟩ := Nat.max_le.1 h
    obtain ⟨document, hdocument, hroot⟩ := exists_reread_of_nesting_le
      (hordered _ List.mem_cons_self) (hnumbers _ List.mem_cons_self) hvalue
    obtain ⟨documents, hdocuments, hroots⟩ := exists_rereadMembers_of_nesting_le
      (fun other hother => hordered other (List.mem_cons_of_mem _ hother))
      (fun other hother => hnumbers other (List.mem_cons_of_mem _ hother)) hrest
    refine ⟨(key, document) :: documents, ?_, by rw [List.map_cons, hroot, hroots]⟩
    rw [rereadMembers, hdocument, hdocuments]
    rfl

end

mutual

/-- A value that is nested too deeply is refused for that, and for nothing
else: what comes before the first container that is too deep can be read. -/
theorem reread_of_lt_nesting {value : Json} {room : Nat} (hordered : value.Ordered)
    (hnumbers : value.EachNumber Number.Rereads) (h : room < value.nesting) :
    value.reread room = .error .nestingLimit := by
  cases value with
  | null => exact absurd h (Nat.not_lt_zero _)
  | bool value => exact absurd h (Nat.not_lt_zero _)
  | string value => exact absurd h (Nat.not_lt_zero _)
  | number number => exact absurd h (Nat.not_lt_zero _)
  | array items =>
    rw [nesting] at h
    rw [reread]
    split
    · rfl
    · rw [rereadItems_of_lt_nesting hordered.items hnumbers.items (by omega)]
      rfl
  | object members =>
    rw [nesting] at h
    rw [reread]
    split
    · rfl
    · rw [rereadMembers_of_lt_nesting hordered.values hnumbers.values (by omega)]
      rfl

theorem rereadItems_of_lt_nesting {items : List Json} {room : Nat}
    (hordered : ∀ item ∈ items, item.Ordered)
    (hnumbers : ∀ item ∈ items, item.EachNumber Number.Rereads) (h : room < nestingItems items) :
    rereadItems room items = .error .nestingLimit := by
  cases items with
  | nil => exact absurd h (Nat.not_lt_zero _)
  | cons item rest =>
    have hfirst := hordered item List.mem_cons_self
    have hfirstNumbers := hnumbers item List.mem_cons_self
    rcases Nat.lt_or_ge room item.nesting with hdeep | hflat
    · rw [rereadItems, reread_of_lt_nesting hfirst hfirstNumbers hdeep]
      rfl
    · obtain ⟨document, hdocument, -⟩ := exists_reread_of_nesting_le hfirst hfirstNumbers hflat
      have hrest : room < nestingItems rest :=
        Nat.not_le.1 fun hle => Nat.not_le.2 h (Nat.max_le.2 ⟨hflat, hle⟩)
      rw [rereadItems, hdocument, rereadItems_of_lt_nesting
        (fun other hother => hordered other (List.mem_cons_of_mem item hother))
        (fun other hother => hnumbers other (List.mem_cons_of_mem item hother)) hrest]
      rfl

theorem rereadMembers_of_lt_nesting {members : List (String × Json)} {room : Nat}
    (hordered : ∀ member ∈ members, member.2.Ordered)
    (hnumbers : ∀ member ∈ members, member.2.EachNumber Number.Rereads)
    (h : room < nestingMembers members) :
    rereadMembers room members = .error .nestingLimit := by
  cases members with
  | nil => exact absurd h (Nat.not_lt_zero _)
  | cons member rest =>
    obtain ⟨key, value⟩ := member
    have hfirst := hordered _ List.mem_cons_self
    have hfirstNumbers := hnumbers _ List.mem_cons_self
    rcases Nat.lt_or_ge room value.nesting with hdeep | hflat
    · rw [rereadMembers, reread_of_lt_nesting hfirst hfirstNumbers hdeep]
      rfl
    · obtain ⟨document, hdocument, -⟩ := exists_reread_of_nesting_le hfirst hfirstNumbers hflat
      have hrest : room < nestingMembers rest :=
        Nat.not_le.1 fun hle => Nat.not_le.2 h (Nat.max_le.2 ⟨hflat, hle⟩)
      rw [rereadMembers, hdocument, rereadMembers_of_lt_nesting
        (fun other hother => hordered other (List.mem_cons_of_mem _ hother))
        (fun other hother => hnumbers other (List.mem_cons_of_mem _ hother)) hrest]
      rfl

end

end Json

/-! ## Whole texts -/

namespace Document

open Json Json.Reader

theorem reread_of_nesting_le {document : Document} {room : Nat}
    (hnumbers : document.root.EachNumber Number.Rereads) (h : document.root.nesting ≤ room) :
    document.root.reread room = .ok document := by
  obtain ⟨again, hagain, hroot⟩ := exists_reread_of_nesting_le document.ordered hnumbers h
  rw [hagain, ext_root hroot]

theorem ends_blanks {blanks : List Char} (h : ∀ c ∈ blanks, isBlank c = true) :
    Numeral.Ends blanks := by
  intro c hc
  have hblank := h c (List.mem_of_mem_head? hc)
  simp only [isBlank, Bool.or_eq_true, beq_iff_eq] at hblank
  rcases hblank with ((rfl | rfl) | rfl) | rfl <;> decide

/-- The text of a document, in either layout and with blanks behind it, is read
as what comes of the document. -/
theorem ofTextWithin_text (limit : Nat) (document : Document) (layout : Layout)
    {blanks : List Char} (hreadable : document.root.EachNumber Number.Readable)
    (hblanks : ∀ c ∈ blanks, isBlank c = true) :
    (ofTextWithin limit (document.text layout ++ String.ofList blanks)).mapError ReadError.cause =
      document.root.reread (limit - 1) := by
  have hchars : (document.text layout ++ String.ofList blanks).toList
      = document.root.render layout 0 blanks := by
    rw [String.toList_append, text, String.toList_ofList, String.toList_ofList, ← render_append]
    rfl
  have hscan : Token.scan blanks = [] := by
    rw [← List.append_nil blanks, Token.scan_blanks hblanks, Token.scan]
  calc
    (ofTextWithin limit (document.text layout ++ String.ofList blanks)).mapError ReadError.cause
    _ = outcome limit ⟨.value, []⟩ (Token.scan (document.root.render layout 0 blanks)) := by
      rw [ofTextWithin, hchars, outcome]
      cases run limit ⟨.value, []⟩ (Token.scan (document.root.render layout 0 blanks)) <;> rfl
    _ = (document.root.reread (limit - 1)).bind fun again =>
          outcome limit (deliver again []) (Token.scan blanks) :=
      outcome_render layout 0 document.root hreadable _ [] awaits_value blanks
        (ends_blanks hblanks)
    _ = document.root.reread (limit - 1) := by
      rw [hscan]
      cases document.root.reread (limit - 1) <;> rfl

/-- A document whose numbers are read from their texts comes back from its text
if it is nested less deeply than a reader follows it. -/
theorem ofText_text {document : Document} (layout : Layout) {blanks : List Char}
    (hnumbers : document.root.EachNumber Number.Rereads)
    (hblanks : ∀ c ∈ blanks, isBlank c = true) (h : document.root.nesting < nestingLimit) :
    ofText (document.text layout ++ String.ofList blanks) = .ok document := by
  have hread := ofTextWithin_text nestingLimit document layout
    (hnumbers.imp fun _ => Number.Rereads.readable) hblanks
  rw [reread_of_nesting_le hnumbers (Nat.le_sub_one_of_lt h)] at hread
  rw [ofText]
  cases hresult : ofTextWithin nestingLimit (document.text layout ++ String.ofList blanks) with
  | ok again =>
    rw [hresult] at hread
    exact congrArg Except.ok (Except.ok.inj hread)
  | error fault =>
    rw [hresult] at hread
    cases hread

theorem ofText_of_text_eq {document : Document} {layout : Layout} {written : String}
    (htext : document.text layout = written)
    (hnumbers : document.root.EachNumber Number.Rereads)
    (h : document.root.nesting < nestingLimit) : ofText written = .ok document := by
  have hblanks : ∀ c ∈ ([] : List Char), isBlank c = true := fun _ hc => absurd hc List.not_mem_nil
  have hread := ofText_text layout hnumbers hblanks h
  rw [htext, String.ofList_nil, String.append_empty] at hread
  exact hread

/-- A document that is nested more deeply than a reader follows it is refused
for that. -/
theorem ofText_text_of_le_nesting {document : Document} (layout : Layout) {blanks : List Char}
    (hnumbers : document.root.EachNumber Number.Rereads)
    (hblanks : ∀ c ∈ blanks, isBlank c = true) (h : nestingLimit ≤ document.root.nesting) :
    ∃ fault, ofText (document.text layout ++ String.ofList blanks) = .error fault ∧
      fault.cause = .nestingLimit := by
  have hread := ofTextWithin_text nestingLimit document layout
    (hnumbers.imp fun _ => Number.Rereads.readable) hblanks
  rw [reread_of_lt_nesting document.ordered hnumbers
    (Nat.lt_of_lt_of_le (Nat.sub_one_lt (by decide)) h)] at hread
  rw [ofText]
  cases hresult : ofTextWithin nestingLimit (document.text layout ++ String.ofList blanks) with
  | ok again =>
    rw [hresult] at hread
    cases hread
  | error fault =>
    rw [hresult] at hread
    exact ⟨fault, rfl, Except.error.inj hread⟩

end Document

end Dotted
