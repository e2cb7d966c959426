import Dotted.Command.Arguments

/-!
# The layout option on a command line

`--pretty` can be added in front of a command line, or behind its subcommand.  If
that does not give the option twice, the command line is read as before: it asks
for the same task, or it cannot be read in either form.

* `Arguments.withPretty` is a state of reading with the option added, and
  `Arguments.Added` compares what comes of a state with what comes of the state
  with the option.  There is one lemma for each part of `Arguments.read`, and
  `added_read` is about a whole argument.
* `Invocation.KeepsTask` compares whole command lines, by induction on what is
  read before the subcommand (`ofRest_withPretty`, `ofRest_behind`).
* `taskOf_of_prettyAdded` puts this together.
-/

namespace Dotted.Command

namespace Arguments

/-- The same with `--pretty`, given before all other options. -/
def withPretty (arguments : Arguments) : Arguments :=
  { arguments with options := (.pretty, none) :: arguments.options }

variable (arguments : Arguments)

theorem has_withPretty (opt : Opt) (hopt : opt ≠ .pretty) :
    arguments.withPretty.has opt = arguments.has opt := by
  simp [has, withPretty, hopt.symm]

@[simp] theorem operands_withPretty : arguments.withPretty.operands = arguments.operands := rfl

@[simp] theorem pending_withPretty : arguments.withPretty.pending = arguments.pending := rfl

@[simp] theorem operandsOnly_withPretty :
    arguments.withPretty.operandsOnly = arguments.operandsOnly := rfl

theorem has_pretty_withPretty : arguments.withPretty.has .pretty = true := by
  simp [has, withPretty]

theorem value?_withPretty (opt : Opt) (hopt : opt ≠ .pretty) :
    arguments.withPretty.value? opt = arguments.value? opt := by
  simp [value?, withPretty, List.lookup_cons, beq_false_of_ne hopt]

theorem asksHelp_withPretty : arguments.withPretty.asksHelp = arguments.asksHelp :=
  arguments.has_withPretty .help nofun

theorem conflict?_withPretty : arguments.withPretty.conflict? = arguments.conflict? := by
  unfold conflict?
  rw [arguments.has_withPretty .output nofun, arguments.has_withPretty .inPlace nofun]
  rfl

theorem task?_withPretty (verb : Verb) :
    arguments.withPretty.task? verb = arguments.task? verb := by
  have hsource : arguments.withPretty.source = arguments.source := by
    unfold source
    rw [arguments.value?_withPretty .input nofun]
  have htarget : arguments.withPretty.target = arguments.target := by
    unfold target
    rw [arguments.has_withPretty .inPlace nofun, arguments.value?_withPretty .output nofun]
  unfold task?
  rw [hsource, htarget, arguments.value?_withPretty .kind nofun,
    arguments.has_withPretty .string nofun, arguments.has_withPretty .json nofun]
  rfl

/-! ## Reading with the option added -/

/-- With the option added the same is read, or the option is given twice. -/
inductive Added : Except UsageError Arguments → Except UsageError Arguments → Prop
  | repeated (result : Except UsageError Arguments) : Added result (.error (.repeated .pretty))
  | error (error : UsageError) : Added (.error error) (.error error)
  | ok (arguments : Arguments) : Added (.ok arguments) (.ok arguments.withPretty)

theorem Added.bind {result more : Except UsageError Arguments}
    {next nextMore : Arguments → Except UsageError Arguments} (h : Added result more)
    (hnext : ∀ arguments, Added (next arguments) (nextMore arguments.withPretty)) :
    Added (result >>= next) (more >>= nextMore) := by
  cases h with
  | repeated => exact .repeated _
  | error error => exact .error error
  | ok arguments => exact hnext arguments

theorem added_give (opt : Opt) (value : Option String) :
    Added (arguments.give opt value) (arguments.withPretty.give opt value) := by
  by_cases hopt : opt = .pretty
  · subst hopt
    unfold give
    rw [has_pretty_withPretty]
    exact .repeated _
  · unfold give
    rw [has_withPretty arguments opt hopt]
    dsimp only
    split
    · exact .error _
    · split
      · exact .error _
      · exact .error _
      · split
        · exact .ok _
        · exact .error _
      · exact .ok _

theorem added_settle : Added arguments.settle arguments.withPretty.settle := by
  obtain ⟨options, pending, operands, operandsOnly⟩ := arguments
  match pending with
  | none => exact .ok _
  | some (opt, none) => exact .error _
  | some (opt, some value) =>
    exact added_give ⟨options, none, operands, operandsOnly⟩ opt (some value)

theorem added_settleThen (opt : Opt) (value : Option String) :
    Added (arguments.settleThen opt value) (arguments.withPretty.settleThen opt value) :=
  (added_settle arguments).bind fun settled => added_give settled opt value

theorem added_await (opt : Opt) : Added (arguments.await opt) (arguments.withPretty.await opt) :=
  (added_settle arguments).bind fun _ => .ok _

theorem added_readLong (known : List Opt) (text : List Char) :
    Added (readLong known arguments text) (readLong known arguments.withPretty text) := by
  unfold readLong
  dsimp only
  split
  · exact .error _
  · split
    · exact added_await _ _
    · exact added_settleThen _ _ _
  · split
    · exact added_settleThen _ _ _
    · exact .error _

theorem added_readShort (known : List Opt) (letters : List Char) :
    Added (readShort known arguments letters) (readShort known arguments.withPretty letters) := by
  induction letters generalizing arguments with
  | nil => exact .ok _
  | cons letter rest ih =>
    rw [readShort, readShort]
    cases known.find? fun opt => opt.short? = some letter with
    | none => exact .error _
    | some opt =>
      dsimp only
      split
      · split
        · exact added_await _ _
        · exact added_settleThen _ _ _
        · exact added_settleThen _ _ _
      · have hsettled := added_settleThen arguments opt none
        generalize arguments.settleThen opt none = result at hsettled ⊢
        generalize arguments.withPretty.settleThen opt none = more at hsettled ⊢
        cases hsettled with
        | repeated => exact .repeated _
        | error error => exact .error error
        | ok settled =>
          dsimp only
          rw [asksHelp_withPretty]
          split
          · exact .ok _
          · exact ih settled

theorem added_readOperand (count : Nat) (argument : String) :
    Added (readOperand count arguments argument)
      (readOperand count arguments.withPretty argument) := by
  unfold readOperand
  rw [operands_withPretty]
  split
  · exact (added_settle arguments).bind fun _ => .ok _
  · exact .error _

theorem added_readPlain (count : Nat) (argument : String) :
    Added (readPlain count arguments argument)
      (readPlain count arguments.withPretty argument) := by
  unfold readPlain
  rw [pending_withPretty]
  split
  · exact .ok _
  · exact added_readOperand _ _ _

theorem added_read (known : List Opt) (count : Nat) (argument : String) :
    Added (read known count arguments argument)
      (read known count arguments.withPretty argument) := by
  unfold read
  rw [asksHelp_withPretty, operandsOnly_withPretty]
  split
  · exact .ok _
  · split
    · exact added_readOperand _ _ _
    · split
      · exact .ok _
      · exact added_readLong _ _ _
      · exact added_readShort _ _ _
      · exact added_readPlain _ _ _

/-- What one argument keeps, all arguments keep. -/
theorem added_foldlM_read (known : List Opt) (count : Nat) (rest : List String) :
    Added (rest.foldlM (read known count) arguments)
      (rest.foldlM (read known count) arguments.withPretty) := by
  induction rest generalizing arguments with
  | nil => exact .ok _
  | cons argument rest ih =>
    rw [List.foldlM_cons, List.foldlM_cons]
    exact (added_read arguments known count argument).bind fun read => ih read

theorem added_readAll (verb : Verb) (rest : List String) :
    Added (readAll verb rest) (readAll verb ("--pretty" :: rest)) := by
  have hpretty : empty.read (Opt.ofVerb verb) verb.operandCount "--pretty" =
      .ok empty.withPretty := by
    cases verb <;> rfl
  unfold readAll
  rw [List.foldlM_cons, hpretty]
  exact (added_foldlM_read empty _ _ rest).bind added_settle

end Arguments

/-! ## Whole command lines -/

namespace Invocation

open Arguments

/-- What a command line asks for, if it can be read. -/
def taskOf (result : Except UsageError Invocation) : Option Task :=
  result.toOption.map Invocation.task

/-- The same task, or none, or the option is given twice. -/
def KeepsTask (result more : Except UsageError Invocation) : Prop :=
  more = .error (.repeated .pretty) ∨ taskOf more = taskOf result

theorem keepsTask_refl (result : Except UsageError Invocation) : KeepsTask result result := .inr rfl

theorem ofSubcommand_pretty (before : Arguments) (verb : Verb) (rest : List String) :
    KeepsTask (ofSubcommand before verb rest) (ofSubcommand before verb ("--pretty" :: rest)) := by
  unfold ofSubcommand
  have hread := added_readAll verb rest
  generalize readAll verb rest = result at hread ⊢
  generalize readAll verb ("--pretty" :: rest) = more at hread ⊢
  cases hread with
  | repeated => exact .inl rfl
  | error error => exact keepsTask_refl _
  | ok read =>
    refine .inr ?_
    simp only [bind, Except.bind, asksHelp_withPretty, conflict?_withPretty, task?_withPretty]
    split
    · rfl
    · split <;> rfl

theorem ofSubcommand_withPretty (before : Arguments) (verb : Verb) (rest : List String) :
    KeepsTask (ofSubcommand before verb rest) (ofSubcommand before.withPretty verb rest) := by
  refine .inr ?_
  unfold ofSubcommand
  cases readAll verb rest with
  | error error => rfl
  | ok read =>
    simp only [bind, Except.bind]
    split
    · rfl
    · split <;> rfl

theorem ofRest_withPretty (before : Arguments) (rest : List String) :
    KeepsTask (ofRest before rest) (ofRest before.withPretty rest) := by
  induction rest generalizing before with
  | nil => exact .inr rfl
  | cons argument rest ih =>
    rw [ofRest, ofRest, operandsOnly_withPretty]
    split
    · exact keepsTask_refl _
    · split
      · exact keepsTask_refl _
      · cases Verb.ofName? argument with
        | some verb => exact ofSubcommand_withPretty before verb rest
        | none =>
          dsimp only
          split
          · exact keepsTask_refl _
          · have hread := added_read before Opt.shared 0 argument
            generalize before.read Opt.shared 0 argument = result at hread ⊢
            generalize before.withPretty.read Opt.shared 0 argument = more at hread ⊢
            cases hread with
            | repeated => exact .inl rfl
            | error error => exact keepsTask_refl _
            | ok read =>
              dsimp only
              rw [asksHelp_withPretty]
              split
              · exact keepsTask_refl _
              · exact ih read

theorem head?_ne_hyphen_of_ofName? {name : String} {verb : Verb}
    (h : Verb.ofName? name = some verb) : name.toList.head? ≠ some '-' := by
  unfold Verb.ofName? at h
  split at h
  · next hget =>
    subst hget
    decide
  · split at h
    · next hset =>
      subst hset
      decide
    · split at h
      · next hpaths =>
        subst hpaths
        decide
      · cases h

theorem ofRest_behind {before : Arguments} {options rest : List String} {name : String}
    {verb : Verb} (hoptions : ∀ option ∈ options, option.toList.head? = some '-')
    (hname : Verb.ofName? name = some verb) :
    KeepsTask (ofRest before (options ++ name :: rest))
      (ofRest before (options ++ name :: "--pretty" :: rest)) := by
  induction options generalizing before with
  | nil =>
    rw [List.nil_append, List.nil_append, ofRest, ofRest, hname]
    split
    · exact keepsTask_refl _
    · split
      · next hhelp =>
        subst hhelp
        cases hname
      · exact ofSubcommand_pretty before verb rest
  | cons option options ih =>
    -- what starts with a hyphen stands for no subcommand
    obtain ⟨hoption, hfurther⟩ := List.forall_mem_cons.1 hoptions
    rw [List.cons_append, List.cons_append, ofRest, ofRest]
    split
    · exact keepsTask_refl _
    · split
      · next hhelp =>
        subst hhelp
        cases hoption
      · cases hverb : Verb.ofName? option with
        | some other => exact absurd hoption (head?_ne_hyphen_of_ofName? hverb)
        | none =>
          dsimp only
          split
          · exact keepsTask_refl _
          · cases before.read Opt.shared 0 option with
            | error error => exact keepsTask_refl _
            | ok read =>
              dsimp only
              split
              · exact keepsTask_refl _
              · exact ih hfurther

/-- The places where the option can be added to a command line: in front, and
behind the subcommand if only options stand before that. -/
inductive PrettyAdded : List String → List String → Prop
  | front (arguments : List String) : PrettyAdded arguments ("--pretty" :: arguments)
  | behind {options : List String} {name : String} {verb : Verb} (rest : List String)
      (hoptions : ∀ option ∈ options, option.toList.head? = some '-')
      (hname : Verb.ofName? name = some verb) :
      PrettyAdded (options ++ name :: rest) (options ++ name :: "--pretty" :: rest)

/-- A command line keeps its task when the option is added, or cannot be read
without the option either. -/
theorem taskOf_of_prettyAdded {arguments more : List String} (h : PrettyAdded arguments more)
    (honce : ofArguments more ≠ .error (.repeated .pretty)) :
    taskOf (ofArguments more) = taskOf (ofArguments arguments) := by
  have hkeeps : KeepsTask (ofArguments arguments) (ofArguments more) := by
    cases h with
    | front =>
      have hread : ofArguments ("--pretty" :: arguments) = ofRest empty.withPretty arguments := rfl
      rw [hread]
      exact ofRest_withPretty .empty arguments
    | behind rest hoptions hname => exact ofRest_behind hoptions hname
  exact hkeeps.resolve_left honce

end Invocation

end Dotted.Command
