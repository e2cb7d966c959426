import Dotted.Proofs.Effects
import Mathlib.Data.Option.Basic

/-!
# Worlds that hold the same documents

A command sees of a file only the document in it, or that there is none.  Two
trees are alike if they have files and directories at the same places, and the
files at a place hold the same document or hold none.  What is done in alike
worlds fails in both or succeeds in both, and leaves alike worlds behind.

* `documentOf` is the document that bytes hold, and `FileTree.Alike` compares
  trees by it.
* Names lead to the same places in alike trees (`FileTree.Alike.resolve_eq`).
  Trees stay alike when contents with the same document are written
  (`FileTree.Alike.write`).
* `Agree` says of two steps of a run that they agree in alike worlds.
  `Agree.bind` puts steps together, and the lemmas behind it are about the steps
  that commands are made of.
-/

namespace Dotted.Command

/-- The document that bytes hold, if they hold one. -/
def documentOf (bytes : ByteArray) : Option Document :=
  (textOfBytes bytes).toOption.bind fun text => (Document.ofText text).toOption

/-- Files hold the same document, or both hold none; directories are all
alike. -/
inductive Entry.Alike : Entry → Entry → Prop
  | file {contents other : ByteArray} (h : documentOf contents = documentOf other) :
      Entry.Alike (.file contents) (.file other)
  | directory : Entry.Alike .directory .directory

namespace FileTree

/-! ## Trees -/

/-- The trees have alike entries at the same places. -/
def Alike (tree other : FileTree) : Prop :=
  ∀ place, Option.Rel Entry.Alike (tree.entry? place) (other.entry? place)

variable {tree other : FileTree} {name : String} {place : Place} {contents bytes : ByteArray}

theorem Alike.refl (tree : FileTree) : tree.Alike tree := by
  intro place
  cases tree.entry? place with
  | none => exact .none
  | some entry =>
    cases entry with
    | file contents => exact .some (.file rfl)
    | directory => exact .some .directory

theorem Alike.enter_eq (h : tree.Alike other) : tree.enter = other.enter := by
  funext place component
  have hplace := h place
  unfold enter
  generalize tree.entry? place = found at hplace
  generalize other.entry? place = there at hplace
  cases hplace with
  | none => rfl
  | some hentry => cases hentry <;> rfl

/-- Names lead to the same places. -/
theorem Alike.resolve_eq (h : tree.Alike other) (name : String) (components : List String) :
    tree.resolve name components = other.resolve name components := by
  unfold resolve
  rw [h.enter_eq]

/-- A file is read in both trees, with the same document, or in neither. -/
theorem Alike.documentOf_read (h : tree.Alike other) (name : String) :
    (tree.read name).toOption.bind documentOf = (other.read name).toOption.bind documentOf := by
  unfold read
  rw [h.resolve_eq]
  cases other.resolve name (components name) with
  | error reason => rfl
  | ok place =>
    have hplace := h place
    simp only [bind, Except.bind]
    generalize tree.entry? place = found at hplace
    generalize other.entry? place = there at hplace
    cases hplace with
    | none => rfl
    | some hentry =>
      cases hentry with
      | file hsame => exact hsame
      | directory => rfl

theorem Alike.put (h : tree.Alike other) (hway : tree.OnTheWay place)
    (hother : other.OnTheWay place) (hplace : place.isRootOrAbove = false)
    (hsame : documentOf contents = documentOf bytes) :
    (tree.put place contents).Alike (other.put place bytes) := by
  intro here
  by_cases heq : here = place
  · subst heq
    rw [found_put_self hplace, found_put_self hplace]
    exact .some (.file hsame)
  · rw [found_put_of_ne hway heq, found_put_of_ne hother heq]
    exact h here

/-- Contents with the same document are written to both trees or to neither. -/
theorem Alike.write (h : tree.Alike other) (hsame : documentOf contents = documentOf bytes)
    (name : String) :
    Option.Rel Alike (tree.write name contents).toOption (other.write name bytes).toOption := by
  obtain ⟨parents, last, hsplit⟩ : ∃ parents last, splitName name = (parents, last) :=
    ⟨_, _, rfl⟩
  unfold FileTree.write
  rw [hsplit]
  dsimp only
  rw [h.resolve_eq, h.enter_eq]
  cases hparents : other.resolve name parents with
  | error reason => exact .none
  | ok directory =>
    simp only [bind, Except.bind]
    cases henter : other.enter directory last with
    | error reason => exact .none
    | ok place =>
      dsimp only
      split
      · exact .none
      · have hresolve := resolve_concat hparents henter
        have hway := onTheWay_of_resolve hresolve
        have hway' := onTheWay_of_resolve ((h.resolve_eq name _).trans hresolve)
        have hput : other.entry? place ≠ some .directory →
            (tree.put place contents).Alike (other.put place bytes) := by
          intro hentry
          refine h.put hway' hway ?_ hsame
          rw [Bool.eq_false_iff]
          exact fun hroot => hentry (found_at_root hroot)
        have hplace := h place
        generalize tree.entry? place = found at hplace
        generalize other.entry? place = there at hplace hput
        cases hplace with
        | none => exact .some (hput nofun)
        | some hentry =>
          cases hentry with
          | file _ => exact .some (hput nofun)
          | directory => exact .none

end FileTree

open World

variable {world other : World} {α β γ δ : Type}

/-! ## Related results -/

theorem rel_eq_refl (result : Option α) : Option.Rel Eq result result := by
  cases result with
  | none => exact .none
  | some value => exact .some rfl

theorem isSome_eq_of_rel {related : α → β → Prop} {result : Option α} {there : Option β}
    (h : Option.Rel related result there) : result.isSome = there.isSome := by
  cases h <;> rfl

theorem eq_of_rel {related : α → α → Prop} {result there : Option α}
    (h : Option.Rel related result there)
    (heq : ∀ value other, related value other → value = other) : result = there := by
  cases h with
  | none => rfl
  | some hrelated => rw [heq _ _ hrelated]

/-- Either both have failed, or both have succeeded with related results. -/
theorem cases_of_rel_toOption {ε ζ : Type} {related : α → β → Prop} {result : Except ε α}
    {there : Except ζ β} (h : Option.Rel related result.toOption there.toOption) :
    (∃ error reason, result = .error error ∧ there = .error reason) ∨
      ∃ value other, result = .ok value ∧ there = .ok other ∧ related value other := by
  cases result with
  | error error =>
    cases there with
    | error reason => exact .inl ⟨error, reason, rfl, rfl⟩
    | ok other => cases h
  | ok value =>
    cases there with
    | error reason => cases h
    | ok other =>
      cases h with
      | some hrelated => exact .inr ⟨value, other, rfl, rfl, hrelated⟩

/-! ## Steps in alike worlds -/

/-- Alike files, and the same standard input. -/
structure World.Alike (world other : World) : Prop where
  files : world.files.Alike other.files
  input_eq : world.input = other.input

theorem World.Alike.noted (h : world.Alike other) (notes more : List Note) :
    (world.noted notes).Alike (other.noted more) := ⟨h.files, h.input_eq⟩

/-- In alike worlds both steps fail, or both succeed with related results, and
the worlds are alike afterwards. -/
def Agree (related : α → β → Prop) (step : Step (StateM World) α)
    (counterpart : Step (StateM World) β) : Prop :=
  ∀ world other : World, world.Alike other →
    Option.Rel related (world.perform step).1.toOption (other.perform counterpart).1.toOption ∧
      (world.perform step).2.Alike (other.perform counterpart).2

theorem Agree.bind {related : α → β → Prop} {final : γ → δ → Prop} {step : Step (StateM World) α}
    {counterpart : Step (StateM World) β} {next : α → Step (StateM World) γ}
    {nextThere : β → Step (StateM World) δ} (h : Agree related step counterpart)
    (hnext : ∀ value there, related value there → Agree final (next value) (nextThere there)) :
    Agree final (step >>= next) (counterpart >>= nextThere) := by
  intro world other halike
  obtain ⟨hresult, hafter⟩ := h world other halike
  rw [perform_bind, perform_bind]
  generalize world.perform step = ran at hresult hafter
  generalize other.perform counterpart = ranThere at hresult hafter
  obtain ⟨result, after⟩ := ran
  obtain ⟨resultThere, afterThere⟩ := ranThere
  obtain ⟨error, reason, rfl, rfl⟩ | ⟨value, there, rfl, rfl, hrelated⟩ :=
    cases_of_rel_toOption hresult
  · exact ⟨.none, hafter⟩
  · exact hnext value there hrelated after afterThere hafter

/-- If the results are the same, both go on with the same value. -/
theorem Agree.bind_eq {final : γ → δ → Prop} {step counterpart : Step (StateM World) α}
    {next : α → Step (StateM World) γ} {nextThere : α → Step (StateM World) δ}
    (h : Agree Eq step counterpart) (hnext : ∀ value, Agree final (next value) (nextThere value)) :
    Agree final (step >>= next) (counterpart >>= nextThere) :=
  h.bind fun value _ heq => heq ▸ hnext value

theorem Agree.mono {related weaker : α → β → Prop} {step : Step (StateM World) α}
    {counterpart : Step (StateM World) β} (h : Agree related step counterpart)
    (hweaker : ∀ value there, related value there → weaker value there) :
    Agree weaker step counterpart := by
  intro world other halike
  obtain ⟨hresult, hafter⟩ := h world other halike
  refine ⟨?_, hafter⟩
  generalize (world.perform step).1.toOption = result at hresult ⊢
  generalize (other.perform counterpart).1.toOption = there at hresult ⊢
  cases hresult with
  | none => exact .none
  | some hrelated => exact .some (hweaker _ _ hrelated)

theorem agree_pure {related : α → β → Prop} {value : α} {there : β} (h : related value there) :
    Agree related (pure value) (pure there) := fun _ _ halike => ⟨.some h, halike⟩

theorem agree_throw (related : α → β → Prop) (error reason : RunError) :
    Agree related (throw error) (throw reason) := fun _ _ halike => ⟨.none, halike⟩

theorem agree_liftExcept (result : Except RunError α) :
    Agree Eq (liftM result : Step (StateM World) α) (liftM result) := by
  intro world other halike
  rw [perform_liftExcept, perform_liftExcept]
  exact ⟨rel_eq_refl _, halike⟩

theorem agree_report (logged : Logged α) : Agree Eq (host.report logged) (host.report logged) := by
  intro world other halike
  rw [perform_report, perform_report]
  exact ⟨.some rfl, halike.noted _ _⟩

theorem agree_note (note : Note) :
    Agree Eq (liftM (host.note note) : Step (StateM World) Unit) (liftM (host.note note)) :=
  fun _ _ halike => ⟨.some rfl, halike.noted _ _⟩

/-- What is read of a source is the document that it holds. -/
theorem toOption_perform_readDocument (source : Source) (world : World) :
    (world.perform (host.readDocument source)).1.toOption =
      (source.contents world.files world.input).toOption.bind documentOf := by
  rw [perform_readDocument, Source.text]
  cases source.contents world.files world.input with
  | error reason => rfl
  | ok bytes =>
    show _ = documentOf bytes
    rw [documentOf]
    simp only [Except.bind]
    cases textOfBytes bytes with
    | error reason => rfl
    | ok text =>
      show ((Document.ofText text).mapError RunError.malformedDocument).toOption
        = (Document.ofText text).toOption
      cases Document.ofText text <;> rfl

theorem agree_readDocument (source : Source) :
    Agree Eq (host.readDocument source) (host.readDocument source) := by
  intro world other halike
  have hcontents : (source.contents world.files world.input).toOption.bind documentOf =
      (source.contents other.files other.input).toOption.bind documentOf := by
    cases source with
    | standardInput => exact congrArg documentOf halike.input_eq
    | file name => exact halike.files.documentOf_read name
  refine ⟨?_, ?_⟩
  · rw [toOption_perform_readDocument, toOption_perform_readDocument, hcontents]
    exact rel_eq_refl _
  · rw [perform_readDocument, perform_readDocument]
    cases source.text world.files world.input <;> cases source.text other.files other.input <;>
      exact ⟨halike.files, halike.input_eq⟩

/-- Texts with the same document are delivered to the same place. -/
theorem agree_deliver {text there : String} (file : Option String)
    (h : documentOf text.toUTF8 = documentOf there.toUTF8) :
    Agree (fun output printed => text = there → output = printed) (host.deliver file text)
      (host.deliver file there) := by
  intro world other halike
  rw [perform_deliver, perform_deliver]
  cases file with
  | none => exact ⟨.some id, halike⟩
  | some name =>
    dsimp only
    obtain ⟨error, reason, hwrite, hthere⟩ | ⟨files, filesThere, hwrite, hthere, hfiles⟩ :=
      cases_of_rel_toOption (halike.files.write h name)
    · rw [hwrite, hthere]
      exact ⟨.none, halike⟩
    · rw [hwrite, hthere]
      exact ⟨.some fun _ => rfl, hfiles, halike.input_eq⟩

end Dotted.Command
